import Beat.Lib.Run
import Beat.Alert.Confirmation
import Beat.Alert.Coherence
import Beat.Alert.Health
import Beat.Alert.Protocol
import Beat.Lib.Series
import Beat.Traffic.Quota
import Beat.Ingest.Runs
import Beat.Erasure.Fencing
import Beat.Backup.LedgerRuns
import Beat.Backup.RestoreRuns
import Beat.Backup.ReconcileSettled
import Beat.Backup.StagingRuns
import Beat.Backup.UploadChunks
import Beat.Backup.UploadPublishRuns
import Beat.Secrets.RootRotationRuns
import Beat.Secrets.DataRotationRuns
import Beat.Report.TrafficReport
import Beat.Report.FleetSummary
import Beat.Lib.Zone
import Beat.Lib.Periodic
import Beat.Lib.Leases
import Beat.Notification.Queue
import Beat.Notification.QueueWrites
import Beat.Notification.QueueRuns
import Beat.Notification.Fifo
import Beat.Notification.Notices
import Beat.Ingress.InFlight
import Beat.Ingress.RateLimit
import Beat.Alert.Alternation
import Beat.AgentRollout.Model
import Beat.Alert.Policy
import Beat.AgentRollout.Service
import Beat.AgentRollout.Moves
import Beat.AgentRollout.Invariant
import Beat.AgentRollout.Resumption
import Beat.AgentRollout.Concurrency
import Beat.AgentRollout.Gating
import Beat.AgentRollout.Verdicts
import Beat.AdminAuth.LoginLimiter
import Beat.AdminAuth.Fingerprints
import Beat.Enrollment.Requests
import Beat.Alert.Suspension
import Beat.Traffic.ErasureBoundary
import Beat.Traffic.Replays
import Beat.Report.TrafficSchedule
import Beat.Alert.Rounds
import Beat.Report.SummarySchedule
import Beat.NetworkQuality.Runner
