import Beat.Lib.Instant
import Beat.Lib.Run
import Mathlib.Data.List.Nodup

/-!
# The schedule of server probes

`networkquality.Runner.schedule`: one loop that takes refreshes of the tasks, ticks and completions. The
state of a key holds whether its probe runs and when the next one is due; a refresh that does not list the
key forgets both, so a key that comes back is probed at once, next to a probe that still runs. A refresh
that gives a key a longer interval leaves the time that the shorter one has set.

* `RunnerOk`: the invariant of the runs in which a key comes back only when its last probe is over and its
  interval has passed, and no interval grows while a probe is awaited (`RunnerState.careful`).
* `one_probe_in_flight`: in these runs, one probe of a key at a time, the interval of the task between
  them, and each with the task and target of the last refresh.
-/

namespace Beat.NetworkQuality

open List Instant Lts

structure NetworkTarget where
  nodeID : String
  host : String
  port : Int
  deriving DecidableEq

/-- What the schedule reads of `model.ServerNetworkTask`; `spec` is what only the probe reads. -/
structure ServerNetworkTask where
  id : String
  intervalSeconds : Int
  spec : String
  targets : List NetworkTarget
  deriving DecidableEq

structure ServerProbeState where
  task : ServerNetworkTask
  target : NetworkTarget
  next : Int
  running : Bool := false

structure ServerProbeJob where
  key : String
  task : ServerNetworkTask
  target : NetworkTarget
  deriving DecidableEq

abbrev States := String → Option ServerProbeState

def probeKey (task : ServerNetworkTask) (target : NetworkTarget) : String := task.id ++ "\x00" ++ target.nodeID

/-- The jobs that the tasks list. -/
def listed (tasks : List ServerNetworkTask) : List ServerProbeJob :=
  tasks.flatMap fun task => task.targets.map fun target => ⟨probeKey task target, task, target⟩

/-- The state of a listed key after a refresh. -/
def merged (current : States) (now : Int) (job : ServerProbeJob) : ServerProbeState :=
  match current job.key with
  | some state => { state with task := job.task, target := job.target }
  | none => { task := job.task, target := job.target, next := now }

def mergeServerTasks (current : States) (tasks : List ServerNetworkTask) (now : Int) : States :=
  (listed tasks).foldl (fun (next : States) job => Function.update next job.key (some (merged current now job)))
    fun _ => none

/-- The scheduler, the jobs whose completion it has not received, and for each key the finish of its last
probe. -/
structure RunnerState where
  states : States := fun _ => none
  tasks : List ServerNetworkTask := []
  inFlight : List ServerProbeJob := []
  finish : String → Option Int := fun _ => none

/-- A tick comes with the keys that it sends: how many fit into the channel depends on the workers. A
completion comes with the job that it is of. -/
inductive RunnerEvent where
  | refresh (tasks : List ServerNetworkTask) (now : Int)
  | completion (job : ServerProbeJob) (finished : Int)
  | tick (now : Int) (sent : List String)

/-- `enqueueDueServerProbes` may send the key. -/
def due (states : States) (now : Int) (key : String) : Bool :=
  (states key).any fun state => !state.running && state.next ≤ now

def sentJobs (states : States) (sent : List String) : List ServerProbeJob :=
  sent.filterMap fun key => (states key).map fun state => ⟨key, state.task, state.target⟩

/-- One turn of the loop of `schedule`. -/
def RunnerState.step (s : RunnerState) : RunnerEvent → Option RunnerState
  | .refresh tasks now => some { s with states := mergeServerTasks s.states tasks now, tasks }
  | .completion job finished =>
    if job ∈ s.inFlight then
      some { s with
        states := Function.update s.states job.key ((s.states job.key).map fun state =>
          { state with running := false, next := finished + state.task.intervalSeconds * second })
        inFlight := s.inFlight.erase job
        finish := Function.update s.finish job.key (some finished) }
    else none
  | .tick now sent =>
    if sent.Nodup ∧ ∀ key ∈ sent, due s.states now key then
      some { s with
        states := fun key => (s.states key).map fun state => { state with running := state.running || key ∈ sent }
        inFlight := s.inFlight ++ sentJobs s.states sent }
    else none

def ScheduleStep (s : RunnerState) (e : RunnerEvent) (s' : RunnerState) : Prop := s.step e = some s'

/-- The interval of the task has passed at `now` since the last probe of the key. -/
def RunnerState.rested (s : RunnerState) (key : String) (task : ServerNetworkTask) (now : Int) : Bool :=
  (s.finish key).all fun finished => finished + task.intervalSeconds * second ≤ now

/-- A key that comes back has no probe in flight, and the interval after its last probe is over. A key that
waits for its next probe gets no interval that ends after the time that is set for it. -/
def RunnerState.careful (s : RunnerState) : RunnerEvent → Bool
  | .refresh tasks now => (listed tasks).all fun job =>
      match s.states job.key with
      | some state => state.running || s.rested job.key job.task state.next
      | none => s.inFlight.all (·.key ≠ job.key) && s.rested job.key job.task now
  | _ => true

/-! ## Careful runs -/

section runs

variable {current : States} {tasks : List ServerNetworkTask} {now : Int} {key : String} {state : ServerProbeState}
  {s s' : RunnerState}

theorem mem_merge (h : mergeServerTasks current tasks now key = some state) :
    ∃ job ∈ listed tasks, job.key = key ∧ state = merged current now job := by
  unfold mergeServerTasks at h
  generalize listed tasks = jobs at h
  induction jobs using reverseRecOn with
  | nil => cases h
  | append_singleton jobs job ih =>
    rw [foldl_append, foldl_cons, foldl_nil] at h
    by_cases hkey : key = job.key
    · subst hkey
      rw [Function.update_self, Option.some.injEq] at h
      exact ⟨job, by simp, rfl, h.symm⟩
    · rw [Function.update_of_ne hkey] at h
      obtain ⟨job', hmem, h⟩ := ih h
      exact ⟨job', mem_append_left _ hmem, h⟩

structure RunnerOk (s : RunnerState) : Prop where
  once : (s.inFlight.map (·.key)).Nodup
  running : ∀ key state, s.states key = some state → (state.running = true ↔ ∃ job ∈ s.inFlight, job.key = key)
  rests : ∀ key state, s.states key = some state → state.running = false → s.rested key state.task state.next = true
  current : ∀ key state, s.states key = some state → ⟨key, state.task, state.target⟩ ∈ listed s.tasks

theorem RunnerOk.refresh (h : RunnerOk s) (hcare : s.careful (.refresh tasks now) = true) :
    RunnerOk { s with states := mergeServerTasks s.states tasks now, tasks } := by
  simp only [RunnerState.careful, all_eq_true] at hcare
  refine ⟨h.once, fun key state hst => ?_, fun key state hst hrun => ?_, fun key state hst => ?_⟩
  all_goals
    obtain ⟨job, hjob, rfl, rfl⟩ := mem_merge hst
    have hjobcare := hcare job hjob
    unfold merged at *
  · cases hold : s.states job.key with
    | some old => exact h.running _ old hold
    | none =>
      rw [hold] at hjobcare
      simpa using (Bool.and_eq_true_iff.mp hjobcare).1
  · cases hold : s.states job.key with
    | some old =>
      rw [hold] at hrun hjobcare
      exact (Bool.or_eq_true_iff.mp hjobcare).resolve_left (Bool.eq_false_iff.mp hrun)
    | none =>
      rw [hold] at hjobcare
      exact (Bool.and_eq_true_iff.mp hjobcare).2
  · cases s.states job.key <;> exact hjob

theorem RunnerOk.completion {job : ServerProbeJob} {finished : Int} (h : RunnerOk s)
    (hst : s.step (.completion job finished) = some s') : RunnerOk s' := by
  simp only [RunnerState.step, Option.ite_none_right_eq_some, Option.some.injEq] at hst
  obtain ⟨hjob, rfl⟩ := hst
  have hmem : ∀ {x}, x ∈ s.inFlight.erase job ↔ x ∈ s.inFlight ∧ x.key ≠ job.key := fun {x} => by
    rw [(Nodup.of_map _ h.once).mem_erase_iff, and_comm]
    exact and_congr_right fun hx => not_congr ⟨congrArg _, inj_on_of_nodup_map h.once hx hjob⟩
  -- the state of the key is rewritten, if there is one, and the others stay
  refine ⟨h.once.sublist ((erase_sublist ..).map _), fun key state hst => ?_, fun key state hst hrun => ?_,
    fun key state hst => ?_⟩
  all_goals
    simp only [RunnerState.rested, Function.update_apply] at *
    split at hst
  · subst_vars
    obtain ⟨old, -, rfl⟩ := Option.map_eq_some_iff.mp hst
    simp [hmem]
  · rename_i hkey
    rw [h.running key state hst]
    exact exists_congr fun x => ⟨fun hx => ⟨hmem.mpr ⟨hx.1, hx.2 ▸ hkey⟩, hx.2⟩, fun hx => ⟨(hmem.mp hx.1).1, hx.2⟩⟩
  · rename_i hkey
    obtain ⟨old, -, rfl⟩ := Option.map_eq_some_iff.mp hst
    simp [hkey]
  · rename_i hkey
    rw [if_neg hkey]
    exact h.rests key state hst hrun
  · subst_vars
    obtain ⟨old, hold, rfl⟩ := Option.map_eq_some_iff.mp hst
    exact h.current _ old hold
  · exact h.current key state hst

/-- What a tick sends. -/
theorem RunnerOk.sent {sent : List String} (h : RunnerOk s) (hdue : ∀ key ∈ sent, due s.states now key = true) :
    (sentJobs s.states sent).map (·.key) = sent ∧ ∀ job ∈ sentJobs s.states sent, job ∈ listed s.tasks ∧
      (∀ x ∈ s.inFlight, x.key ≠ job.key) ∧ s.rested job.key job.task now = true := by
  have hstate : ∀ key ∈ sent, ∃ state, s.states key = some state ∧ state.running = false ∧ state.next ≤ now := by
    simpa [due, Option.any_eq_true] using hdue
  constructor
  · conv_rhs => rw [← filterMap_some (l := sent)]
    rw [sentJobs, map_filterMap]
    refine filterMap_congr fun key hkey => ?_
    obtain ⟨state, hstate, -⟩ := hstate key hkey
    simp [hstate]
  · intro job hjob
    obtain ⟨key, hkey, hjob⟩ := mem_filterMap.mp hjob
    obtain ⟨state, hst, rfl⟩ := Option.map_eq_some_iff.mp hjob
    obtain ⟨_, hst', hrun, hnext⟩ := hstate key hkey
    cases hst.symm.trans hst'
    refine ⟨h.current key state hst, fun x hx hxk => ?_, ?_⟩
    · rw [(h.running key state hst).mpr ⟨x, hx, hxk⟩] at hrun
      cases hrun
    · have hrested := h.rests key state hst hrun
      simp only [RunnerState.rested, Option.all_eq_true, decide_eq_true_eq] at hrested ⊢
      exact fun t ht => (hrested t ht).trans hnext

theorem RunnerOk.tick {sent : List String} (h : RunnerOk s) (hnodup : sent.Nodup)
    (hdue : ∀ key ∈ sent, due s.states now key = true) : RunnerOk { s with
      states := fun key => (s.states key).map fun state => { state with running := state.running || key ∈ sent }
      inFlight := s.inFlight ++ sentJobs s.states sent } := by
  obtain ⟨hkeys, hjobs⟩ := h.sent hdue
  refine ⟨?_, fun key state hst => ?_, fun key state hst hrun => ?_, fun key state hst => ?_⟩
  · rw [map_append, hkeys]
    refine h.once.append hnodup (disjoint_left.mpr fun key hkey hsent => ?_)
    obtain ⟨x, hx, rfl⟩ := mem_map.mp hkey
    obtain ⟨job, hjob, hk⟩ := mem_map.mp (hkeys ▸ hsent)
    exact (hjobs job hjob).2.1 x hx hk.symm
  all_goals obtain ⟨old, hold, rfl⟩ := Option.map_eq_some_iff.mp hst
  · have hsent : key ∈ sent ↔ ∃ job ∈ sentJobs s.states sent, job.key = key := by
      rw [← mem_map, hkeys]
    simp only [Bool.or_eq_true, h.running key old hold, decide_eq_true_eq, hsent, mem_append, or_and_right, exists_or]
  · simp only [Bool.or_eq_false_iff] at hrun
    exact h.rests key old hold hrun.1
  · exact h.current key old hold

/-- In every run of careful steps, a key has one probe in flight at most; each probe that a tick sends has a
task and target of the last refresh, and starts when the interval of this task has passed since the finish of
the last probe of its key. -/
theorem one_probe_in_flight {es : List RunnerEvent}
    (hrun : Run (fun s e s' => ScheduleStep s e s' ∧ s.careful e = true) {} es s) :
    (s.inFlight.map (·.key)).Nodup ∧ ∀ now sent s', s.step (.tick now sent) = some s' →
      ∃ jobs, s'.inFlight = s.inFlight ++ jobs ∧ jobs.map (·.key) = sent ∧
        ∀ job ∈ jobs, job ∈ listed s.tasks ∧ ∀ finished, s.finish job.key = some finished →
          finished + job.task.intervalSeconds * second ≤ now := by
  have hok : RunnerOk s := hrun.inv ⟨nodup_nil, fun _ _ h => (by cases h), fun _ _ h => (by cases h),
      fun _ _ h => (by cases h)⟩ fun s e s' hok hst => by
    obtain ⟨hst, hcare⟩ := hst
    cases e with
    | refresh tasks now =>
      cases hst
      exact hok.refresh hcare
    | completion job finished => exact hok.completion hst
    | tick now sent =>
      simp only [ScheduleStep, RunnerState.step, Option.ite_none_right_eq_some, Option.some.injEq] at hst
      obtain ⟨⟨hnodup, hdue⟩, rfl⟩ := hst
      exact hok.tick hnodup hdue
  refine ⟨hok.once, fun now sent s' hst => ?_⟩
  simp only [RunnerState.step, Option.ite_none_right_eq_some, Option.some.injEq] at hst
  obtain ⟨⟨-, hdue⟩, rfl⟩ := hst
  obtain ⟨hkeys, hjobs⟩ := hok.sent hdue
  refine ⟨_, rfl, hkeys, fun job hjob => ⟨(hjobs job hjob).1, fun finished hfinished => ?_⟩⟩
  exact of_decide_eq_true (Option.all_eq_true .. |>.mp (hjobs job hjob).2.2 finished hfinished)

end runs

def sampleTask (interval : Int) : ServerNetworkTask := ⟨"task", interval, "tcp", [⟨"node", "host", 22⟩]⟩

def sampleJob : ServerProbeJob := ⟨"task\x00node", sampleTask 60, ⟨"node", "host", 22⟩⟩

/-- A key that leaves and comes back while its probe runs has two probes in flight; one that comes back
after its probe is probed again before its interval is over, and so is one whose interval grows. -/
theorem probe_started_early : (∃ s, Run ScheduleStep {} [.refresh [sampleTask 60] 0,
      .tick 0 ["task\x00node"], .refresh [] 1, .refresh [sampleTask 60] 2, .tick 2 ["task\x00node"]] s ∧
      s.inFlight = [sampleJob, sampleJob]) ∧
    (∃ s, Run ScheduleStep {} [.refresh [sampleTask 60] 0, .tick 0 ["task\x00node"],
      .completion sampleJob 0, .refresh [] 1, .refresh [sampleTask 60] 2] s ∧
      s.finish "task\x00node" = some 0 ∧ (s.step (.tick 2 ["task\x00node"])).isSome) ∧
    ∃ s, Run ScheduleStep {} [.refresh [sampleTask 60] 0, .tick 0 ["task\x00node"],
      .completion sampleJob 0, .refresh [sampleTask 600] 1] s ∧ s.finish "task\x00node" = some 0 ∧
      (s.step (.tick (60 * second) ["task\x00node"])).any fun s' => s'.inFlight.map (·.task) = [sampleTask 600] :=
  ⟨Run.computed _ (fun _ _ _ h => h) (by decide +kernel), Run.computed _ (fun _ _ _ h => h) (by decide +kernel),
    Run.computed _ (fun _ _ _ h => h) (by decide +kernel)⟩

/-- A probe, a task that leaves and comes back with a shorter interval when the longer one is over, and the next
probe. -/
theorem one_probe_in_flight_sample : ∃ s s' : RunnerState,
    Run (fun s e s' => ScheduleStep s e s' ∧ s.careful e = true) {}
      [.refresh [sampleTask 60] 0, .tick 0 ["task\x00node"], .refresh [sampleTask 30] 1, .completion sampleJob second,
        .refresh [] (2 * second), .refresh [sampleTask 20] (31 * second)] s ∧
      s.step (.tick (31 * second) ["task\x00node"]) = some s' ∧
      ∃ job ∈ s'.inFlight, job ∈ listed s.tasks ∧ s.finish job.key = some second ∧
        second + job.task.intervalSeconds * second ≤ 31 * second := by
  obtain ⟨s, hrun, hsome, hfinish⟩ : ∃ s, Run (fun s e s' => ScheduleStep s e s' ∧ s.careful e = true) {}
      [.refresh [sampleTask 60] 0, .tick 0 ["task\x00node"], .refresh [sampleTask 30] 1, .completion sampleJob second,
        .refresh [] (2 * second), .refresh [sampleTask 20] (31 * second)] s ∧
      (s.step (.tick (31 * second) ["task\x00node"])).isSome ∧ s.finish "task\x00node" = some second :=
    Run.computed (fun s e => if s.careful e then s.step e else none)
      (fun _ _ _ h => (Option.ite_none_right_eq_some.mp h).symm) (by decide +kernel)
  obtain ⟨s', hst⟩ := Option.isSome_iff_exists.mp hsome
  obtain ⟨jobs, hjobs, hkeys, hall⟩ := (one_probe_in_flight hrun).2 _ _ s' hst
  obtain ⟨job, rfl, hkey⟩ := map_eq_singleton_iff.mp hkeys
  obtain ⟨hlisted, hrested⟩ := hall job mem_cons_self
  have hfinished : s.finish job.key = some second := hkey ▸ hfinish
  exact ⟨s, s', hrun, hst, job, by rw [hjobs]; simp, hlisted, hfinished, hrested _ hfinished⟩

end Beat.NetworkQuality
