import Beat.Lib.Fallible
import Beat.Lib.Instant
import Beat.Lib.Run
import Mathlib.Data.List.Nodup

/-!
# Periodic jobs with a cursor

A job has a row with its configuration and the time of its next run. A call reads the row while the
job is due, prepares the message without a lock, and then takes the key of the period and moves the
cursor in one transaction. A key that was taken before is answered as a duplicate, and the cursor stays;
a row that has changed since it was read is left alone. An update replaces the configuration and sets the
cursor from its own clock.

* `RunExit`, `runScheduled_exit`: the ways a call can end.
* `stuck`: a job whose present key was taken stays where it is.
* `nodup_step`: no key is taken twice, whatever the updates do.
* `Lawful`: what a job has to satisfy: its runs have keys that do not come back, and a later run than
  the present one always exists.
* `Moving`, `moving_run`: along updates that leave the keys taken so far behind (`Careful`), all keys
  taken are in the past of the cursor.
* `Moving.run_moves`: then no call that returns without an error leaves the cursor where it was.
* `Moving.run_queues`: and an undisturbed call on a due job takes a new key.
-/

namespace Periodic

open Fallible Option Lts

structure Row (C K : Type) where
  config : C
  enabled : Bool
  nextRunAt : Int
  lastKey : Option K
  updatedAt : Int

/-- A call that has found the row due. -/
structure Call (C K : Type) where
  row : Row C K
  now : Int

structure World (C K : Type) where
  row : Row C K
  /-- The keys taken so far. -/
  sent : List K := []
  call : Option (Call C K) := none
  clock : Int

inductive Outcome where
  | queued
  | duplicate
  | skipped
  deriving DecidableEq

structure Job (C K E : Type) where
  nextRun : C → Int → Except E Int
  key : C → Int → Except E K
  /-- The time after which the next run is sought, from the time of the run and the clock. -/
  reference : Int → Int → Int
  /-- The part of the transaction that moves the cursor; `none` if the row is not the one read. -/
  complete : Row C K → Call C K → K → Int → Except E (Option (Row C K))
  /-- The configuration that an update stores. -/
  accept : C → Except E C
  /-- What the transaction of an update does after it has written the row; an error takes the row back. -/
  replaceScopes : C → Except E Unit

inductive Event (C E : Type) where
  | listDue (now : Int)
  /-- The call goes on to its end, or to an error. -/
  | run (fault : Option E)
  /-- `now` is the clock from which the next run is computed, `stamp` that of the transaction. -/
  | update (config : C) (enabled : Bool) (now stamp : Int) (fault : Option E)

variable {C K E : Type} [DecidableEq K]

namespace Job

variable (job : Job C K E) (w : World C K)

def runScheduled (call : Call C K) (fault : Option E) : Except E Outcome × World C K :=
  match job.key call.row.config call.row.nextRunAt with
  | .error e => (.error e, w)
  | .ok key =>
    match job.nextRun call.row.config (job.reference call.row.nextRunAt call.now) with
    | .error e => (.error e, w)
    | .ok next =>
      match fault with
      | some e => (.error e, w)
      | none =>
        if key ∈ w.sent then (.ok .duplicate, w)
        else
          match job.complete w.row call key next with
          | .error e => (.error e, w)
          | .ok none => (.ok .skipped, w)
          | .ok (some row) => (.ok .queued, { w with row := row, sent := w.sent ++ [key] })

def update (config : C) (enabled : Bool) (now stamp : Int) : Except E (World C K) := do
  let config ← job.accept config
  let next ← job.nextRun config now
  job.replaceScopes config
  .ok { w with
    row := { w.row with config := config, enabled := enabled, nextRunAt := next, updatedAt := stamp }
    clock := stamp }

/-- A new job. -/
def create (config : C) (enabled : Bool) (now stamp : Int) : Except E (World C K) := do
  let config ← job.accept config
  let next ← job.nextRun config now
  .ok { row := ⟨config, enabled, next, none, stamp⟩, clock := stamp }

def next : Event C E → Option (World C K)
  | .listDue now =>
    if w.call.isNone ∧ w.clock ≤ now then
      some { w with
        clock := now
        call := if w.row.enabled ∧ w.row.nextRunAt ≤ now then some ⟨w.row, now⟩ else none }
    else none
  | .run fault => w.call.map fun call => { (job.runScheduled w call fault).2 with call := none }
  | .update config enabled now stamp fault =>
    if w.clock ≤ stamp ∧ now ≤ stamp then
      match fault, job.update w config enabled now stamp with
      | none, .ok w' => some w'
      | _, _ => some { w with clock := stamp }
    else none

def Step (e : Event C E) (w' : World C K) : Prop := job.next w e = some w'

/-! ## The ways a call can end -/

inductive RunExit (w : World C K) (call : Call C K) : Except E Outcome → World C K → Prop
  | failed {e} : RunExit w call (.error e) w
  | duplicate {key} (hkey : job.key call.row.config call.row.nextRunAt = .ok key) (hmem : key ∈ w.sent) :
      RunExit w call (.ok .duplicate) w
  | skipped {key next} (hkey : job.key call.row.config call.row.nextRunAt = .ok key)
      (hnext : job.nextRun call.row.config (job.reference call.row.nextRunAt call.now) = .ok next)
      (hnew : key ∉ w.sent) (hcomplete : job.complete w.row call key next = .ok none) :
      RunExit w call (.ok .skipped) w
  | queued {key next row} (hkey : job.key call.row.config call.row.nextRunAt = .ok key)
      (hnext : job.nextRun call.row.config (job.reference call.row.nextRunAt call.now) = .ok next)
      (hnew : key ∉ w.sent) (hcomplete : job.complete w.row call key next = .ok (some row)) :
      RunExit w call (.ok .queued) { w with row := row, sent := w.sent ++ [key] }

variable {job}

variable {w w' : World C K} {now : Int} {config : C}

theorem runScheduled_exit {call : Call C K} {fault : Option E} {r : Except E Outcome}
    (h : job.runScheduled w call fault = (r, w')) : RunExit job w call r w' := by
  unfold runScheduled at h
  split at h
  · cases h
    exact .failed
  · rename_i key hkey
    split at h
    · cases h
      exact .failed
    · rename_i next hnext
      split at h
      · cases h
        exact .failed
      · split at h
        · rename_i hmem
          cases h
          exact .duplicate hkey hmem
        · rename_i hnew
          split at h
          · cases h
            exact .failed
          · rename_i hcomplete
            cases h
            exact .skipped hkey hnext hnew hcomplete
          · rename_i row hcomplete
            cases h
            exact .queued hkey hnext hnew hcomplete

/-- An update either does nothing but take time, or stores a configuration that it has accepted. -/
theorem update_exit {enabled : Bool} {stamp : Int} {fault : Option E}
    (h : job.Step w (.update config enabled now stamp fault) w') : w.clock ≤ stamp ∧ (w' = { w with clock := stamp } ∨
      ∃ config' next, job.accept config = .ok config' ∧ job.nextRun config' now = .ok next ∧
        job.replaceScopes config' = .ok () ∧ w' = { w with
          row := { w.row with config := config', enabled := enabled, nextRunAt := next, updatedAt := stamp }
          clock := stamp }) := by
  simp only [Step, Job.next, ite_none_right_eq_some] at h
  obtain ⟨⟨hclock, -⟩, h⟩ := h
  refine ⟨hclock, ?_⟩
  split at h
  · rename_i w₁ hup
    cases h
    obtain ⟨config', haccept, hup⟩ := bind_eq_ok hup
    obtain ⟨next, hnext, hup⟩ := bind_eq_ok hup
    obtain ⟨⟨⟩, hscopes, hup⟩ := bind_eq_ok hup
    cases hup
    exact .inr ⟨config', next, haccept, hnext, hscopes, rfl⟩
  · cases h
    exact .inl rfl

/-- A call on a due job, from its start to its end. -/
theorem runFn_due (hcall : w.call = none) (hen : w.row.enabled = true) (hclock : w.clock ≤ now)
    (hdue : w.row.nextRunAt ≤ now) : runFn job.next w [.listDue now, .run none] = some
      { (job.runScheduled { w with clock := now, call := some ⟨w.row, now⟩ } ⟨w.row, now⟩ none).2 with
        call := none } := by
  simp only [runFn, Job.next, hcall, isNone_none, hclock, and_self, if_true, hen, hdue, bind_some, map_some]

variable (job) in
/-- After these events every later call returns without an error, and nothing moves. -/
def Stuck (config : C) (created : Int) (es : List (Event C E)) : Prop :=
  ∃ w₀ w, job.create config true created created = .ok w₀ ∧ Run job.Step w₀ es w ∧
    ∀ now, w.clock ≤ now → w.row.nextRunAt ≤ now →
      (job.runScheduled { w with clock := now, call := some ⟨w.row, now⟩ } ⟨w.row, now⟩ none).1 =
          .ok .duplicate ∧
        runFn job.next w [.listDue now, .run none] = some { w with clock := now }

/-- The present key of the last state was taken, and its configuration is one that can go on. -/
theorem Stuck.of_key {created : Int} {es : List (Event C E)} (goesOn : C → Bool)
    (h : ((job.create config true created created).toOption.bind fun w₀ => runFn job.next w₀ es).any
      (fun w => w.call.isNone ∧ w.row.enabled = true ∧ goesOn w.row.config = true ∧
        (job.key w.row.config w.row.nextRunAt).toOption.any (· ∈ w.sent)) = true)
    (hnext : ∀ c t now key, goesOn c = true → job.key c t = .ok key →
      ∃ next, job.nextRun c (job.reference t now) = .ok next) : job.Stuck config created es := by
  obtain ⟨w, hw, hfacts⟩ := any_eq_true _ _ |>.mp h
  obtain ⟨w₀, hcreate, hrun⟩ := bind_eq_some_iff.mp hw
  simp only [decide_eq_true_eq] at hfacts
  obtain ⟨hcall, hen, hgoes, hkey⟩ := hfacts
  obtain ⟨key, hk, hmem⟩ := any_eq_true _ _ |>.mp hkey
  have hk := toOption_eq_some.mp hk
  refine ⟨w₀, w, toOption_eq_some.mp hcreate, Run.ofFn (fun _ _ _ hs => hs) hrun, fun now hclock hdue => ?_⟩
  obtain ⟨next, hn⟩ := hnext _ _ now key hgoes hk
  have hcall := isNone_iff_eq_none.mp hcall
  rw [runFn_due hcall hen hclock hdue]
  simp only [Job.runScheduled, hk, hn, of_decide_eq_true hmem, if_true, hcall, and_self]

/-- A key is taken once. -/
theorem nodup_step {e : Event C E} (h : w.sent.Nodup) (hs : job.Step w e w') : w'.sent.Nodup := by
  cases e with
  | listDue now =>
    simp only [Step, Job.next, ite_none_right_eq_some, some.injEq] at hs
    rw [← hs.2]
    exact h
  | run fault =>
    obtain ⟨call, -, rfl⟩ := map_eq_some_iff.mp hs
    generalize hr : job.runScheduled w call fault = r
    obtain ⟨result, w'⟩ := r
    cases runScheduled_exit hr with
    | failed | duplicate | skipped => exact h
    | queued _ _ hnew _ =>
      exact List.nodup_append_comm.mp (List.nodup_cons.mpr ⟨hnew, h⟩)
  | update =>
    obtain ⟨-, rfl | ⟨_, _, -, -, -, rfl⟩⟩ := update_exit hs <;> exact h

omit [DecidableEq K] in
theorem create_sent {enabled : Bool} {stamp : Int} (h : job.create config enabled now stamp = .ok w) :
    w.sent = [] := by
  obtain ⟨_, -, h⟩ := bind_eq_ok h
  obtain ⟨_, -, h⟩ := bind_eq_ok h
  cases h
  rfl

end Job

/-! ## Jobs whose keys do not come back -/

section Laws

variable (job : Job C K E) (Settled : C → Int → Prop) (RunTime : C → Int → Prop) (Past : C → Int → K → Prop)

/-- `RunTime c t`: the configuration `c` has a run at `t`. `Past c t k`: no run of `c` from `t` on has the
key `k`. `Settled c now`: the runs of `c` that an update at `now` starts are in order. -/
structure Lawful : Prop where
  reference : ∀ t now, t ≤ now → t ≤ job.reference t now ∧ job.reference t now ≤ now
  first : ∀ c₀ c now t, job.accept c₀ = .ok c → Settled c now → job.nextRun c now = .ok t →
    RunTime c t ∧ now < t
  key : ∀ c t, RunTime c t → ∃ k, job.key c t = .ok k ∧ ¬ Past c t k
  next : ∀ c t now, RunTime c t → t ≤ now →
    ∃ t', job.nextRun c (job.reference t now) = .ok t' ∧ RunTime c t' ∧ job.reference t now < t'
  past_key : ∀ c t t' k, RunTime c t → RunTime c t' → t < t' → job.key c t = .ok k → Past c t' k
  past_mono : ∀ c t t' k, RunTime c t → RunTime c t' → t < t' → Past c t k → Past c t' k
  complete_some : ∀ row call k t row', job.complete row call k t = .ok (some row') →
    row.nextRunAt = call.row.nextRunAt ∧
      row' = { row with nextRunAt := t, lastKey := some k, updatedAt := call.now }
  complete_self : ∀ call k t, call.row.enabled = true → call.row.nextRunAt ≤ call.now →
    call.row.lastKey ≠ some k → call.row.nextRunAt < t →
    Instant.isZero call.now = true ∧ (∃ e, job.complete call.row call k t = .error e) ∨
      job.complete call.row call k t =
        .ok (some { call.row with nextRunAt := t, lastKey := some k, updatedAt := call.now })

/-- An update that is not taken back reads a clock that no call has passed, its runs are in order, and the keys taken
so far are in the past of the first of them. -/
def Careful (w : World C K) : Event C E → Prop
  | .listDue _ | .run _ => True
  | .update config _ now _ _ => ∀ config' t, job.accept config = .ok config' → job.nextRun config' now = .ok t →
      job.replaceScopes config' = .ok () → w.clock ≤ now ∧ Settled config' now ∧ ∀ k ∈ w.sent, Past config' t k

def CarefulStep (w : World C K) (e : Event C E) (w' : World C K) : Prop :=
  job.Step w e w' ∧ Careful job Settled Past w e

/-- All keys taken are in the past of the cursor, and a call works on the present row, or on one that an
update has replaced since. -/
structure Moving (w : World C K) : Prop where
  run : RunTime w.row.config w.row.nextRunAt
  past : ∀ k ∈ w.sent, Past w.row.config w.row.nextRunAt k
  last : ∀ k, w.row.lastKey = some k → k ∈ w.sent
  call : ∀ call, w.call = some call → call.row.enabled = true ∧ call.row.nextRunAt ≤ call.now ∧
    call.now ≤ w.clock ∧ (w.row = call.row ∨ call.now < w.row.nextRunAt)

variable {job Settled RunTime Past}

variable {w : World C K}

omit [DecidableEq K] in
/-- What a call on the present row takes, and that it does not end as a duplicate or skipped. -/
theorem Moving.fresh (hl : Lawful job Settled RunTime Past) (h : Moving RunTime Past w) :
    ∃ key, job.key w.row.config w.row.nextRunAt = .ok key ∧ key ∉ w.sent ∧ w.row.lastKey ≠ some key := by
  obtain ⟨key, hkey, hnot⟩ := hl.key _ _ h.run
  have hnew : key ∉ w.sent := fun hmem => hnot (h.past key hmem)
  exact ⟨key, hkey, hnew, fun hlast => hnew (h.last key hlast)⟩

omit [DecidableEq K] in
theorem Moving.queued (hl : Lawful job Settled RunTime Past) (h : Moving RunTime Past w) {call : Call C K}
    {key : K} {next : Int} {row : Row C K} (hcall : w.call = some call)
    (hnext : job.nextRun call.row.config (job.reference call.row.nextRunAt call.now) = .ok next)
    (hcomplete : job.complete w.row call key next = .ok (some row)) :
    row = { w.row with nextRunAt := next, lastKey := some key, updatedAt := call.now } ∧ w.row = call.row ∧
      RunTime w.row.config next ∧ job.reference call.row.nextRunAt call.now < next := by
  obtain ⟨heq, hrow⟩ := hl.complete_some _ _ _ _ _ hcomplete
  obtain ⟨-, hdue, -, hcases⟩ := h.call call hcall
  -- a row that an update has replaced has a later cursor than the call has read
  have hsame : w.row = call.row := hcases.resolve_right (by omega)
  have hrun := h.run
  rw [hsame] at hrun ⊢
  obtain ⟨t, ht, hrt, hlt⟩ := hl.next _ _ _ hrun hdue
  obtain rfl : t = next := Except.ok.inj (ht.symm.trans hnext)
  exact ⟨hsame ▸ hrow, rfl, hrt, hlt⟩

theorem moving_step {w' : World C K} {e : Event C E} (hl : Lawful job Settled RunTime Past)
    (h : Moving RunTime Past w) (hs : CarefulStep job Settled Past w e w') : Moving RunTime Past w' := by
  obtain ⟨hstep, hcare⟩ := hs
  cases e with
  | listDue now =>
    simp only [Job.Step, Job.next, ite_none_right_eq_some, some.injEq] at hstep
    obtain ⟨-, rfl⟩ := hstep
    refine ⟨h.run, h.past, h.last, fun call hcall => ?_⟩
    simp only [ite_none_right_eq_some, some.injEq] at hcall
    obtain ⟨⟨hen, hdue⟩, rfl⟩ := hcall
    exact ⟨hen, hdue, le_refl _, .inl rfl⟩
  | run fault =>
    obtain ⟨call, hcall, rfl⟩ := map_eq_some_iff.mp hstep
    generalize hr : job.runScheduled w call fault = r
    obtain ⟨result, w'⟩ := r
    cases Job.runScheduled_exit hr with
    | failed | duplicate | skipped => exact ⟨h.run, h.past, h.last, fun _ hn => nomatch hn⟩
    | @queued key next _ hkey hnext hnew hcomplete =>
      obtain ⟨rfl, hsame, hrun, hlt⟩ := h.queued hl hcall hnext hcomplete
      have hdue := (h.call call hcall).2.1
      have hlater : w.row.nextRunAt < next := by
        rw [hsame]
        exact lt_of_le_of_lt (hl.reference _ _ hdue).1 hlt
      refine ⟨hrun, fun k hk => ?_, fun k hk => ?_, fun _ hn => nomatch hn⟩
      · rcases List.mem_append.mp hk with hk | hk
        · exact hl.past_mono _ _ _ _ h.run hrun hlater (h.past k hk)
        · rw [List.mem_singleton.mp hk]
          exact hl.past_key _ _ _ _ h.run hrun hlater (hsame ▸ hkey)
      · cases hk
        exact List.mem_concat_self
  | update config enabled now stamp fault =>
    obtain ⟨hclock, rfl | ⟨config', t, haccept, hnext, hscopes, rfl⟩⟩ := Job.update_exit hstep
    · refine ⟨h.run, h.past, h.last, fun call hcall => ?_⟩
      obtain ⟨hen, hdue, hle, hcases⟩ := h.call call hcall
      exact ⟨hen, hdue, by show call.now ≤ stamp; omega, hcases⟩
    · obtain ⟨hnow, hsettled, hpast⟩ := hcare config' t haccept hnext hscopes
      obtain ⟨hrun, hlt⟩ := hl.first _ _ _ _ haccept hsettled hnext
      refine ⟨hrun, hpast, h.last, fun call hcall => ?_⟩
      obtain ⟨hen, hdue, hle, -⟩ := h.call call hcall
      exact ⟨hen, hdue, by show call.now ≤ stamp; omega, .inr (by show call.now < t; omega)⟩

omit [DecidableEq K] in
theorem moving_create {config : C} {enabled : Bool} {now stamp : Int} (hl : Lawful job Settled RunTime Past)
    (h : job.create config enabled now stamp = .ok w)
    (hs : ∀ config', job.accept config = .ok config' → Settled config' now) : Moving RunTime Past w := by
  obtain ⟨config', haccept, h⟩ := bind_eq_ok h
  obtain ⟨next, hnext, h⟩ := bind_eq_ok h
  cases h
  exact ⟨(hl.first _ _ _ _ haccept (hs config' haccept) hnext).1, fun _ hk => (nomatch hk),
    fun _ hk => (nomatch hk), fun _ hcall => (nomatch hcall)⟩

/-- Along a careful run of a new job no key is taken twice, and the job keeps moving. -/
theorem moving_run {w₀ : World C K} {es : List (Event C E)} {config : C} {enabled : Bool} {now stamp : Int}
    {step : World C K → Event C E → World C K → Prop}
    (hcareful : ∀ w e w', step w e w' → CarefulStep job Settled Past w e w') (hl : Lawful job Settled RunTime Past) (hcreate : job.create config enabled now stamp = .ok w₀)
    (hsettled : ∀ config', job.accept config = .ok config' → Settled config' now)
    (h : Run step w₀ es w) : w.sent.Nodup ∧ Moving RunTime Past w := by
  refine h.inv (I := fun w => w.sent.Nodup ∧ Moving RunTime Past w) ⟨?_, moving_create hl hcreate hsettled⟩
    fun _ _ _ hi hs => ⟨Job.nodup_step hi.1 (hcareful _ _ _ hs).1, moving_step hl hi.2 (hcareful _ _ _ hs)⟩
  rw [Job.create_sent hcreate]
  exact List.nodup_nil

/-- A run of a new job whose steps pass a check, computed. -/
theorem checked_run {es : List (Event C E)} {config : C} {now : Int} {P : World C K → Call C K → Prop}
    {step : World C K → Event C E → World C K → Prop} (check : World C K → Event C E → Bool)
    (hcheck : ∀ w e w', check w e = true → job.Step w e w' → step w e w')
    (h : ((job.create config true now now).toOption.bind fun w₀ =>
      runFn (fun w e => if check w e then job.next w e else none) w₀ es).any (·.call.isSome) = true)
    (hP : ∀ w₀ w call, job.create config true now now = .ok w₀ → Run step w₀ es w → w.call = some call → P w call) :
    ∃ w₀ w, job.create config true now now = .ok w₀ ∧ Run step w₀ es w ∧ ∃ call, w.call = some call ∧ P w call := by
  obtain ⟨w, hw, hcall⟩ := any_eq_true _ _ |>.mp h
  obtain ⟨w₀, hcreate, hw⟩ := bind_eq_some_iff.mp hw
  obtain ⟨call, hcall⟩ := isSome_iff_exists.mp hcall
  have hcreate := toOption_eq_some.mp hcreate
  have hr : Run step w₀ es w := Run.ofFn (fun _ _ _ hs =>
    hcheck _ _ _ (ite_none_right_eq_some.mp hs).1 (ite_none_right_eq_some.mp hs).2) hw
  exact ⟨w₀, w, hcreate, hr, call, hcall, hP w₀ w call hcreate hr hcall⟩

/-- A call that returns without an error leaves the cursor after the time from which the next run was
sought. -/
theorem Moving.run_moves {w' : World C K} {call : Call C K} {fault : Option E} {outcome : Outcome}
    (hl : Lawful job Settled RunTime Past) (h : Moving RunTime Past w) (hcall : w.call = some call)
    (hr : job.runScheduled w call fault = (.ok outcome, w')) :
    job.reference call.row.nextRunAt call.now < w'.row.nextRunAt := by
  obtain ⟨hen, hdue, -, hcases⟩ := h.call call hcall
  have href := (hl.reference _ _ hdue).2
  -- the cursor has not moved: an update was in between, since the present row has a new key
  have hstay : (w.row = call.row → False) → job.reference call.row.nextRunAt call.now < w.row.nextRunAt := by
    intro hne
    have := hcases.resolve_left hne
    omega
  cases Job.runScheduled_exit hr with
  | duplicate hkey hmem =>
    refine hstay fun hsame => ?_
    obtain ⟨key, hfresh, hnew, -⟩ := h.fresh hl
    rw [hsame] at hfresh
    obtain rfl := Except.ok.inj (hfresh.symm.trans hkey)
    exact hnew hmem
  | skipped hkey hnext hnew hcomplete =>
    refine hstay fun hsame => ?_
    obtain ⟨key, hfresh, -, hlast⟩ := h.fresh hl
    have hrun := h.run
    rw [hsame] at hfresh hlast hrun hcomplete
    obtain rfl := Except.ok.inj (hfresh.symm.trans hkey)
    obtain ⟨t, ht, -, hlt⟩ := hl.next _ _ _ hrun hdue
    obtain rfl := Except.ok.inj (ht.symm.trans hnext)
    have := (hl.reference _ _ hdue).1
    rcases hl.complete_self call _ t hen hdue hlast (by omega) with ⟨-, e, he⟩ | hok
    · rw [he] at hcomplete
      cases hcomplete
    · rw [hok] at hcomplete
      cases hcomplete
  | queued hkey hnext hnew hcomplete =>
    obtain ⟨rfl, -, -, hlt⟩ := h.queued hl hcall hnext hcomplete
    exact hlt

/-- An undisturbed call on a due job takes the key of the present period, which is new, and sets the next
run. -/
theorem Moving.run_queues {now : Int} (hl : Lawful job Settled RunTime Past) (h : Moving RunTime Past w)
    (hcall : w.call = none) (hen : w.row.enabled = true) (hclock : w.clock ≤ now)
    (hdue : w.row.nextRunAt ≤ now) (hzero : Instant.isZero now = false) :
    ∃ key next, job.key w.row.config w.row.nextRunAt = .ok key ∧ key ∉ w.sent ∧
      job.nextRun w.row.config (job.reference w.row.nextRunAt now) = .ok next ∧
      job.reference w.row.nextRunAt now < next ∧ runFn job.next w [.listDue now, .run none] = some { w with
          row := { w.row with nextRunAt := next, lastKey := some key, updatedAt := now }
          sent := w.sent ++ [key]
          clock := now } := by
  obtain ⟨key, hkey, hnew, hlast⟩ := h.fresh hl
  obtain ⟨next, hnext, -, hlt⟩ := hl.next _ _ _ h.run hdue
  refine ⟨key, next, hkey, hnew, hnext, hlt, ?_⟩
  have hlater := lt_of_le_of_lt (hl.reference _ _ hdue).1 hlt
  have hcomplete := (hl.complete_self ⟨w.row, now⟩ key next hen hdue hlast hlater).resolve_left
    fun hz => by rw [hzero] at hz; cases hz.1
  rw [Job.runFn_due hcall hen hclock hdue]
  simp only [Job.runScheduled, hkey, hnext, hnew, if_false, hcomplete, hcall]

end Laws
end Periodic
