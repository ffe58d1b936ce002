import Beat.Alert.Tables
import Beat.Lib.Run
import Mathlib.Data.List.Perm.Subperm
import Mathlib.Data.Prod.Lex
import Mathlib.Data.String.Basic

/-!
# Rounds of evaluations

`Scheduler.Round` asks its source for the pairs that are due, 256 at a time behind a cursor, and sends each batch to
its workers, which call `Evaluate`. They are done before the next batch is read, in whatever order they work.

* `checkOrder_iff`: what `validateDueBatch` accepts.
* `Ordered`: the order and the counts of what was admitted, after every turn.
* `Source.logged`: the source that keeps the calls of `Evaluate`, one for each pair that was sent (`Logged`).
* `Listing.turn`, `Listing.round`: a source that lists what is due is read to its end.
-/

namespace Beat.Alert

open List Instant

structure DuePair where
  ruleID : String
  nodeID : String
  deviceID : String
  dueAt : Int
  deriving DecidableEq

structure DueQuery where
  at_ : Int
  after : Option DuePair
  limit : Nat := batchSize

inductive RoundError
  | capacity | invalidObservation | context | source

/-- The error of `Evaluate`: none, `ErrConflict`, or another one. -/
inductive Outcome
  | completed | conflict | failed
  deriving DecidableEq

/-- `RoundSource`. An evaluation has an outcome and changes the state of the source. -/
structure Source (σ : Type) where
  due : σ → DueQuery → Except RoundError (List DuePair)
  evaluate : σ → DuePair → Outcome × σ

/-- The source with the list of the calls of `Evaluate` so far. -/
def Source.logged {σ : Type} (src : Source σ) : Source (σ × List DuePair) where
  due s := src.due s.1
  evaluate s pair := ((src.evaluate s.1 pair).1, (src.evaluate s.1 pair).2, s.2 ++ [pair])

structure RoundResult where
  completed : Nat := 0
  failed : Nat := 0
  admitted : Nat := 0
  oldestDueAge : Int := 0
  degraded : Bool := false

/-- The variables of `Round`, the state of the source, and what was sent on the channels `jobs`. -/
structure RoundState (σ : Type) where
  source : σ
  after : Option DuePair := none
  result : RoundResult := {}
  jobs : List DuePair := []

/-- What a turn of the round meets. -/
structure TurnEnv where
  /-- The number of sends before the end of the context, if it ends in the turn. -/
  cut : Option Nat := none
  /-- The order in which the evaluations of a batch take effect. -/
  order : List DuePair → List DuePair
  perm : ∀ pairs, order pairs ~ pairs

def duePairBefore (a b : DuePair) : Bool :=
  if a.dueAt ≠ b.dueAt then a.dueAt < b.dueAt
  else if a.ruleID ≠ b.ruleID then a.ruleID < b.ruleID
  else if a.nodeID ≠ b.nodeID then a.nodeID < b.nodeID
  else a.deviceID < b.deviceID

/-- The loop of `validateDueBatch`. -/
def checkOrder (at_ : Int) : Option DuePair → List DuePair → Except RoundError Unit
  | _, [] => .ok ()
  | previous, pair :: pairs =>
    if pair.ruleID = "" ∨ pair.nodeID = "" ∨ at_ < pair.dueAt then .error .invalidObservation
    else if previous.any (!duePairBefore · pair) then .error .invalidObservation
    else checkOrder at_ (some pair) pairs

def validateDueBatch (pairs : List DuePair) (query : DueQuery) : Except RoundError Unit :=
  if query.limit < pairs.length then .error .capacity else checkOrder query.at_ query.after pairs

section round

variable {σ : Type} (src : Source σ) (at_ : Int)

/-- A worker evaluates a pair that it received. -/
def work (s : RoundState σ) (pair : DuePair) : RoundState σ :=
  let (outcome, source) := src.evaluate s.source pair
  { s with
    source
    result :=
      match outcome with
      | .completed => { s.result with completed := s.result.completed + 1 }
      | .conflict => s.result
      | .failed => { s.result with failed := s.result.failed + 1 } }

/-- `evaluateBatch`. -/
def evaluateBatch (env : TurnEnv) (pairs : List DuePair) (s : RoundState σ) : RoundState σ :=
  let sent := env.cut.elim pairs pairs.take
  (env.order sent).foldl (work src)
    { s with
      jobs := s.jobs ++ sent
      result := { s.result with admitted := s.result.admitted + sent.length } }

/-- A turn of the loop of `Round`, which may end the round, with an error or with none. -/
def turn (env : TurnEnv) (s : RoundState σ) : Except (Option RoundError) (RoundState σ) :=
  match src.due s.source { at_, after := s.after } with
  | .error err => .error (some err)
  | .ok [] => .error none
  | .ok (first :: pairs) =>
    match validateDueBatch (first :: pairs) { at_, after := s.after } with
    | .error err => .error (some err)
    | .ok () =>
      let age := sub at_ first.dueAt
      .ok (evaluateBatch src env (first :: pairs)
        { s with
          after := (first :: pairs).getLast?
          result := if s.result.admitted = 0 then
            { s.result with oldestDueAge := age, degraded := maximumPollGap < age } else s.result })

/-- `Round`. The list has the turns that begin before the context ends. -/
def round : List TurnEnv → RoundState σ → RoundState σ × Option RoundError
  | [], s => (s, some .context)
  | env :: rest, s =>
    match turn src at_ env s with
    | .error err => (s, err)
    | .ok s' => if env.cut.isSome then (s', some .context) else round rest s'

end round

/-! ## The order -/

/-- The sort key of a pair. -/
def DuePair.key (p : DuePair) : Int ×ₗ String ×ₗ String ×ₗ String :=
  toLex (p.dueAt, toLex (p.ruleID, toLex (p.nodeID, p.deviceID)))

/-- A pair of a rule and a node, due at the time of the round. -/
def DuePair.IsDue (at_ : Int) (p : DuePair) : Prop := p.ruleID ≠ "" ∧ p.nodeID ≠ "" ∧ p.dueAt ≤ at_

theorem duePairBefore_iff {a b : DuePair} : duePairBefore a b = true ↔ a.key < b.key := by
  simp only [DuePair.key, Prod.Lex.toLex_lt_toLex, duePairBefore]
  grind

theorem checkOrder_iff {at_ : Int} {previous : Option DuePair} {pairs : List DuePair} :
    checkOrder at_ previous pairs = .ok () ↔
      (∀ p ∈ pairs, p.IsDue at_ ∧ ∀ a ∈ previous, a.key < p.key) ∧ pairs.Pairwise (·.key < ·.key) := by
  induction pairs generalizing previous with
  | nil => simp [checkOrder]
  | cons pair pairs ih =>
    have hstep : checkOrder at_ previous (pair :: pairs) = .ok () ↔ pair.IsDue at_ ∧
        (∀ a ∈ previous, a.key < pair.key) ∧ checkOrder at_ (some pair) pairs = .ok () := by
      simp only [← duePairBefore_iff, checkOrder, DuePair.IsDue]
      cases previous <;> grind
    rw [hstep, ih, pairwise_cons, forall_mem_cons]
    constructor
    · rintro ⟨hdue, hlt, hrest, hsorted⟩
      have hfirst : ∀ p ∈ pairs, pair.key < p.key := fun p hp => (hrest p hp).2 pair rfl
      exact ⟨⟨⟨hdue, hlt⟩, fun p hp => ⟨(hrest p hp).1, fun a ha => (hlt a ha).trans (hfirst p hp)⟩⟩, hfirst, hsorted⟩
    · rintro ⟨⟨⟨hdue, hlt⟩, hrest⟩, hfirst, hsorted⟩
      exact ⟨hdue, hlt, fun p hp => ⟨(hrest p hp).1, fun a ha => Option.some.inj ha ▸ hfirst p hp⟩, hsorted⟩

section turns

variable {σ : Type} {src : Source σ} {at_ : Int} {env : TurnEnv} {envs : List TurnEnv} {s s' : RoundState σ}

/-- A turn that goes on has read a batch that is in order behind the cursor. -/
theorem turn_ok (h : turn src at_ env s = .ok s') : ∃ pairs last result,
    src.due s.source { at_, after := s.after } = .ok pairs ∧ last ∈ pairs ∧ (∀ p ∈ pairs, p.key ≤ last.key) ∧
      (∀ p ∈ pairs, p.IsDue at_ ∧ ∀ a ∈ s.after, a.key < p.key) ∧ pairs.Pairwise (·.key < ·.key) ∧
      result.admitted = s.result.admitted ∧ result.completed = s.result.completed ∧
      result.failed = s.result.failed ∧ s' = evaluateBatch src env pairs { s with result, after := some last } := by
  unfold turn at h
  split at h
  · cases h
  · cases h
  rename_i first pairs hdue
  split at h
  · cases h
  rename_i hvalid
  unfold validateDueBatch at hvalid
  split_ifs at hvalid
  obtain ⟨hall, hsorted⟩ := checkOrder_iff.mp hvalid
  obtain ⟨last, hlast⟩ := Option.isSome_iff_exists.mp (getLast?_isSome.mpr (cons_ne_nil first pairs))
  cases h
  refine ⟨_, last, _, hdue, mem_of_getLast? hlast, fun p hp => ?_, hall, hsorted, ?_, ?_, ?_, by rw [hlast]⟩
  · obtain ⟨front, hfront⟩ := getLast?_eq_some_iff.mp hlast
    rw [hfront] at hsorted hp
    rcases Table.mem_snoc.mp hp with hp | hp
    · exact ((pairwise_append.mp hsorted).2.2 p hp last mem_cons_self).le
    · rw [hp]
  all_goals split <;> rfl

/-- The source after a number of evaluations. -/
def Source.evaluateAll (src : Source σ) (source : σ) (pairs : List DuePair) : σ :=
  pairs.foldl (fun source pair => (src.evaluate source pair).2) source

/-- The workers count each evaluation at most once and send nothing. -/
theorem foldl_work (src : Source σ) (pairs : List DuePair) (s : RoundState σ) :
    let s' := pairs.foldl (work src) s
    s'.source = src.evaluateAll s.source pairs ∧ s'.after = s.after ∧ s'.jobs = s.jobs ∧
      s'.result.admitted = s.result.admitted ∧
      s'.result.completed + s'.result.failed ≤ s.result.completed + s.result.failed + pairs.length := by
  induction pairs generalizing s with
  | nil => exact ⟨rfl, rfl, rfl, rfl, le_refl _⟩
  | cons pair pairs ih =>
    obtain ⟨hsource, hafter, hjobs, hadmitted, hcounted⟩ := ih (work src s pair)
    have hone : (work src s pair).result.admitted = s.result.admitted ∧ (work src s pair).result.completed +
        (work src s pair).result.failed ≤ s.result.completed + s.result.failed + 1 := by
      unfold work
      rcases src.evaluate s.source pair with ⟨_ | _ | _, source⟩ <;> exact ⟨rfl, by simp only; omega⟩
    refine ⟨hsource, hafter, hjobs, hadmitted.trans hone.1, hcounted.trans ?_⟩
    rw [length_cons]
    omega

/-- What `evaluateBatch` sends, evaluates and counts. -/
theorem evaluateBatch_spec (src : Source σ) (env : TurnEnv) (pairs : List DuePair) (s : RoundState σ) :
    let s' := evaluateBatch src env pairs s
    ∃ sent, sent <+ pairs ∧ (env.cut = none → sent = pairs) ∧ s'.jobs = s.jobs ++ sent ∧ s'.after = s.after ∧
      s'.source = src.evaluateAll s.source (env.order sent) ∧
      s'.result.admitted = s.result.admitted + sent.length ∧
      s'.result.completed + s'.result.failed ≤ s.result.completed + s.result.failed + sent.length := by
  refine ⟨env.cut.elim pairs pairs.take, ?_, fun h => by rw [h]; rfl, ?_⟩
  · cases env.cut with
    | none => exact .refl _
    | some n => exact take_sublist n pairs
  · obtain ⟨hsource, hafter, hjobs, hadmitted, hcounted⟩ := foldl_work src _ _
    rw [(env.perm _).length_eq] at hcounted
    exact ⟨hjobs, hafter, hsource, hadmitted, hcounted⟩

/-- The pairs so far: they are due, in order up to the cursor, and counted. -/
structure Ordered (at_ : Int) (s : RoundState σ) : Prop where
  sorted : s.jobs.Pairwise (·.key < ·.key)
  passed : ∀ p ∈ s.jobs, ∃ last ∈ s.after, p.key ≤ last.key
  due : ∀ p ∈ s.jobs, p.dueAt ≤ at_
  admitted : s.result.admitted = s.jobs.length
  counted : s.result.completed + s.result.failed ≤ s.result.admitted

theorem Ordered.turn (h : Ordered at_ s) (ht : turn src at_ env s = .ok s') : Ordered at_ s' := by
  obtain ⟨pairs, last, result, -, hlast, hle, hall, hsorted, hadmitted, hcompleted, hfailed, rfl⟩ := turn_ok ht
  obtain ⟨sent, hsub, -, hjobs, hafter, -, hsent, hcounted⟩ :=
    evaluateBatch_spec src env pairs { s with result, after := some last }
  simp only [hadmitted, hcompleted, hfailed] at hsent hcounted
  refine ⟨?_, fun p hp => ⟨last, hafter, ?_⟩, fun p hp => ?_, ?_, ?_⟩
  · rw [hjobs]
    refine pairwise_append.mpr ⟨h.sorted, hsorted.sublist hsub, fun a ha b hb => ?_⟩
    obtain ⟨x, hx, hax⟩ := h.passed a ha
    exact hax.trans_lt ((hall b (hsub.subset hb)).2 x hx)
  · rcases mem_append.mp (hjobs ▸ hp) with hp | hp
    · obtain ⟨x, hx, hpx⟩ := h.passed p hp
      exact hpx.trans ((hall last hlast).2 x hx).le
    · exact hle p (hsub.subset hp)
  · exact (mem_append.mp (hjobs ▸ hp)).elim (h.due p) fun hp => (hall p (hsub.subset hp)).1.2.2
  · rw [hjobs, hsent, length_append, h.admitted]
  · have := h.counted
    omega

/-- What every turn preserves holds after the round. -/
theorem round_inv {I : RoundState σ → Prop} (h : I s)
    (hturn : ∀ env s s', I s → turn src at_ env s = .ok s' → I s') : I (round src at_ envs s).1 := by
  induction envs generalizing s with
  | nil => exact h
  | cons env envs ih =>
    unfold round
    split
    · exact h
    · rename_i s' hs'
      split
      · exact hturn env s s' h hs'
      · exact ih (hturn env s s' h hs')

/-- Each pair that was sent was evaluated, once. -/
def Logged (s : RoundState (σ × List DuePair)) : Prop := s.source.2 ~ s.jobs

theorem evaluateAll_logged (source : σ × List DuePair) (pairs : List DuePair) :
    (src.logged.evaluateAll source pairs).2 = source.2 ++ pairs := by
  induction pairs generalizing source with
  | nil => simp [Source.evaluateAll]
  | cons pair pairs ih => exact (ih _).trans (append_assoc _ [pair] pairs)

theorem Logged.turn {s s' : RoundState (σ × List DuePair)} (h : Logged s)
    (ht : turn src.logged at_ env s = .ok s') : Logged s' := by
  obtain ⟨pairs, last, result, -, -, -, -, -, -, -, -, rfl⟩ := turn_ok ht
  obtain ⟨sent, -, -, hjobs, -, hsource, -⟩ :=
    evaluateBatch_spec src.logged env pairs { s with result, after := some last }
  unfold Logged
  rw [hjobs, hsource, evaluateAll_logged]
  exact h.append (env.perm sent)

/-! ## A source that lists what is due -/

/-- The source answers with the first pairs behind the cursor of a finite set of pairs that are due, from which
evaluations only remove. -/
structure Listing (src : Source σ) (at_ : Int) where
  due : σ → List DuePair
  sorted : ∀ s, (due s).Pairwise (·.key < ·.key)
  isDue : ∀ s, ∀ p ∈ due s, p.IsDue at_
  answers : ∀ s after limit, src.due s ⟨at_, after, limit⟩ =
    .ok (((due s).filter fun p => after.all (duePairBefore · p)).take limit)
  removes : ∀ s pair, ∀ p ∈ due (src.evaluate s pair).2, p ∈ due s

def Listing.logged (l : Listing src at_) : Listing src.logged at_ where
  due s := l.due s.1
  sorted s := l.sorted s.1
  isDue s := l.isDue s.1
  answers s := l.answers s.1
  removes s := l.removes s.1

theorem Listing.evaluateAll (l : Listing src at_) (source : σ) (pairs : List DuePair) :
    ∀ p ∈ l.due (src.evaluateAll source pairs), p ∈ l.due source := by
  induction pairs generalizing source with
  | nil => exact fun _ hp => hp
  | cons pair pairs ih => exact fun p hp => l.removes _ _ p (ih _ p hp)

/-- The pair is listed behind the cursor. -/
def Listing.Behind (l : Listing src at_) (s : RoundState σ) (p : DuePair) : Prop :=
  p ∈ l.due s.source ∧ ∀ a ∈ s.after, a.key < p.key

/-- A turn of a listing source: it ends the round when nothing is behind the cursor, or admits some of the pairs
there and passes no other. -/
theorem Listing.turn (l : Listing src at_) (hcut : env.cut = none) (s : RoundState σ) :
    turn src at_ env s = .error none ∧ (∀ p, ¬l.Behind s p) ∨ ∃ s' pairs, turn src at_ env s = .ok s' ∧ pairs ≠ [] ∧
      s'.jobs = s.jobs ++ pairs ∧ (∀ p ∈ pairs, p ∈ l.due s.source) ∧
      (∀ p ∈ l.due s'.source, p ∈ l.due s.source) ∧
      ∀ p, l.Behind s p → p ∈ pairs ∨ ∀ a ∈ s'.after, a.key < p.key := by
  have hanswer := l.answers s.source s.after batchSize
  generalize hrows : (l.due s.source).filter (fun p => s.after.all (duePairBefore · p)) = rows at hanswer
  have hmem : ∀ p, p ∈ rows ↔ l.Behind s p := fun p => by
    rw [← hrows, mem_filter, Option.all_eq_true]
    simp only [duePairBefore_iff, Option.mem_def, Behind]
  have hsorted : rows.Pairwise (·.key < ·.key) := hrows ▸ (l.sorted _).filter _
  rcases eq_or_ne rows [] with rfl | hne
  · exact .inl ⟨by simp [Alert.turn, hanswer], fun p hp => not_mem_nil ((hmem p).mpr hp)⟩
  · obtain ⟨first, pairs, hbatch⟩ := exists_cons_of_ne_nil (show rows.take batchSize ≠ [] by simp [hne, batchSize])
    have hlen := length_take_le batchSize rows
    rw [← take_append_drop batchSize rows] at hmem hsorted
    rw [hbatch] at hanswer hmem hsorted hlen
    obtain ⟨hfirst, -, hrest⟩ := pairwise_append.mp hsorted
    have hvalid : validateDueBatch (first :: pairs) { at_, after := s.after } = .ok () := by
      rw [validateDueBatch, if_neg (not_lt.mpr hlen), checkOrder_iff]
      refine ⟨fun p hp => ?_, hfirst⟩
      obtain ⟨hlisted, hbehind⟩ := (hmem p).mp (mem_append_left _ hp)
      exact ⟨l.isDue _ p hlisted, hbehind⟩
    obtain ⟨s', ht⟩ : ∃ s', Alert.turn src at_ env s = .ok s' := by simp [Alert.turn, hanswer, hvalid]
    refine .inr ⟨s', first :: pairs, ht, cons_ne_nil _ _, ?_⟩
    obtain ⟨pairs', last, result, hdue, hlast, -, -, -, -, -, -, rfl⟩ := turn_ok ht
    cases hanswer.symm.trans hdue
    obtain ⟨sent, -, hsent, hjobs, hafter, hsource, -⟩ :=
      evaluateBatch_spec src env (first :: pairs) { s with result, after := some last }
    obtain rfl := hsent hcut
    rw [hsource, hafter]
    refine ⟨hjobs, fun p hp => ((hmem p).mp (mem_append_left _ hp)).1, l.evaluateAll _ _, fun p hp => ?_⟩
    refine (mem_append.mp ((hmem p).mpr hp)).imp_right fun hp a ha => ?_
    cases ha
    exact hrest last hlast p hp

/-- One turn after the other. -/
def Turns (src : Source σ) (at_ : Int) : RoundState σ → List TurnEnv → RoundState σ → Prop :=
  Lts.Run fun s env s' => turn src at_ env s = .ok s'

/-- A round over the rows of a listing source: it ends, or every turn has admitted some of them; and when it ends, a
pair was admitted, or was gone before the cursor came to it. -/
theorem Listing.round (l : Listing src at_) {rows : List DuePair} (henvs : ∀ env ∈ envs, env.cut = none)
    (hv : ∀ p ∈ s.jobs, p ∈ rows) (hd : ∀ p ∈ l.due s.source, p ∈ rows) : let r := round src at_ envs s
    (∀ p ∈ r.1.jobs, p ∈ rows) ∧ (∀ p ∈ s.jobs, p ∈ r.1.jobs) ∧
      (r.2 ≠ none → s.jobs.length + envs.length ≤ r.1.jobs.length) ∧
      (r.2 = none → ∀ p, l.Behind s p → p ∈ r.1.jobs ∨ ∃ before s₁, before <+: envs ∧ Turns src at_ s before s₁ ∧
        (∀ a ∈ s₁.after, a.key < p.key) ∧ p ∉ l.due s₁.source) := by
  induction envs generalizing s with
  | nil => exact ⟨hv, fun _ hp => hp, fun _ => le_refl _, nofun⟩
  | cons env envs ih =>
    obtain ⟨hcut, henvs⟩ := forall_mem_cons.mp henvs
    unfold Alert.round
    rcases l.turn hcut s with ⟨ht, hnone⟩ | ⟨s', pairs, ht, hne, hjobs, hlisted, hrows, hbehind⟩
    · rw [ht]
      exact ⟨hv, fun _ hp => hp, fun h => absurd rfl h, fun _ p hp => absurd hp (hnone p)⟩
    · simp only [ht, hcut, Option.isSome_none, Bool.false_eq_true, if_false]
      obtain ⟨hin, hkept, hmore, hend⟩ := ih (s := s') henvs (fun p hp => by
        rw [hjobs] at hp
        exact (mem_append.mp hp).elim (hv p) fun hp => hd p (hlisted p hp)) fun p hp => hd p (hrows p hp)
      have hpos := length_pos_of_ne_nil hne
      rw [hjobs] at hkept hmore
      simp only [length_append] at hmore
      refine ⟨hin, fun p hp => hkept p (mem_append_left _ hp), fun h => ?_, fun h p hp => ?_⟩
      · have := hmore h
        simp only [length_cons]
        omega
      · rcases hbehind p hp with hp' | hafter
        · exact .inl (hkept p (mem_append_right _ hp'))
        · by_cases hstays : p ∈ l.due s'.source
          · exact (hend h p ⟨hstays, hafter⟩).imp_right fun ⟨before, s₁, hpre, hrun, hgone⟩ =>
              ⟨env :: before, s₁, (prefix_cons_inj env).mpr hpre, .cons ht hrun, hgone⟩
          · exact .inr ⟨[env], s', (prefix_cons_inj env).mpr nil_prefix, .cons ht .nil, hafter, hstays⟩

end turns

/-- For every source, every order of the workers and every end of the context, the pairs of a round are admitted in
strictly increasing order, each of them is evaluated once and none that is due later, and no more of them complete or
fail than were admitted. With a source that lists what is due, a round that is not cut off ends without an error, and
a pair that was listed is evaluated unless, after some of the turns, all pairs so far are before it and it is listed
no more. -/
theorem round_visits_once {σ : Type} (src : Source σ) (at_ : Int) (source : σ) :
    (∀ envs, let s := (round src.logged at_ envs { source := (source, []) }).1
      s.jobs.Pairwise (fun a b => duePairBefore a b = true) ∧ s.source.2 ~ s.jobs ∧ s.source.2.Nodup ∧
        (∀ p ∈ s.source.2, p.dueAt ≤ at_) ∧ s.result.admitted = s.source.2.length ∧
        s.result.completed + s.result.failed ≤ s.result.admitted) ∧
    ∀ (l : Listing src at_) envs, (∀ env ∈ envs, env.cut = none) → (l.due source).length < envs.length →
      let r := round src.logged at_ envs { source := (source, []) }
      r.2 = none ∧ ∀ p ∈ l.due source, p ∈ r.1.source.2 ∨ ∃ before s, before <+: envs ∧
        Turns src.logged at_ { source := (source, []) } before s ∧
        (∀ q ∈ s.source.2, duePairBefore q p = true) ∧ p ∉ l.due s.source.1 := by
  have hstart : Ordered at_ ({ source := (source, []) } : RoundState (σ × List DuePair)) :=
    ⟨.nil, nofun, nofun, rfl, le_refl _⟩
  have hlogged : Logged ({ source := (source, []) } : RoundState (σ × List DuePair)) := .refl _
  have hordered : ∀ envs, Ordered at_ (round src.logged at_ envs { source := (source, []) }).1 := fun envs =>
    round_inv hstart fun _ _ _ h ht => h.turn ht
  have hcalls : ∀ envs, Logged (round src.logged at_ envs { source := (source, []) }).1 := fun envs =>
    round_inv hlogged fun _ _ _ h ht => h.turn ht
  have hnodup : ∀ envs, (round src.logged at_ envs { source := (source, []) }).1.jobs.Nodup := fun envs =>
    (hordered envs).sorted.imp fun hlt heq => (heq ▸ hlt).false
  refine ⟨fun envs => ?_, fun l envs henvs hlong => ?_⟩
  · have h := hordered envs
    have hperm := hcalls envs
    exact ⟨h.sorted.imp duePairBefore_iff.mpr, hperm, hperm.nodup_iff.mpr (hnodup envs),
      fun p hp => h.due p (hperm.subset hp), h.admitted.trans hperm.length_eq.symm, h.counted⟩
  · obtain ⟨hin, -, hmore, hend⟩ := l.logged.round (s := { source := (source, []) }) henvs nofun
      (show ∀ p ∈ l.due source, p ∈ l.due source from fun _ hp => hp)
    have hnone : (round src.logged at_ envs { source := (source, []) }).2 = none := by
      by_contra h
      have := hmore h
      have : _ ≤ (l.due source).length := ((hnodup _).subperm hin).length_le
      simp only [length_nil] at *
      omega
    refine ⟨hnone, fun p hp => (hend hnone p ⟨hp, nofun⟩).imp ((hcalls envs).mem_iff.mpr ·) ?_⟩
    rintro ⟨before, s, hpre, hrun, hlt, hgone⟩
    have hs : Ordered at_ s ∧ Logged s :=
      hrun.inv (I := fun s => Ordered at_ s ∧ Logged s) ⟨hstart, hlogged⟩ fun _ _ _ hi ht => ⟨hi.1.turn ht, hi.2.turn ht⟩
    refine ⟨before, s, hpre, hrun, fun q hq => duePairBefore_iff.mpr ?_, hgone⟩
    obtain ⟨last, hlast, hle⟩ := hs.1.passed q (hs.2.subset hq)
    exact hle.trans_lt (hlt last hlast)

/-! ## A table of pairs -/

/-- A table in the order of `Due`, with pairs that are due. -/
abbrev DueTable (at_ : Int) : Type :=
  { rows : List DuePair // rows.Pairwise (·.key < ·.key) ∧ ∀ p ∈ rows, p.IsDue at_ }

/-- The source over a table: the evaluation of a pair has the given outcome and takes the pairs that it makes due
later off the table. -/
def DueTable.source (at_ : Int) (outcome : DuePair → Outcome) (deferred : DuePair → DuePair → Bool) :
    Source (DueTable at_) where
  due s query := .ok ((s.1.filter fun p => query.after.all (duePairBefore · p)).take query.limit)
  evaluate s pair := (outcome pair, ⟨s.1.filter (!deferred pair ·), s.2.1.filter _, fun p hp =>
    s.2.2 p (mem_of_mem_filter hp)⟩)

def DueTable.listing (at_ : Int) (outcome : DuePair → Outcome) (deferred : DuePair → DuePair → Bool) :
    Listing (DueTable.source at_ outcome deferred) at_ where
  due s := s.1
  sorted s := s.2.1
  isDue s := s.2.2
  answers _ _ _ := rfl
  removes _ _ _ hp := mem_of_mem_filter hp

/-- Three pairs that are due. -/
def sampleTable : DueTable 2 :=
  ⟨[⟨"r", "a", "", 0⟩, ⟨"r", "b", "", 1⟩, ⟨"r", "c", "", 1⟩], by decide, by unfold DuePair.IsDue; decide⟩

/-- The evaluation of the first pair fails, the others are done in the opposite order, and each one that completes is
taken off: the failing pair is not evaluated again and keeps none from being evaluated. -/
theorem round_visits_once_sample :
    let src := DueTable.source 2 (fun p => if p.nodeID = "a" then .failed else .completed)
      fun p q => p.nodeID ≠ "a" && p = q
    let r := round src.logged 2 (replicate 4 ⟨none, reverse, reverse_perm⟩) { source := (sampleTable, []) }
    r.2 = none ∧ r.1.source.2.Nodup ∧ (∀ p ∈ sampleTable.1, p ∈ r.1.source.2) ∧ r.1.result.completed = 2 ∧
      r.1.result.failed = 1 := by
  intro src r
  obtain ⟨hround, hlisting⟩ := round_visits_once src 2 sampleTable
  obtain ⟨-, -, hnodup, -⟩ := hround (replicate 4 ⟨none, reverse, reverse_perm⟩)
  obtain ⟨hend, -⟩ := hlisting (DueTable.listing 2 _ _) (replicate 4 ⟨none, reverse, reverse_perm⟩)
    (fun env henv => by rw [(mem_replicate.mp henv).2]) (by decide)
  exact ⟨hend, hnodup, by decide +kernel, by decide +kernel, by decide +kernel⟩

end Beat.Alert
