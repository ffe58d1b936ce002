import Mathlib.Data.List.Nodup
import Mathlib.Logic.Function.Basic

/-!
# File operations, errors and crashes

A directory is a map from paths to what they hold. An operation changes it at once or reports an
error. A program is a list of steps: an operation, and the operations of the way back that the
program takes when this one reports an error. `script` is the list of operations that are really
done, so that a crash is a prefix of it.

* `execAll_other`: a path that no operation names keeps what it holds.
* `script_ok`, `script_true`: a script without errors does every operation.
* `script_recovers`, `recovers_of_keep`: what holds at the end of every way back.
* `moveAll_moved`, `moveAll_back`: renames of many paths at once, and their undoing.
* `recovers_moveSteps`, `recovers_lookSteps`: renames, each of which undoes those before it when it
  fails.
-/

namespace FileOps

open List Option Function

/-- What each path holds, if it exists. -/
@[ext] structure Files (P C : Type) where
  get : P → Option C

instance {P C : Type} : CoeFun (Files P C) fun _ => P → Option C := ⟨Files.get⟩

/-- Which paths are directories. A rename onto a directory that exists is an error. -/
class HasDirs (P : Type) where
  isDir : P → Bool

/-- One file operation. `check` only reads; `create` wants the path absent, `write` wants it present;
`replace` publishes a whole file by a rename; `remove` is quiet about an absent path. -/
inductive Op (P C : Type) where
  | check
  | create (p : P) (c : C)
  | write (p : P) (c : C)
  | replace (p : P) (c : C)
  | rename (p q : P)
  | remove (p : P)
  deriving DecidableEq, Repr

variable {P C T : Type} [DecidableEq P] [HasDirs P]

def Files.set (f : Files P C) (p : P) (v : Option C) : Files P C := ⟨update f.get p v⟩

omit [HasDirs P] in
@[simp] theorem Files.set_self (f : Files P C) (p : P) (v : Option C) : f.set p v p = v :=
  update_self ..

variable {p q : P} {f : Files P C} {fault : Option Nat} {goal : Files P C → Prop}

omit [HasDirs P] in
theorem Files.set_of_ne {x : P} (h : x ≠ p) (f : Files P C) (v : Option C) : f.set p v x = f x :=
  update_of_ne h ..

omit [HasDirs P] in
theorem Files.set_set (f : Files P C) (p : P) (v w : Option C) : (f.set p v).set p w = f.set p w :=
  Files.ext (update_idem ..)

omit [HasDirs P] in
theorem Files.set_eq_self {v : Option C} (h : f p = v) : f.set p v = f :=
  Files.ext (update_eq_self_iff.mpr h.symm)

/-- The directory after the operation, `none` if it reports an error. -/
def Op.apply : Op P C → Files P C → Option (Files P C)
  | .check, f => some f
  | .create p c, f => if (f p).isNone then some (f.set p (some c)) else none
  | .write p c, f => if (f p).isSome then some (f.set p (some c)) else none
  | .replace p c, f => some (f.set p (some c))
  | .rename p q, f =>
    if (f p).isNone ∨ (HasDirs.isDir q ∧ (f q).isSome) then none
    else some ((f.set p none).set q (f p))
  | .remove p, f => some (f.set p none)

/-- The directory after the operation; one that reports an error changes nothing. -/
def Op.exec (op : Op P C) (f : Files P C) : Files P C := (op.apply f).getD f

def execAll (ops : List (Op P C)) (f : Files P C) : Files P C := ops.foldl (fun f op => op.exec f) f

@[simp] theorem execAll_nil (f : Files P C) : execAll [] f = f := rfl

@[simp] theorem execAll_cons (op : Op P C) (ops : List (Op P C)) (f : Files P C) :
    execAll (op :: ops) f = execAll ops (op.exec f) := rfl

@[simp] theorem execAll_append (xs ys : List (Op P C)) (f : Files P C) :
    execAll (xs ++ ys) f = execAll ys (execAll xs f) := foldl_append

/-! ## What an operation does not touch -/

/-- The paths an operation may change. -/
def Op.paths : Op P C → List P
  | .check => []
  | .create p _ | .write p _ | .replace p _ | .remove p => [p]
  | .rename p q => [p, q]

theorem exec_other {op : Op P C} (h : p ∉ op.paths) (f : Files P C) : op.exec f p = f p := by
  unfold Op.exec
  cases op <;> simp only [Op.paths, mem_cons, not_mem_nil, or_false, not_or] at h <;>
    simp only [Op.apply] <;> (try split) <;> simp [Files.set_of_ne, h]

theorem execAll_other {ops : List (Op P C)} (h : ∀ op ∈ ops, p ∉ op.paths) (f : Files P C) :
    execAll ops f p = f p := by
  induction ops generalizing f with
  | nil => rfl
  | cons op ops ih =>
    rw [execAll_cons, ih (fun o ho => h o (.tail _ ho)), exec_other (h op (.head _))]

/-! ## Steps with a way back -/

/-- An operation and the operations that follow when it reports an error. -/
structure Step (P C : Type) where
  op : Op P C
  undo : List (Op P C)

/-- The operations done, and whether the program ends without an error. `fault` is the number of an
operation that reports an error although the directory would let it pass. -/
def script : Option Nat → List (Step P C) → Files P C → List (Op P C) × Bool
  | _, [], _ => ([], true)
  | fault, s :: steps, f =>
    if fault = some 0 then (s.undo, false)
    else
      match s.op.apply f with
      | none => (s.undo, false)
      | some g =>
        let rest := script (fault.map Nat.pred) steps g
        (s.op :: rest.1, rest.2)

/-- A script with a faulty step in it fails, there or before. -/
theorem script_fault {n : Nat} {steps : List (Step P C)} (h : n < steps.length) (f : Files P C) :
    (script (some n) steps f).2 = false := by
  induction steps generalizing n f with
  | nil => cases h
  | cons s steps ih =>
    cases n with
    | zero => rfl
    | succ n =>
      unfold script
      rw [if_neg (by simp)]
      split
      · rfl
      · exact ih (Nat.lt_of_succ_lt_succ h) _

/-- No operation of the list reports an error. -/
def Runs : List (Op P C) → Files P C → Prop
  | [], _ => True
  | op :: ops, f => (op.apply f).isSome ∧ Runs ops (op.exec f)

theorem Runs.append {xs ys : List (Op P C)} (hx : Runs xs f) (hy : Runs ys (execAll xs f)) : Runs (xs ++ ys) f := by
  induction xs generalizing f with
  | nil => exact hy
  | cons op xs ih => exact ⟨hx.1, ih hx.2 hy⟩

/-- A path is created and then filled. -/
theorem create_write (h : f p = none) (c c' : C) :
    Runs [.create p c, .write p c'] f ∧ execAll [.create p c, .write p c'] f = f.set p (some c') := by
  have hcreate : (Op.create p c).apply f = some (f.set p (some c)) := by simp [Op.apply, h]
  have hexec : (Op.create p c).exec f = f.set p (some c) := by rw [Op.exec, hcreate, getD_some]
  have hwrite : (Op.write p c').apply (f.set p (some c)) = some (f.set p (some c')) := by
    simp [Op.apply, Files.set_set]
  refine ⟨⟨by rw [hcreate]; rfl, by rw [hexec, hwrite]; rfl, trivial⟩, ?_⟩
  rw [execAll_cons, hexec, execAll_cons, execAll_nil, Op.exec, hwrite, getD_some]

variable {steps : List (Step P C)}

theorem script_ok (h : Runs (steps.map (·.op)) f) : script none steps f = (steps.map (·.op), true) := by
  induction steps generalizing f with
  | nil => rfl
  | cons s steps ih =>
    obtain ⟨g, hg⟩ := isSome_iff_exists.mp h.1
    have hrest : Runs (steps.map (·.op)) g := by
      have := h.2
      rwa [Op.exec, hg, getD_some] at this
    simp [script, hg, ih hrest]

/-- A script that ends without an error did every operation. -/
theorem script_true (h : (script fault steps f).2 = true) : (script fault steps f).1 = steps.map (·.op) := by
  induction steps generalizing fault f with
  | nil => rfl
  | cons s steps ih =>
    unfold script at h ⊢
    split at h
    · cases h
    rename_i hf
    rw [if_neg hf]
    split at h
    · cases h
    · exact congrArg (s.op :: ·) (ih h)

/-- Wherever the steps fail, the way back ends in a directory with `goal`. -/
def Recovers (goal : Files P C → Prop) : List (Step P C) → Files P C → Prop
  | [], _ => True
  | s :: steps, f => goal (execAll s.undo f) ∧ Recovers goal steps (s.op.exec f)

theorem Recovers.imp {goal' : Files P C → Prop} (h : Recovers goal steps f) (hg : ∀ g, goal g → goal' g) :
    Recovers goal' steps f := by
  induction steps generalizing f with
  | nil => trivial
  | cons s steps ih => exact ⟨hg _ h.1, ih h.2⟩

theorem Recovers.append {xs ys : List (Step P C)} (hx : Recovers goal xs f)
    (hy : Recovers goal ys (execAll (xs.map (·.op)) f)) : Recovers goal (xs ++ ys) f := by
  induction xs generalizing f with
  | nil => exact hy
  | cons s xs ih => exact ⟨hx.1, ih hx.2 hy⟩

theorem script_recovers (hr : Recovers goal steps f) (h : (script fault steps f).2 = false) :
    goal (execAll (script fault steps f).1 f) := by
  induction steps generalizing fault f with
  | nil => cases h
  | cons s steps ih =>
    unfold script at h ⊢
    split at h
    · rename_i hf
      rw [if_pos hf]
      exact hr.1
    · rename_i hf
      rw [if_neg hf]
      split at h
      · exact hr.1
      · rename_i g hg
        have hexec : s.op.exec f = g := by rw [Op.exec, hg, getD_some]
        have hrest := hr.2
        rw [hexec] at hrest
        rw [execAll_cons, hexec]
        exact ih hrest h

/-- Steps that keep `goal`, forth and back. -/
theorem recovers_of_keep (hop : ∀ s ∈ steps, ∀ g, goal g → goal (s.op.exec g))
    (hundo : ∀ s ∈ steps, ∀ g, goal g → goal (execAll s.undo g)) (h : goal f) : Recovers goal steps f := by
  induction steps generalizing f with
  | nil => trivial
  | cons s steps ih =>
    exact ⟨hundo s (.head _) f h, ih (fun t ht => hop t (.tail _ ht))
      (fun t ht => hundo t (.tail _ ht)) (hop s (.head _) f h)⟩

/-- A script that fails does not get to its last operation. -/
theorem mem_script_false {op : Op P C} (h : (script fault steps f).2 = false)
    (hop : op ∈ (script fault steps f).1) : (∃ s ∈ steps.dropLast, s.op = op) ∨ ∃ s ∈ steps, op ∈ s.undo := by
  induction steps generalizing fault f with
  | nil => cases h
  | cons s steps ih =>
    unfold script at h hop
    split at h
    · rename_i hf
      rw [if_pos hf] at hop
      exact .inr ⟨s, .head _, hop⟩
    · rename_i hf
      rw [if_neg hf] at hop
      split at h
      · rename_i hnone
        rw [hnone] at hop
        exact .inr ⟨s, .head _, hop⟩
      · rename_i g hg
        rw [hg] at hop
        have hne : steps ≠ [] := by
          rintro rfl
          cases h
        rw [dropLast_cons_of_ne_nil hne]
        rcases mem_cons.mp hop with rfl | hrest
        · exact .inl ⟨s, .head _, rfl⟩
        · rcases ih h hrest with ⟨t, ht, hto⟩ | ⟨t, ht, hto⟩
          · exact .inl ⟨t, .tail _ ht, hto⟩
          · exact .inr ⟨t, .tail _ ht, hto⟩

/-! ## Renames of many paths -/

/-- The renames `src t → dst t`, one by one. -/
def moveAll (src dst : T → P) (ts : List T) : List (Op P C) := ts.map fun t => .rename (src t) (dst t)

/-- Two ways to name the same things, by different paths. -/
structure Apart (src dst : T → P) : Prop where
  src_inj : Function.Injective src
  dst_inj : Function.Injective dst
  ne : ∀ a b, src a ≠ dst b

/-- Each of `ts` is at its source and none at its destination. -/
structure Movable (src dst : T → P) (ts : List T) (f : Files P C) : Prop where
  nodup : ts.Nodup
  present : ∀ t ∈ ts, (f (src t)).isSome
  absent : ∀ t ∈ ts, f (dst t) = none

theorem rename_apply (hp : (f p).isSome) (hq : f q = none) :
    (Op.rename p q : Op P C).apply f = some ((f.set p none).set q (f p)) := by
  obtain ⟨c, hc⟩ := isSome_iff_exists.mp hp
  simp [Op.apply, hc, hq]

theorem rename_exec (hp : (f p).isSome) (hq : f q = none) :
    (Op.rename p q : Op P C).exec f = (f.set p none).set q (f p) := by
  rw [Op.exec, rename_apply hp hq, getD_some]

/-- A rename to an absent path and the rename back leave the directory as it was. -/
theorem rename_back (hp : (f p).isSome) (hq : f q = none) (hne : p ≠ q) :
    (Op.rename q p : Op P C).exec ((Op.rename p q : Op P C).exec f) = f := by
  rw [rename_exec hp hq, rename_exec (by simpa using hp) (by simp [Files.set_of_ne hne])]
  ext1
  funext x
  by_cases hxp : x = p
  · subst hxp; simp
  · by_cases hxq : x = q
    · subst hxq; simp [Files.set_of_ne hxp, hq]
    · simp [Files.set_of_ne hxp, Files.set_of_ne hxq]

section Moves
variable {src dst : T → P} {t : T} {ts done : List T} {f : Files P C}

theorem Movable.rest (hd : Apart src dst) (h : Movable src dst (t :: ts) f) :
    Movable src dst ts ((Op.rename (src t) (dst t) : Op P C).exec f) := by
  have hnot := (nodup_cons.mp h.nodup).1
  have hne : ∀ u ∈ ts, u ≠ t := fun u hu hut => hnot (hut ▸ hu)
  refine ⟨(nodup_cons.mp h.nodup).2, fun u hu => ?_, fun u hu => ?_⟩
  · rw [exec_other (by simp [Op.paths, hd.src_inj.ne (hne u hu), hd.ne])]
    exact h.present u (.tail _ hu)
  · rw [exec_other (by simp [Op.paths, hd.dst_inj.ne (hne u hu), (hd.ne _ _).symm])]
    exact h.absent u (.tail _ hu)

omit [DecidableEq P] [HasDirs P] in
theorem Movable.left {us : List T} (h : Movable src dst (ts ++ us) f) : Movable src dst ts f :=
  ⟨(nodup_append.mp h.nodup).1, fun u hu => h.present u (mem_append_left _ hu),
    fun u hu => h.absent u (mem_append_left _ hu)⟩

theorem Movable.runs (hd : Apart src dst) (h : Movable src dst ts f) :
    Runs (moveAll src dst ts : List (Op P C)) f := by
  induction ts generalizing f with
  | nil => trivial
  | cons t ts ih =>
    refine ⟨?_, ih (h.rest hd)⟩
    rw [rename_apply (h.present t (.head _)) (h.absent t (.head _))]
    rfl

theorem moveAll_other {p : P} (h : ∀ t ∈ ts, p ≠ src t ∧ p ≠ dst t) (f : Files P C) :
    execAll (moveAll src dst ts) f p = f p := by
  refine execAll_other (fun op ho => ?_) f
  obtain ⟨t, ht, rfl⟩ := mem_map.mp ho
  simpa [Op.paths] using h t ht

/-- After the renames each destination holds what its source held, and no source is left. -/
theorem moveAll_moved (hd : Apart src dst) (h : Movable src dst ts f) (ht : t ∈ ts) :
    execAll (moveAll src dst ts) f (dst t) = f (src t) ∧ execAll (moveAll src dst ts) f (src t) = none := by
  induction ts generalizing f with
  | nil => cases ht
  | cons u ts ih =>
    have hexec := rename_exec (h.present u (.head _)) (h.absent u (.head _))
    have hfirst : execAll (moveAll src dst (u :: ts)) f =
        execAll (moveAll src dst ts) ((Op.rename (src u) (dst u) : Op P C).exec f) := rfl
    rw [hfirst]
    by_cases hut : t = u
    · subst hut
      have hne : ∀ v ∈ ts, t ≠ v := fun v hv htv => (nodup_cons.mp h.nodup).1 (htv ▸ hv)
      rw [moveAll_other fun v hv => ⟨(hd.ne v t).symm, hd.dst_inj.ne (hne v hv)⟩,
        moveAll_other fun v hv => ⟨hd.src_inj.ne (hne v hv), hd.ne t v⟩, hexec]
      exact ⟨Files.set_self .., by rw [Files.set_of_ne (hd.ne t t), Files.set_self]⟩
    · obtain ⟨hdst, hsrc⟩ := ih (h.rest hd) ((mem_cons.mp ht).resolve_left hut)
      refine ⟨hdst.trans (exec_other ?_ f), hsrc⟩
      simp [Op.paths, hd.src_inj.ne hut, hd.ne]

/-- The renames back, in the other order, leave the directory as it was. -/
theorem moveAll_back (hd : Apart src dst) (h : Movable src dst ts f) :
    execAll (moveAll dst src ts.reverse) (execAll (moveAll src dst ts) f) = f := by
  induction ts generalizing f with
  | nil => rfl
  | cons t ts ih =>
    have hback : moveAll dst src (t :: ts).reverse
        = (moveAll dst src ts.reverse ++ [.rename (dst t) (src t)] : List (Op P C)) := by
      simp [moveAll]
    rw [hback, execAll_append]
    show (Op.rename (dst t) (src t) : Op P C).exec (execAll (moveAll dst src ts.reverse)
      (execAll (moveAll src dst ts) ((Op.rename (src t) (dst t) : Op P C).exec f))) = f
    rw [ih (h.rest hd)]
    exact rename_back (h.present t (.head _)) (h.absent t (.head _)) (hd.ne t t)

/-- The renames of `ts`; one that fails takes back those that are `done`, and then does `after`. -/
def moveSteps (src dst : T → P) (after : List (Op P C)) : List T → List T → List (Step P C)
  | _, [] => []
  | done, t :: ts =>
    ⟨.rename (src t) (dst t), moveAll dst src done.reverse ++ after⟩ ::
      moveSteps src dst after (done ++ [t]) ts

omit [DecidableEq P] [HasDirs P] in
@[simp] theorem moveSteps_ops (src dst : T → P) (after : List (Op P C)) (done ts : List T) :
    (moveSteps src dst after done ts).map (·.op) = moveAll src dst ts := by
  induction ts generalizing done with
  | nil => rfl
  | cons t ts ih => exact congrArg (_ :: ·) (ih (done ++ [t]))

variable {goal : Files P C → Prop} {after : List (Op P C)} {here : T → Bool}

/-- Renames that are taken back lead to what `after` makes of the directory before them. -/
theorem recovers_moveSteps_done (hd : Apart src dst) (h : Movable src dst (done ++ ts) f)
    (hafter : goal (execAll after f)) :
    Recovers goal (moveSteps src dst after done ts) (execAll (moveAll src dst done) f) := by
  induction ts generalizing done with
  | nil => trivial
  | cons t ts ih =>
    refine ⟨?_, ?_⟩
    · rw [execAll_append, moveAll_back hd h.left]
      exact hafter
    · have hmore : (moveAll src dst done ++ [.rename (src t) (dst t)] : List (Op P C))
          = moveAll src dst (done ++ [t]) := by simp [moveAll]
      have hnext := @ih (done ++ [t]) (by rwa [append_assoc])
      rw [← hmore, execAll_append] at hnext
      exact hnext

theorem recovers_moveSteps (hd : Apart src dst) (h : Movable src dst ts f) (hafter : goal (execAll after f)) :
    Recovers goal (moveSteps src dst after [] ts) f :=
  @recovers_moveSteps_done P C T _ _ src dst ts [] f goal after hd h hafter

/-- The renames of those `ts` that are `here`, each looked at first; a look or a rename that fails
takes back those that are `done`, and then does `after`. -/
def lookSteps (here : T → Bool) (src dst : T → P) (after : List (Op P C)) : List T → List T → List (Step P C)
  | _, [] => []
  | done, t :: ts =>
    ⟨.check, moveAll dst src done.reverse ++ after⟩ ::
      if here t then
        ⟨.rename (src t) (dst t), moveAll dst src done.reverse ++ after⟩ ::
          lookSteps here src dst after (done ++ [t]) ts
      else lookSteps here src dst after done ts

theorem execAll_lookSteps (here : T → Bool) (src dst : T → P) (after : List (Op P C)) (done ts : List T)
    (f : Files P C) : execAll ((lookSteps here src dst after done ts).map (·.op)) f
      = execAll (moveAll src dst (ts.filter here)) f := by
  induction ts generalizing done f with
  | nil => rfl
  | cons t ts ih =>
    by_cases ht : here t
    · rw [lookSteps, if_pos ht, filter_cons_of_pos ht]
      exact ih _ _
    · rw [lookSteps, if_neg ht, filter_cons_of_neg ht]
      exact ih _ _

theorem runs_lookSteps (hd : Apart src dst) (h : Movable src dst (ts.filter here) f) :
    Runs ((lookSteps here src dst after done ts).map (·.op)) f := by
  induction ts generalizing done f with
  | nil => trivial
  | cons t ts ih =>
    by_cases ht : here t
    · rw [filter_cons_of_pos ht] at h
      rw [lookSteps, if_pos ht]
      refine ⟨rfl, ?_, ih (h.rest hd)⟩
      show ((Op.rename (src t) (dst t) : Op P C).apply f).isSome
      rw [rename_apply (h.present t (.head _)) (h.absent t (.head _))]
      rfl
    · rw [filter_cons_of_neg ht] at h
      rw [lookSteps, if_neg ht]
      exact ⟨rfl, ih h⟩

/-- Looks and renames that are taken back lead to what `after` makes of the directory before them. -/
theorem recovers_lookSteps_done (hd : Apart src dst) (h : Movable src dst (done ++ ts.filter here) f)
    (hafter : goal (execAll after f)) :
    Recovers goal (lookSteps here src dst after done ts) (execAll (moveAll src dst done) f) := by
  induction ts generalizing done with
  | nil => trivial
  | cons t ts ih =>
    have hback : goal (execAll (moveAll dst src done.reverse ++ after) (execAll (moveAll src dst done) f)) := by
      rw [execAll_append, moveAll_back hd h.left]
      exact hafter
    by_cases ht : here t
    · rw [filter_cons_of_pos ht] at h
      rw [lookSteps, if_pos ht]
      have hmore : (moveAll src dst done ++ [.rename (src t) (dst t)] : List (Op P C))
          = moveAll src dst (done ++ [t]) := by simp [moveAll]
      have hnext := @ih (done ++ [t]) (by rwa [append_assoc])
      rw [← hmore, execAll_append] at hnext
      exact ⟨hback, hback, hnext⟩
    · rw [filter_cons_of_neg ht] at h
      rw [lookSteps, if_neg ht]
      exact ⟨hback, ih h⟩

theorem recovers_lookSteps (hd : Apart src dst) (h : Movable src dst (ts.filter here) f)
    (hafter : goal (execAll after f)) : Recovers goal (lookSteps here src dst after [] ts) f :=
  @recovers_lookSteps_done P C T _ _ src dst ts [] f goal after here hd h hafter

end Moves

end FileOps
