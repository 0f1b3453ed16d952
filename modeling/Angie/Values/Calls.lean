import Angie.Lib.Trace
import Angie.Values.Constants

/-!
# Runs of calls on a container

`VcOp` lists the modifying calls of a container, together with what the rest of the process does to the static
counters. A call either grows the container or inserts the one constraint it assumes (`exec_grows`, `exec_inserts`),
so `StoreOk` and `ConstOk` hold of every container that calls reach from a new one (`run_ok`).
-/

namespace Angie

open Exec Trace

inductive VcOp where
  | createVal (type : Ty)
  | createConstIntVal (value : Word)
  | cmp (first second : ValueId) (type : Ty) (flags : CmpFlags)
  | assume (first second : ValueId) (type : Ty) (flags : CmpFlags)
  | assumeTrue (first : ValueId)
  | assumeFalse (first : ValueId)
  | binOp (first second : ValueId) (type : Ty) (options : BinaryOpOptions)
  | bitNot (first : ValueId) (type : Ty)
  | extendInt (first : ValueId) (sourceType targetType : Ty) (flags : ArithFlags)
  | truncateInt (first : ValueId) (sourceType targetType : Ty)
  /-- Other containers and graphs draw values, constraints and objects from the counters. -/
  | elsewhere (values constraints objects : Nat)
  deriving DecidableEq

/-- The counters after others drew from them. -/
def Statics.skip (s : Statics) (values constraints objects : Nat) : Statics :=
  { nextIdToGive := s.nextIdToGive + values
    nextConstraintIdToGive := s.nextConstraintIdToGive + constraints
    nextObjectIdToGive := s.nextObjectIdToGive + objects }

/-- The constraint that an assumption is about to insert. -/
def VcOp.assumed (zero : ValueId) : VcOp → Option BinaryConstraint
  | .assume a b _ r => some ⟨a, b, r⟩
  | .assumeTrue a => some ⟨zero, a, .neq⟩
  | .assumeFalse a => some ⟨zero, a, .eq⟩
  | _ => none

section Calls

variable [DataLayout]

def VcOp.run : VcOp → VcM (Option ValueId)
  | .createVal t => some <$> Angie.createVal t
  | .createConstIntVal w => some <$> Angie.createConstIntVal w
  | .cmp a b t r => some <$> Angie.cmp a b t r
  | .assume a b t r => (fun _ => none) <$> Angie.assume a b t r
  | .assumeTrue a => (fun _ => none) <$> Angie.assumeTrue a
  | .assumeFalse a => (fun _ => none) <$> Angie.assumeFalse a
  | .binOp a b t o => some <$> Angie.binOp a b t o
  | .bitNot a t => some <$> Angie.bitNot a t
  | .extendInt a t u f => some <$> Angie.extendInt a t u f
  | .truncateInt a t u => some <$> Angie.truncateInt a t u
  | .elsewhere n m k => fun s => .ok none { s with statics := s.statics.skip n m k }

/-- A call with its answer; one that throws leaves the container as it stood. -/
def VcOp.exec (op : VcOp) (s : VcState) : Except Exn (Option ValueId) × VcState :=
  match op.run s with
  | .ok v t => (.ok v, t)
  | .error e t => (.error e, t)

theorem VcOp.exec_state (op : VcOp) (s : VcState) : (op.exec s).2 = final (op.run s) := by
  unfold VcOp.exec
  cases op.run s <;> rfl

theorem VcOp.run_of_exec {op : VcOp} {s : VcState} {r : Option ValueId} (h : (op.exec s).1 = .ok r) :
    op.run s = .ok r (op.exec s).2 := by
  unfold VcOp.exec at h ⊢
  cases hr : op.run s with
  | ok v t => rw [hr] at h; cases h; rfl
  | error e t => rw [hr] at h; cases h

end Calls

/-! ## One call -/

theorem grows_skip (s : VcState) (n m k : Nat) : Grows s { s with statics := s.statics.skip n m k } :=
  grows_statics (by simp only [Statics.skip]; lia) (by simp only [Statics.skip]; lia)
    (by simp only [Statics.skip]; lia)

/-- What the three assumptions have in common: nothing happens when the query already says so, else the constraint is
inserted. -/
def insertUnless (q : ValueContainer → Except Exn Tribool) (c : ValueContainer → BinaryConstraint) : VcM Unit :=
  fun s =>
    match q s.vc with
    | .error e => .error e s
    | .ok b => if b = some true then .ok () s else insertConstraint (c s.vc) s

theorem assume_eq [DataLayout] (a b : ValueId) (t : Ty) (r : CmpFlags) :
    assume a b t r = insertUnless (·.isCmp a b t r) fun _ => ⟨a, b, r⟩ := by
  funext s
  unfold assume insertUnless
  rw [bind_apply, query_apply]
  dsimp only
  cases s.vc.isCmp a b t r with
  | error e => rfl
  | ok ans => dsimp only; split <;> rfl

theorem assumeTrue_eq [DataLayout] (a : ValueId) :
    assumeTrue a = insertUnless (·.isTrue a (.int 64)) fun vc => ⟨vc.zero, a, .neq⟩ := by
  funext s
  unfold assumeTrue insertUnless
  rw [bind_apply, query_apply]
  dsimp only
  cases s.vc.isTrue a (.int 64) with
  | error e => rfl
  | ok ans => dsimp only; split <;> rfl

theorem assumeFalse_eq [DataLayout] (a : ValueId) :
    assumeFalse a = insertUnless (·.isFalse a (.int 64)) fun vc => ⟨vc.zero, a, .eq⟩ := by
  funext s
  unfold assumeFalse insertUnless
  rw [bind_apply, query_apply]
  dsimp only
  cases s.vc.isFalse a (.int 64) with
  | error e => rfl
  | ok ans => dsimp only; split <;> rfl

theorem insertUnless_inserts (q : ValueContainer → Except Exn Tribool) {c : ValueContainer → BinaryConstraint}
    {s : VcState} {d : BinaryConstraint} (hd : c s.vc = d) : Inserts d s (final (insertUnless q c s)) := by
  subst hd
  unfold insertUnless
  cases q s.vc with
  | error e => exact (Deletes.refl s).inserts _
  | ok b =>
    dsimp only
    split
    · exact (Deletes.refl s).inserts _
    · exact steps_insertConstraint (c s.vc) s

theorem insertUnless_stores (q : ValueContainer → Except Exn Tribool) (c : ValueContainer → BinaryConstraint)
    {s : VcState} {k : ConstraintId} {d : BinaryConstraint}
    (h : (final (insertUnless q c s)).vc.constrContainer[k]? = some d) :
    s.vc.constrContainer[k]? = some d ∨ k = s.statics.nextConstraintIdToGive := by
  unfold insertUnless at h
  cases hq : q s.vc with
  | error e => rw [hq] at h; exact Or.inl h
  | ok b =>
    rw [hq] at h
    dsimp only at h
    split at h
    · exact Or.inl h
    · exact insertConstraint_stores h

section Step

variable [DataLayout]

/-- A call that assumes nothing grows the container. -/
theorem exec_grows {op : VcOp} {s : VcState} (h : op.assumed s.vc.zero = none) : Grows s (op.exec s).2 := by
  rw [VcOp.exec_state]
  cases op with
  | createVal t => rw [VcOp.run, final_map]; exact (yields_createVal t).steps s
  | createConstIntVal w => rw [VcOp.run, final_map]; exact (yields_createConstIntVal w).steps s
  | cmp a b t r => rw [VcOp.run, final_map]; exact (yields_cmp a b t r).steps s
  | binOp a b t o => rw [VcOp.run, final_map]; exact (yields_binOp a b t o).steps s
  | bitNot a t => rw [VcOp.run, final_map]; exact (yields_bitNot a t).steps s
  | extendInt a t u f => rw [VcOp.run, final_map]; exact (yields_extendInt a t u f).steps s
  | truncateInt a t u => rw [VcOp.run, final_map]; exact (yields_truncateInt a t u).steps s
  | elsewhere n m k => exact grows_skip s n m k
  | assume | assumeTrue | assumeFalse => cases h

/-- An assumption asks its query and inserts the constraint. -/
theorem exec_assumed {op : VcOp} {s : VcState} {c : BinaryConstraint} (h : op.assumed s.vc.zero = some c) :
    ∃ (q : ValueContainer → Except Exn Tribool) (d : ValueContainer → BinaryConstraint), d s.vc = c ∧
      (op.exec s).2 = final (insertUnless q d s) := by
  rw [VcOp.exec_state]
  cases op with
  | assume a b t r =>
    cases h
    exact ⟨_, fun _ => ⟨a, b, r⟩, rfl, by rw [VcOp.run, final_map, assume_eq]⟩
  | assumeTrue a =>
    cases h
    exact ⟨_, fun vc => ⟨vc.zero, a, .neq⟩, rfl, by rw [VcOp.run, final_map, assumeTrue_eq]⟩
  | assumeFalse a =>
    cases h
    exact ⟨_, fun vc => ⟨vc.zero, a, .eq⟩, rfl, by rw [VcOp.run, final_map, assumeFalse_eq]⟩
  | _ => cases h

/-- An assumption changes the constraints only, and stores no other one than its own. -/
theorem exec_inserts {op : VcOp} {s : VcState} {c : BinaryConstraint} (h : op.assumed s.vc.zero = some c) :
    Inserts c s (op.exec s).2 := by
  obtain ⟨q, d, hd, heq⟩ := exec_assumed h
  rw [heq]
  exact insertUnless_inserts q hd

/-- A constraint that a call stores has the next id. -/
theorem exec_stores (op : VcOp) {s : VcState} {k : ConstraintId} {d : BinaryConstraint}
    (h : (op.exec s).2.vc.constrContainer[k]? = some d) :
    s.vc.constrContainer[k]? = some d ∨ k = s.statics.nextConstraintIdToGive := by
  cases ha : op.assumed s.vc.zero with
  | none =>
    rw [(exec_grows ha).constrs] at h
    exact Or.inl h
  | some c =>
    obtain ⟨q, e, -, heq⟩ := exec_assumed ha
    rw [heq] at h
    exact insertUnless_stores q e h

/-- An id that a call returns is new or names a constant. -/
theorem exec_fresh {op : VcOp} {s : VcState} {v : ValueId} (hs : ConstOk s) (h : (op.exec s).1 = .ok (some v)) :
    Fresh s (op.exec s).2 v := by
  have hrun := VcOp.run_of_exec h
  have hmap : ∀ {m : VcM ValueId}, Yields m → (some <$> m) s = .ok (some v) (op.exec s).2 →
      Fresh s (op.exec s).2 v := by
    intro m hm hok
    obtain ⟨v', hv', heq⟩ := map_ok hok
    cases heq
    exact hm.fresh hs hv'
  cases op with
  | createVal t => exact hmap (yields_createVal t) hrun
  | createConstIntVal w => exact hmap (yields_createConstIntVal w) hrun
  | cmp a b t r => exact hmap (yields_cmp a b t r) hrun
  | binOp a b t o => exact hmap (yields_binOp a b t o) hrun
  | bitNot a t => exact hmap (yields_bitNot a t) hrun
  | extendInt a t u f => exact hmap (yields_extendInt a t u f) hrun
  | truncateInt a t u => exact hmap (yields_truncateInt a t u) hrun
  | assume | assumeTrue | assumeFalse =>
    obtain ⟨_, _, heq⟩ := map_ok hrun
    cases heq
  | elsewhere n m k => cases h

theorem exec_extends (op : VcOp) (s : VcState) : Extends s (op.exec s).2 := by
  cases h : op.assumed s.vc.zero with
  | none => exact (exec_grows h).toExtends
  | some c => exact (exec_inserts h).extends

/-! ## Runs -/

/-- The invariant of a container. -/
structure VcOk (s : VcState) : Prop where
  store : StoreOk s
  const : ConstOk s

omit [DataLayout] in
theorem Grows.vcOk {s t : VcState} (h : Grows s t) (hs : VcOk s) : VcOk t where
  const := h.keeps hs.const
  store := by
    have hl : ∀ v, t.vc.getConstraintIdVector v = s.vc.getConstraintIdVector v := fun v => by
      simp only [ValueContainer.getConstraintIdVector, h.lists]
    refine ⟨?_, ?_, ?_, ?_⟩
    · intro k c hk
      rw [h.constrs] at hk
      rw [hl, hl]; exact hs.store.listed k c hk
    · intro v k hk
      rw [hl] at hk
      rw [h.constrs]; exact hs.store.stored v k hk
    · rw [h.constrs]; exact hs.store.single
    · intro k c hk
      rw [h.constrs] at hk
      exact Nat.lt_of_lt_of_le (hs.store.fresh k c hk) h.nextConstraintId

omit [DataLayout] in
theorem Inserts.vcOk {c : BinaryConstraint} {s t : VcState} (h : Inserts c s t) (hs : VcOk s) : VcOk t :=
  ⟨h.keeps hs.store, h.extends.keeps hs.const⟩

theorem exec_vcOk (op : VcOp) {s : VcState} (hs : VcOk s) : VcOk (op.exec s).2 := by
  cases h : op.assumed s.vc.zero with
  | none => exact (exec_grows h).vcOk hs
  | some c => exact (exec_inserts h).vcOk hs

/-- The constructor has just run. -/
def IsNew (s : VcState) : Prop := ∃ statics : Statics, 0 ≤ statics.nextIdToGive ∧ s = VcState.new statics

/-- Runs of admissible calls on a new container. -/
abbrev VcRun (Adm : VcState → VcOp → Prop) := Run VcOp.exec Adm IsNew

theorem run_ok {Adm : VcState → VcOp → Prop} {es : List (Event VcState VcOp (Except Exn (Option ValueId)))}
    {s : VcState} (h : VcRun Adm es s) : VcOk s := by
  refine h.invariant (I := fun _ s => VcOk s) ?_ ?_
  · rintro s ⟨statics, h0, rfl⟩
    exact ⟨new_storeOk statics, new_constOk h0⟩
  · intro es s op _ _ hs
    exact exec_vcOk op hs

end Step

end Angie
