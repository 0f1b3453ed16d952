import Angie.Values.IsCmp

/-!
# What a comparison result expresses

`Cmp` returns a new id when it cannot answer, and stores nothing that would connect the id with the operands. An
assumption about the id therefore reaches a constraint between `zero` and the id only (`assume_fresh`), and a query
about the operands, which reads the constraints of its unknown operands (`isCmp_congr`), is left as open as it was
(`cmp_assumed_open`). So the interface's boolean, by which an assumption would set the constraint that it expresses, is
never had (`not_cmpExpresses`).
-/

namespace Angie

open Exec Trace

/-! ## Runs with ids that were given out -/

/-- The ids that the call is made with. -/
def VcOp.ids : VcOp → List ValueId
  | .cmp a b _ _ | .assume a b _ _ | .binOp a b _ _ => [a, b]
  | .assumeTrue a | .assumeFalse a | .bitNot a _ | .extendInt a _ _ _ | .truncateInt a _ _ => [a]
  | .createVal _ | .createConstIntVal _ | .elsewhere _ _ _ => []

/-- Calls are made with ids that were given out. -/
def VcOp.Adm (s : VcState) (op : VcOp) : Prop := ∀ v ∈ op.ids, s.Given v

instance VcOp.decidableAdm (s : VcState) (op : VcOp) : Decidable (op.Adm s) :=
  inferInstanceAs (Decidable (∀ v ∈ op.ids, s.Given v))

/-- The values of constraints were given out. -/
def VcState.ConstrGiven (s : VcState) : Prop :=
  ∀ (k : ConstraintId) c, s.vc.constrContainer[k]? = some c → s.Given c.first ∧ s.Given c.second

theorem VcOp.Adm.assumed {s : VcState} {op : VcOp} (h : op.Adm s) (hz : s.Given s.vc.zero) {c : BinaryConstraint}
    (hc : op.assumed s.vc.zero = some c) : s.Given c.first ∧ s.Given c.second := by
  cases op with
  | assume a b t r =>
    cases hc
    exact ⟨h a (by simp [VcOp.ids]), h b (by simp [VcOp.ids])⟩
  | assumeTrue a => cases hc; exact ⟨hz, h a (by simp [VcOp.ids])⟩
  | assumeFalse a => cases hc; exact ⟨hz, h a (by simp [VcOp.ids])⟩
  | _ => cases hc

theorem run_constrGiven [DataLayout] {es : VcHistory} {s : VcState} (h : VcRun VcOp.Adm es s) : s.ConstrGiven := by
  refine h.invariant (I := fun _ s => s.ConstrGiven) ?_ ?_
  · rintro s ⟨statics, _, rfl⟩ k c hk
    simp [new_eq] at hk
  · intro es s op hrun ha hs k c hk
    have hext := exec_extends op s
    have hz : s.Given s.vc.zero := (run_ok hrun).const.range _ _ (run_ok hrun).const.zero
    cases hop : op.assumed s.vc.zero with
    | none =>
      rw [(exec_grows hop).constrs] at hk
      exact ⟨hext.given (hs k c hk).1, hext.given (hs k c hk).2⟩
    | some d =>
      have hd := ha.assumed hz hop
      rcases (exec_inserts hop).constrs k c hk with hk | rfl
      · exact ⟨hext.given (hs k c hk).1, hext.given (hs k c hk).2⟩
      · exact ⟨hext.given hd.1, hext.given hd.2⟩

/-! ## What a query reads -/

namespace ValueContainer

variable {vc vc' : ValueContainer}

theorem isCmpConstant_congr (hc : vc'.constantContainer = vc.constantContainer) {x : ValueId} {n : Nat} {u : Word}
    {r : CmpFlags} {ids : List ConstraintId} (hk : ∀ k ∈ ids, vc'.constrContainer[k]? = vc.constrContainer[k]?) :
    vc'.isCmpConstant x n u r ids = vc.isCmpConstant x n u r ids := by
  induction ids with
  | nil => rfl
  | cons id ids ih =>
    have hrest := ih fun k h => hk k (List.mem_cons_of_mem _ h)
    have hat : vc'.constrAt id = vc.constrAt id := by simp only [constrAt, hk id List.mem_cons_self]
    simp only [isCmpConstant, hat, hc, hrest]

theorem isCmpUnknowns_congr {a b : ValueId} {r : CmpFlags} {ids : List ConstraintId}
    (hk : ∀ k ∈ ids, vc'.constrContainer[k]? = vc.constrContainer[k]?) :
    vc'.isCmpUnknowns a b r ids = vc.isCmpUnknowns a b r ids := by
  induction ids with
  | nil => rfl
  | cons id ids ih =>
    have hrest := ih fun k h => hk k (List.mem_cons_of_mem _ h)
    have hat : ∀ what, vc'.constrFind what id = vc.constrFind what id := by
      intro what
      simp only [constrFind, hk id List.mem_cons_self]
    simp only [isCmpUnknowns, hat, hrest]

/-- The constraints of `x` are the same in both containers. -/
def SameConstraints (vc vc' : ValueContainer) (x : ValueId) : Prop :=
  vc'.getConstraintIdVector x = vc.getConstraintIdVector x ∧
  ∀ k ∈ vc.getConstraintIdVector x, vc'.constrContainer[k]? = vc.constrContainer[k]?

/-- A query reads the constants and the constraints of its unknown operands. -/
theorem isCmp_congr [DataLayout] (hc : vc'.constantContainer = vc.constantContainer) {a b : ValueId}
    (ha : vc.constantContainer[a]? = none → vc.SameConstraints vc' a)
    (hb : vc.constantContainer[b]? = none → vc.SameConstraints vc' b) (t : Ty) (r : CmpFlags) :
    vc'.isCmp a b t r = vc.isCmp a b t r := by
  unfold isCmp
  rw [hc]
  cases h1 : vc.constantContainer[a]? with
  | some c =>
    cases h2 : vc.constantContainer[b]? with
    | some d => rfl
    | none =>
      obtain ⟨hl, hk⟩ := hb h2
      dsimp only
      rw [hl]
      exact isCmpConstant_congr hc hk
  | none =>
    obtain ⟨hl, hk⟩ := ha h1
    cases h2 : vc.constantContainer[b]? with
    | some d =>
      dsimp only
      rw [hl]
      exact isCmpConstant_congr hc hk
    | none =>
      dsimp only
      rw [hl]
      exact isCmpUnknowns_congr hk

end ValueContainer

/-! ## Assumptions about a new id -/

section Fresh

variable {s : VcState} {x : ValueId}

/-- An id that was not given out has no constraint. -/
theorem list_of_not_given (hs : StoreOk s) (hg : s.ConstrGiven) (hx : ¬ s.Given x) :
    s.vc.getConstraintIdVector x = [] := by
  rw [List.eq_nil_iff_forall_not_mem]
  intro k hk
  obtain ⟨c, hc, h | h⟩ := hs.stored x k hk
  · exact hx (h ▸ (hg k c hc).1)
  · exact hx (h ▸ (hg k c hc).2)

/-- The loop over the mutual constraints deletes nothing where there is none. -/
theorem invalidateMutual_none {c : BinaryConstraint} {ids : List ConstraintId}
    (h : ∀ k ∈ ids, ∃ d, s.vc.constrContainer[k]? = some d ∧ (c.first = d.first ∨ c.first = d.second) ∧
      ¬ c.SamePair d) : invalidateMutual c ids s = .ok () s := by
  induction ids with
  | nil => rfl
  | cons id ids ih =>
    obtain ⟨d, hd, hcon, hp⟩ := h id List.mem_cons_self
    obtain ⟨other, ho⟩ := d.getOther_of_contains hcon
    have hne : c.second ≠ other := by
      rintro rfl
      exact hp (BinaryConstraint.getOther_ok ho)
    unfold invalidateMutual
    rw [bind_of_ok (query_of_ok (ValueContainer.constrAt_of_some hd)), bind_of_ok (query_of_ok ho), if_neg hne, bind_of_ok (pure_apply () s)]
    exact ih fun k hk => h k (List.mem_cons_of_mem _ hk)

/-- A constraint between `zero` and an unknown without constraints is stored beside the others. -/
theorem insertConstraint_fresh (hs : StoreOk s) (hz : s.vc.isConstant s.vc.zero = true)
    (hl : s.vc.getConstraintIdVector x = []) (r : CmpFlags) :
    insertConstraint ⟨s.vc.zero, x, r⟩ s = .ok () (s.store ⟨s.vc.zero, x, r⟩) := by
  have h1 : invalidateOld ⟨s.vc.zero, x, r⟩ s = .ok () s := by
    unfold invalidateOld
    rw [bind_of_ok (get_apply s)]
    simp only [hz, hl, if_true]
    rfl
  refine insertConstraint_of_ok h1 (invalidateMutual_none fun k hk => ?_)
  obtain ⟨d, hd, hcon⟩ := hs.stored _ k hk
  refine ⟨d, hd, hcon, fun hp => ?_⟩
  have hmem := (hs.mem_list_iff hd).2 (hp.imp And.right And.right).symm
  rw [hl] at hmem
  cases hmem

/-- Nothing is known about an unknown without constraints. -/
theorem isCmp_zero_open [DataLayout] (hz : s.vc.constantContainer[s.vc.zero]? = some 0)
    (hx : s.vc.constantContainer[x]? = none) (hl : s.vc.getConstraintIdVector x = []) (t : Ty) (r : CmpFlags) :
    s.vc.isCmp x s.vc.zero t r = .ok none := by
  simp only [ValueContainer.isCmp, hx, hz, hl, ValueContainer.isCmpConstant]

/-- The assumption that a boolean is true, or that it is false. -/
def assumeDirection [DataLayout] (br : Bool) (x : ValueId) : VcM Unit := if br then assumeTrue x else assumeFalse x

/-- An assumption about an unknown without constraints stores its constraint with `zero`. -/
theorem assume_fresh [DataLayout] (hs : VcOk s) (hx : s.vc.constantContainer[x]? = none)
    (hl : s.vc.getConstraintIdVector x = []) (br : Bool) :
    assumeDirection br x s = .ok () (s.store ⟨s.vc.zero, x, if br then .neq else .eq⟩) := by
  have hz := hs.const.zero
  have hins := insertConstraint_fresh hs.store (isConstant_iff.2 ⟨0, hz⟩) hl
  have hopen := isCmp_zero_open hz hx hl (.int 64)
  cases br with
  | true =>
    simp only [assumeDirection, if_true, assumeTrue_eq, insertUnless, ValueContainer.isTrue, hopen]
    exact hins .neq
  | false =>
    simp only [assumeDirection, Bool.false_eq_true, if_false, assumeFalse_eq, insertUnless, ValueContainer.isFalse,
      hopen]
    exact hins .eq

end Fresh

/-! ## Comparison results -/

section Cmp

variable [DataLayout] {es : VcHistory} {s : VcState} {a b : ValueId} {t : Ty} {r : CmpFlags}

/-- The boolean that `Cmp` returns stands for the comparison: assuming it in a direction decides the comparison in that
direction. -/
def CmpExpresses (s : VcState) (a b : ValueId) (t : Ty) (r : CmpFlags) (br : Bool) : Prop :=
  ∃ c s' u, cmp a b t r s = .ok c s' ∧ assumeDirection br c s' = .ok () u ∧ u.vc.isCmp a b t r = .ok (some br)

/-- A comparison that is open stays open after its result is assumed, in either direction. -/
theorem cmp_assumed_open (hrun : VcRun VcOp.Adm es s) (ha : s.Given a) (hb : s.Given b)
    (hopen : s.vc.isCmp a b t r = .ok none) (br : Bool) :
    ∃ c s' u, cmp a b t r s = .ok c s' ∧ assumeDirection br c s' = .ok () u ∧ u.vc.isCmp a b t r = .ok none := by
  have hok := run_ok hrun
  have hconst : ConstOk s := hok.const
  have hn : ¬ s.Given s.statics.nextIdToGive := fun h => Int.lt_irrefl _ h.2
  have hl := list_of_not_given hok.store (run_constrGiven hrun) hn
  have hx : s.vc.constantContainer[s.statics.nextIdToGive]? = none := by
    cases h : s.vc.constantContainer[s.statics.nextIdToGive]? with
    | none => rfl
    | some c => exact absurd (hconst.range _ c h) hn
  -- the result is a new id, and the container is as it was
  have hcmp : cmp a b t r s = .ok s.statics.nextIdToGive
      { s with statics.nextIdToGive := s.statics.nextIdToGive + 1 } := by
    unfold cmp
    rw [bind_of_ok (query_of_ok hopen)]
    rfl
  have hok' := (grows_next s).vcOk hok
  refine ⟨_, _, _, hcmp, assume_fresh hok' hx hl br, ?_⟩
  -- the operands have the constraints that they had
  have hsame : ∀ y, s.Given y → s.vc.constantContainer[y]? = none →
      s.vc.SameConstraints (s.vc.withConstraint s.statics.nextConstraintIdToGive
        ⟨s.vc.zero, s.statics.nextIdToGive, if br then .neq else .eq⟩) y := by
    intro y hy hyc
    have h1 : y ≠ s.vc.zero := by
      rintro rfl
      rw [hconst.zero] at hyc
      cases hyc
    have h2 : y ≠ s.statics.nextIdToGive := fun h => hn (h ▸ hy)
    constructor
    · simp [h1, h2]
    · intro k hk
      obtain ⟨d, hd, _⟩ := hok.store.stored y k hk
      simp [Nat.ne_of_gt (hok.store.fresh k d hd)]
  rw [← hopen]
  refine ValueContainer.isCmp_congr ?_ (hsame a ha) (hsame b hb) t r
  rfl

theorem not_cmpExpresses_of_open {br : Bool} (h : ∃ c s' u, cmp a b t r s = .ok c s' ∧
    assumeDirection br c s' = .ok () u ∧ u.vc.isCmp a b t r = .ok none) : ¬ CmpExpresses s a b t r br := by
  rintro ⟨c, s', u, h1, h2, h3⟩
  obtain ⟨c', s'', u', h1', h2', h3'⟩ := h
  rw [h1'] at h1
  cases h1
  rw [h2'] at h2
  cases h2
  rw [h3'] at h3
  cases h3

/-- So the result of a comparison that is open never expresses it. -/
theorem not_cmpExpresses (hrun : VcRun VcOp.Adm es s) (ha : s.Given a) (hb : s.Given b)
    (hopen : s.vc.isCmp a b t r = .ok none) (br : Bool) : ¬ CmpExpresses s a b t r br :=
  not_cmpExpresses_of_open (cmp_assumed_open hrun ha hb hopen br)

end Cmp

section Examples

attribute [local instance] Ty.x86

/-- Two unknowns of 8 bits. -/
def twoBytes : VcHistory × VcState :=
  play VcOp.exec [] (VcState.new {}) [.createVal (.int 8), .createVal (.int 8)]

theorem twoBytes_run : VcRun VcOp.Adm twoBytes.1 twoBytes.2 :=
  Run.play (Run.start ⟨{}, Int.le_refl 0, rfl⟩) ⟨by decide, by decide, trivial⟩

theorem twoBytes_open : twoBytes.2.vc.isCmp 1 2 (.int 8) .eq = .ok none := rfl

/-- The result of comparing them for equality, assumed true, leaves open whether they are equal. -/
theorem not_cmpExpresses_twoBytes : ¬ CmpExpresses twoBytes.2 1 2 (.int 8) .eq true :=
  not_cmpExpresses twoBytes_run (by decide) (by decide) twoBytes_open true

/-- Assumed false, it does not make them different either. -/
theorem twoBytes_not_expressed : twoBytes.2.vc.isCmp 1 2 (.int 8) .eq = .ok none ∧
    ¬ (CmpExpresses twoBytes.2 1 2 (.int 8) .eq true ∧ CmpExpresses twoBytes.2 1 2 (.int 8) .eq false) := by
  refine ⟨twoBytes_open, fun h => ?_⟩
  exact not_cmpExpresses_of_open (cmp_assumed_open twoBytes_run (by decide) (by decide) twoBytes_open false) h.2

end Examples

end Angie
