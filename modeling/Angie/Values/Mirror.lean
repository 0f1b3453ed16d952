import Angie.Values.IsCmp

/-!
# Queries with their operands exchanged

A relation asked with its operands exchanged is its mirror image (`CmpFlags.mirrored`). The constructor of the
constraints means to store the lower id first and to mirror the relation, but it compares its default-constructed
members, so the operands stay as they are given and the queries between two unknowns do not look at their order. Hence
`IsCmp` answers the mirrored query alike for constants and for unsigned relations, and for two unknowns exactly when no
signed order is asked for that a signed order relates them by (`isCmp_mirrored_iff`).
-/

namespace Angie

open Exec Trace ValueContainer

/-! ## Relations -/

/-- The relation between the operands in the other order. -/
def CmpFlags.mirrored : CmpFlags → CmpFlags
  | .gt => .lt
  | .gtEq => .ltEq
  | .lt => .gt
  | .ltEq => .gtEq
  | .unsigGt => .unsigLt
  | .unsigGtEq => .unsigLtEq
  | .unsigLt => .unsigGt
  | .unsigLtEq => .unsigGtEq
  | r => r

/-- The four relations that order signed values. -/
def CmpFlags.isSignedOrder : CmpFlags → Bool
  | .gt | .gtEq | .lt | .ltEq => true
  | _ => false

/-- The constructor of the constraints mirrors the ten relations in the same way. -/
theorem mirror_eq {r : CmpFlags} (hr : r.isRelation = true) : BinaryConstraint.mirror r = .ok r.mirrored := by
  cases r <;> first | rfl | cases hr

/-- The mirrored relation holds of the exchanged operands. -/
theorem holds_mirrored {w : ℕ} (r : CmpFlags) (x y : BitVec w) : r.mirrored.holds y x = r.holds x y := by
  cases r with
  | eq | neq => simp only [CmpFlags.mirrored, CmpFlags.holds, bne, Bool.beq_comm]
  | _ => rfl

theorem cmpConstants_mirrored (n : Nat) (c d : Word) (r : CmpFlags) :
    cmpConstants n d c r.mirrored = cmpConstants n c d r := by
  cases r with
  | eq | neq => simp only [CmpFlags.mirrored, cmpConstants, bne, Bool.beq_comm]
  | _ => rfl

/-- Only equations and inequations are decided by a constraint with a constant, and these are their own mirrors. -/
theorem decideConstant_mirrored (rel : CmpFlags) (u d : Word) (r : CmpFlags) :
    decideConstant rel u d r.mirrored = decideConstant rel u d r := by
  cases r <;> rfl

/-- A constraint between two unknowns decides both queries alike, unless it and they are signed orders. -/
theorem decideUnknowns_mirrored_iff (rel r : CmpFlags) :
    decideUnknowns rel r = decideUnknowns rel r.mirrored ↔ ¬ (r.isSignedOrder = true ∧ rel.isSignedOrder = true) := by
  cases r <;> cases rel <;> decide

/-! ## Queries -/

section Unknowns

variable {s : VcState} {x y : ValueId} {q : CmpFlags}

theorem isCmpUnknowns_of_between (hs : StoreOk s) {k : ConstraintId} {rel : CmpFlags} (hk : s.Between k rel x y) :
    s.vc.isCmpUnknowns x y q (s.vc.getConstraintIdVector x) = .ok (decideUnknowns rel q) := by
  have hiff : ∀ ans, s.vc.isCmpUnknowns x y q (s.vc.getConstraintIdVector x) = .ok (some ans) ↔
      ∃ k rel, s.Between k rel x y ∧ decideUnknowns rel q = some ans := fun ans => isCmpUnknowns_iff hs
  rw [isCmpUnknowns_eq (hs.stored x)] at hiff ⊢
  refine congrArg Except.ok (Option.ext fun ans => ?_)
  constructor
  · intro h
    obtain ⟨k', rel', hk', hdec⟩ := (hiff ans).1 (congrArg Except.ok h)
    rwa [(hk.unique hs hk').2] at hdec
  · intro hdec
    exact Except.ok.inj ((hiff ans).2 ⟨k, rel, hk, hdec⟩)

theorem isCmpUnknowns_of_unrelated (hs : StoreOk s) (hn : ∀ k rel, ¬ s.Between k rel x y) :
    s.vc.isCmpUnknowns x y q (s.vc.getConstraintIdVector x) = .ok none := by
  rw [isCmpUnknowns_eq (hs.stored x), List.findSome?_eq_none_iff.2]
  intro k _
  cases h : s.vc.pairVerdict x y q k with
  | none => rfl
  | some ans =>
    obtain ⟨rel, hk, -⟩ := pairVerdict_some h
    exact absurd hk (hn k rel)

end Unknowns

/-- Two unknowns that a constraint orders as signed values, whichever of them it names first. -/
def VcState.SignedOrdered (s : VcState) (a b : ValueId) : Prop :=
  s.vc.constantContainer[a]? = none ∧ s.vc.constantContainer[b]? = none ∧
  ∃ k rel, s.Between k rel a b ∧ rel.isSignedOrder = true

section Runs

variable [DataLayout] {Adm : VcState → VcOp → Prop} {es : VcHistory} {s : VcState}

theorem isCmp_mirrored_unknowns (hs : StoreOk s) {a b : ValueId} (ha : s.vc.constantContainer[a]? = none)
    (hb : s.vc.constantContainer[b]? = none) (t : Ty) (r : CmpFlags) :
    s.vc.isCmp a b t r = s.vc.isCmp b a t r.mirrored ↔ ¬ (r.isSignedOrder = true ∧ s.SignedOrdered a b) := by
  simp only [isCmp, ha, hb]
  by_cases h : ∃ k rel, s.Between k rel a b
  · obtain ⟨k, rel, hk⟩ := h
    rw [isCmpUnknowns_of_between hs hk, isCmpUnknowns_of_between hs hk.symm, Except.ok.injEq,
      decideUnknowns_mirrored_iff]
    refine not_congr (and_congr_right fun _ => ⟨fun hrel => ⟨ha, hb, k, rel, hk, hrel⟩, ?_⟩)
    rintro ⟨-, -, k', rel', hk', hrel⟩
    -- there is only one constraint between two values
    rwa [(hk.unique hs hk').2] at hrel
  · have hab : ∀ k rel, ¬ s.Between k rel a b := fun k rel hk => h ⟨k, rel, hk⟩
    rw [isCmpUnknowns_of_unrelated hs hab, isCmpUnknowns_of_unrelated hs fun k rel hk => hab k rel hk.symm]
    refine iff_of_true rfl ?_
    rintro ⟨-, -, -, k, rel, hk, -⟩
    exact hab k rel hk

/-- In every container that calls reach, a query and its mirror image are answered alike exactly when they are no
signed orders between two unknowns that a signed order relates. -/
theorem isCmp_mirrored_iff (hrun : VcRun Adm es s) (a b : ValueId) (t : Ty) (r : CmpFlags) :
    s.vc.isCmp a b t r = s.vc.isCmp b a t r.mirrored ↔ ¬ (r.isSignedOrder = true ∧ s.SignedOrdered a b) := by
  have hs := (run_ok hrun).store
  cases ha : s.vc.constantContainer[a]? with
  | some c =>
    refine iff_of_true ?_ fun h => by simp [VcState.SignedOrdered, ha] at h
    cases hb : s.vc.constantContainer[b]? with
    | some d => simp only [isCmp, ha, hb, cmpConstants_mirrored]
    | none =>
      simp only [isCmp, ha, hb, isCmpConstant_eq (hs.stored b), decideConstant_mirrored]
  | none =>
    cases hb : s.vc.constantContainer[b]? with
    | some d =>
      refine iff_of_true ?_ fun h => by simp [VcState.SignedOrdered, hb] at h
      simp only [isCmp, ha, hb, isCmpConstant_eq (hs.stored a), decideConstant_mirrored]
    | none => exact isCmp_mirrored_unknowns hs ha hb t r

end Runs

/-! ## An order that is asked for from both sides -/

section Examples

attribute [local instance] Ty.x86

/-- Two unknown bytes, the second assumed to be at least the first. -/
def assumeAtLeast : VcHistory × VcState :=
  play VcOp.exec [] (VcState.new {}) [.createVal (.int 8), .createVal (.int 8), .assume 2 1 (.int 8) .gtEq]

theorem assumeAtLeast_run : VcRun (fun _ _ => True) assumeAtLeast.1 assumeAtLeast.2 :=
  Run.play (Run.start ⟨{}, Int.le_refl 0, rfl⟩) ⟨trivial, trivial, trivial, trivial⟩

/-- In the order of the assumption the query is answered, its mirror image is open. -/
theorem isCmp_assumeAtLeast : assumeAtLeast.2.vc.isCmp 2 1 (.int 8) .gtEq = .ok (some true) ∧
    assumeAtLeast.2.vc.isCmp 1 2 (.int 8) .ltEq = .ok none := by
  constructor <;> decide +kernel

theorem not_isCmp_mirrored : ¬ ∀ (es : VcHistory) (s : VcState), VcRun (fun _ _ => True) es s →
    ∀ (a b : ValueId) (w : ℕ) (r : CmpFlags), 1 ≤ w → w ≤ 64 → r.isRelation = true →
      s.vc.isCmp a b (.int w) r = s.vc.isCmp b a (.int w) r.mirrored := by
  intro h
  have hmirrored := h _ _ assumeAtLeast_run 2 1 8 .gtEq (by decide) (by decide) rfl
  simp only [CmpFlags.mirrored, isCmp_assumeAtLeast.1, isCmp_assumeAtLeast.2] at hmirrored
  cases hmirrored

/-- The equation asked for is answered alike. -/
theorem isCmp_mirrored_equal : assumeAtLeast.2.vc.isCmp 2 1 (.int 8) .eq =
    assumeAtLeast.2.vc.isCmp 1 2 (.int 8) .eq ↔
      ¬ (CmpFlags.isSignedOrder .eq = true ∧ assumeAtLeast.2.SignedOrdered 2 1) :=
  isCmp_mirrored_iff assumeAtLeast_run 2 1 (.int 8) .eq

end Examples

end Angie
