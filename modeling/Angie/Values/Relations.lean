import Angie.Lib.Bits
import Angie.Values.Container

/-!
# What the relations mean

A relation of `CmpFlags` compares words of any width, signed or unsigned as flagged (`CmpFlags.holds`). The masks of
the container compute at the width of the type (`ripBits_eq`, `signExtend64_eq`), so comparing two constants decides
the relation (`cmpConstants_eq`). What a stored constraint says about a query is true when the query names the
operands in the order of the constraint (`decideUnknowns_sound`). In the other order it is still true of the queries
that the constraint does not settle (`decideUnknowns_symm`), and of those it settles exactly on equal operands
(`decideUnknowns_reversed`).
-/

namespace Angie

/-! ## Masks -/

theorem ripBits_eq {n : Nat} (h : n ≤ 64) (c : Word) : ripBits n c = (c.setWidth n).setWidth 64 := by
  unfold ripBits
  split
  · exact Bits.and_mask_eq ‹_› c
  · obtain rfl : n = 64 := by omega
    simp

theorem signExtend64_eq {n : Nat} (h1 : 1 ≤ n) (h : n ≤ 64) (c : Word) :
    signExtend64 n c = (c.setWidth n).signExtend 64 := by
  unfold signExtend64
  simp only [ripBits_eq h]
  exact Bits.neg_sign_or_eq h1 h _

/-- The masked word is read as the truncated one. -/
theorem toNat_ripBits {n : Nat} (h : n ≤ 64) (c : Word) : (ripBits n c).toNat = (c.setWidth n).toNat := by
  rw [ripBits_eq h, BitVec.toNat_setWidth_of_le h]

theorem toInt_signExtend64 {n : Nat} (h1 : 1 ≤ n) (h : n ≤ 64) (c : Word) :
    (signExtend64 n c).toInt = (c.setWidth n).toInt := by
  rw [signExtend64_eq h1 h, BitVec.toInt_signExtend_of_le h]

theorem ripBits_inj {n : Nat} (h : n ≤ 64) {c d : Word} : ripBits n c = ripBits n d ↔ c.setWidth n = d.setWidth n := by
  rw [ripBits_eq h, ripBits_eq h]
  refine ⟨fun he => ?_, fun he => by rw [he]⟩
  have := congrArg (BitVec.setWidth n) he
  simpa [BitVec.setWidth_setWidth_of_le _ h] using this

/-! ## Relations -/

/-- The relations proper: the ten flags that compare. -/
def CmpFlags.isRelation : CmpFlags → Bool
  | .eq | .neq | .gt | .gtEq | .lt | .ltEq | .unsigGt | .unsigGtEq | .unsigLt | .unsigLtEq => true
  | _ => false

/-- `x r y`. A flag that is no relation says nothing. -/
def CmpFlags.holds {w : Nat} : CmpFlags → BitVec w → BitVec w → Bool
  | .eq, x, y => x == y
  | .neq, x, y => x != y
  | .gt, x, y => y.slt x
  | .gtEq, x, y => y.sle x
  | .lt, x, y => x.slt y
  | .ltEq, x, y => x.sle y
  | .unsigGt, x, y => y.ult x
  | .unsigGtEq, x, y => y.ule x
  | .unsigLt, x, y => x.ult y
  | .unsigLtEq, x, y => x.ule y
  | _, _, _ => true

/-- The stored relation `rel` settles the signed order query `r`: it is strict, or it is `r` or its complement. -/
def CmpFlags.settles (rel r : CmpFlags) : Bool :=
  match rel, r with
  | .gt, .gt | .gt, .gtEq | .gt, .lt | .gt, .ltEq => true
  | .lt, .gt | .lt, .gtEq | .lt, .lt | .lt, .ltEq => true
  | .gtEq, .gtEq | .gtEq, .lt => true
  | .ltEq, .ltEq | .ltEq, .gt => true
  | _, _ => false

open ValueContainer

variable {w : Nat}

/-- Comparing two constants decides every relation at the width. -/
theorem cmpConstants_eq (h1 : 1 ≤ w) (h : w ≤ 64) (c d : Word) {r : CmpFlags} (hr : r.isRelation = true) :
    cmpConstants w c d r = .ok (some (r.holds (c.setWidth w) (d.setWidth w))) := by
  have he : (ripBits w c == ripBits w d) = (c.setWidth w == d.setWidth w) := by
    rw [Bool.eq_iff_iff, beq_iff_eq, beq_iff_eq, ripBits_inj h]
  cases r with
  | eq => simp only [cmpConstants, CmpFlags.holds, he]
  | neq => simp only [cmpConstants, CmpFlags.holds, bne, he]
  | gt | lt => simp only [cmpConstants, CmpFlags.holds, BitVec.slt, toInt_signExtend64 h1 h]
  | gtEq | ltEq => simp only [cmpConstants, CmpFlags.holds, BitVec.sle, toInt_signExtend64 h1 h]
  | unsigGt | unsigLt => simp only [cmpConstants, CmpFlags.holds, BitVec.ult, toNat_ripBits h]
  | unsigGtEq | unsigLtEq => simp only [cmpConstants, CmpFlags.holds, BitVec.ule, toNat_ripBits h]
  | default | unsigned | float | unordered => cases hr

/-- What a constraint of an unknown `x` with the constant `d` says about `x` and the constant `c`, whichever operand
of the constraint and of the query `x` is. -/
theorem decideConstant_sound (h : w ≤ 64) {rel r : CmpFlags} {c d : Word} {x : BitVec w} {b : Bool}
    (hb : decideConstant rel (ripBits w c) (ripBits w d) r = some b)
    (hx : rel.holds x (d.setWidth w) = true ∨ rel.holds (d.setWidth w) x = true) :
    b = r.holds (c.setWidth w) x ∧ b = r.holds x (c.setWidth w) := by
  have heq : rel = .eq → x = d.setWidth w := by
    rintro rfl
    rcases hx with hx | hx
    · exact eq_of_beq hx
    · exact (eq_of_beq hx).symm
  have hne : rel = .neq → x ≠ d.setWidth w := by
    rintro rfl
    rcases hx with hx | hx
    · exact bne_iff_ne.1 hx
    · exact (bne_iff_ne.1 hx).symm
  have hbeq : (ripBits w c == ripBits w d) = (c.setWidth w == d.setWidth w) := by
    rw [Bool.eq_iff_iff, beq_iff_eq, beq_iff_eq, ripBits_inj h]
  cases r with
  | eq | neq =>
    simp only [decideConstant] at hb
    split at hb
    · rename_i hrel
      cases hb
      rw [heq hrel]
      simp [CmpFlags.holds, bne, hbeq, Bool.beq_comm]
    · split at hb
      · rename_i _ hrel
        cases hb
        have hcd := (ripBits_inj h).1 hrel.2
        have := hne hrel.1
        rw [← hcd] at this
        simp [CmpFlags.holds, this, this.symm]
      · cases hb
  | _ => cases hb

/-- The relations that a constraint between two unknowns can decide compare signed values. -/
theorem holds_iff_toInt (x y : BitVec w) :
    (CmpFlags.eq.holds x y = true ↔ x.toInt = y.toInt) ∧ (CmpFlags.neq.holds x y = true ↔ x.toInt ≠ y.toInt) ∧
    (CmpFlags.gt.holds x y = true ↔ y.toInt < x.toInt) ∧ (CmpFlags.gtEq.holds x y = true ↔ y.toInt ≤ x.toInt) ∧
    (CmpFlags.lt.holds x y = true ↔ x.toInt < y.toInt) ∧ (CmpFlags.ltEq.holds x y = true ↔ x.toInt ≤ y.toInt) := by
  simp [CmpFlags.holds, BitVec.slt_iff_toInt_lt, BitVec.sle_iff_toInt_le, BitVec.toInt_inj]

/-- A constraint answers truly for the operands in its own order. -/
theorem decideUnknowns_sound {rel r : CmpFlags} {x y : BitVec w} {b : Bool} (hb : decideUnknowns rel r = some b)
    (hx : rel.holds x y = true) : b = r.holds x y := by
  obtain ⟨h1, h2, h3, h4, h5, h6⟩ := holds_iff_toInt x y
  rw [Bool.eq_iff_iff]
  cases r <;> cases rel <;> simp [decideUnknowns] at hb <;> subst hb <;> grind

/-- In the other order, it answers truly unless it settles a signed order query. -/
theorem decideUnknowns_symm {rel r : CmpFlags} {x y : BitVec w} {b : Bool} (hb : decideUnknowns rel r = some b)
    (hx : rel.holds y x = true) (hr : rel.settles r = false) : b = r.holds x y := by
  obtain ⟨h1, h2, h3, h4, h5, h6⟩ := holds_iff_toInt x y
  obtain ⟨h1', h2', h3', h4', h5', h6'⟩ := holds_iff_toInt y x
  rw [Bool.eq_iff_iff]
  cases r <;> cases rel <;> simp [decideUnknowns, CmpFlags.settles] at hb hr <;> subst hb <;> grind

/-- In the other order, a constraint that settles the query answers truly on equal operands only. -/
theorem decideUnknowns_reversed {rel r : CmpFlags} (h : rel.settles r = true) :
    ∃ b, decideUnknowns rel r = some b ∧
      ∀ x y : BitVec w, rel.holds y x = true → (b = r.holds x y ↔ x = y) := by
  obtain ⟨b, hb⟩ : ∃ b, decideUnknowns rel r = some b := by
    cases r <;> cases rel <;> simp [CmpFlags.settles, decideUnknowns] at h ⊢
  refine ⟨b, hb, fun x y hx => ?_⟩
  obtain ⟨h1, h2, h3, h4, h5, h6⟩ := holds_iff_toInt x y
  obtain ⟨h1', h2', h3', h4', h5', h6'⟩ := holds_iff_toInt y x
  rw [Bool.eq_iff_iff, ← BitVec.toInt_inj]
  cases r <;> cases rel <;> simp [decideUnknowns, CmpFlags.settles] at hb h <;> subst hb <;> grind

end Angie
