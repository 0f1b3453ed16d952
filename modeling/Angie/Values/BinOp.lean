import Angie.Values.Expressions

/-!
# `BinOp` on two constants

On two constants `BinOp` evaluates the operation on their masked or sign-extended values (`evalBinOp`) and creates a
constant or an unknown (`binOp_of_some`, `binOp_of_none`). Whether a call yields an unknown exactly under a condition,
and else a constant that is right modulo the width (`YieldsUnless`), is therefore a question about the evaluation
(`yieldsUnless_iff`).
-/

namespace Angie

open Exec

/-! ## Flags and limits -/

/-- The flags of an `add`, `sub`, `mul` or `shl` instruction. -/
def wrapFlags (nsw nuw : Bool) : ArithFlags :=
  (if nsw then ArithFlags.noSignedWrap else .default) ||| (if nuw then ArithFlags.noUnsignedWrap else .default)

@[simp] theorem checkFlag_noSignedWrap (nsw nuw : Bool) :
    checkFlag (wrapFlags nsw nuw) ArithFlags.noSignedWrap = nsw := by
  cases nsw <;> cases nuw <;> decide

@[simp] theorem checkFlag_noUnsignedWrap (nsw nuw : Bool) :
    checkFlag (wrapFlags nsw nuw) ArithFlags.noUnsignedWrap = nuw := by
  cases nsw <;> cases nuw <;> decide

section Limits

variable {n : ℕ}

/-- `uMax` and, at one bit less, `sMax`. -/
theorem toNat_ripBits_allOnes (h : n ≤ 64) : (ripBits n (BitVec.allOnes 64)).toNat = 2 ^ n - 1 := by
  unfold ripBits
  split
  · rw [BitVec.allOnes_and]
    exact Bits.toNat_mask ‹_›
  · obtain rfl : n = 64 := by omega
    rfl

theorem toInt_ripBits_allOnes (h : n < 64) : (ripBits n (BitVec.allOnes 64)).toInt = 2 ^ n - 1 := by
  have hn := toNat_ripBits_allOnes h.le
  have hp : 2 ^ n ≤ 2 ^ 63 := Nat.pow_le_pow_right (by omega) (by omega)
  have h1 : 1 ≤ 2 ^ n := Nat.one_le_two_pow
  rw [BitVec.toInt_eq_toNat_of_lt (by omega), hn]
  push_cast [h1]
  rfl

/-- `sMin`, which is positive below 64 bits. -/
theorem toInt_one_shiftLeft (h : n < 64) : ((1 : Word) <<< n).toInt = if n = 63 then -2 ^ 63 else 2 ^ n := by
  split
  · subst n
    rfl
  · have hp : 2 ^ n < 2 ^ 63 := Nat.pow_lt_pow_right (by omega) (by omega)
    have hn : ((1 : Word) <<< n).toNat = 2 ^ n := by
      rw [BitVec.toNat_shiftLeft, Nat.shiftLeft_eq]
      exact (congrArg (· % _) (Nat.one_mul _)).trans (Nat.mod_eq_of_lt (by omega))
    rw [BitVec.toInt_eq_toNat_of_lt (by omega), hn]
    push_cast
    rfl

/-- A power of two below the sign bit, or the sign bit itself. -/
theorem two_pow_cases (h1 : 1 ≤ n) (h : n ≤ 64) :
    (n ≤ 62 ∧ (2 : ℤ) ^ (n - 1) ≤ 2 ^ 61) ∨ n = 63 ∨ n = 64 := by
  by_cases h62 : n ≤ 62
  · refine Or.inl ⟨h62, ?_⟩
    exact_mod_cast Nat.pow_le_pow_right (by omega : 2 > 0) (by omega : n - 1 ≤ 61)
  · omega

end Limits

/-! ## The call -/

/-- The call returns an unknown exactly when `unknown` holds, and else a constant that is `r` modulo the width. -/
def YieldsUnless {w : ℕ} (unknown : Prop) (r : BitVec w) (res : EStateM.Result Exn VcState ValueId) : Prop :=
  ∃ v t, res = .ok v t ∧ (t.vc.isConstant v = false ↔ unknown) ∧
    (¬ unknown → ∃ z, t.vc.getConstantIntInnerVal v = .ok z ∧ z.setWidth w = r)

section Call

variable [DataLayout] {s : VcState} {a b : ValueId} {x y : Word}

/-- What `BinOp` yields is what its evaluation yields. -/
theorem yieldsUnless_iff (hs : ConstOk s) (ha : s.vc.constantContainer[a]? = some x)
    (hb : s.vc.constantContainer[b]? = some y) {w : ℕ} {o : BinaryOpOptions} {unknown : Prop} {r : BitVec w} :
    YieldsUnless unknown r (binOp a b (.int w) o s) ↔
      ∃ res, evalBinOp w o x y = .ok res ∧ (res = none ↔ unknown) ∧ ∀ z, res = some z → z.setWidth w = r := by
  rcases heval : evalBinOp w o x y with e | _ | z
  · rw [binOp_of_error (Ty.getBitWidth_int w) ha hb heval]
    refine iff_of_false ?_ ?_
    · rintro ⟨v, t, h, -⟩
      cases h
    · rintro ⟨res, h, -⟩
      cases h
  · rw [binOp_of_none (Ty.getBitWidth_int w) ha hb heval]
    -- an unknown takes the next id, which is bound to nothing
    have hnew : s.vc.isConstant s.statics.nextIdToGive = false := by
      rw [isConstant_eq_false]
      cases hv : s.vc.constantContainer[s.statics.nextIdToGive]? with
      | none => rfl
      | some c => exact absurd (hs.range _ c hv).2 (lt_irrefl _)
    constructor
    · rintro ⟨v, t, h, hiff, -⟩
      rw [createVal_apply] at h
      cases h
      refine ⟨none, rfl, iff_of_true rfl (hiff.1 hnew), fun z hz => ?_⟩
      cases hz
    · rintro ⟨res, h, hiff, -⟩
      cases h
      exact ⟨_, _, createVal_apply _ s, iff_of_true hnew (hiff.1 rfl), fun hn => absurd (hiff.1 rfl) hn⟩
  · rw [binOp_of_some (Ty.getBitWidth_int w) ha hb heval]
    obtain ⟨v, t, hv, -, hbound⟩ := createConstIntVal_spec z s
    have hconst : t.vc.isConstant v = true := isConstant_iff.2 ⟨z, hbound⟩
    have hval : t.vc.getConstantIntInnerVal v = .ok z := by
      simp only [ValueContainer.getConstantIntInnerVal, hbound]
    constructor
    · rintro ⟨v', t', h, hiff, hz⟩
      rw [hv] at h
      cases h
      have hn : ¬ unknown := fun hu => by
        rw [hiff.2 hu] at hconst
        cases hconst
      refine ⟨some z, rfl, iff_of_false (Option.some_ne_none z) hn, fun z' hz' => ?_⟩
      cases hz'
      obtain ⟨z', h', hr⟩ := hz hn
      rw [hval] at h'
      cases h'
      exact hr
    · rintro ⟨res, h, hiff, hz⟩
      cases h
      have hn : ¬ unknown := fun hu => Option.some_ne_none z (hiff.2 hu)
      exact ⟨v, t, hv, iff_of_false (by simp [hconst]) hn, fun _ => ⟨z, hval, hz z rfl⟩⟩

end Call

end Angie
