import Mathlib.Data.BitVec

/-!
# Truncation and sign extension by masks

The usual machine idioms on words of `v` bits for working at a smaller width `n`: masking with `2^n - 1` truncates
(`and_mask_eq`), or-ing the negated sign bit extends the sign (`neg_sign_or_eq`), and or-ing the bits above makes a
shift arithmetic (`shift_or_mask_eq`). Sums and differences within the range of the signed words are exact
(`toInt_add_of_range`, `toInt_sub_of_range`).
-/

namespace Bits

variable {v : Nat}

theorem toNat_mask {n : Nat} (h : n < v) : (((1#v) <<< n) - 1#v).toNat = 2 ^ n - 1 := by
  have hp : 2 ^ n < 2 ^ v := Nat.pow_lt_pow_right (by omega) h
  have hv : 1 < 2 ^ v := Nat.one_lt_two_pow (by omega)
  have h1 : ((1#v) <<< n).toNat = 2 ^ n := by
    rw [← BitVec.twoPow_eq, BitVec.toNat_twoPow_of_lt h]
  have h2 : (1#v).toNat = 1 := by simp [Nat.mod_eq_of_lt hv]
  rw [BitVec.toNat_sub_of_le, h1, h2]
  rw [BitVec.le_def, h1, h2]
  exact Nat.one_le_two_pow

/-- Masking with `2^n - 1` keeps the lowest `n` bits. -/
theorem and_mask_eq {n : Nat} (h : n < v) (x : BitVec v) :
    x &&& (((1#v) <<< n) - 1#v) = (x.setWidth n).setWidth v := by
  apply BitVec.eq_of_toNat_eq
  have hp : x.toNat % 2 ^ n < 2 ^ v :=
    lt_of_lt_of_le (Nat.mod_lt _ (Nat.two_pow_pos n)) (Nat.pow_le_pow_right (by omega) h.le)
  rw [BitVec.toNat_and, toNat_mask h, Nat.and_two_pow_sub_one_eq_mod, BitVec.toNat_setWidth, BitVec.toNat_setWidth,
    Nat.mod_eq_of_lt hp]

/-- Or-ing the negated sign bit of a truncated word extends its sign. -/
theorem neg_sign_or_eq {n : Nat} (h1 : 1 ≤ n) (h : n ≤ v) (x : BitVec n) :
    (-(x.setWidth v &&& ((1#v) <<< (n - 1)))) ||| x.setWidth v = x.signExtend v := by
  apply BitVec.eq_of_getLsbD_eq
  intro i hi
  have hmsb : x.msb = x.getLsbD (n - 1) := BitVec.msb_eq_getLsbD_last x
  have hbit : (x.setWidth v).getLsbD (n - 1) = x.msb := by
    rw [BitVec.getLsbD_setWidth, hmsb]
    simp only [show n - 1 < v by omega, decide_true, Bool.true_and]
  rw [← BitVec.twoPow_eq, BitVec.and_twoPow, hbit, BitVec.getLsbD_signExtend, BitVec.getLsbD_or,
    BitVec.getLsbD_setWidth]
  cases hm : x.msb with
  | false =>
    by_cases hin : i < n
    · simp [hi, hin]
    · simp [hi, hin, BitVec.getLsbD_of_ge x i (by omega)]
  | true =>
    have hneg : (-(BitVec.twoPow v (n - 1))).getLsbD i = decide (n - 1 ≤ i) := by
      rw [BitVec.getLsbD_neg]
      simp only [hi, decide_true, Bool.true_and, BitVec.getLsbD_twoPow]
      by_cases hc : n - 1 < i
      · have : ∃ j < i, (decide (n - 1 < v) && decide (n - 1 = j)) = true :=
          ⟨n - 1, hc, by simp; omega⟩
        have hne : n - 1 ≠ i := by omega
        simp only [this, hne, hc.le, decide_true, decide_false, Bool.and_false, Bool.false_xor]
      · have : ¬ ∃ j < i, (decide (n - 1 < v) && decide (n - 1 = j)) = true := by
          rintro ⟨j, hj, he⟩
          simp at he; omega
        simp only [this, decide_false, Bool.xor_false]
        rw [Bool.eq_iff_iff]; simp; omega
    simp only [if_true, hneg, hi, decide_true, Bool.true_and]
    by_cases hin : i < n
    · by_cases hl : i = n - 1
      · subst hl
        rw [hm] at hmsb
        simp [hin, ← hmsb]
      · simp [hin]; omega
    · simp [hin]; omega

/-- Subtraction is carried out modulo every smaller width. -/
theorem setWidth_sub {n : Nat} (h : n ≤ v) (x y : BitVec v) :
    (x - y).setWidth n = x.setWidth n - y.setWidth n := by
  rw [BitVec.sub_eq_add_neg, BitVec.setWidth_add _ _ h, BitVec.setWidth_neg_of_le h, ← BitVec.sub_eq_add_neg]

/-- What a sign extension has in its lower bits is a sign extension. -/
theorem setWidth_signExtend {n k : Nat} (h : k ≤ v) (x : BitVec n) :
    (x.signExtend v).setWidth k = x.signExtend k := by
  apply BitVec.eq_of_getElem_eq
  intro i hi
  simp [BitVec.getElem_setWidth, BitVec.getElem_signExtend, show i < v by omega]

theorem getLsbD_mask {n i : Nat} (h : n < v) : (((1#v) <<< n) - 1#v).getLsbD i = decide (i < n) := by
  rw [← BitVec.testBit_toNat, toNat_mask h, Nat.testBit_two_pow_sub_one]

/-- Or-ing the bits above the shifted ones makes a shift of a negative word arithmetic. -/
theorem shift_or_mask_eq {n s : Nat} (h : n ≤ v) (hs : s < n) (hv : n - s < v) {x : BitVec n} (hx : x.msb = true) :
    ((x.setWidth v) >>> s ||| ~~~(((1#v) <<< (n - s)) - 1#v)).setWidth n = x.sshiftRight s := by
  apply BitVec.eq_of_getLsbD_eq
  intro i hi
  have hin : i < v := by omega
  rw [BitVec.getLsbD_setWidth, BitVec.getLsbD_or, BitVec.getLsbD_not, getLsbD_mask hv, BitVec.getLsbD_ushiftRight,
    BitVec.getLsbD_setWidth, BitVec.getLsbD_sshiftRight, hx]
  by_cases hlow : s + i < n
  · simp [hi, hin, hlow, show s + i < v by omega, show i < n - s by omega]
  · simp [hi, hin, hlow, show ¬ i < n - s by omega]

/-- The sign bit is met by a mask. -/
theorem and_sign_ne_zero {n : Nat} (h1 : 1 ≤ n) (h : n ≤ v) (x : BitVec n) :
    (x.setWidth v &&& ((1#v) <<< (n - 1)) != 0#v) = x.msb := by
  have hbit : (x.setWidth v).getLsbD (n - 1) = x.msb := by
    rw [BitVec.getLsbD_setWidth, BitVec.msb_eq_getLsbD_last]
    simp only [show n - 1 < v by omega, decide_true, Bool.true_and]
  rw [← BitVec.twoPow_eq, BitVec.and_twoPow, hbit]
  cases x.msb with
  | false => simp
  | true =>
    have hne : BitVec.twoPow v (n - 1) ≠ 0#v := by
      intro hzero
      have := congrArg (fun z : BitVec v => z.getLsbD (n - 1)) hzero
      simp at this
      omega
    simp [hne]

/-- A sum in the range of the signed words is exact. -/
theorem toInt_add_of_range {x y : BitVec v} (hl : -2 ^ (v - 1) ≤ x.toInt + y.toInt)
    (hu : x.toInt + y.toInt < 2 ^ (v - 1)) : (x + y).toInt = x.toInt + y.toInt := by
  apply BitVec.toInt_add_of_not_saddOverflow
  simp only [BitVec.saddOverflow, Bool.or_eq_true, decide_eq_true_eq]
  omega

theorem toInt_sub_of_range {x y : BitVec v} (hl : -2 ^ (v - 1) ≤ x.toInt - y.toInt)
    (hu : x.toInt - y.toInt < 2 ^ (v - 1)) : (x - y).toInt = x.toInt - y.toInt := by
  apply BitVec.toInt_sub_of_not_ssubOverflow
  simp only [BitVec.ssubOverflow, Bool.or_eq_true, decide_eq_true_eq]
  omega

end Bits
