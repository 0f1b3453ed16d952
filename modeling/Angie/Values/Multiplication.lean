import Angie.Lib.BitLength
import Angie.Values.Overflow

/-!
# Wraps that `Mul` is to detect

`Mul` takes a wrap for forbidden when the bit lengths of the operands, with `2` taken for one bit, add up to more than
the width (`bitsNeeded`): of the masked operands when the unsigned wrap is forbidden, else of the absolute values.
Shorter operands have a product that fits the width, but not always its signed range, and longer ones may have one that
fits. The conditions under which the outcome is wrong are `MulMisjudged` (`mulDetects_iff`).
-/

namespace Angie

open Exec

/-! ## Bit lengths -/

/-- The number of bits that `Mul` takes for a factor. -/
def bitsNeeded (n : ℕ) : ℕ := if n = 2 then 1 else n.size

theorem bitsNeeded_two : bitsNeeded 2 = 1 := rfl

theorem bitsNeeded_of_ne {n : ℕ} (hn : n ≠ 2) : bitsNeeded n = n.size := if_neg hn

theorem bitsNeeded_le_size (n : ℕ) : bitsNeeded n ≤ n.size := by
  unfold bitsNeeded
  split
  · subst n
    decide
  · exact le_refl _

/-- The loop counts the bits above the lowest. -/
theorem bsrLoop_toNat : ∀ (n : ℕ) (val pos : Word), 0 < val.toNat → val.toNat < 2 ^ n → pos.toNat + n < 2 ^ 64 →
    (bsrLoop n val pos).toNat + 1 = pos.toNat + val.toNat.size
  | 0, _, _, h0, hn, _ => by omega
  | n + 1, val, pos, h0, hn, hpos => by
    have hhalf : (val >>> 1).toNat = val.toNat / 2 := by
      rw [BitVec.toNat_ushiftRight, Nat.shiftRight_one]
    have hsize := BitLength.size_div_two h0
    unfold bsrLoop
    split
    · rename_i hzero
      rw [hzero] at hhalf
      have hone : val.toNat / 2 = 0 := hhalf.symm
      rw [hone, Nat.size_zero] at hsize
      omega
    · rename_i hne
      have hpos' : 0 < (val >>> 1).toNat := by
        rw [Nat.pos_iff_ne_zero]
        exact fun h => hne (BitVec.eq_of_toNat_eq h)
      have hnext : (pos + 1).toNat = pos.toNat + 1 := by
        rw [BitVec.toNat_add]
        exact Nat.mod_eq_of_lt (by simp; omega)
      have ih := bsrLoop_toNat n (val >>> 1) (pos + 1) hpos' (by
        rw [Nat.pow_succ] at hn
        omega) (by omega)
      rw [hnext, hhalf] at ih
      omega

theorem bsr_toNat (val : Word) : (bsr val).toNat = bitsNeeded val.toNat := by
  unfold bsr
  split
  · rename_i hle
    have hle' : val.toNat ≤ 1 := hle
    rw [bitsNeeded_of_ne (by omega)]
    obtain h | h : val.toNat = 0 ∨ val.toNat = 1 := by omega
    · rw [h, Nat.size_zero]
    · rw [h, Nat.size_one]
  · rename_i hgt
    have hgt' : 1 < val.toNat := not_le.1 hgt
    split
    · rename_i htwo
      subst htwo
      rfl
    · rename_i hne
      have hne' : val.toNat ≠ 2 := fun h => hne (BitVec.eq_of_toNat_eq h)
      have hone : (1 : Word).toNat = 1 := rfl
      have hloop := bsrLoop_toNat 64 val 1 (by omega) val.isLt (by simp)
      rw [bitsNeeded_of_ne hne']
      omega

/-- Factors that need at most `n` bits together have a product below `2^n`, unless `n` is `2` and both are. -/
theorem mul_lt_of_bitsNeeded {a b n : ℕ} (h : bitsNeeded a + bitsNeeded b ≤ n) :
    a * b < 2 ^ n ∨ (n = 2 ∧ a = 2 ∧ b = 2) := by
  by_cases ha : a = 2
  · by_cases hb : b = 2
    · subst ha hb
      rw [bitsNeeded_two] at h
      by_cases hn : n = 2
      · exact Or.inr ⟨hn, rfl, rfl⟩
      · have : 2 ^ 3 ≤ 2 ^ n := Nat.pow_le_pow_right two_pos (by omega)
        omega
    · subst ha
      rw [bitsNeeded_two, bitsNeeded_of_ne hb] at h
      have hpow : 2 ^ (1 + b.size) ≤ 2 ^ n := Nat.pow_le_pow_right two_pos h
      rw [Nat.pow_add] at hpow
      have := b.lt_size_self
      omega
  · by_cases hb : b = 2
    · subst hb
      rw [bitsNeeded_two, bitsNeeded_of_ne ha] at h
      have hpow : 2 ^ (a.size + 1) ≤ 2 ^ n := Nat.pow_le_pow_right two_pos h
      rw [Nat.pow_add] at hpow
      have := a.lt_size_self
      omega
    · rw [bitsNeeded_of_ne ha, bitsNeeded_of_ne hb] at h
      exact Or.inl (BitLength.mul_lt_two_pow h)

/-- Factors below `2^n` that need more than `n` bits together have a product of at least `2^(n-1)`, and of at least
`2^n` when one is `2`. -/
theorem le_mul_of_bitsNeeded {a b n : ℕ} (ha : a < 2 ^ n) (hb : b < 2 ^ n) (h : n < bitsNeeded a + bitsNeeded b) :
    2 ^ (n - 1) ≤ a * b ∧ ((a = 2 ∨ b = 2) → 2 ^ n ≤ a * b) := by
  have hsa := bitsNeeded_le_size a
  have hsb := bitsNeeded_le_size b
  have ha' := Nat.size_le.2 ha
  have hb' := Nat.size_le.2 hb
  have ha0 : 0 < a := Nat.size_pos.1 (by omega)
  have hb0 : 0 < b := Nat.size_pos.1 (by omega)
  refine ⟨BitLength.two_pow_le_mul ha0 hb0 (by omega), ?_⟩
  have hn : 1 ≤ n := by
    have := Nat.size_pos.2 ha0
    omega
  have hdouble : 2 ^ n = 2 * 2 ^ (n - 1) := by
    rw [← Nat.pow_succ']
    congr 1
    omega
  rintro (rfl | rfl)
  · rw [bitsNeeded_two] at h
    have := BitLength.two_pow_size_le hb0
    rw [show b.size - 1 = n - 1 by omega] at this
    omega
  · rw [bitsNeeded_two] at h
    have := BitLength.two_pow_size_le ha0
    rw [show a.size - 1 = n - 1 by omega] at this
    omega

/-! ## The check -/

/-- What `Mul` takes for a forbidden wrap. -/
def MulAlarm {w : ℕ} (nsw nuw : Bool) (x y : BitVec w) : Prop :=
  if nuw = true then w < bitsNeeded x.toNat + bitsNeeded y.toNat
  else nsw = true ∧ w < bitsNeeded x.toInt.natAbs + bitsNeeded y.toInt.natAbs

section Check

variable {w : ℕ}

/-- The absolute value of the least word is read as unsigned. -/
theorem toNat_absWord (v : Word) : (absWord v).toNat = v.toInt.natAbs := by
  have hv := v.isLt
  have hint := v.toInt_eq_toNat_cond
  unfold absWord
  split
  · rename_i hneg
    rw [BitVec.slt_iff_toInt_lt] at hneg
    have hneg' : v.toInt < 0 := hneg
    rw [BitVec.toNat_neg]
    split at hint <;> omega
  · rename_i hneg
    rw [BitVec.slt_iff_toInt_lt] at hneg
    have hneg' : ¬ v.toInt < 0 := hneg
    split at hint <;> omega

theorem width_check (h : w ≤ 64) (u v : Word) : (BitVec.ofNat 64 w : Word).ult (bsr u + bsr v) = true ↔
    w < bitsNeeded u.toNat + bitsNeeded v.toNat := by
  have hu : bitsNeeded u.toNat ≤ 64 := (bitsNeeded_le_size _).trans (Nat.size_le.2 u.isLt)
  have hv : bitsNeeded v.toNat ≤ 64 := (bitsNeeded_le_size _).trans (Nat.size_le.2 v.isLt)
  rw [BitVec.ult_iff_toNat_lt, BitVec.toNat_add, bsr_toNat, bsr_toNat, BitVec.toNat_ofNat,
    Nat.mod_eq_of_lt (by omega), Nat.mod_eq_of_lt (by omega)]

theorem evalBinOp_mul (h1 : 1 ≤ w) (h : w ≤ 64) (nsw nuw : Bool) (x y : Word) :
    Evaluated (MulAlarm nsw nuw (x.setWidth w) (y.setWidth w)) (x.setWidth w * y.setWidth w)
      (evalBinOp w ⟨.mul, wrapFlags nsw nuw⟩ x y) := by
  have hz : (signExtend64 w x * signExtend64 w y).setWidth w = x.setWidth w * y.setWidth w := by
    rw [BitVec.setWidth_mul _ _ h, setWidth_signExtend64 h1 h, setWidth_signExtend64 h1 h]
  simp only [evalBinOp, checkFlag_noSignedWrap, checkFlag_noUnsignedWrap]
  cases nuw with
  | true =>
    refine evaluated_ite ?_ hz
    rw [width_check h, toNat_ripBits h, toNat_ripBits h]
    exact Iff.rfl
  | false =>
    simp only [MulAlarm, Bool.false_eq_true, if_false]
    refine evaluated_guard Iff.rfl (evaluated_ite ?_ hz) hz
    rw [width_check h, toNat_absWord, toNat_absWord, toInt_signExtend64 h1 h, toInt_signExtend64 h1 h]

end Check

/-! ## Detection -/

/-- `Mul` misses a forbidden wrap, or takes for one what is none. With the unsigned wrap forbidden, it misses the square
of `2` at 2 bits and, when the signed wrap is too, those of short operands. With the signed wrap alone, it misses those
of short operands, and takes the least value for one when no factor is `2` or `-2`. -/
def MulMisjudged {w : ℕ} (nsw nuw : Bool) (x y : BitVec w) : Prop :=
  (nuw = true ∧
    ((w = 2 ∧ x.toNat = 2 ∧ y.toNat = 2) ∨
     (nsw = true ∧ x.smulOverflow y = true ∧ bitsNeeded x.toNat + bitsNeeded y.toNat ≤ w) ∨
     (¬ (nsw = true ∧ x.smulOverflow y = true) ∧ x.umulOverflow y = false ∧
        w < bitsNeeded x.toNat + bitsNeeded y.toNat))) ∨
  (nuw = false ∧ nsw = true ∧
    ((x.smulOverflow y = true ∧ bitsNeeded x.toInt.natAbs + bitsNeeded y.toInt.natAbs ≤ w) ∨
     (x.toInt * y.toInt = -2 ^ (w - 1) ∧ x.toInt.natAbs ≠ 2 ∧ y.toInt.natAbs ≠ 2)))

section Detection

variable {w : ℕ} (x y : BitVec w)

/-- Short operands have a product that fits the width, but for `2 * 2` at 2 bits. -/
theorem umulOverflow_of_short (h : bitsNeeded x.toNat + bitsNeeded y.toNat ≤ w) :
    x.umulOverflow y = true ↔ w = 2 ∧ x.toNat = 2 ∧ y.toNat = 2 := by
  simp only [BitVec.umulOverflow, decide_eq_true_eq]
  constructor
  · intro hge
    exact (mul_lt_of_bitsNeeded h).resolve_left (by omega)
  · rintro ⟨hw, hx, hy⟩
    rw [hx, hy, hw]

theorem short_of_two (h : w = 2 ∧ x.toNat = 2 ∧ y.toNat = 2) : bitsNeeded x.toNat + bitsNeeded y.toNat ≤ w := by
  obtain ⟨hw, hx, hy⟩ := h
  rw [hx, hy, bitsNeeded_two]
  omega

/-- The magnitude of a word is in the range of the width. -/
theorem natAbs_lt (h1 : 1 ≤ w) : x.toInt.natAbs < 2 ^ w := by
  have hl := x.le_toInt
  have hu := x.toInt_lt
  have hpow : 2 ^ w = 2 * 2 ^ (w - 1) := by
    rw [← Nat.pow_succ']
    congr 1
    omega
  have hcast : ((2 ^ (w - 1) : ℕ) : ℤ) = 2 ^ (w - 1) := by push_cast; rfl
  have hpos : 0 < 2 ^ (w - 1) := Nat.two_pow_pos _
  omega

/-- Long operands have a product out of the signed range, but for the least value with no factor `2` or `-2`. -/
theorem smulOverflow_of_long (h1 : 1 ≤ w) (h : w < bitsNeeded x.toInt.natAbs + bitsNeeded y.toInt.natAbs) :
    x.smulOverflow y = false ↔ x.toInt * y.toInt = -2 ^ (w - 1) ∧ x.toInt.natAbs ≠ 2 ∧ y.toInt.natAbs ≠ 2 := by
  obtain ⟨hge, htwo⟩ := le_mul_of_bitsNeeded (natAbs_lt x h1) (natAbs_lt y h1) h
  rw [← Int.natAbs_mul] at hge htwo
  have hcast : ((2 ^ (w - 1) : ℕ) : ℤ) = 2 ^ (w - 1) := by push_cast; rfl
  have hpow : 2 ^ w = 2 * 2 ^ (w - 1) := by
    rw [← Nat.pow_succ']
    congr 1
    omega
  have hpos : 0 < 2 ^ (w - 1) := Nat.two_pow_pos _
  simp only [BitVec.smulOverflow, Bool.or_eq_false_iff, decide_eq_false_iff_not]
  constructor
  · rintro ⟨hlt, hgt⟩
    refine ⟨by omega, fun hx => ?_, fun hy => ?_⟩
    · have := htwo (Or.inl hx)
      omega
    · have := htwo (Or.inr hy)
      omega
  · rintro ⟨heq, -, -⟩
    rw [heq]
    omega

/-- The factors of the least value are long, unless one is `2` or `-2`. -/
theorem long_of_least (h1 : 1 ≤ w)
    (h : x.toInt * y.toInt = -2 ^ (w - 1) ∧ x.toInt.natAbs ≠ 2 ∧ y.toInt.natAbs ≠ 2) :
    w < bitsNeeded x.toInt.natAbs + bitsNeeded y.toInt.natAbs := by
  obtain ⟨heq, hx, hy⟩ := h
  have hprod : x.toInt.natAbs * y.toInt.natAbs = 2 ^ (w - 1) := by
    rw [← Int.natAbs_mul, heq, Int.natAbs_neg, Int.natAbs_pow]
    rfl
  rw [bitsNeeded_of_ne hx, bitsNeeded_of_ne hy, BitLength.size_add_size hprod]
  omega

theorem mulAlarm_iff (h1 : 1 ≤ w) (nsw nuw : Bool) :
    (MulAlarm nsw nuw x y ↔ Forbidden nsw nuw (x.smulOverflow y) (x.umulOverflow y)) ↔ ¬ MulMisjudged nsw nuw x y := by
  cases nuw with
  | true =>
    simp only [MulAlarm, MulMisjudged, Forbidden, if_true, true_and, Bool.true_eq_false, false_and, or_false]
    by_cases hshort : bitsNeeded x.toNat + bitsNeeded y.toNat ≤ w
    · have hover := umulOverflow_of_short x y hshort
      have hlong : ¬ w < bitsNeeded x.toNat + bitsNeeded y.toNat := by omega
      simp only [hlong, hshort, false_iff, hover, and_true, and_false, or_false]
      tauto
    · have hlong : w < bitsNeeded x.toNat + bitsNeeded y.toNat := by omega
      have htwo := mt (short_of_two x y) hshort
      rw [← Bool.not_eq_true]
      simp only [hlong, hshort, true_iff, and_true, and_false, false_or]
      tauto
  | false =>
    cases nsw with
    | false => simp [MulAlarm, MulMisjudged, Forbidden]
    | true =>
      simp only [MulAlarm, MulMisjudged, Forbidden, if_false, Bool.false_eq_true, true_and, false_and, or_false,
        false_or]
      by_cases hshort : bitsNeeded x.toInt.natAbs + bitsNeeded y.toInt.natAbs ≤ w
      · have hlong : ¬ w < bitsNeeded x.toInt.natAbs + bitsNeeded y.toInt.natAbs := by omega
        have hleast := mt (long_of_least x y h1) hlong
        simp only [hlong, hshort, false_iff, and_true]
        tauto
      · have hlong : w < bitsNeeded x.toInt.natAbs + bitsNeeded y.toInt.natAbs := by omega
        have hover := smulOverflow_of_long x y h1 hlong
        rw [← hover]
        simp only [hlong, hshort, true_iff, and_false, false_or, Bool.not_eq_false]

end Detection

section Calls

variable [DataLayout]

/-- `Mul` of the constants `x` and `y` detects exactly the forbidden wraps. -/
def MulDetects (s : VcState) (a b : ValueId) (x y : Word) (w : Width) (nsw nuw : Bool) : Prop :=
  let X := x.setWidth w.bits
  let Y := y.setWidth w.bits
  YieldsUnless (Forbidden nsw nuw (X.smulOverflow Y) (X.umulOverflow Y)) (X * Y)
    (binOp a b w.type ⟨.mul, wrapFlags nsw nuw⟩ s)

variable {s : VcState} {a b : ValueId} {x y : Word}

theorem mulDetects_iff (hs : ConstOk s) (ha : s.vc.constantContainer[a]? = some x)
    (hb : s.vc.constantContainer[b]? = some y) (w : Width) (nsw nuw : Bool) :
    MulDetects s a b x y w nsw nuw ↔ ¬ MulMisjudged nsw nuw (x.setWidth w.bits) (y.setWidth w.bits) := by
  rw [MulDetects, Width.type, yieldsUnless_iff hs ha hb, (evalBinOp_mul w.pos w.le nsw nuw x y).iff]
  exact mulAlarm_iff _ _ w.pos nsw nuw

variable {Adm : VcState → VcOp → Prop} {es : List (Trace.Event VcState VcOp (Except Exn (Option ValueId)))}

/-- On two constants of any container that calls reach, `Mul` yields an unknown exactly when a flag forbids the wrap
that the exact product makes, and else a constant that is right modulo the width, if and only if it does not misjudge
the operands. -/
theorem mul_detects_iff (hrun : VcRun Adm es s) (ha : s.vc.constantContainer[a]? = some x)
    (hb : s.vc.constantContainer[b]? = some y) (w : Width) (nsw nuw : Bool) :
    MulDetects s a b x y w nsw nuw ↔ ¬ MulMisjudged nsw nuw (x.setWidth w.bits) (y.setWidth w.bits) :=
  mulDetects_iff (run_ok hrun).const ha hb w nsw nuw

end Calls

/-! ## Two short operands -/

section Examples

attribute [local instance] Ty.x86

/-- A container with the constant `15`, the id `1`. -/
def fifteen : List (Trace.Event VcState VcOp (Except Exn (Option ValueId))) × VcState :=
  Trace.play VcOp.exec [] (VcState.new {}) [.createConstIntVal 15]

theorem fifteen_run : VcRun (fun _ _ => True) fifteen.1 fifteen.2 :=
  Trace.Run.play (Trace.Run.start ⟨{}, Int.le_refl 0, rfl⟩) ⟨trivial, trivial⟩

theorem fifteen_constant : fifteen.2.vc.constantContainer[(1 : ValueId)]? = some 15 := by decide +kernel

/-- `15 * 15` leaves the signed bytes, and is not detected. -/
theorem not_mul_detects : ¬ ∀ (es : List (Trace.Event VcState VcOp (Except Exn (Option ValueId)))) (s : VcState),
    VcRun (fun _ _ => True) es s → ∀ (a b : ValueId) (x y : Word), s.vc.constantContainer[a]? = some x →
      s.vc.constantContainer[b]? = some y → ∀ (w : Width) (nsw nuw : Bool), MulDetects s a b x y w nsw nuw := by
  intro h
  have hc := fifteen_constant
  have hdetects := h _ _ fifteen_run 1 1 _ _ hc hc .byte true false
  rw [mulDetects_iff (run_ok fifteen_run).const hc hc] at hdetects
  exact hdetects (by unfold MulMisjudged bitsNeeded; decide)

/-- As unsigned bytes, the product is judged by the law. -/
theorem fifteen_detects :
    MulDetects fifteen.2 1 1 15 15 .byte false true ↔ ¬ MulMisjudged false true (15#8) (15#8) :=
  mul_detects_iff fifteen_run fifteen_constant fifteen_constant .byte false true

end Examples

end Angie
