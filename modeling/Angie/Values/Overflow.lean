import Angie.Values.BinOp

/-!
# Wraps that `Add` and `Sub` are to detect

`x` and `y` are the operands at the width. The unsigned checks are exact. The signed ones are made when only the signed
wrap is forbidden, and only if the product of the operands, a word of 64 bits, has the sign that the operands would
give it; below 64 bits they compare with a lower limit whose sign is lost. The conditions under which the outcome is
wrong are `AddMisjudged` and `SubMisjudged` (`addSub_detect_iff`).
-/

namespace Angie

open Exec

/-- The sign of the product is taken of a word. -/
def product {w : ℕ} (x y : BitVec w) : ℤ := (x.toInt * y.toInt).bmod (2 ^ 64)

section Operands

variable {w : ℕ} (h1 : 1 ≤ w) (h : w ≤ 64) (x y : Word)

include h1 h

theorem toInt_signExtend64_mul :
    (signExtend64 w x * signExtend64 w y).toInt = product (x.setWidth w) (y.setWidth w) := by
  rw [BitVec.toInt_mul, toInt_signExtend64 h1 h, toInt_signExtend64 h1 h]
  rfl

theorem lt_product :
    (0 : Word).slt (signExtend64 w x * signExtend64 w y) = true ↔ 0 < product (x.setWidth w) (y.setWidth w) := by
  rw [BitVec.slt_iff_toInt_lt, toInt_signExtend64_mul h1 h]
  rfl

theorem product_lt :
    (signExtend64 w x * signExtend64 w y).slt 0 = true ↔ product (x.setWidth w) (y.setWidth w) < 0 := by
  rw [BitVec.slt_iff_toInt_lt, toInt_signExtend64_mul h1 h]
  rfl

theorem nonneg_signExtend64 : (0 : Word).sle (signExtend64 w x) = true ↔ 0 ≤ (x.setWidth w).toInt := by
  rw [BitVec.sle_iff_toInt_le, toInt_signExtend64 h1 h]
  rfl

omit h1 in
/-- The unsigned check of `Add`. -/
theorem uMax_check : (ripBits w (BitVec.allOnes 64) - ripBits w x).ult (ripBits w y) = true ↔
    (x.setWidth w).uaddOverflow (y.setWidth w) = true := by
  have hmax := toNat_ripBits_allOnes h
  have hx := toNat_ripBits h x
  have hy := toNat_ripBits h y
  have hlt := (x.setWidth w).isLt
  rw [BitVec.ult_iff_toNat_lt, BitVec.toNat_sub_of_le, hmax, hx, hy]
  · simp only [BitVec.uaddOverflow, decide_eq_true_eq]
    omega
  · rw [BitVec.le_def]
    omega

omit h1 in
/-- The unsigned check of `Sub`. -/
theorem ult_check : (ripBits w x).ult (ripBits w y) = true ↔ (x.setWidth w).usubOverflow (y.setWidth w) = true := by
  rw [BitVec.ult_iff_toNat_lt, toNat_ripBits h, toNat_ripBits h]
  simp only [BitVec.usubOverflow, decide_eq_true_eq]

/-- The check of a sum against the upper limit. -/
theorem sMax_sub_check (hx : 0 ≤ (x.setWidth w).toInt) :
    (ripBits (w - 1) (BitVec.allOnes 64) - signExtend64 w x).slt (signExtend64 w y) = true ↔
      (2 : ℤ) ^ (w - 1) ≤ (x.setWidth w).toInt + (y.setWidth w).toInt := by
  have hmax := toInt_ripBits_allOnes (n := w - 1) (by omega)
  have hsx := toInt_signExtend64 h1 h x
  have hlt := (x.setWidth w).toInt_lt
  have hp : (2 : ℤ) ^ (w - 1) ≤ 2 ^ 63 := by
    exact_mod_cast Nat.pow_le_pow_right (by omega : 2 > 0) (by omega : w - 1 ≤ 63)
  rw [BitVec.slt_iff_toInt_lt, Bits.toInt_sub_of_range, hmax, hsx, toInt_signExtend64 h1 h]
  · omega
  · rw [hmax, hsx]
    omega
  · rw [hmax, hsx]
    omega

/-- The check of a sum against the lower limit. Below 64 bits the limit is positive, so that it fails for the least
word of 63 bits only, whose difference from the limit wraps. -/
theorem sMin_sub_check (hx : (x.setWidth w).toInt < 0) :
    (signExtend64 w y).slt ((1 : Word) <<< (w - 1) - signExtend64 w x) = true ↔
      (w < 64 ∧ ¬ (w = 63 ∧ (x.setWidth w).toInt = -2 ^ 62)) ∨
      (w = 64 ∧ (x.setWidth w).toInt + (y.setWidth w).toInt < -2 ^ 63) := by
  have hmin := toInt_one_shiftLeft (n := w - 1) (by omega)
  have hsx := toInt_signExtend64 h1 h x
  have hsy := toInt_signExtend64 h1 h y
  have hlx := (x.setWidth w).le_toInt
  have hly := (y.setWidth w).toInt_lt
  rw [BitVec.slt_iff_toInt_lt, hsy]
  rcases two_pow_cases h1 h with ⟨hw, hp⟩ | hw | hw
  · rw [if_neg (by omega)] at hmin
    rw [Bits.toInt_sub_of_range, hmin, hsx]
    · omega
    · rw [hmin, hsx]; omega
    · rw [hmin, hsx]; omega
  · rw [if_neg (by omega)] at hmin
    have hp : (2 : ℤ) ^ (w - 1) = 2 ^ 62 := by rw [hw]
    rw [hp] at hmin hlx hly
    by_cases hmost : (x.setWidth w).toInt = -2 ^ 62
    · have hwrap : ((1 : Word) <<< (w - 1) - signExtend64 w x).toInt = -2 ^ 63 := by
        rw [BitVec.toInt_sub, hmin, hsx, hmost]
        rfl
      have hly' := (y.setWidth w).le_toInt
      rw [hp] at hly'
      rw [hwrap]
      omega
    · rw [Bits.toInt_sub_of_range, hmin, hsx]
      · omega
      · rw [hmin, hsx]; omega
      · rw [hmin, hsx]; omega
  · rw [if_pos (by omega)] at hmin
    have hp : (2 : ℤ) ^ (w - 1) = 2 ^ 63 := by rw [hw]
    rw [hp] at hlx
    rw [Bits.toInt_sub_of_range, hmin, hsx]
    · omega
    · rw [hmin, hsx]; omega
    · rw [hmin, hsx]; omega

/-- The check of a difference against the upper limit, which wraps at 64 bits. -/
theorem sMax_add_check (hx : 0 ≤ (x.setWidth w).toInt) :
    (ripBits (w - 1) (BitVec.allOnes 64) + signExtend64 w y).slt (signExtend64 w x) = true ↔
      (2 : ℤ) ^ (w - 1) ≤ (x.setWidth w).toInt - (y.setWidth w).toInt ∨ (w = 64 ∧ 0 < (y.setWidth w).toInt) := by
  have hmax := toInt_ripBits_allOnes (n := w - 1) (by omega)
  have hsx := toInt_signExtend64 h1 h x
  have hsy := toInt_signExtend64 h1 h y
  have hly := (y.setWidth w).toInt_lt
  have hly' := (y.setWidth w).le_toInt
  have hexact : w < 64 ∨ (y.setWidth w).toInt ≤ 0 →
      ((ripBits (w - 1) (BitVec.allOnes 64) + signExtend64 w y).slt (signExtend64 w x) = true ↔
        (2 : ℤ) ^ (w - 1) ≤ (x.setWidth w).toInt - (y.setWidth w).toInt) := by
    intro hno
    have hp : (2 : ℤ) ^ (w - 1) ≤ 2 ^ 63 ∧ (w < 64 → (2 : ℤ) ^ (w - 1) ≤ 2 ^ 62) := by
      constructor
      · exact_mod_cast Nat.pow_le_pow_right (by omega : 2 > 0) (by omega : w - 1 ≤ 63)
      · intro hw
        exact_mod_cast Nat.pow_le_pow_right (by omega : 2 > 0) (by omega : w - 1 ≤ 62)
    rw [BitVec.slt_iff_toInt_lt, hsx, Bits.toInt_add_of_range, hmax, hsy]
    · omega
    · rw [hmax, hsy]; omega
    · rw [hmax, hsy]; omega
  by_cases hw : w = 64 ∧ 0 < (y.setWidth w).toInt
  · refine iff_of_true ?_ (Or.inr hw)
    have hp : (2 : ℤ) ^ (w - 1) = 2 ^ 63 := by rw [hw.1]
    rw [hp] at hmax hly
    have hwrap : (ripBits (w - 1) (BitVec.allOnes 64) + signExtend64 w y).toInt =
        (y.setWidth w).toInt - 1 - 2 ^ 63 := by
      rw [BitVec.toInt_add, hmax, hsy, Int.bmod_def]
      omega
    rw [BitVec.slt_iff_toInt_lt, hwrap, hsx]
    omega
  · rw [hexact (by omega)]
    tauto

/-- The check of a difference against the lower limit, which is positive below 64 bits and wraps at 64 bits. -/
theorem sMin_add_check (hx : (x.setWidth w).toInt < 0) :
    (signExtend64 w x).slt ((1 : Word) <<< (w - 1) + signExtend64 w y) = true ↔
      w < 64 ∨ (y.setWidth w).toInt < 0 ∨ (x.setWidth w).toInt - (y.setWidth w).toInt < -2 ^ 63 := by
  have hmin := toInt_one_shiftLeft (n := w - 1) (by omega)
  have hsx := toInt_signExtend64 h1 h x
  have hsy := toInt_signExtend64 h1 h y
  have hly := (y.setWidth w).toInt_lt
  have hly' := (y.setWidth w).le_toInt
  rw [BitVec.slt_iff_toInt_lt, hsx]
  by_cases hw : w = 64
  · have hp : (2 : ℤ) ^ (w - 1) = 2 ^ 63 := by rw [hw]
    rw [hp] at hly hly'
    rw [if_pos (by omega)] at hmin
    by_cases hy : (y.setWidth w).toInt < 0
    · have hwrap : ((1 : Word) <<< (w - 1) + signExtend64 w y).toInt = (y.setWidth w).toInt + 2 ^ 63 := by
        rw [BitVec.toInt_add, hmin, hsy, Int.bmod_def]
        omega
      rw [hwrap]
      omega
    · rw [Bits.toInt_add_of_range, hmin, hsy]
      · omega
      · rw [hmin, hsy]; omega
      · rw [hmin, hsy]; omega
  · have hp : (2 : ℤ) ^ (w - 1) ≤ 2 ^ 62 := by
      exact_mod_cast Nat.pow_le_pow_right (by omega : 2 > 0) (by omega : w - 1 ≤ 62)
    rw [if_neg (by omega)] at hmin
    rw [Bits.toInt_add_of_range, hmin, hsy]
    · omega
    · rw [hmin, hsy]; omega
    · rw [hmin, hsy]; omega

end Operands

/-! ## Evaluations -/

/-- A flag forbids the wrap that the exact result makes. -/
def Forbidden (nsw nuw signed unsigned : Bool) : Prop := (nsw = true ∧ signed = true) ∨ (nuw = true ∧ unsigned = true)

/-- What `Add` takes for a forbidden wrap. -/
def AddAlarm {w : ℕ} (nsw nuw : Bool) (x y : BitVec w) : Prop :=
  if nuw = true then x.uaddOverflow y = true
  else nsw = true ∧ 0 < product x y ∧
    if 0 ≤ x.toInt then 2 ^ (w - 1) ≤ x.toInt + y.toInt
    else (w < 64 ∧ ¬ (w = 63 ∧ x.toInt = -2 ^ 62)) ∨ (w = 64 ∧ x.toInt + y.toInt < -2 ^ 63)

/-- What `Sub` takes for a forbidden wrap. -/
def SubAlarm {w : ℕ} (nsw nuw : Bool) (x y : BitVec w) : Prop :=
  if nuw = true then x.usubOverflow y = true
  else nsw = true ∧ product x y < 0 ∧
    if 0 ≤ x.toInt then 2 ^ (w - 1) ≤ x.toInt - y.toInt ∨ (w = 64 ∧ 0 < y.toInt)
    else w < 64 ∨ y.toInt < 0 ∨ x.toInt - y.toInt < -2 ^ 63

section Evaluations

variable {w : ℕ}

/-- An evaluation yields an unknown when `alarm` holds, and else a constant that is `r` modulo the width. -/
def Evaluated (alarm : Prop) (r : BitVec w) (res : Except Exn (Option Word)) : Prop :=
  (alarm ∧ res = .ok none) ∨ (¬ alarm ∧ ∃ z, res = .ok (some z) ∧ z.setWidth w = r)

theorem evaluated_ite {alarm : Prop} {c : Bool} (hc : c = true ↔ alarm) {z : Word} {r : BitVec w}
    (hz : z.setWidth w = r) : Evaluated alarm r (if c = true then .ok none else .ok (some z)) := by
  cases c with
  | true => exact Or.inl ⟨hc.1 rfl, rfl⟩
  | false => exact Or.inr ⟨fun h => (nomatch hc.2 h), z, rfl, hz⟩

theorem evaluated_guard {p alarm : Prop} {g : Bool} (hg : g = true ↔ p) {res : Except Exn (Option Word)} {z : Word}
    {r : BitVec w} (hres : Evaluated alarm r res) (hz : z.setWidth w = r) :
    Evaluated (p ∧ alarm) r (if g = true then res else .ok (some z)) := by
  cases g with
  | true =>
    have hp := hg.1 rfl
    rcases hres with ⟨ha, rfl⟩ | ⟨ha, hres⟩
    · exact Or.inl ⟨⟨hp, ha⟩, rfl⟩
    · exact Or.inr ⟨fun hpa => ha hpa.2, hres⟩
  | false => exact Or.inr ⟨fun hpa => (nomatch hg.2 hpa.1), z, rfl, hz⟩

theorem Evaluated.iff {alarm unknown : Prop} {r : BitVec w} {res : Except Exn (Option Word)} (h : Evaluated alarm r res) :
    (∃ res', res = .ok res' ∧ (res' = none ↔ unknown) ∧ ∀ z, res' = some z → z.setWidth w = r) ↔
      (alarm ↔ unknown) := by
  rcases h with ⟨ha, rfl⟩ | ⟨ha, z, rfl, hz⟩
  · simp [ha]
  · simp [ha, hz]

variable (h1 : 1 ≤ w) (h : w ≤ 64) (nsw nuw : Bool) (x y : Word)

include h1 h

theorem evalBinOp_add : Evaluated (AddAlarm nsw nuw (x.setWidth w) (y.setWidth w)) (x.setWidth w + y.setWidth w)
    (evalBinOp w ⟨.add, wrapFlags nsw nuw⟩ x y) := by
  have hz : (ripBits w x + ripBits w y).setWidth w = x.setWidth w + y.setWidth w := by
    rw [BitVec.setWidth_add _ _ h, setWidth_ripBits h, setWidth_ripBits h]
  simp only [evalBinOp, checkFlag_noSignedWrap, checkFlag_noUnsignedWrap]
  cases nuw with
  | true => exact evaluated_ite (uMax_check h x y) hz
  | false =>
    have hguard : (nsw && (0 : Word).slt (signExtend64 w x * signExtend64 w y)) = true ↔
        nsw = true ∧ 0 < product (x.setWidth w) (y.setWidth w) := by
      rw [Bool.and_eq_true, lt_product h1 h]
    simp only [AddAlarm, Bool.false_eq_true, if_false, ← and_assoc]
    refine evaluated_guard hguard ?_ hz
    by_cases hx : 0 ≤ (x.setWidth w).toInt
    · rw [if_pos ((nonneg_signExtend64 h1 h x).2 hx), if_pos hx]
      exact evaluated_ite (sMax_sub_check h1 h x y hx) hz
    · rw [if_neg (mt (nonneg_signExtend64 h1 h x).1 hx), if_neg hx]
      exact evaluated_ite (sMin_sub_check h1 h x y (by omega)) hz

theorem evalBinOp_sub : Evaluated (SubAlarm nsw nuw (x.setWidth w) (y.setWidth w)) (x.setWidth w - y.setWidth w)
    (evalBinOp w ⟨.sub, wrapFlags nsw nuw⟩ x y) := by
  have hz : (ripBits w x - ripBits w y).setWidth w = x.setWidth w - y.setWidth w := by
    rw [Bits.setWidth_sub h, setWidth_ripBits h, setWidth_ripBits h]
  simp only [evalBinOp, checkFlag_noSignedWrap, checkFlag_noUnsignedWrap]
  cases nuw with
  | true => exact evaluated_ite (ult_check h x y) hz
  | false =>
    have hguard : (nsw && (signExtend64 w x * signExtend64 w y).slt 0) = true ↔
        nsw = true ∧ product (x.setWidth w) (y.setWidth w) < 0 := by
      rw [Bool.and_eq_true, product_lt h1 h]
    simp only [SubAlarm, Bool.false_eq_true, if_false, ← and_assoc]
    refine evaluated_guard hguard ?_ hz
    by_cases hx : 0 ≤ (x.setWidth w).toInt
    · rw [if_pos ((nonneg_signExtend64 h1 h x).2 hx), if_pos hx]
      exact evaluated_ite (sMax_add_check h1 h x y hx) hz
    · rw [if_neg (mt (nonneg_signExtend64 h1 h x).1 hx), if_neg hx]
      exact evaluated_ite (sMin_add_check h1 h x y (by omega)) hz

end Evaluations

/-! ## Detection -/

/-- `Add` misses a forbidden wrap, or takes for one what is none. With both flags the signed check is not made. Alone,
it is not made when the product of the operands is not positive as a word, not met by the least word of 63 bits, and
met by every other negative first operand below 64 bits. -/
def AddMisjudged {w : ℕ} (nsw nuw : Bool) (x y : BitVec w) : Prop :=
  nsw = true ∧
  ((nuw = true ∧ x.saddOverflow y = true ∧ x.uaddOverflow y = false) ∨
   (nuw = false ∧ x.saddOverflow y = true ∧ (product x y ≤ 0 ∨ (w = 63 ∧ x.toInt = -2 ^ 62))) ∨
   (nuw = false ∧ x.saddOverflow y = false ∧ 0 < product x y ∧ x.toInt < 0 ∧ w < 64 ∧
      ¬ (w = 63 ∧ x.toInt = -2 ^ 62)))

/-- `Sub` misses a forbidden wrap, or takes for one what is none. With both flags the signed check is not made. Alone,
it is not made when the product of the operands is not negative as a word, met by every negative first operand below 64
bits, and met at 64 bits by operands of the same sign. -/
def SubMisjudged {w : ℕ} (nsw nuw : Bool) (x y : BitVec w) : Prop :=
  nsw = true ∧
  ((nuw = true ∧ x.ssubOverflow y = true ∧ x.usubOverflow y = false) ∨
   (nuw = false ∧ x.ssubOverflow y = true ∧ 0 ≤ product x y) ∨
   (nuw = false ∧ x.ssubOverflow y = false ∧ product x y < 0 ∧
      ((w < 64 ∧ x.toInt < 0) ∨
       (w = 64 ∧ ((0 ≤ x.toInt ∧ 0 < y.toInt) ∨ (x.toInt < 0 ∧ y.toInt < 0))))))

section Detection

variable {w : ℕ} (h : w ≤ 64) (nsw nuw : Bool) (x y : BitVec w)

include h

theorem addAlarm_iff : (AddAlarm nsw nuw x y ↔ Forbidden nsw nuw (x.saddOverflow y) (x.uaddOverflow y)) ↔
    ¬ AddMisjudged nsw nuw x y := by
  cases nuw with
  | true =>
    cases nsw <;> cases hs : x.saddOverflow y <;> cases hu : x.uaddOverflow y <;>
      simp [AddAlarm, AddMisjudged, Forbidden, hs, hu]
  | false =>
    cases nsw with
    | false => simp [AddAlarm, AddMisjudged, Forbidden]
    | true =>
      have h64 : w = 64 → (2 : ℤ) ^ (w - 1) = 2 ^ 63 := by rintro rfl; rfl
      have hx := x.le_toInt
      have hy := y.toInt_lt
      have hy' := y.le_toInt
      simp only [AddAlarm, AddMisjudged, Forbidden, BitVec.saddOverflow, Bool.or_eq_true, Bool.or_eq_false_iff,
        decide_eq_true_eq, decide_eq_false_iff_not, Bool.false_eq_true, if_false, true_and, false_and, or_false,
        false_or]
      split <;> omega

theorem subAlarm_iff : (SubAlarm nsw nuw x y ↔ Forbidden nsw nuw (x.ssubOverflow y) (x.usubOverflow y)) ↔
    ¬ SubMisjudged nsw nuw x y := by
  cases nuw with
  | true =>
    cases nsw <;> cases hs : x.ssubOverflow y <;> cases hu : x.usubOverflow y <;>
      simp [SubAlarm, SubMisjudged, Forbidden, hs, hu]
  | false =>
    cases nsw with
    | false => simp [SubAlarm, SubMisjudged, Forbidden]
    | true =>
      have h64 : w = 64 → (2 : ℤ) ^ (w - 1) = 2 ^ 63 := by rintro rfl; rfl
      have hx := x.le_toInt
      have hx' := x.toInt_lt
      have hy := y.toInt_lt
      have hy' := y.le_toInt
      simp only [SubAlarm, SubMisjudged, Forbidden, BitVec.ssubOverflow, Bool.or_eq_true, Bool.or_eq_false_iff,
        decide_eq_true_eq, decide_eq_false_iff_not, Bool.false_eq_true, if_false, true_and, false_and, or_false,
        false_or]
      split <;> omega

end Detection

section Calls

variable [DataLayout]

/-- `Add` of the constants `x` and `y` detects exactly the forbidden wraps. -/
def AddDetects (s : VcState) (a b : ValueId) (x y : Word) (w : Width) (nsw nuw : Bool) : Prop :=
  let X := x.setWidth w.bits
  let Y := y.setWidth w.bits
  YieldsUnless (Forbidden nsw nuw (X.saddOverflow Y) (X.uaddOverflow Y)) (X + Y)
    (binOp a b w.type ⟨.add, wrapFlags nsw nuw⟩ s)

/-- `Sub` of the constants `x` and `y` detects exactly the forbidden wraps. -/
def SubDetects (s : VcState) (a b : ValueId) (x y : Word) (w : Width) (nsw nuw : Bool) : Prop :=
  let X := x.setWidth w.bits
  let Y := y.setWidth w.bits
  YieldsUnless (Forbidden nsw nuw (X.ssubOverflow Y) (X.usubOverflow Y)) (X - Y)
    (binOp a b w.type ⟨.sub, wrapFlags nsw nuw⟩ s)

variable {s : VcState} {a b : ValueId} {x y : Word}

theorem addDetects_iff (hs : ConstOk s) (ha : s.vc.constantContainer[a]? = some x)
    (hb : s.vc.constantContainer[b]? = some y) (w : Width) (nsw nuw : Bool) :
    AddDetects s a b x y w nsw nuw ↔ ¬ AddMisjudged nsw nuw (x.setWidth w.bits) (y.setWidth w.bits) := by
  rw [AddDetects, Width.type, yieldsUnless_iff hs ha hb, (evalBinOp_add w.pos w.le nsw nuw x y).iff]
  exact addAlarm_iff w.le nsw nuw _ _

theorem subDetects_iff (hs : ConstOk s) (ha : s.vc.constantContainer[a]? = some x)
    (hb : s.vc.constantContainer[b]? = some y) (w : Width) (nsw nuw : Bool) :
    SubDetects s a b x y w nsw nuw ↔ ¬ SubMisjudged nsw nuw (x.setWidth w.bits) (y.setWidth w.bits) := by
  rw [SubDetects, Width.type, yieldsUnless_iff hs ha hb, (evalBinOp_sub w.pos w.le nsw nuw x y).iff]
  exact subAlarm_iff w.le nsw nuw _ _

variable {Adm : VcState → VcOp → Prop} {es : List (Trace.Event VcState VcOp (Except Exn (Option ValueId)))}

/-- On two constants of any container that calls reach, `Add` and `Sub` yield an unknown exactly when a flag forbids
the wrap that the exact result makes, and else a constant that is right modulo the width, if and only if they do not
misjudge the operands. -/
theorem addSub_detect_iff (hrun : VcRun Adm es s) (ha : s.vc.constantContainer[a]? = some x)
    (hb : s.vc.constantContainer[b]? = some y) (w : Width) (nsw nuw : Bool) :
    (AddDetects s a b x y w nsw nuw ↔ ¬ AddMisjudged nsw nuw (x.setWidth w.bits) (y.setWidth w.bits)) ∧
    (SubDetects s a b x y w nsw nuw ↔ ¬ SubMisjudged nsw nuw (x.setWidth w.bits) (y.setWidth w.bits)) :=
  ⟨addDetects_iff (run_ok hrun).const ha hb w nsw nuw, subDetects_iff (run_ok hrun).const ha hb w nsw nuw⟩

end Calls

/-! ## Two negative operands -/

section Examples

attribute [local instance] Ty.x86

/-- A container with the constant `-1` of 8 bits, the id `1`. -/
def minusOneByte : List (Trace.Event VcState VcOp (Except Exn (Option ValueId))) × VcState :=
  Trace.play VcOp.exec [] (VcState.new {}) [.createConstIntVal 0xff]

theorem minusOneByte_run : VcRun (fun _ _ => True) minusOneByte.1 minusOneByte.2 :=
  Trace.Run.play (Trace.Run.start ⟨{}, Int.le_refl 0, rfl⟩) ⟨trivial, trivial⟩

theorem minusOneByte_constant : minusOneByte.2.vc.constantContainer[(1 : ValueId)]? = some 0xff := by decide +kernel

/-- `-1 + -1` is taken for an underflow. -/
theorem not_addSub_detect : ¬ ∀ (es : List (Trace.Event VcState VcOp (Except Exn (Option ValueId)))) (s : VcState),
    VcRun (fun _ _ => True) es s → ∀ (a b : ValueId) (x y : Word), s.vc.constantContainer[a]? = some x →
      s.vc.constantContainer[b]? = some y → ∀ (w : Width) (nsw nuw : Bool),
        AddDetects s a b x y w nsw nuw ∧ SubDetects s a b x y w nsw nuw := by
  intro h
  have hc := minusOneByte_constant
  have hdetects := (h _ _ minusOneByte_run 1 1 _ _ hc hc .byte true false).1
  rw [addDetects_iff (run_ok minusOneByte_run).const hc hc] at hdetects
  exact hdetects (by unfold AddMisjudged product; decide)

/-- `-1 - -1` is judged by the law. -/
theorem minusOneByte_detect :
    (AddDetects minusOneByte.2 1 1 0xff 0xff .byte true false ↔ ¬ AddMisjudged true false (255#8) (255#8)) ∧
    (SubDetects minusOneByte.2 1 1 0xff 0xff .byte true false ↔ ¬ SubMisjudged true false (255#8) (255#8)) :=
  addSub_detect_iff minusOneByte_run minusOneByte_constant minusOneByte_constant .byte true false

end Examples

end Angie
