import Angie.Values.BinOp

/-!
# Divisions and shifts

`Div` and `Rem` compute the quotient and the remainder of the extended operands, and test the divisor at the width, so
they never divide by zero; the signed ones overflow on the least word of 64 bits divided by `-1`, and are right
otherwise (`divRem_iff`). The shifts are right for amounts below the width, but an amount of 64 or more is handed to
the machine shift, and so is the 64 that the arithmetic shift of a negative word of 64 bits by `0` builds its mask from
(`shift_iff`).
-/

namespace Angie

open Exec

/-! ## Division -/

/-- The quotient, truncated towards zero. -/
def quotient {w : ℕ} (signed : Bool) (x y : BitVec w) : BitVec w :=
  if signed then BitVec.ofInt w (x.toInt.tdiv y.toInt) else BitVec.ofNat w (x.toNat / y.toNat)

def remainder {w : ℕ} (signed : Bool) (x y : BitVec w) : BitVec w :=
  if signed then BitVec.ofInt w (x.toInt.tmod y.toInt) else BitVec.ofNat w (x.toNat % y.toNat)

def signFlag (signed : Bool) : ArithFlags := if signed then .signed else .unsigned

/-- The machine division overflows. -/
def Overflows {w : ℕ} (signed : Bool) (x y : BitVec w) : Prop :=
  signed = true ∧ w = 64 ∧ x.toInt = -2 ^ 63 ∧ y.toInt = -1

section Words

variable {w : ℕ} (h1 : 1 ≤ w) (h : w ≤ 64) (x y : Word)

theorem setWidth_eq_ofInt (h : w ≤ 64) (z : Word) : z.setWidth w = BitVec.ofInt w z.toInt :=
  (BitVec.signExtend_eq_setWidth_of_le z h).symm

theorem setWidth_eq_ofNat (z : Word) : z.setWidth w = BitVec.ofNat w z.toNat :=
  BitVec.eq_of_toNat_eq (by rw [BitVec.toNat_setWidth, BitVec.toNat_ofNat])

theorem ripBits_eq_zero_iff (h : w ≤ 64) : ripBits w y = 0 ↔ y.setWidth w = 0 := by
  rw [← BitVec.toNat_inj, toNat_ripBits h, ← BitVec.toNat_inj]
  simp

include h1 h

/-- The test that the code lacks. -/
theorem traps_iff : (signExtend64 w x = BitVec.intMin 64 ∧ signExtend64 w y = -1) ↔
    Overflows true (x.setWidth w) (y.setWidth w) := by
  have hx := toInt_signExtend64 h1 h x
  have hy := toInt_signExtend64 h1 h y
  have hlt := (x.setWidth w).le_toInt
  rw [← BitVec.toInt_inj, ← BitVec.toInt_inj, hx, hy]
  have hmin : (BitVec.intMin 64).toInt = -2 ^ 63 := rfl
  have hone : (-1 : Word).toInt = -1 := rfl
  rw [hmin, hone]
  constructor
  · rintro ⟨hxm, hym⟩
    refine ⟨rfl, ?_, hxm, hym⟩
    rcases two_pow_cases h1 h with ⟨-, hp⟩ | hw | hw
    · omega
    · have hp : (2 : ℤ) ^ (w - 1) = 2 ^ 62 := by rw [hw]
      omega
    · exact hw
  · rintro ⟨-, -, hxm, hym⟩
    exact ⟨hxm, hym⟩

theorem sdiv_setWidth (hno : ¬ Overflows true (x.setWidth w) (y.setWidth w)) :
    ((signExtend64 w x).sdiv (signExtend64 w y)).setWidth w = quotient true (x.setWidth w) (y.setWidth w) := by
  rw [← traps_iff h1 h, not_and_or] at hno
  rw [setWidth_eq_ofInt h, BitVec.toInt_sdiv_of_ne_or_ne _ _ hno, toInt_signExtend64 h1 h, toInt_signExtend64 h1 h]
  rfl

theorem srem_setWidth :
    ((signExtend64 w x).srem (signExtend64 w y)).setWidth w = remainder true (x.setWidth w) (y.setWidth w) := by
  rw [setWidth_eq_ofInt h, BitVec.toInt_srem, toInt_signExtend64 h1 h, toInt_signExtend64 h1 h]
  rfl

omit h1 in
theorem udiv_setWidth :
    (ripBits w x / ripBits w y).setWidth w = quotient false (x.setWidth w) (y.setWidth w) := by
  rw [setWidth_eq_ofNat, BitVec.toNat_udiv, toNat_ripBits h, toNat_ripBits h]
  rfl

omit h1 in
theorem umod_setWidth :
    (ripBits w x % ripBits w y).setWidth w = remainder false (x.setWidth w) (y.setWidth w) := by
  rw [setWidth_eq_ofNat, BitVec.toNat_umod, toNat_ripBits h, toNat_ripBits h]
  rfl

end Words

/-- An evaluation is undefined when `traps` holds, else it yields an unknown for the divisor `0`, and a constant that is
`r` modulo the width for any other. -/
structure Divides {w : ℕ} (traps : Prop) (y r : BitVec w) (res : Except Exn (Option Word)) : Prop where
  undefined : traps → ∃ what, res = .error (.undefinedBehaviour what)
  zero : y = 0 → res = .ok none
  constant : y ≠ 0 → ¬ traps → ∃ z, res = .ok (some z) ∧ z.setWidth w = r

section Evaluations

variable {w : ℕ} (h1 : 1 ≤ w) (h : w ≤ 64) (signed : Bool) (x y : Word)

include h1 h

omit h1 in
/-- The divisor of a division that overflows is not `0`. -/
theorem ripBits_ne_zero_of_overflows (ho : Overflows signed (x.setWidth w) (y.setWidth w)) : ripBits w y ≠ 0 := by
  intro hzero
  have hy := ho.2.2.2
  rw [(ripBits_eq_zero_iff y h).1 hzero] at hy
  simp at hy

/-- The branches that `Div` and `Rem` share: the divisor is tested, the flags choose the machine operation, and only the
signed one traps. -/
theorem divides_of_branches {res : Except Exn (Option Word)} {r : BitVec w} (what : String) (zs zu : Word)
    (hzero : ripBits w y = 0 → res = .ok none)
    (hsigned : signed = true → ripBits w y ≠ 0 → res =
      if signExtend64 w x = BitVec.intMin 64 ∧ signExtend64 w y = -1 then .error (.undefinedBehaviour what)
      else .ok (some zs))
    (hunsigned : signed = false → ripBits w y ≠ 0 → res = .ok (some zu))
    (hs : signed = true → ¬ Overflows true (x.setWidth w) (y.setWidth w) → zs.setWidth w = r)
    (hu : signed = false → zu.setWidth w = r) :
    Divides (Overflows signed (x.setWidth w) (y.setWidth w)) (y.setWidth w) r res := by
  have hrip := ripBits_eq_zero_iff y h
  constructor
  · intro ho
    have hne := ripBits_ne_zero_of_overflows h signed x y ho
    obtain rfl : signed = true := ho.1
    exact ⟨what, by rw [hsigned rfl hne, if_pos ((traps_iff h1 h x y).2 ho)]⟩
  · intro hy
    exact hzero (hrip.2 hy)
  · intro hy hno
    have hne := mt hrip.1 hy
    cases signed with
    | true => exact ⟨zs, by rw [hsigned rfl hne, if_neg (mt (traps_iff h1 h x y).1 hno)], hs rfl hno⟩
    | false => exact ⟨zu, hunsigned rfl hne, hu rfl⟩

theorem evalBinOp_div : Divides (Overflows signed (x.setWidth w) (y.setWidth w)) (y.setWidth w)
    (quotient signed (x.setWidth w) (y.setWidth w)) (evalBinOp w ⟨.div, signFlag signed⟩ x y) := by
  have hflag : ArithFlags.signed ≠ ArithFlags.unsigned := by decide
  refine divides_of_branches h1 h signed x y "INT64_MIN / -1" ((signExtend64 w x).sdiv (signExtend64 w y))
    (ripBits w x / ripBits w y) (fun hzero => ?_) (fun ht hne => ?_) (fun hf hne => ?_) (fun ht hno => ?_) fun hf => ?_
  · simp only [evalBinOp, if_pos hzero]
  · simp only [evalBinOp, signFlag, ht, if_neg hne, if_true, if_neg hflag]
  · simp only [evalBinOp, signFlag, hf, if_neg hne, Bool.false_eq_true, if_false, if_true]
  · rw [ht]
    exact sdiv_setWidth h1 h x y hno
  · rw [hf]
    exact udiv_setWidth h x y

theorem evalBinOp_rem : Divides (Overflows signed (x.setWidth w) (y.setWidth w)) (y.setWidth w)
    (remainder signed (x.setWidth w) (y.setWidth w)) (evalBinOp w ⟨.rem, signFlag signed⟩ x y) := by
  have hflag : ArithFlags.signed ≠ ArithFlags.unsigned := by decide
  refine divides_of_branches h1 h signed x y "INT64_MIN % -1" ((signExtend64 w x).srem (signExtend64 w y))
    (ripBits w x % ripBits w y) (fun hzero => ?_) (fun ht hne => ?_) (fun hf hne => ?_) (fun ht _ => ?_) fun hf => ?_
  · simp only [evalBinOp, if_pos hzero]
  · simp only [evalBinOp, signFlag, ht, if_neg hne, if_true, if_neg hflag]
  · simp only [evalBinOp, signFlag, hf, if_neg hne, Bool.false_eq_true, if_false, if_true]
  · rw [ht]
    exact srem_setWidth h1 h x y
  · rw [hf]
    exact umod_setWidth h x y

end Evaluations

section Calls

variable [DataLayout] {s : VcState} {a b : ValueId} {x y : Word} {w : Width}

/-- A division yields what it is to yield unless it is undefined. -/
theorem Divides.iff (hs : ConstOk s) (ha : s.vc.constantContainer[a]? = some x)
    (hb : s.vc.constantContainer[b]? = some y) {o : BinaryOpOptions} {traps : Prop} {r : BitVec w.bits}
    (hd : Divides traps (y.setWidth w.bits) r (evalBinOp w.bits o x y)) :
    YieldsUnless (y.setWidth w.bits = 0) r (binOp a b w.type o s) ↔ ¬ traps := by
  rw [Width.type, yieldsUnless_iff hs ha hb]
  constructor
  · rintro ⟨res, hres, -⟩ htraps
    obtain ⟨what, herr⟩ := hd.undefined htraps
    rw [herr] at hres
    cases hres
  · intro hno
    by_cases hy : y.setWidth w.bits = 0
    · refine ⟨none, hd.zero hy, iff_of_true rfl hy, fun z hz => ?_⟩
      cases hz
    · obtain ⟨z, hz, hr⟩ := hd.constant hy hno
      refine ⟨some z, hz, iff_of_false (Option.some_ne_none z) hy, fun z' hz' => ?_⟩
      cases hz'
      exact hr

/-- `Div` and `Rem` yield an unknown for a divisor that is zero at the width, and else a constant that is the quotient or
the remainder of the extended operands modulo the width. -/
def DivRemDefined (s : VcState) (a b : ValueId) (x y : Word) (w : Width) (signed : Bool) : Prop :=
  let X := x.setWidth w.bits
  let Y := y.setWidth w.bits
  YieldsUnless (Y = 0) (quotient signed X Y) (binOp a b w.type ⟨.div, signFlag signed⟩ s) ∧
    YieldsUnless (Y = 0) (remainder signed X Y) (binOp a b w.type ⟨.rem, signFlag signed⟩ s)

theorem divRemDefined_iff (hs : ConstOk s) (ha : s.vc.constantContainer[a]? = some x)
    (hb : s.vc.constantContainer[b]? = some y) (w : Width) (signed : Bool) :
    DivRemDefined s a b x y w signed ↔ ¬ Overflows signed (x.setWidth w.bits) (y.setWidth w.bits) := by
  rw [DivRemDefined, (evalBinOp_div w.pos w.le signed x y).iff hs ha hb,
    (evalBinOp_rem w.pos w.le signed x y).iff hs ha hb, and_self]

variable {Adm : VcState → VcOp → Prop} {es : List (Trace.Event VcState VcOp (Except Exn (Option ValueId)))}

/-- On two constants of any container that calls reach, divisions and remainders are defined and right if and only if
they are not signed ones of the least word of 64 bits by `-1`. -/
theorem divRem_iff (hrun : VcRun Adm es s) (ha : s.vc.constantContainer[a]? = some x)
    (hb : s.vc.constantContainer[b]? = some y) (w : Width) (signed : Bool) :
    DivRemDefined s a b x y w signed ↔ ¬ Overflows signed (x.setWidth w.bits) (y.setWidth w.bits) :=
  divRemDefined_iff (run_ok hrun).const ha hb w signed

end Calls

/-! ## Shifts -/

/-- The shifts; a left one may have any flags. -/
inductive ShiftOp where
  | shl (flags : ArithFlags)
  | lShr
  | aShr
  deriving DecidableEq

def ShiftOp.options : ShiftOp → BinaryOpOptions
  | .shl flags => ⟨.shl, flags⟩
  | .lShr => ⟨.shr, .unsigned⟩
  | .aShr => ⟨.shr, .signed⟩

/-- The operand times or divided by a power of two; the division of integers rounds down. -/
def ShiftOp.apply {w : ℕ} : ShiftOp → BitVec w → ℕ → BitVec w
  | .shl _, x, n => BitVec.ofNat w (x.toNat * 2 ^ n)
  | .lShr, x, n => BitVec.ofNat w (x.toNat / 2 ^ n)
  | .aShr, x, n => BitVec.ofInt w (x.toInt / 2 ^ n)

/-- A shift by 64 or more is evaluated. -/
def Overshifts {w : ℕ} (op : ShiftOp) (x y : BitVec w) : Prop :=
  64 ≤ y.toNat ∨ (op = .aShr ∧ w = 64 ∧ x.msb = true ∧ y.toNat = 0)

section Shifts

variable {w : ℕ} (h1 : 1 ≤ w) (h : w ≤ 64) (x : Word) (n : ℕ)

theorem shl_setWidth (h : w ≤ 64) :
    (ripBits w x <<< n).setWidth w = BitVec.ofNat w ((x.setWidth w).toNat * 2 ^ n) := by
  apply BitVec.eq_of_toNat_eq
  rw [BitVec.toNat_setWidth, BitVec.toNat_shiftLeft, BitVec.toNat_ofNat, toNat_ripBits h, Nat.shiftLeft_eq]
  exact Nat.mod_mod_of_dvd _ (Nat.pow_dvd_pow 2 h)

theorem lShr_setWidth (h : w ≤ 64) :
    (ripBits w x >>> n).setWidth w = BitVec.ofNat w ((x.setWidth w).toNat / 2 ^ n) := by
  rw [setWidth_eq_ofNat, BitVec.toNat_ushiftRight, toNat_ripBits h, Nat.shiftRight_eq_div_pow]

theorem sshiftRight_eq_ofInt (y : BitVec w) : y.sshiftRight n = BitVec.ofInt w (y.toInt / 2 ^ n) := by
  have hdiv : y.toInt / 2 ^ n = (y.sshiftRight n).toInt := by
    rw [BitVec.toInt_sshiftRight, Int.shiftRight_eq_div_pow]
    norm_cast
  rw [hdiv, BitVec.ofInt_toInt]

/-- The shift of a word that is not negative. -/
theorem aShr_setWidth_nonneg (h : w ≤ 64) (hx : (x.setWidth w).msb = false) :
    (ripBits w x >>> n).setWidth w = BitVec.ofInt w ((x.setWidth w).toInt / 2 ^ n) := by
  rw [← sshiftRight_eq_ofInt, BitVec.sshiftRight_eq_of_msb_false hx, lShr_setWidth x n h]
  apply BitVec.eq_of_toNat_eq
  rw [BitVec.toNat_ofNat, BitVec.toNat_ushiftRight, Nat.shiftRight_eq_div_pow]
  exact Nat.mod_eq_of_lt ((Nat.div_le_self _ _).trans_lt (x.setWidth w).isLt)

theorem aShr_setWidth_neg (h : w ≤ 64) (hn : n < w) (hmask : w - n < 64) (hx : (x.setWidth w).msb = true) :
    (ripBits w x >>> n ||| ~~~(((1 : Word) <<< (w - n)) - 1)).setWidth w =
      BitVec.ofInt w ((x.setWidth w).toInt / 2 ^ n) := by
  rw [← sshiftRight_eq_ofInt, ripBits_eq h]
  exact Bits.shift_or_mask_eq h hn hmask hx

include h1 h

theorem isNegative_eq : (ripBits w x &&& ((1 : Word) <<< (w - 1)) != 0) = (x.setWidth w).msb := by
  rw [ripBits_eq h]
  exact Bits.and_sign_ne_zero h1 h _

omit h1 in
/-- The bits that the sign leaves, of which there are at most 64. -/
theorem origBits_eq {y : Word} (hy : (y.setWidth w).toNat < 64) :
    ((BitVec.ofNat 64 w - ripBits w y).slt 0 = true ↔ w < (y.setWidth w).toNat) ∧
    ((y.setWidth w).toNat ≤ w → (BitVec.ofNat 64 w - ripBits w y).toNat = w - (y.setWidth w).toNat) := by
  have hw : (BitVec.ofNat 64 w).toNat = w := by
    rw [BitVec.toNat_ofNat]
    omega
  have hr := toNat_ripBits h y
  have hwi : (BitVec.ofNat 64 w).toInt = w := by
    rw [BitVec.toInt_eq_toNat_of_lt (by omega), hw]
  have hri : (ripBits w y).toInt = (y.setWidth w).toNat := by
    rw [BitVec.toInt_eq_toNat_of_lt (by omega), hr]
  constructor
  · rw [BitVec.slt_iff_toInt_lt, Bits.toInt_sub_of_range (by omega) (by omega), hwi, hri]
    show (w : ℤ) - _ < 0 ↔ _
    omega
  · intro hle
    rw [BitVec.toNat_sub_of_le (by rw [BitVec.le_def]; omega), hw, hr]

variable {y : Word}

omit h1 in
/-- A large amount is handed to the machine shift. -/
theorem evalBinOp_overshift (op : ShiftOp) (hy : 64 ≤ (y.setWidth w).toNat) :
    evalBinOp w op.options x y = .error (.undefinedBehaviour "shift by 64 or more") := by
  rw [← toNat_ripBits h] at hy
  cases op with
  | shl | lShr | aShr => simp only [evalBinOp, ShiftOp.options, if_pos hy]

omit h1 in
theorem evalBinOp_shl (flags : ArithFlags) (hy : (y.setWidth w).toNat < 64) :
    evalBinOp w (ShiftOp.shl flags).options x y = .ok (some (ripBits w x <<< (y.setWidth w).toNat)) := by
  rw [← toNat_ripBits h] at hy ⊢
  simp only [evalBinOp, ShiftOp.options, if_neg (not_le.2 hy)]

omit h1 in
theorem evalBinOp_lShr (hy : (y.setWidth w).toNat < 64) :
    evalBinOp w ShiftOp.lShr.options x y = .ok (some (ripBits w x >>> (y.setWidth w).toNat)) := by
  rw [← toNat_ripBits h] at hy ⊢
  simp only [evalBinOp, ShiftOp.options, if_neg (not_le.2 hy), if_true]

theorem evalBinOp_aShr (hy : (y.setWidth w).toNat < 64) :
    evalBinOp w ShiftOp.aShr.options x y =
      if (x.setWidth w).msb = false then .ok (some (ripBits w x >>> (y.setWidth w).toNat))
      else if w < (y.setWidth w).toNat then .ok (some (BitVec.allOnes 64))
      else if w = 64 ∧ (y.setWidth w).toNat = 0 then .error (.undefinedBehaviour "shift by 64 or more")
      else .ok (some (ripBits w x >>> (y.setWidth w).toNat |||
        ~~~(((1 : Word) <<< (w - (y.setWidth w).toNat)) - 1))) := by
  obtain ⟨hslt, hbits⟩ := origBits_eq h hy
  have hflag : ArithFlags.signed ≠ ArithFlags.unsigned := by decide
  have hr := toNat_ripBits h y
  simp only [evalBinOp, ShiftOp.options, hr, if_neg (not_le.2 hy), if_neg hflag, if_true, isNegative_eq h1 h x]
  cases (x.setWidth w).msb with
  | false => rfl
  | true =>
    simp only [Bool.not_true, Bool.false_eq_true, Bool.true_eq_false, if_false]
    by_cases hlt : w < (y.setWidth w).toNat
    · rw [if_pos (hslt.2 hlt), if_pos hlt]
    · rw [if_neg (mt hslt.1 hlt), if_neg hlt, hbits (by omega)]
      -- all 64 bits are left when nothing is shifted out of 64
      have hall : 64 ≤ w - (y.setWidth w).toNat ↔ w = 64 ∧ (y.setWidth w).toNat = 0 := by omega
      simp only [hall]

/-- A shift is undefined when it overshifts, and else yields a constant, which is right for amounts below the width. -/
theorem evalBinOp_shift (op : ShiftOp) :
    (Overshifts op (x.setWidth w) (y.setWidth w) →
      evalBinOp w op.options x y = .error (.undefinedBehaviour "shift by 64 or more")) ∧
    (¬ Overshifts op (x.setWidth w) (y.setWidth w) →
      ∃ z, evalBinOp w op.options x y = .ok (some z) ∧
        ((y.setWidth w).toNat < w → z.setWidth w = op.apply (x.setWidth w) (y.setWidth w).toNat)) := by
  by_cases hy : 64 ≤ (y.setWidth w).toNat
  · exact ⟨fun _ => evalBinOp_overshift h x op hy, fun hno => absurd (Or.inl hy) hno⟩
  · have hy' : (y.setWidth w).toNat < 64 := by omega
    cases op with
    | shl flags =>
      refine ⟨fun hover => ?_, fun _ => ⟨_, evalBinOp_shl h x flags hy', fun _ => shl_setWidth x _ h⟩⟩
      simp only [Overshifts, hy, reduceCtorEq, false_and, or_false] at hover
    | lShr =>
      refine ⟨fun hover => ?_, fun _ => ⟨_, evalBinOp_lShr h x hy', fun _ => lShr_setWidth x _ h⟩⟩
      simp only [Overshifts, hy, reduceCtorEq, false_and, or_false] at hover
    | aShr =>
      rw [evalBinOp_aShr h1 h x hy']
      cases hmsb : (x.setWidth w).msb with
      | false =>
        refine ⟨fun hover => ?_, fun _ => ⟨_, if_pos rfl, fun _ => aShr_setWidth_nonneg x _ h hmsb⟩⟩
        simp only [Overshifts, hy, hmsb, Bool.false_eq_true, false_and, and_false, or_false] at hover
      | true =>
        simp only [Overshifts, hmsb, hy, true_and, false_or, Bool.true_eq_false, if_false]
        by_cases hlt : w < (y.setWidth w).toNat
        · rw [if_pos hlt]
          exact ⟨fun hall => by omega, fun _ => ⟨_, rfl, fun hlt' => by omega⟩⟩
        · rw [if_neg hlt]
          refine ⟨fun hall => if_pos hall, fun hno => ⟨_, if_neg hno, fun hlt' => ?_⟩⟩
          exact aShr_setWidth_neg x _ h hlt' (by omega) hmsb

end Shifts

section Calls

variable [DataLayout] {s : VcState} {a b : ValueId} {x y : Word}

/-- The shift is defined, and gives a constant that is right modulo the width for an amount below it. -/
def ShiftDefined (s : VcState) (a b : ValueId) (x y : Word) (w : Width) (op : ShiftOp) : Prop :=
  let X := x.setWidth w.bits
  let Y := y.setWidth w.bits
  ∃ v t, binOp a b w.type op.options s = .ok v t ∧
    (Y.toNat < w.bits → ∃ z, t.vc.getConstantIntInnerVal v = .ok z ∧ z.setWidth w.bits = op.apply X Y.toNat)

/-- Shifts of constants are defined and right if and only if they evaluate no shift by 64 or more: the amount is less, and
an arithmetic shift is not one of a negative word of 64 bits by `0`. -/
theorem shift_iff (ha : s.vc.constantContainer[a]? = some x) (hb : s.vc.constantContainer[b]? = some y)
    (w : Width) (op : ShiftOp) :
    ShiftDefined s a b x y w op ↔ ¬ Overshifts op (x.setWidth w.bits) (y.setWidth w.bits) := by
  obtain ⟨hover, hno⟩ := evalBinOp_shift w.pos w.le x (y := y) op
  constructor
  · rintro ⟨v, t, hv, -⟩ ho
    rw [Width.type, binOp_of_error (Ty.getBitWidth_int w.bits) ha hb (hover ho)] at hv
    cases hv
  · intro ho
    obtain ⟨z, hz, hr⟩ := hno ho
    obtain ⟨v, t, hv, -, hbound⟩ := createConstIntVal_spec z s
    refine ⟨v, t, ?_, fun hlt => ⟨z, ?_, hr hlt⟩⟩
    · rw [Width.type, binOp_of_some (Ty.getBitWidth_int w.bits) ha hb hz, hv]
    · simp only [ValueContainer.getConstantIntInnerVal, hbound]

end Calls

/-! ## A shift that is not defined, and a division -/

section Examples

attribute [local instance] Ty.x86

/-- A container with the least word of 64 bits, the id `1`, and `-1`, the id `2`. -/
def leastWord : List (Trace.Event VcState VcOp (Except Exn (Option ValueId))) × VcState :=
  Trace.play VcOp.exec [] (VcState.new {}) [.createConstIntVal 0x8000000000000000, .createConstIntVal (-1)]

theorem leastWord_run : VcRun (fun _ _ => True) leastWord.1 leastWord.2 :=
  Trace.Run.play (Trace.Run.start ⟨{}, Int.le_refl 0, rfl⟩) ⟨trivial, trivial, trivial⟩

theorem leastWord_least : leastWord.2.vc.constantContainer[(1 : ValueId)]? = some 0x8000000000000000 := by decide +kernel

theorem leastWord_minusOne : leastWord.2.vc.constantContainer[(2 : ValueId)]? = some (-1) := by decide +kernel

theorem leastWord_zero : leastWord.2.vc.constantContainer[(0 : ValueId)]? = some 0 := by decide +kernel

def Width.word : Width := ⟨64, by decide, by decide⟩

/-- The division of the least word by `-1` is undefined. -/
theorem not_divRem_defined : ¬ ∀ (es : List (Trace.Event VcState VcOp (Except Exn (Option ValueId)))) (s : VcState),
    VcRun (fun _ _ => True) es s → ∀ (a b : ValueId) (x y : Word), s.vc.constantContainer[a]? = some x →
      s.vc.constantContainer[b]? = some y → ∀ (w : Width) (signed : Bool), DivRemDefined s a b x y w signed := by
  intro h
  have hdefined := h _ _ leastWord_run 1 2 _ _ leastWord_least leastWord_minusOne .word true
  rw [divRemDefined_iff (run_ok leastWord_run).const leastWord_least leastWord_minusOne] at hdefined
  exact hdefined ⟨rfl, rfl, by decide, by decide⟩

/-- Divided by zero it is unknown. -/
theorem leastWord_divRem : DivRemDefined leastWord.2 1 0 0x8000000000000000 0 .word true ↔
    ¬ Overflows true (BitVec.setWidth 64 (0x8000000000000000 : Word)) (BitVec.setWidth 64 (0 : Word)) :=
  divRem_iff leastWord_run leastWord_least leastWord_zero .word true

/-- The arithmetic shift of the least word by `0` is undefined. -/
theorem not_shift_defined : ¬ ∀ (s : VcState) (a b : ValueId) (x y : Word), s.vc.constantContainer[a]? = some x →
    s.vc.constantContainer[b]? = some y → ∀ (w : Width) (op : ShiftOp), ShiftDefined s a b x y w op := by
  intro h
  obtain ⟨v, t, hv, -⟩ := h leastWord.2 1 0 _ _ leastWord_least leastWord_zero .word .aShr
  have herr : evalBinOp 64 ShiftOp.aShr.options 0x8000000000000000 0 =
      .error (.undefinedBehaviour "shift by 64 or more") := by decide +kernel
  have hbin : binOp 1 0 Width.word.type ShiftOp.aShr.options leastWord.2 = .error _ leastWord.2 :=
    binOp_of_error (Ty.getBitWidth_int 64) leastWord_least leastWord_zero herr
  rw [hbin] at hv
  cases hv

/-- The logical one is defined. -/
theorem leastWord_shift : ShiftDefined leastWord.2 1 0 0x8000000000000000 0 .word .lShr ↔
    ¬ Overshifts .lShr (BitVec.setWidth 64 (0x8000000000000000 : Word)) (BitVec.setWidth 64 (0 : Word)) :=
  shift_iff leastWord_least leastWord_zero .word .lShr

end Examples

end Angie
