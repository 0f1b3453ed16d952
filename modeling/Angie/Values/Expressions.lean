import Angie.Values.Calls

/-!
# Evaluating constant expressions

`Expr` are the well-typed expression trees over constants, at the integer types of 1 to 64 bits. Evaluated in one
container (`Expr.eval`), a tree yields a constant whose value modulo the width is that of the tree (`Expr.value`),
although the container stores what the 64-bit operations gave: every operation masks or extends its operands first, and
truncation to the width is a homomorphism for all of them (`evalBinOp_wrap`). The proof is by induction on the tree
(`Expr.eval_constant`); constants that are bound stay bound while the other operand is evaluated (`Extends.bound`).
-/

namespace Angie

open Exec

/-! ## Expressions -/

/-- The widths of integers that the container supports. -/
structure Width where
  bits : ℕ
  pos : 1 ≤ bits
  le : bits ≤ 64

def Width.type (w : Width) : Ty := .int w.bits

theorem Width.type_ne_void (w : Width) : w.type ≠ .void := by
  intro h
  cases h

/-- The operations whose result depends on the operands modulo the width only. -/
inductive WrapOp where
  | add | sub | mul | and | or | xor
  deriving DecidableEq, Repr

def WrapOp.kind : WrapOp → BinaryOpKind
  | .add => .add
  | .sub => .sub
  | .mul => .mul
  | .and => .and
  | .or => .or
  | .xor => .xor

/-- The operation in two's complement. -/
def WrapOp.apply {w : ℕ} : WrapOp → BitVec w → BitVec w → BitVec w
  | .add, x, y => x + y
  | .sub, x, y => x - y
  | .mul, x, y => x * y
  | .and, x, y => x &&& y
  | .or, x, y => x ||| y
  | .xor, x, y => x ^^^ y

/-- Expressions by the width of their value. -/
inductive Expr : Width → Type
  | const (w : Width) (value : Word) : Expr w
  | binOp {w : Width} (op : WrapOp) (lhs rhs : Expr w) : Expr w
  | bitNot {w : Width} (e : Expr w) : Expr w
  | extendInt {w : Width} (signed : Bool) (target : Width) (h : w.bits ≤ target.bits) (e : Expr w) : Expr target
  | truncateInt {w : Width} (target : Width) (h : target.bits ≤ w.bits) (e : Expr w) : Expr target

namespace Expr

/-- The bit-vector that the expression stands for. -/
def value : {w : Width} → Expr w → BitVec w.bits
  | w, .const _ c => c.setWidth w.bits
  | _, .binOp op lhs rhs => op.apply lhs.value rhs.value
  | _, .bitNot e => ~~~e.value
  | w, .extendInt signed _ _ e => if signed then e.value.signExtend w.bits else e.value.setWidth w.bits
  | w, .truncateInt _ _ e => e.value.setWidth w.bits

variable [DataLayout]

/-- Evaluation through the calls of a container, the operands first. -/
def eval : {w : Width} → Expr w → VcM ValueId
  | _, .const _ c => createConstIntVal c
  | w, .binOp op lhs rhs => do
    let first ← lhs.eval
    let second ← rhs.eval
    Angie.binOp first second w.type ⟨op.kind, ArithFlags.default⟩
  | w, .bitNot e => do
    let first ← e.eval
    Angie.bitNot first w.type
  | _, .extendInt (w := source) signed target _ e => do
    let first ← e.eval
    Angie.extendInt first source.type target.type (if signed then ArithFlags.signed else ArithFlags.unsigned)
  | _, .truncateInt (w := source) target _ e => do
    let first ← e.eval
    Angie.truncateInt first source.type target.type

end Expr

/-! ## Operations modulo the width -/

section Operations

variable {w : ℕ}

theorem setWidth_ripBits (h : w ≤ 64) (c : Word) : (ripBits w c).setWidth w = c.setWidth w := by
  rw [ripBits_eq h, BitVec.setWidth_setWidth_of_le _ h]
  simp

theorem setWidth_signExtend64 (h1 : 1 ≤ w) (h : w ≤ 64) (c : Word) :
    (signExtend64 w c).setWidth w = c.setWidth w := by
  rw [signExtend64_eq h1 h, Bits.setWidth_signExtend h, BitVec.signExtend_eq]

/-- Without wrap flags the operations yield a constant, which is right modulo the width. -/
theorem evalBinOp_wrap (h1 : 1 ≤ w) (h : w ≤ 64) (op : WrapOp) (x y : Word) :
    ∃ z, evalBinOp w ⟨op.kind, ArithFlags.default⟩ x y = .ok (some z) ∧
      z.setWidth w = op.apply (x.setWidth w) (y.setWidth w) := by
  have hu : checkFlag ArithFlags.default ArithFlags.noUnsignedWrap = false := by decide
  have hs : checkFlag ArithFlags.default ArithFlags.noSignedWrap = false := by decide
  have hx := setWidth_ripBits h x
  have hy := setWidth_ripBits h y
  cases op with
  | add =>
    refine ⟨ripBits w x + ripBits w y, by simp [evalBinOp, WrapOp.kind, hu, hs], ?_⟩
    rw [BitVec.setWidth_add _ _ h, hx, hy]
    rfl
  | sub =>
    refine ⟨ripBits w x - ripBits w y, by simp [evalBinOp, WrapOp.kind, hu, hs], ?_⟩
    rw [Bits.setWidth_sub h, hx, hy]
    rfl
  | mul =>
    refine ⟨signExtend64 w x * signExtend64 w y, by simp [evalBinOp, WrapOp.kind, hu, hs], ?_⟩
    rw [BitVec.setWidth_mul _ _ h, setWidth_signExtend64 h1 h, setWidth_signExtend64 h1 h]
    rfl
  | and =>
    refine ⟨ripBits w x &&& ripBits w y, rfl, ?_⟩
    rw [BitVec.setWidth_and, hx, hy]
    rfl
  | or =>
    refine ⟨ripBits w x ||| ripBits w y, rfl, ?_⟩
    rw [BitVec.setWidth_or, hx, hy]
    rfl
  | xor =>
    refine ⟨ripBits w x ^^^ ripBits w y, rfl, ?_⟩
    rw [BitVec.setWidth_xor, hx, hy]
    rfl

end Operations

/-! ## The calls on constants -/

section Calls

variable [DataLayout] {s : VcState} {a b : ValueId} {x y : Word}

theorem binOp_wrap (w : Width) (op : WrapOp) (ha : s.vc.constantContainer[a]? = some x)
    (hb : s.vc.constantContainer[b]? = some y) :
    ∃ v t z, binOp a b w.type ⟨op.kind, ArithFlags.default⟩ s = .ok v t ∧ Grows s t ∧
      t.vc.constantContainer[v]? = some z ∧ z.setWidth w.bits = op.apply (x.setWidth w.bits) (y.setWidth w.bits) := by
  obtain ⟨z, hz, hval⟩ := evalBinOp_wrap w.pos w.le op x y
  obtain ⟨v, t, h, hg, hv⟩ := createConstIntVal_spec z s
  exact ⟨v, t, z, (binOp_of_some (Ty.getBitWidth_int w.bits) ha hb hz).trans h, hg, hv, hval⟩

omit [DataLayout] in
theorem bitNot_wrap (w : Width) (ha : s.vc.constantContainer[a]? = some x) :
    ∃ v t z, bitNot a w.type s = .ok v t ∧ Grows s t ∧ t.vc.constantContainer[v]? = some z ∧
      z.setWidth w.bits = ~~~(x.setWidth w.bits) := by
  obtain ⟨v, t, h, hg, hv⟩ := createConstIntVal_spec (~~~x) s
  refine ⟨v, t, ~~~x, ?_, hg, hv, BitVec.setWidth_not w.le⟩
  unfold bitNot
  rw [bind_of_ok (get_apply s)]
  simp only [ha]
  exact h

theorem extendInt_signed (source target : Width) (ha : s.vc.constantContainer[a]? = some x) :
    ∃ v t z, extendInt a source.type target.type ArithFlags.signed s = .ok v t ∧ Grows s t ∧
      t.vc.constantContainer[v]? = some z ∧
      z.setWidth target.bits = (x.setWidth source.bits).signExtend target.bits := by
  obtain ⟨v, t, h, hg, hv⟩ := createConstIntVal_spec (signExtend64 source.bits x) s
  have hflag : checkFlag ArithFlags.signed ArithFlags.signed = true := by decide
  refine ⟨v, t, _, ?_, hg, hv, ?_⟩
  · unfold extendInt
    rw [bind_of_ok (get_apply s)]
    simp only [ha, hflag, if_true, Width.type, Ty.getBitWidth_int]
    exact h
  · rw [signExtend64_eq source.pos source.le, Bits.setWidth_signExtend target.le]

theorem extendInt_unsigned (source target : Width) (ha : s.vc.constantContainer[a]? = some x) :
    ∃ v t z, extendInt a source.type target.type ArithFlags.unsigned s = .ok v t ∧ Grows s t ∧
      t.vc.constantContainer[v]? = some z ∧
      z.setWidth target.bits = (x.setWidth source.bits).setWidth target.bits := by
  obtain ⟨v, t, h, hg, hv⟩ := createConstIntVal_spec (ripBits source.bits x) s
  have hflag : checkFlag ArithFlags.unsigned ArithFlags.signed = false := by decide
  refine ⟨v, t, _, ?_, hg, hv, ?_⟩
  · unfold extendInt
    rw [bind_of_ok (get_apply s)]
    simp only [ha, hflag, Bool.false_eq_true, if_false, Width.type, Ty.getBitWidth_int]
    exact h
  · rw [ripBits_eq source.le, BitVec.setWidth_setWidth_of_le _ target.le]

omit [DataLayout] in
/-- Truncation hands the constant on as it is. -/
theorem truncateInt_constant (source target : Ty) (ha : s.vc.constantContainer[a]? = some x) :
    truncateInt a source target s = .ok a s := by
  unfold truncateInt
  rw [bind_of_ok (get_apply s)]
  simp only [ha]
  rfl

end Calls

/-! ## Evaluation -/

section Evaluation

variable [DataLayout]

/-- Evaluation succeeds with a constant, which is the value of the expression modulo its width. -/
theorem Expr.eval_constant : ∀ {w : Width} (e : Expr w) {s : VcState}, ConstOk s →
    ∃ v t c, e.eval s = .ok v t ∧ Grows s t ∧ t.vc.constantContainer[v]? = some c ∧ c.setWidth w.bits = e.value := by
  intro w e
  induction e with
  | const w c =>
    intro s _
    obtain ⟨v, t, h, hg, hv⟩ := createConstIntVal_spec c s
    exact ⟨v, t, c, h, hg, hv, rfl⟩
  | @binOp w op lhs rhs ihl ihr =>
    intro s hs
    obtain ⟨a, s1, x, h1, hg1, ha, hx⟩ := ihl hs
    obtain ⟨b, s2, y, h2, hg2, hb, hy⟩ := ihr (hg1.keeps hs)
    -- the left operand is still bound after the right one is evaluated
    obtain ⟨v, t, z, h3, hg3, hv, hz⟩ := binOp_wrap w op (hg2.bound (hg1.keeps hs) ha) hb
    refine ⟨v, t, z, ?_, hg1.trans (hg2.trans hg3), hv, ?_⟩
    · rw [Expr.eval, bind_of_ok h1, bind_of_ok h2]
      exact h3
    · rw [hz, hx, hy]
      rfl
  | @bitNot w e ih =>
    intro s hs
    obtain ⟨a, s1, x, h1, hg1, ha, hx⟩ := ih hs
    obtain ⟨v, t, z, h2, hg2, hv, hz⟩ := bitNot_wrap w ha
    refine ⟨v, t, z, ?_, hg1.trans hg2, hv, ?_⟩
    · rw [Expr.eval, bind_of_ok h1]
      exact h2
    · rw [hz, hx]
      rfl
  | @extendInt source signed target h e ih =>
    intro s hs
    obtain ⟨a, s1, x, h1, hg1, ha, hx⟩ := ih hs
    cases signed with
    | true =>
      obtain ⟨v, t, z, h2, hg2, hv, hz⟩ := extendInt_signed source target ha
      refine ⟨v, t, z, ?_, hg1.trans hg2, hv, ?_⟩
      · rw [Expr.eval, bind_of_ok h1]
        exact h2
      · rw [hz, hx]
        rfl
    | false =>
      obtain ⟨v, t, z, h2, hg2, hv, hz⟩ := extendInt_unsigned source target ha
      refine ⟨v, t, z, ?_, hg1.trans hg2, hv, ?_⟩
      · rw [Expr.eval, bind_of_ok h1]
        exact h2
      · rw [hz, hx]
        rfl
  | @truncateInt source target h e ih =>
    intro s hs
    obtain ⟨a, s1, x, h1, hg1, ha, hx⟩ := ih hs
    refine ⟨a, s1, x, ?_, hg1, ha, ?_⟩
    · rw [Expr.eval, bind_of_ok h1]
      exact truncateInt_constant _ _ ha
    · -- the constant was right modulo the larger width
      rw [Expr.value, ← hx, BitVec.setWidth_setWidth_of_le _ h]

/-- In every container that calls reach, an expression over constants evaluates to a constant whose inner value modulo
the width is that of the expression. -/
theorem Expr.eval_homomorphism {Adm : VcState → VcOp → Prop}
    {es : List (Trace.Event VcState VcOp (Except Exn (Option ValueId)))} {s : VcState} (hrun : VcRun Adm es s)
    {w : Width} (e : Expr w) :
    ∃ v t c, e.eval s = .ok v t ∧ t.vc.getConstantIntInnerVal v = .ok c ∧ c.setWidth w.bits = e.value := by
  obtain ⟨v, t, c, h, _, hv, hc⟩ := e.eval_constant (run_ok hrun).const
  exact ⟨v, t, c, h, by simp only [ValueContainer.getConstantIntInnerVal, hv], hc⟩

end Evaluation

section Examples

attribute [local instance] Ty.x86

def Width.byte : Width := ⟨8, by decide, by decide⟩

def Width.short : Width := ⟨16, by decide, by decide⟩

/-- `~200 * 2` at 8 bits, extended to 16 bits with the sign. -/
def notTwice : Expr Width.short :=
  .extendInt true _ (by decide : Width.byte.bits ≤ Width.short.bits)
    (.binOp .mul (.bitNot (.const _ 200)) (.const _ 2))

/-- In a new container the tree evaluates to a constant that is `110` modulo `2^16`. -/
theorem notTwice_eval : ∃ v t c, notTwice.eval (VcState.new {}) = .ok v t ∧
    t.vc.getConstantIntInnerVal v = .ok c ∧ c.setWidth 16 = 110#16 := by
  have hrun : VcRun (fun _ _ => True) [] (VcState.new {}) := Trace.Run.start ⟨{}, Int.le_refl 0, rfl⟩
  exact notTwice.eval_homomorphism hrun

end Examples

end Angie
