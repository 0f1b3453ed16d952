import Angie.Interp.Operations
import Angie.Values.Division

/-!
# Exact operations and casts of integers

The encoder joins `Exact` to the signedness of a division or a right shift, while `BinOp` compares the whole flag word
with `Signed` and with `Unsigned`: an exact instruction throws on all constants for which it is defined
(`exact_throws`), and the exception leaves the interpreter (`executeNode_exact`). A cast of a constant forwards its id
(`cast_forwards`), so it is right exactly if the stored word happens to be extended already (`cast_iff`).
-/

namespace Angie

open Exec Llvm

/-! ## Running an operation -/

namespace OpState

variable (s : OpState)

def toVc : VcState := ⟨s.statics, s.state.vc⟩

def withVc (t : VcState) : OpState := ⟨t.statics, { s.state with vc := t.vc }⟩

def assign (var : FrontendIdTypePair) (value : ValueId) : OpState := { s with state := s.state.assignValue var value }

theorem assign_target (var : FrontendIdTypePair) (value : ValueId) :
    (s.assign var value).state.localMapping[var.id]? = some value := by
  simp [assign, AnalysisState.assignValue]

end OpState

namespace OpM

variable {s : OpState}

theorem getValue_run {ctx : Context} {var : FrontendIdTypePair} {v : ValueId} (h : s.state.getValue ctx var = .ok v) :
    OpM.getValue ctx var s = .ok v s := by
  change (ofExcept (s.state.getValue ctx var) : OpM ValueId) s = _
  rw [h]
  rfl

theorem callVc_run {α : Type} {m : VcM α} {a : α} {t : VcState} (h : m s.toVc = .ok a t) :
    OpM.callVc m s = .ok a (s.withVc t) := by
  show zoom _ _ m s = _
  unfold zoom
  simp only [show m ⟨s.statics, s.state.vc⟩ = _ from h]
  rfl

theorem callVc_throws {α : Type} {m : VcM α} {e : Exn} {t : VcState} (h : m s.toVc = .error e t) :
    OpM.callVc m s = .error e (s.withVc t) := by
  show zoom _ _ m s = _
  unfold zoom
  simp only [show m ⟨s.statics, s.state.vc⟩ = _ from h]
  rfl

end OpM

/-- The encoded arguments of an instruction that has a result. -/
theorem operArgsFor_eq {instr : Instruction} {options : OperArg} (htype : instr.type ≠ .void)
    (h : optionsFor instr = .ok options) :
    operArgsFor instr = .ok (.idTypePair ⟨instr.id, instr.type⟩ :: options :: instr.operands.map toOperArg) := by
  unfold operArgsFor targetFor
  rw [h, if_neg htype]
  rfl

/-- An operand of integer type whose value in the state is a constant. -/
structure ConstantOperand (ctx : Context) (s : OpState) (operand : Llvm.Value) (w : Width) (a : ValueId)
    (c : Word) : Prop where
  type : operand.type = w.type
  value : s.state.getValue ctx ⟨operand.id, operand.type⟩ = .ok a
  constant : s.state.vc.constantContainer[a]? = some c

/-! ## Exact operations -/

/-- The instructions that may be marked `exact`. -/
inductive ExactOp where
  | sDiv | uDiv | aShr | lShr
  deriving DecidableEq, Repr

namespace ExactOp

def op : ExactOp → BinaryOps
  | .sDiv => .sDiv
  | .uDiv => .uDiv
  | .aShr => .aShr
  | .lShr => .lShr

/-- The second operand for which the operation has a meaning. -/
def Defined {w : ℕ} : ExactOp → BitVec w → Prop
  | .sDiv, y | .uDiv, y => y ≠ 0
  | .aShr, y | .lShr, y => y.toNat < w

instance {w : ℕ} : (op : ExactOp) → (y : BitVec w) → Decidable (op.Defined y)
  | .sDiv, y | .uDiv, y => inferInstanceAs (Decidable (y ≠ 0))
  | .aShr, y | .lShr, y => inferInstanceAs (Decidable (y.toNat < w))

/-- No digits are lost. -/
def Lossless {w : ℕ} : ExactOp → BitVec w → BitVec w → Prop
  | .sDiv, x, y => y.toInt ∣ x.toInt
  | .uDiv, x, y => y.toNat ∣ x.toNat
  | .aShr, x, y | .lShr, x, y => 2 ^ y.toNat ∣ x.toNat

/-- What `BinOp` complains about. -/
def complaint : ExactOp → String
  | .sDiv | .uDiv => "Undefined type of division."
  | .aShr | .lShr => "Undefined type of shift."

end ExactOp

/-- The instruction without `exact`. -/
def Llvm.Instruction.inexact (instr : Instruction) : Instruction :=
  match instr.opcode with
  | .binary op nsw nuw _ => { instr with opcode := .binary op nsw nuw false }
  | _ => instr

/-- With its encoded arguments the instruction executes; it leaves the state that it leaves without `exact` when no digits
are lost, and an unknown otherwise. -/
def ExactAsPlain [DataLayout] (ctx : Context) (s : OpState) (instr : Instruction) (op : ExactOp) {w : ℕ}
    (x y : BitVec w) : Prop :=
  ∃ args t, operArgsFor instr = .ok args ∧ MemGraphOp.binOp ctx args s = .ok () t ∧
    (op.Lossless x y → ∃ plain, operArgsFor instr.inexact = .ok plain ∧ MemGraphOp.binOp ctx plain s = .ok () t) ∧
    (¬ op.Lossless x y → ∃ v, t.state.localMapping[instr.id]? = some v ∧ t.state.vc.isConstant v = false)

/-- The encoded flag word is none of the two that the evaluation of a division or a right shift knows. -/
theorem ExactOp.flags_ne (op : ExactOp) (nsw nuw : Bool) :
    op.op.flags nsw nuw true ≠ .unsigned ∧ op.op.flags nsw nuw true ≠ .signed := by
  cases op <;> cases nsw <;> cases nuw <;> decide

theorem evalBinOp_exact {w : ℕ} (h : w ≤ 64) (op : ExactOp) (nsw nuw : Bool) (x : Word) {y : Word}
    (hdef : op.Defined (y.setWidth w)) :
    evalBinOp w ⟨op.op.kind, op.op.flags nsw nuw true⟩ x y = .error (.runtimeError op.complaint) := by
  obtain ⟨hu, hs⟩ := op.flags_ne nsw nuw
  generalize op.op.flags nsw nuw true = flags at hu hs ⊢
  cases op with
  | sDiv | uDiv =>
    have hy : ripBits w y ≠ 0 := mt (ripBits_eq_zero_iff y h).1 hdef
    simp only [evalBinOp, ExactOp.op, BinaryOps.kind, if_neg hy, if_neg hu, if_neg hs]
    rfl
  | aShr | lShr =>
    have hlt : (y.setWidth w).toNat < w := hdef
    have hy : ¬ 64 ≤ (ripBits w y).toNat := by
      rw [toNat_ripBits h]
      omega
    simp only [evalBinOp, ExactOp.op, BinaryOps.kind, if_neg hy, if_neg hu, if_neg hs]
    rfl

section Exact

variable [DataLayout] {ctx : Context} {s : OpState} {target : FrontendIdTypePair} {opts : BinaryOpOptions}
  {l r : Llvm.Value} {w : Width} {a b : ValueId} {x y : Word}

theorem binOp_throws (hl : ConstantOperand ctx s l w a x) (hr : ConstantOperand ctx s r w b y) {e : Exn}
    (h : evalBinOp w.bits opts x y = .error e) :
    MemGraphOp.binOp ctx [.idTypePair target, .binOpOpts opts, toOperArg l, toOperArg r] s = .error e s := by
  have hrun : Angie.binOp a b l.type opts s.toVc = .error e s.toVc := by
    rw [hl.type]
    exact binOp_of_error (Ty.getBitWidth_int w.bits) hl.constant hr.constant h
  have hcall : OpM.callVc (Angie.binOp a b l.type opts) s = .error e s := OpM.callVc_throws hrun
  unfold MemGraphOp.binOp
  refine (ofExcept_bind (a := opts) rfl _ s).trans ?_
  refine (ofExcept_bind (a := (⟨l.id, l.type⟩ : FrontendIdTypePair)) rfl _ s).trans ?_
  refine (bind_of_ok (OpM.getValue_run hl.value)).trans ?_
  refine (ofExcept_bind (a := (⟨r.id, r.type⟩ : FrontendIdTypePair)) rfl _ s).trans ?_
  refine (bind_of_ok (OpM.getValue_run hr.value)).trans ?_
  exact bind_of_error hcall

variable {instr : Instruction} {op : ExactOp} {nsw nuw : Bool}

/-- The encoded arguments of an exact instruction, and what executing it on them throws. -/
theorem exact_run (hop : instr.opcode = .binary op.op nsw nuw true) (htype : instr.type = w.type)
    (hoperands : instr.operands = [l, r]) (hl : ConstantOperand ctx s l w a x) (hr : ConstantOperand ctx s r w b y)
    (hdef : op.Defined (y.setWidth w.bits)) :
    ∃ args, operArgsFor instr = .ok args ∧
      MemGraphOp.binOp ctx args s = .error (.runtimeError op.complaint) s := by
  have hoptions : optionsFor instr = .ok (.binOpOpts ⟨op.op.kind, op.op.flags nsw nuw true⟩) := by
    unfold optionsFor
    rw [hop]
  have hvoid : instr.type ≠ .void := htype ▸ w.type_ne_void
  refine ⟨_, operArgsFor_eq hvoid hoptions, ?_⟩
  rw [hoperands]
  exact binOp_throws hl hr (evalBinOp_exact w.le op nsw nuw x hdef)

/-- On constants for which they are defined, the exact instructions throw instead of executing like plain ones. -/
theorem exact_throws (hop : instr.opcode = .binary op.op nsw nuw true) (htype : instr.type = w.type)
    (hoperands : instr.operands = [l, r]) (hl : ConstantOperand ctx s l w a x) (hr : ConstantOperand ctx s r w b y)
    (hdef : op.Defined (y.setWidth w.bits)) :
    (∃ args, operArgsFor instr = .ok args ∧
      MemGraphOp.binOp ctx args s = .error (.runtimeError op.complaint) s) ∧
    ¬ ExactAsPlain ctx s instr op (x.setWidth w.bits) (y.setWidth w.bits) := by
  obtain ⟨args, hargs, hrun⟩ := exact_run hop htype hoperands hl hr hdef
  refine ⟨⟨args, hargs, hrun⟩, ?_⟩
  rintro ⟨args', t, hargs', hok, -⟩
  rw [hargs] at hargs'
  cases hargs'
  rw [hrun] at hok
  cases hok

/-- The exception is no analysis error: it leaves the interpreter, and no successor is enqueued. -/
theorem executeNode_exact {statics : Statics} {state : AnalysisState} {node : Node} {next : NodeId} {args : OperationArgs}
    {bp : Bool} (hkind : node.kind = .inner .binOp args instr bp) (hnext : node.next = some next)
    (hfalse : node.nextFalse = none) (hargs : operArgsFor instr = .ok args)
    (hop : instr.opcode = .binary op.op nsw nuw true) (htype : instr.type = w.type)
    (hoperands : instr.operands = [l, r]) (hl : ConstantOperand ctx ⟨statics, state⟩ l w a x)
    (hr : ConstantOperand ctx ⟨statics, state⟩ r w b y) (hdef : op.Defined (y.setWidth w.bits)) :
    ctx.executeNode statics state node = .throws (.runtimeError op.complaint) statics := by
  -- the successor has the mapping and the container of the state
  have hl' : ConstantOperand ctx ⟨statics, state.createSuccessor next⟩ l w a x := ⟨hl.type, hl.value, hl.constant⟩
  have hr' : ConstantOperand ctx ⟨statics, state.createSuccessor next⟩ r w b y := ⟨hr.type, hr.value, hr.constant⟩
  obtain ⟨args', hargs', hrun⟩ := exact_run hop htype hoperands hl' hr' hdef
  rw [hargs] at hargs'
  cases hargs'
  unfold Context.executeNode
  rw [hkind]
  simp only [memGraphOpFactory, Context.executeBasic, Context.assertBranching, Context.nextOf, hfalse, hnext,
    Option.isSome_none, if_true]
  unfold Outcome.safely
  rw [hrun]
  rfl

end Exact

/-! ## Casts -/

/-- The casts between integers of two widths. -/
inductive IntCast (u w : Width) where
  | trunc (h : w.bits < u.bits)
  | zExt (h : u.bits < w.bits)
  | sExt (h : u.bits < w.bits)

namespace IntCast

variable {u w : Width}

def op : IntCast u w → CastOps
  | .trunc _ => .trunc
  | .zExt _ => .zExt
  | .sExt _ => .sExt

/-- The truncation or extension of the operand. -/
def apply : IntCast u w → BitVec u.bits → BitVec w.bits
  | .trunc _, x | .zExt _, x => x.setWidth w.bits
  | .sExt _, x => x.signExtend w.bits

/-- The container's own operation. -/
def operation [DataLayout] (a : ValueId) : IntCast u w → VcM ValueId
  | .trunc _ => truncateInt a u.type w.type
  | .zExt _ => extendInt a u.type w.type .unsigned
  | .sExt _ => extendInt a u.type w.type .signed

/-- The bits between the widths are what extension makes them. -/
def Extended (c : Word) : IntCast u w → Prop
  | .trunc _ => True
  | .zExt _ => ∀ i, u.bits ≤ i → i < w.bits → c.getLsbD i = false
  | .sExt _ => ∀ i, u.bits ≤ i → i < w.bits → c.getLsbD i = c.getLsbD (u.bits - 1)

/-- A word read at the target's width is the cast of the word read at the operand's width. -/
theorem setWidth_eq_apply_iff (cast : IntCast u w) (c : Word) :
    c.setWidth w.bits = cast.apply (c.setWidth u.bits) ↔ cast.Extended c := by
  have h1 := u.pos
  cases cast with
  | trunc h => exact iff_of_true (BitVec.setWidth_setWidth_of_le c h.le).symm trivial
  | zExt h =>
    simp only [apply, Extended]
    constructor
    · intro heq i hu hw
      have hbit := congrArg (BitVec.getLsbD · i) heq
      simp only [BitVec.getLsbD_setWidth, hw, decide_true, Bool.true_and] at hbit
      rw [hbit, decide_eq_false (by omega), Bool.false_and]
    · intro hext
      ext i hi
      simp only [BitVec.getElem_setWidth, BitVec.getLsbD_setWidth]
      by_cases hu : i < u.bits
      · rw [decide_eq_true hu, Bool.true_and]
      · rw [decide_eq_false hu, Bool.false_and, hext i (by omega) hi]
  | sExt h =>
    simp only [apply, Extended]
    have hmsb : (c.setWidth u.bits).msb = c.getLsbD (u.bits - 1) := by
      rw [BitVec.msb_eq_getLsbD_last, BitVec.getLsbD_setWidth, decide_eq_true (by omega), Bool.true_and]
    constructor
    · intro heq i hu hw
      have hbit := congrArg (BitVec.getLsbD · i) heq
      simp only [BitVec.getLsbD_setWidth, BitVec.getLsbD_signExtend, hw, decide_true, Bool.true_and, hmsb] at hbit
      rw [hbit, if_neg (by omega)]
    · intro hext
      apply BitVec.eq_of_getLsbD_eq
      intro i hi
      rw [BitVec.getLsbD_signExtend, BitVec.getLsbD_setWidth, BitVec.getLsbD_setWidth, hmsb]
      simp only [decide_eq_true hi, Bool.true_and]
      by_cases hu : i < u.bits
      · rw [if_pos hu, decide_eq_true hu, Bool.true_and]
      · rw [if_neg hu, hext i (by omega) hi]

/-- The container's operation gives a constant that is the cast of the operand. -/
theorem operation_apply [DataLayout] (cast : IntCast u w) {s : VcState} {a : ValueId} {c : Word}
    (ha : s.vc.constantContainer[a]? = some c) :
    ∃ v t z, cast.operation a s = .ok v t ∧ t.vc.constantContainer[v]? = some z ∧
      z.setWidth w.bits = cast.apply (c.setWidth u.bits) := by
  cases cast with
  | trunc h =>
    exact ⟨a, s, c, truncateInt_constant u.type w.type ha, ha, (BitVec.setWidth_setWidth_of_le c h.le).symm⟩
  | zExt h =>
    obtain ⟨v, t, z, hrun, -, hv, hz⟩ := extendInt_unsigned u w ha
    exact ⟨v, t, z, hrun, hv, hz⟩
  | sExt h =>
    obtain ⟨v, t, z, hrun, -, hv, hz⟩ := extendInt_signed u w ha
    exact ⟨v, t, z, hrun, hv, hz⟩

end IntCast

/-- With its encoded arguments the instruction assigns to the target a constant that is the cast of the operand at the
target's width, as is what the container's own operation gives. -/
def CastRight [DataLayout] (ctx : Context) (s : OpState) (instr : Instruction) {u w : Width} (cast : IntCast u w)
    (a : ValueId) (c : Word) : Prop :=
  ∃ args t v z, operArgsFor instr = .ok args ∧ MemGraphOp.cast ctx args s = .ok () t ∧
    t.state.localMapping[instr.id]? = some v ∧ t.state.vc.getConstantIntInnerVal v = .ok z ∧
    z.setWidth w.bits = cast.apply (c.setWidth u.bits) ∧
    ∃ v' t' z', cast.operation a s.toVc = .ok v' t' ∧ t'.vc.getConstantIntInnerVal v' = .ok z' ∧
      z'.setWidth w.bits = z.setWidth w.bits

section Casts

variable [DataLayout] {ctx : Context} {s : OpState} {instr : Instruction} {operand : Llvm.Value} {u w : Width}
  {cast : IntCast u w} {a : ValueId} {c : Word}

/-- A constant is handed on as it is. -/
theorem cast_forwards (hop : instr.opcode = .cast cast.op) (htype : instr.type = w.type)
    (hoperands : instr.operands = [operand]) (ho : ConstantOperand ctx s operand u a c) :
    ∃ args, operArgsFor instr = .ok args ∧
      MemGraphOp.cast ctx args s = .ok () (s.assign ⟨instr.id, instr.type⟩ a) := by
  have hoptions : optionsFor instr = .ok (.castOpOpts cast.op.options) := by
    unfold optionsFor
    rw [hop]
  have hvoid : instr.type ≠ .void := htype ▸ w.type_ne_void
  refine ⟨_, operArgsFor_eq hvoid hoptions, ?_⟩
  rw [hoperands]
  unfold MemGraphOp.cast
  refine (ofExcept_bind (a := (⟨operand.id, operand.type⟩ : FrontendIdTypePair)) rfl _ s).trans ?_
  refine (bind_of_ok (OpM.getValue_run ho.value)).trans ?_
  refine (ofExcept_bind (a := cast.op.options) rfl _ s).trans ?_
  refine (ofExcept_bind (a := (⟨instr.id, instr.type⟩ : FrontendIdTypePair)) rfl _ s).trans ?_
  cases cast with
  | zExt h | sExt h => rfl
  | trunc h =>
    have hrun : truncateInt a operand.type instr.type s.toVc = .ok a s.toVc := truncateInt_constant _ _ ho.constant
    exact bind_of_ok (OpM.callVc_run hrun)

/-- A cast of a constant is right if and only if it is a truncation or the stored word has above the operand's width what
the extension puts there: zeros, or copies of the sign. -/
theorem cast_iff (hop : instr.opcode = .cast cast.op) (htype : instr.type = w.type)
    (hoperands : instr.operands = [operand]) (ho : ConstantOperand ctx s operand u a c) :
    CastRight ctx s instr cast a c ↔ cast.Extended c := by
  obtain ⟨args, hargs, hrun⟩ := cast_forwards hop htype hoperands ho
  rw [← cast.setWidth_eq_apply_iff c]
  have hval : (s.assign ⟨instr.id, instr.type⟩ a).state.vc.getConstantIntInnerVal a = .ok c := by
    simp only [ValueContainer.getConstantIntInnerVal, OpState.assign, AnalysisState.assignValue, ho.constant]
  have htarget := s.assign_target ⟨instr.id, instr.type⟩ a
  constructor
  · rintro ⟨args', t, v, z, hargs', hrun', hv, hz, hright, -⟩
    rw [hargs] at hargs'
    cases hargs'
    rw [hrun] at hrun'
    cases hrun'
    rw [htarget] at hv
    cases hv
    rw [hval] at hz
    cases hz
    exact hright
  · intro hright
    obtain ⟨v', t', z', hop', hv', hz'⟩ := cast.operation_apply (s := s.toVc) ho.constant
    refine ⟨args, _, a, c, hargs, hrun, htarget, hval, hright, v', t', z', hop', ?_, hz'.trans hright.symm⟩
    simp only [ValueContainer.getConstantIntInnerVal, hv']

end Casts

/-! ## An exact division and two extensions -/

section Examples

attribute [local instance] Ty.x86

/-- A container with the constants `8`, `2` and `0xff`, which take the ids `1`, `2` and `3`. -/
def byteConstants : List (Trace.Event VcState VcOp (Except Exn (Option ValueId))) × VcState :=
  Trace.play VcOp.exec [] (VcState.new {}) [.createConstIntVal 8, .createConstIntVal 2, .createConstIntVal 0xff]

theorem byteConstants_run : VcRun (fun _ _ => True) byteConstants.1 byteConstants.2 :=
  Trace.Run.play (Trace.Run.start ⟨{}, Int.le_refl 0, rfl⟩) ⟨trivial, trivial, trivial, trivial⟩

/-- A state in which the operands `10`, `11` and `12` have these values. -/
def byteState : OpState :=
  { statics := byteConstants.2.statics
    state := { AnalysisState.new 0 byteConstants.2.vc with
      localMapping := (((∅ : Mapper).insert 10 1).insert 11 2).insert 12 3 } }

def byteOperand (id : FrontendId) : Llvm.Value := ⟨id, .int 8, true⟩

theorem byteState_eight : ConstantOperand ⟨[], ∅, ∅⟩ byteState (byteOperand 10) .byte 1 8 :=
  ⟨rfl, by decide +kernel, by decide +kernel⟩

theorem byteState_two : ConstantOperand ⟨[], ∅, ∅⟩ byteState (byteOperand 11) .byte 2 2 :=
  ⟨rfl, by decide +kernel, by decide +kernel⟩

theorem byteState_minusOne : ConstantOperand ⟨[], ∅, ∅⟩ byteState (byteOperand 12) .byte 3 0xff :=
  ⟨rfl, by decide +kernel, by decide +kernel⟩

/-- `sdiv exact i8 8, 2`. -/
def exactHalf : Instruction := ⟨20, .int 8, .binary .sDiv false false true, [byteOperand 10, byteOperand 11], false⟩

theorem exactHalf_throws :
    (∃ args, operArgsFor exactHalf = .ok args ∧ MemGraphOp.binOp ⟨[], ∅, ∅⟩ args byteState =
      .error (.runtimeError (ExactOp.complaint .sDiv)) byteState) ∧
    ¬ ExactAsPlain ⟨[], ∅, ∅⟩ byteState exactHalf .sDiv (BitVec.setWidth 8 (8 : Word)) (BitVec.setWidth 8 (2 : Word)) :=
  exact_throws rfl rfl rfl byteState_eight byteState_two (by decide)

/-- Its exact quotient is not computed. -/
theorem not_exact_as_plain : ¬ ∀ (es : List (Trace.Event VcState VcOp (Except Exn (Option ValueId)))) (ctx : Context)
    (s : OpState), VcRun (fun _ _ => True) es s.toVc → ∀ (instr : Instruction) (op : ExactOp) (nsw nuw : Bool)
      (w : Width) (l r : Llvm.Value) (a b : ValueId) (x y : Word), instr.opcode = .binary op.op nsw nuw true →
      instr.type = w.type → instr.operands = [l, r] → ConstantOperand ctx s l w a x → ConstantOperand ctx s r w b y →
      op.Defined (y.setWidth w.bits) → ExactAsPlain ctx s instr op (x.setWidth w.bits) (y.setWidth w.bits) := by
  intro h
  obtain ⟨args, t, hargs, hok, -⟩ := h _ _ _ byteConstants_run exactHalf .sDiv false false .byte _ _ _ _ _ _ rfl rfl rfl
    byteState_eight byteState_two (by decide)
  have hthrows : ∃ args, operArgsFor exactHalf = .ok args ∧
      MemGraphOp.binOp ⟨[], ∅, ∅⟩ args byteState = .error (.runtimeError (ExactOp.complaint .sDiv)) byteState :=
    exact_run rfl rfl rfl byteState_eight byteState_two (by decide)
  obtain ⟨args', hargs', hrun⟩ := hthrows
  rw [hargs] at hargs'
  cases hargs'
  rw [hrun] at hok
  cases hok

/-- An extension of the operand `12` to 16 bits. -/
def extension (op : CastOps) : Instruction := ⟨21, .int 16, .cast op, [byteOperand 12], false⟩

/-- The zero extension of a word that is stored so is right. -/
theorem zExt_minusOne : CastRight ⟨[], ∅, ∅⟩ byteState (extension .zExt)
    (IntCast.zExt (by decide) : IntCast .byte .short) 3 0xff := by
  refine (cast_iff rfl rfl rfl byteState_minusOne).2 ?_
  unfold IntCast.Extended
  decide +kernel

/-- The sign extension of `-1`, stored as `0xff`, is wrong. -/
theorem not_cast_right : ¬ ∀ (es : List (Trace.Event VcState VcOp (Except Exn (Option ValueId)))) (ctx : Context)
    (s : OpState), VcRun (fun _ _ => True) es s.toVc → ∀ (instr : Instruction) (u w : Width) (cast : IntCast u w)
      (operand : Llvm.Value) (a : ValueId) (c : Word), instr.opcode = .cast cast.op → instr.type = w.type →
      instr.operands = [operand] → ConstantOperand ctx s operand u a c → CastRight ctx s instr cast a c := by
  intro h
  obtain ⟨args, t, v, z, hargs, hok, hv, hz, hright, -⟩ := h _ _ _ byteConstants_run (extension .sExt) .byte .short
    (.sExt (by decide)) _ _ _ rfl rfl rfl byteState_minusOne
  have hcast : (extension .sExt).opcode = .cast (IntCast.sExt (by decide) : IntCast .byte .short).op := rfl
  obtain ⟨args', hargs', hrun⟩ := cast_forwards hcast rfl rfl byteState_minusOne
  rw [hargs] at hargs'
  cases hargs'
  rw [hrun] at hok
  cases hok
  rw [OpState.assign_target] at hv
  cases hv
  have hword : byteState.state.vc.getConstantIntInnerVal 3 = .ok 0xff := by
    simp only [ValueContainer.getConstantIntInnerVal, byteState_minusOne.constant]
  rw [show (byteState.assign _ _).state.vc = byteState.state.vc from rfl, hword] at hz
  cases hz
  exact absurd hright (by decide)

end Examples

end Angie
