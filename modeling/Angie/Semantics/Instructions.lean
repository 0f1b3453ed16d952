import Angie.Semantics.Source

/-!
# What becomes of an instruction

The node that an instruction becomes does the same as the instruction (`does_translated`), and what else the language
makes of the instruction it makes of the node (`differs_translated`): the operation is the one for the opcode or the
name of the function, the options say which operator it is, and the operands stand where the operation looks for them.
The operands mean the same if their constants were linked, and nothing else was (`SameOperands`).
-/

namespace Angie

open Llvm

/-! ## Operators -/

section Operators

variable {w : ℕ}

theorem shiftLeft_eq_ofNat (x : BitVec w) (n : ℕ) : x <<< n = BitVec.ofNat w (x.toNat * 2 ^ n) := by
  apply BitVec.eq_of_toNat_eq
  rw [BitVec.toNat_shiftLeft, BitVec.toNat_ofNat, Nat.shiftLeft_eq]

theorem ushiftRight_eq_ofNat (x : BitVec w) (n : ℕ) : x >>> n = BitVec.ofNat w (x.toNat / 2 ^ n) := by
  apply BitVec.eq_of_toNat_eq
  rw [BitVec.toNat_ushiftRight, BitVec.toNat_ofNat, Nat.shiftRight_eq_div_pow,
    Nat.mod_eq_of_lt (Nat.lt_of_le_of_lt (Nat.div_le_self _ _) x.isLt)]

/-- The flags say how a division or a shift to the right reads its operands, and whether it is exact. -/
theorem flags_eq {op : BinaryOps} (nsw nuw isExact : Bool) :
    (op = .uDiv ∨ op = .uRem ∨ op = .lShr → checkFlag (op.flags nsw nuw isExact) .unsigned = true) ∧
      (op = .sDiv ∨ op = .sRem ∨ op = .aShr → checkFlag (op.flags nsw nuw isExact) .unsigned = false ∧
        checkFlag (op.flags nsw nuw isExact) .signed = true) ∧
      (op = .uDiv ∨ op = .sDiv ∨ op = .lShr ∨ op = .aShr → checkFlag (op.flags nsw nuw isExact) .exact = isExact) := by
  refine ⟨?_, ?_, ?_⟩
  · rintro (rfl | rfl | rfl) <;> cases nsw <;> cases nuw <;> cases isExact <;> decide
  · rintro (rfl | rfl | rfl) <;> cases nsw <;> cases nuw <;> cases isExact <;> decide
  · rintro (rfl | rfl | rfl | rfl) <;> cases nsw <;> cases nuw <;> cases isExact <;> decide

section Apply

open BinaryOpOptions.apply

variable {o : BinaryOpKind} {flags : ArithFlags} {x y z : BitVec w} {isExact : Bool}

theorem signed_false (h : checkFlag flags .unsigned = true) (f : Bool → Option (BitVec w)) :
    signed ⟨o, flags⟩ f = f false := if_pos h

theorem signed_true (h : checkFlag flags .unsigned = false ∧ checkFlag flags .signed = true)
    (f : Bool → Option (BitVec w)) : signed ⟨o, flags⟩ f = f true := by
  unfold signed
  rw [if_neg (by simp [h.1]), if_pos h.2]

theorem exactly_flags {op : BinaryOps} (h : checkFlag flags .exact = isExact) {left : Prop} [Decidable left]
    (hleft : op.leavesNothing x y = true ↔ left) (r : BitVec w) :
    exactly ⟨o, flags⟩ left r = if isExact = true → op.leavesNothing x y = true then some r else none := by
  unfold exactly
  simp only [h, hleft]

/-- A division, which an exact one ends without a remainder. -/
theorem div_exactly {op : BinaryOps} (h : checkFlag flags .exact = isExact)
    (happly : op.apply x y = if y = 0 then none else some z) {left : Prop} [Decidable left]
    (hleft : op.leavesNothing x y = true ↔ left) :
    (if y = 0 then none else exactly ⟨o, flags⟩ left z) = op.result isExact x y := by
  unfold BinaryOps.result
  rw [happly, exactly_flags h hleft]
  split
  · rw [ite_self]
  · rfl

/-- A shift to the right, which an exact one takes back. -/
theorem shift_exactly {op : BinaryOps} {shr : ShiftOp} (h : checkFlag flags .exact = isExact)
    (hz : shr.apply x y.toNat = z) (happly : op.apply x y = if y.toNat < w then some z else none)
    (hleft : op.leavesNothing x y = true ↔ z <<< y.toNat = x) :
    ((shift x y shr).bind fun r => exactly ⟨o, flags⟩ (r <<< y.toNat = x) r) = op.result isExact x y := by
  unfold shift BinaryOps.result
  rw [happly, hz]
  split
  · exact exactly_flags h hleft z
  · rw [ite_self]
    rfl

/-- The kind and the flags say which operator it is, whatever may overflow. -/
theorem apply_options {op : BinaryOps} (x y : BitVec w) (nsw nuw isExact : Bool) (h : op.isInteger = true) :
    BinaryOpOptions.apply ⟨op.kind, op.flags nsw nuw isExact⟩ x y = op.result isExact x y := by
  obtain ⟨hunsigned, hsigned, hexact⟩ := @flags_eq op nsw nuw isExact
  cases op with
  | fAdd | fSub | fMul | fDiv | fRem => cases h
  | add | sub | mul | and | or | xor => simp [BinaryOpOptions.apply, BinaryOps.kind, BinaryOps.result,
      BinaryOps.leavesNothing, BinaryOps.apply]
  | shl => simp [BinaryOpOptions.apply, shift, BinaryOps.kind, BinaryOps.result, ShiftOp.apply,
      BinaryOps.leavesNothing, BinaryOps.apply, shiftLeft_eq_ofNat]
  | uRem =>
    simp [BinaryOpOptions.apply, BinaryOps.kind, signed_false (hunsigned (Or.inr (Or.inl rfl))), BinaryOps.result,
      BinaryOps.leavesNothing, BinaryOps.apply]
  | sRem =>
    simp [BinaryOpOptions.apply, BinaryOps.kind, signed_true (hsigned (Or.inr (Or.inl rfl))), BinaryOps.result,
      BinaryOps.leavesNothing, BinaryOps.apply]
  | uDiv =>
    simp only [BinaryOpOptions.apply, BinaryOps.kind]
    rw [signed_false (hunsigned (Or.inl rfl))]
    exact div_exactly (hexact (Or.inl rfl)) rfl beq_iff_eq
  | sDiv =>
    simp only [BinaryOpOptions.apply, BinaryOps.kind]
    rw [signed_true (hsigned (Or.inl rfl))]
    exact div_exactly (hexact (Or.inr (Or.inl rfl))) rfl beq_iff_eq
  | lShr =>
    simp only [BinaryOpOptions.apply, BinaryOps.kind]
    rw [signed_false (hunsigned (Or.inr (Or.inr rfl)))]
    exact shift_exactly (hexact (Or.inr (Or.inr (Or.inl rfl)))) (ushiftRight_eq_ofNat x y.toNat).symm rfl beq_iff_eq
  | aShr =>
    simp only [BinaryOpOptions.apply, BinaryOps.kind]
    rw [signed_true (hsigned (Or.inr (Or.inr rfl)))]
    exact shift_exactly (hexact (Or.inr (Or.inr (Or.inr rfl)))) (sshiftRight_eq_ofInt y.toNat x).symm rfl beq_iff_eq

theorem isInteger_of_result {op : BinaryOps} {r : BitVec w} (h : op.result isExact x y = some r) :
    op.isInteger = true := by
  unfold BinaryOps.result at h
  split at h
  · cases op <;> first | rfl | cases h
  · cases h

end Apply

theorem isRelation_flags (p : Predicate) : p.flags.isRelation = true := by cases p <;> rfl

theorem holds_flags (p : Predicate) (x y : BitVec w) : p.flags.holds x y = p.holds x y := by cases p <;> rfl

end Operators

/-! ## Names -/

theorem startsWith_trans {name pre pre' : String} (h : startsWith name pre = true) (h' : startsWith pre pre' = true) :
    startsWith name pre' = true := by
  unfold startsWith at h h' ⊢
  exact List.isPrefixOf_iff_prefix.2 ((List.isPrefixOf_iff_prefix.1 h').trans (List.isPrefixOf_iff_prefix.1 h))

/-- A function that is not reserved is called. -/
theorem operationForCall_program {name : String} (h : isReserved name = false) :
    operationForCall name false = .ok .call := by
  simp only [isReserved, Bool.or_eq_false_iff, beq_eq_false_iff_ne] at h
  obtain ⟨⟨⟨⟨hangie, habort⟩, hexit⟩, hmalloc⟩, hfree⟩ := h
  simp [operationForCall, hangie, habort, hexit, hmalloc, hfree]

theorem operationForCall_unknown {name : String} (h : startsWith name "__ANGIE_CREATE_UNKNOWN_" = true) :
    operationForCall name false = .ok .createUnknownVal := by
  have hangie : startsWith name "__ANGIE" = true := startsWith_trans h (by decide +kernel)
  have hplot : name ≠ "__ANGIE_DIAGNOSTICS_PLOT_MEMORY" := by
    rintro rfl
    exact absurd h (by decide +kernel)
  simp [operationForCall, hangie, hplot, h]

theorem operationForCall_memset {name : String} (h : startsWith name "llvm.memset" = true) :
    operationForCall name true = .ok .memset := by
  have hdbg : startsWith name "llvm.dbg" = false := by
    rw [Bool.eq_false_iff]
    intro hdbg
    unfold startsWith at h hdbg
    have hle := List.prefix_of_prefix_length_le (List.isPrefixOf_iff_prefix.1 hdbg) (List.isPrefixOf_iff_prefix.1 h)
      (by decide +kernel)
    exact absurd (List.isPrefixOf_iff_prefix.2 hle) (by decide +kernel)
  simp [operationForCall, hdbg, h]

theorem operationForCall_debug {name : String} (h : startsWith name "llvm.dbg" = true) :
    operationForCall name true = .ok .noop := by
  simp [operationForCall, h]

/-! ## Nodes -/

/-- The arguments of its operation. -/
def Llvm.Instruction.args (i : Instruction) (options : OperArg) : OperationArgs :=
  targetFor i :: options :: i.operands.map toOperArg

section Args

variable {i : Instruction} {options : OperArg}

theorem getOperand_args {k : ℕ} {x : Llvm.Value} (h : i.operands[k]? = some x) :
    (i.args options).getOperand k = .ok ⟨x.id, x.type⟩ := by
  have hk : (i.args options)[k + 2]? = some (toOperArg x) := by
    show (i.operands.map toOperArg)[k]? = _
    rw [List.getElem?_map, h]
    rfl
  unfold OperationArgs.getOperand OperationArgs.memberAt
  rw [hk]
  rfl

theorem getOperand_first {x : Llvm.Value} {xs : List Llvm.Value} (h : i.operands = x :: xs) :
    (i.args options).getOperand 0 = .ok ⟨x.id, x.type⟩ := getOperand_args (by rw [h]; rfl)

theorem getOperand_second {x y : Llvm.Value} {xs : List Llvm.Value} (h : i.operands = x :: y :: xs) :
    (i.args options).getOperand 1 = .ok ⟨y.id, y.type⟩ := getOperand_args (by rw [h]; rfl)

theorem getTarget_args (h : i.type ≠ .void) : (i.args options).getTarget = .ok i.result := by
  have htarget : targetFor i = .idTypePair i.result := if_neg h
  unfold OperationArgs.getTarget OperationArgs.memberAt Instruction.args
  rw [htarget]
  rfl

/-- There is a target, if only an empty one. -/
theorem getTarget_exists (i : Instruction) (options : OperArg) : ∃ target, (i.args options).getTarget = .ok target ∧
    target.id = (if i.type = .void then 0 else i.id) ∧ target.type = i.type := by
  by_cases h : i.type = .void
  · have htarget : targetFor i = OperArg.empty := if_pos h
    refine ⟨⟨0, .void⟩, ?_, (if_pos h).symm, h.symm⟩
    unfold OperationArgs.getTarget OperationArgs.memberAt Instruction.args
    rw [htarget]
    rfl
  · exact ⟨i.result, getTarget_args h, (if_neg h).symm, rfl⟩

/-- The operation of the node, which is none for an unconditional branch. -/
def Llvm.Opcode.operation (o : Opcode) (op : Operation) : Operation :=
  match o with
  | .br _ => .noop
  | _ => op

/-- The node of an instruction, from what its opcode says. -/
theorem translate_opcode {o : Opcode} {op : Operation} (h : i.opcode = o)
    (hop : getOperationFor { i with opcode := o } = .ok op)
    (hoptions : optionsFor { i with opcode := o } = .ok options) :
    translate i = .ok (.inner (o.operation op) (i.args options) i i.hasBreakpoint) := by
  subst h
  have hargs : operArgsFor i = .ok (i.args options) := by
    unfold operArgsFor
    rw [show optionsFor i = .ok options from hoptions]
    rfl
  exact translate_ok hop hargs

/-- The constant offset, if there is one, is among the options. -/
theorem translate_getElementPtr {constantOffset : Option Word} (h : i.opcode = .getElementPtr constantOffset)
    (htype : i.type ≠ .void) : ∃ options,
      translate i = .ok (.inner .getElementPtr (i.args options) i i.hasBreakpoint) ∧
        i.args options = .idTypePair i.result :: options :: i.operands.map toOperArg := by
  have htarget : targetFor i = .idTypePair i.result := if_neg htype
  have hargs : ∀ options, i.args options = .idTypePair i.result :: options :: i.operands.map toOperArg := by
    intro options
    rw [Instruction.args, htarget]
  cases constantOffset <;> exact ⟨_, translate_opcode h rfl rfl, hargs _⟩

/-- An instruction that nothing is known of is not supported. -/
theorem translate_other (h : i.opcode.isOther = true) : i.isTerminator = false ∧
    translate i = .ok (.inner .notSupportedInstr (i.args OperArg.empty) i i.hasBreakpoint) := by
  unfold Instruction.isTerminator
  cases hopc : i.opcode <;> rw [hopc] at h <;> first | exact ⟨rfl, translate_opcode hopc rfl rfl⟩ | cases h

end Args

/-! ## Operands -/

/-- The store of a machine that has other places. -/
def StoreOver.map [DataLayout] {Place Place' : Type} (g : Place → Place') (st : StoreOver Place) : StoreOver Place' where
  registers := st.registers
  calls := st.calls.map fun call => ⟨call.registers, call.target, g call.back⟩
  blocks := st.blocks
  births := st.births

/-- The constants among the operands are global and have their data in the program, and the others are not global. -/
structure SameOperands (F : File) (P : Program) (i : Instruction) : Prop where
  constant : ∀ x ∈ i.operands, x.isConstant = true →
    P.ctx.globalMapping.contains x.id = true ∧ P.constants x.id = (F.constantAt x.id).datum
  register : ∀ x ∈ i.operands, x.isConstant = false → P.ctx.globalMapping.contains x.id = false

section Does

variable [DataLayout] {F : File} {P : Program} {i : Instruction} {Place : Type} {st : StoreOver Place}
  {out : Option (StoreOver Place)} {x : Llvm.Value}

theorem SameOperands.value (h : SameOperands F P i) (hx : x ∈ i.operands) (g : Place → NodeId) :
    P.value (st.map g) ⟨x.id, x.type⟩ = F.value st x := by
  unfold Program.value File.value
  cases hconst : x.isConstant with
  | true =>
    obtain ⟨hglobal, hdatum⟩ := h.constant x hx hconst
    rw [if_pos hglobal, if_pos rfl, hdatum]
  | false =>
    rw [h.register x hx hconst]
    rfl

/-- What the operand at an index is for the operation. -/
theorem SameOperands.operand (h : SameOperands F P i) {k : ℕ} {d : Option Datum} (hk : i.operands[k]? = some x)
    (hd : F.value st x = d) (g : Place → NodeId) : P.value (st.map g) ⟨x.id, x.type⟩ = d :=
  (h.value (List.mem_of_getElem? hk) g).trans hd

theorem SameOperands.first (h : SameOperands F P i) {xs : List Llvm.Value} {d : Option Datum} (hops : i.operands = x :: xs)
    (hd : F.value st x = d) (g : Place → NodeId) : P.value (st.map g) ⟨x.id, x.type⟩ = d :=
  h.operand (k := 0) (by rw [hops]; rfl) hd g

theorem SameOperands.second (h : SameOperands F P i) {y : Llvm.Value} {xs : List Llvm.Value} {d : Option Datum}
    (hops : i.operands = x :: y :: xs) (hd : F.value st y = d) (g : Place → NodeId) :
    P.value (st.map g) ⟨y.id, y.type⟩ = d :=
  h.operand (k := 1) (by rw [hops]; rfl) hd g

/-- What the index says of an element is the same. -/
theorem SameOperands.elementAt (h : SameOperands F P i) {elem : Ty} {index : Llvm.Value} {fields : List Llvm.Value}
    {offset : Word} (hmem : ∀ x ∈ index :: fields, x ∈ i.operands) :
    P.ElementAt elem index fields offset ↔ F.ElementAt elem index fields offset := by
  have hconstant : ∀ x ∈ i.operands, P.ctx.globalMapping.contains x.id = true → x.isConstant = true ∧
      P.constants x.id = (F.constantAt x.id).datum := by
    intro x hx hglobal
    cases hconst : x.isConstant with
    | true => exact ⟨rfl, (h.constant x hx hconst).2⟩
    | false => exact absurd (h.register x hx hconst) (by simp [hglobal])
  have hfield : ∀ {operand : Llvm.Value}, operand ∈ index :: [operand] := by simp
  constructor
  · intro helement
    induction helement with
    | element htype hglobal hdatum hmsb =>
      obtain ⟨hconst, heq⟩ := hconstant _ (hmem _ List.mem_cons_self) hglobal
      exact .element htype hconst (heq.symm.trans hdatum) hmsb
    | field _ helem hbits htype hglobal hdatum ih =>
      obtain ⟨hconst, heq⟩ := hconstant _ (hmem _ hfield) hglobal
      refine .field (ih fun x hx => hmem x ?_) helem hbits htype hconst (heq.symm.trans hdatum)
      rw [List.mem_singleton.1 hx]
      exact List.mem_cons_self
  · intro helement
    induction helement with
    | element htype hconst hdatum hmsb =>
      obtain ⟨hglobal, heq⟩ := h.constant _ (hmem _ List.mem_cons_self) hconst
      exact .element htype hglobal (heq.trans hdatum) hmsb
    | field _ helem hbits htype hconst hdatum ih =>
      obtain ⟨hglobal, heq⟩ := h.constant _ (hmem _ hfield) hconst
      refine .field (ih fun x hx => hmem x ?_) helem hbits htype hglobal (heq.trans hdatum)
      rw [List.mem_singleton.1 hx]
      exact List.mem_cons_self

omit [DataLayout] in
theorem kind_ne_void {t : Ty} {k : Kind} (h : t.kind = some k) : t ≠ .void := by
  rintro rfl
  cases h

omit [DataLayout] in
theorem isPointer_ne_void {t : Ty} (h : t.isPointer = true) : t ≠ .void := by
  rintro rfl
  cases h

/-- Whether an access fails has nothing to do with places. -/
theorem invalid_map {g : Place → NodeId} {d : Datum} : (st.map g).Invalid d ↔ st.Invalid d := by
  cases d <;> exact Iff.rfl

omit [DataLayout] in
theorem plain_opcode {o : Opcode} (h : i.opcode = o) (ho : o.isTerminator = false) : i.isTerminator = false := by
  subst h
  exact ho

omit [DataLayout] in
theorem plain_library {name : String} (h : F.CallsLibrary i name) : i.isTerminator = false := by
  obtain ⟨_, hopc, -⟩ := h
  exact plain_opcode hopc rfl

theorem does_body (h : F.Does i st out) : i.isTerminator = false := by
  cases h with
  | binary hopc | iCmp hopc | iCmpPointers hopc | bitCast hopc | zExt hopc | trunc hopc | otherCast hopc
  | alloca hopc | load hopc | loadInvalid hopc | store hd hopc | storeInvalid hopc | getElementPtr hopc
  | debug hopc => exact plain_opcode hopc rfl
  | other hother => exact (translate_other hother).1
  | malloc hcall | freeNull hcall | free hcall | freeNonHeap hcall | freeInvalid hcall | abort hcall
  | createUnknown hcall | plotMemory hcall => exact plain_library hcall

/-- An instruction of the body does not return. -/
theorem does_calls {st' : StoreOver Place} (h : F.Does i st (some st')) : st'.calls = st.calls := by
  cases h with
  | otherCast _ _ _ _ hcalls | other _ hcalls => exact hcalls
  | _ => rfl

/-- The node that an instruction becomes does the same. -/
theorem does_translated (hsame : SameOperands F P i) (h : F.Does i st out) (g : Place → NodeId) :
    ∃ op args, translate i = .ok (.inner op args i i.hasBreakpoint) ∧
      P.Does args (st.map g) op (out.map (·.map g)) := by
  cases h with
  | @binary op nsw nuw isExact x y w a b r hopc hops hx htype ha hb hbits hr =>
    have hvoid : i.type ≠ .void := by rw [htype]; exact nofun
    refine ⟨_, _, translate_opcode hopc rfl rfl, .binOp rfl (getOperand_first hops) (getOperand_second hops)
      (getTarget_args hvoid) hx (hsame.first hops ha g) (hsame.second hops hb g) (fun hw => ?_)
      ((apply_options a b nsw nuw isExact (isInteger_of_result hr)).trans hr)⟩
    rcases hbits hw with rfl | rfl | rfl <;> rfl
  | @iCmp p x y w a b hopc hops hx htype ha hb =>
    have hvoid : i.type ≠ .void := by rw [htype]; exact nofun
    rw [← holds_flags]
    exact ⟨_, _, translate_opcode hopc rfl rfl, .cmp rfl (getOperand_first hops) (getOperand_second hops)
      (getTarget_args hvoid) hx (hsame.first hops ha g) (hsame.second hops hb g) (isRelation_flags p)⟩
  | @iCmpPointers p x y a b eq hopc hops hx htype ha hb heq hp =>
    have hvoid : i.type ≠ .void := by rw [htype]; exact nofun
    have hflags : (p.flags = .eq ∨ p.flags = .neq) ∧ (p == .eq) = (p.flags == .eq) := by
      rcases hp with rfl | rfl <;> decide
    rw [hflags.2]
    exact ⟨_, _, translate_opcode hopc rfl rfl, .cmpPointers rfl (getOperand_first hops) (getOperand_second hops)
      (getTarget_args hvoid) hx (hsame.first hops ha g) (hsame.second hops hb g) heq hflags.1⟩
  | @bitCast x d hopc hops htype hd hkind =>
    exact ⟨_, _, translate_opcode hopc rfl rfl, .bitCast rfl (getOperand_first hops)
      (getTarget_args (isPointer_ne_void htype)) (hsame.first hops hd g) hkind⟩
  | @zExt x w b hopc hops htype hb =>
    have hvoid : i.type ≠ .void := by rw [htype]; exact nofun
    exact ⟨_, _, translate_opcode hopc rfl rfl, .zExt rfl (getOperand_first hops) (getTarget_args hvoid) htype
      (hsame.first hops hb g)⟩
  | @trunc x v w a hopc hops htype hle hne ha =>
    have hvoid : i.type ≠ .void := by rw [htype]; exact nofun
    exact ⟨_, _, translate_opcode hopc rfl rfl, .trunc rfl (getOperand_first hops) (getTarget_args hvoid) htype hle hne
      (hsame.first hops ha g)⟩
  | @otherCast op x d st' hopc hother hops hd hcalls =>
    obtain ⟨target, htarget, -⟩ := getTarget_exists i (.castOpOpts op.options)
    have hkind : op.options.opKind ≠ .bitCast ∧ op.options.opKind ≠ .extend ∧ op.options.opKind ≠ .truncate := by
      cases op <;> first | decide | cases hother
    exact ⟨_, _, translate_opcode hopc rfl rfl, .otherCast rfl hkind.1 hkind.2.1 hkind.2.2 (getOperand_first hops) htarget
      (hsame.first hops hd g) (congrArg (List.map _) hcalls)⟩
  | other hother hcalls =>
    exact ⟨_, _, (translate_other hother).2, .notSupported rfl (congrArg (List.map _) hcalls)⟩
  | @alloca x w n elem blk hopc hops hcount htype hnew =>
    have hvoid : i.type ≠ .void := by rw [htype]; exact nofun
    exact ⟨_, _, translate_opcode hopc rfl rfl, .alloca (getOperand_first hops) (hsame.first hops hcount g)
      (getTarget_args hvoid) htype hnew⟩
  | @load p b f k blk hopc hops hp hblk hlive hfield hkind =>
    obtain ⟨_, hk⟩ := Option.isSome_iff_exists.1 hkind
    exact ⟨_, _, translate_opcode hopc rfl rfl, .load (getOperand_first hops) (getTarget_args (kind_ne_void hk))
      (hsame.first hops hp g) hblk hlive hfield hkind⟩
  | @loadInvalid p d hopc hops hp hinvalid =>
    obtain ⟨target, htarget, -⟩ := getTarget_exists i OperArg.empty
    exact ⟨_, _, translate_opcode hopc rfl rfl, .loadInvalid (getOperand_first hops) htarget (hsame.first hops hp g)
      (invalid_map.2 hinvalid)⟩
  | @store x p b f k blk d hd hopc hops hx htype hp hblk hlive =>
    exact ⟨_, _, translate_opcode hopc rfl rfl, .store hd (getOperand_first hops) (getOperand_second hops)
      (hsame.first hops hx g) htype (hsame.second hops hp g) hblk hlive⟩
  | @storeInvalid x p d e hopc hops hx hp hinvalid =>
    exact ⟨_, _, translate_opcode hopc rfl rfl, .storeInvalid (getOperand_first hops) (getOperand_second hops)
      (hsame.first hops hx g) (hsame.second hops hp g) (invalid_map.2 hinvalid)⟩
  | @getElementPtr constantOffset base index fields elem offset d hopc hops hbase htype helement hd hkind =>
    obtain ⟨options, htranslate, hargs⟩ := translate_getElementPtr hopc (isPointer_ne_void htype)
    rw [hops] at hargs
    have hmem : ∀ x ∈ index :: fields, x ∈ i.operands := fun x hx => hops ▸ List.mem_cons_of_mem _ hx
    exact ⟨_, _, htranslate, .getElementPtr hargs hbase ((hsame.elementAt hmem).2 helement)
      (hsame.first hops hd g) hkind⟩
  | @malloc x w n blk hcall hops htype hsize hnew =>
    obtain ⟨id, hopc, -⟩ := hcall
    exact ⟨_, _, translate_opcode hopc rfl rfl, .malloc (getOperand_first hops) (hsame.first hops hsize g)
      (getTarget_args (isPointer_ne_void htype)) hnew⟩
  | @freeNull p hcall hops hp =>
    obtain ⟨id, hopc, -⟩ := hcall
    exact ⟨_, _, translate_opcode hopc rfl rfl, .freeNull (getOperand_first hops) (hsame.first hops hp g)⟩
  | @free p b k blk hcall hops hp hblk hlive hspace =>
    obtain ⟨id, hopc, -⟩ := hcall
    exact ⟨_, _, translate_opcode hopc rfl rfl, .free (getOperand_first hops) (hsame.first hops hp g) hblk hlive hspace⟩
  | @freeNonHeap p b o k blk hcall hops hp hblk hlive hspace =>
    obtain ⟨id, hopc, -⟩ := hcall
    exact ⟨_, _, translate_opcode hopc rfl rfl,
      .freeNonHeap (getOperand_first hops) (hsame.first hops hp g) hblk hlive hspace⟩
  | @freeInvalid p d hcall hops hp hnull hwild hinvalid =>
    obtain ⟨id, hopc, -⟩ := hcall
    exact ⟨_, _, translate_opcode hopc rfl rfl,
      .freeInvalid (getOperand_first hops) (hsame.first hops hp g) hnull hwild (invalid_map.2 hinvalid)⟩
  | abort hcall =>
    obtain ⟨id, hopc, -⟩ := hcall
    exact ⟨_, _, translate_opcode hopc rfl rfl, .abort⟩
  | createUnknown hcall hname htype hkind hjunk =>
    obtain ⟨id, hopc, -⟩ := hcall
    exact ⟨_, _, translate_opcode hopc (operationForCall_unknown hname) rfl,
      .createUnknown (getTarget_args (kind_ne_void htype)) htype hkind hjunk⟩
  | plotMemory hcall =>
    obtain ⟨id, hopc, -⟩ := hcall
    exact ⟨_, _, translate_opcode hopc rfl rfl, .diagnosticsPlotMem⟩
  | debug hopc hname => exact ⟨_, _, translate_opcode hopc (operationForCall_debug hname) rfl, .noop⟩

omit [DataLayout] in
/-- What computes something is an operation that does. -/
theorem computes_translated (h : F.Computes i) : i.isTerminator = false ∧ ∃ op options,
    translate i = .ok (.inner op (i.args options) i i.hasBreakpoint) ∧ Program.computes op = true := by
  unfold File.Computes at h
  split at h
  case h_6 constantOffset hopc =>
    refine ⟨plain_opcode hopc rfl, ?_⟩
    cases constantOffset <;> exact ⟨_, _, translate_opcode hopc rfl rfl, rfl⟩
  case h_8 hopc =>
    exact ⟨plain_opcode hopc rfl, _, _, translate_opcode hopc (operationForCall_memset h) rfl, rfl⟩
  case h_9 =>
    obtain ⟨_, hopc, -⟩ | ⟨_, hopc, -⟩ := h
    · exact ⟨plain_opcode hopc rfl, _, _, translate_opcode hopc rfl rfl, rfl⟩
    · exact ⟨plain_opcode hopc rfl, _, _, translate_opcode hopc rfl rfl, rfl⟩
  case h_10 => exact h.elim
  all_goals
    rename_i hopc
    exact ⟨plain_opcode hopc rfl, _, _, translate_opcode hopc rfl rfl, rfl⟩

theorem unsaid_body (h : F.Unsaid i st) : i.isTerminator = false := by
  cases h with
  | operand hcomputes => exact (computes_translated hcomputes).1
  | binary hopc | bitCast hopc | cast hopc | load hopc | store hopc | memset hopc => exact plain_opcode hopc rfl
  | createUnknown hcall | free hcall | freeWild hcall => exact plain_library hcall

theorem differs_body {st' : StoreOver Place} (h : F.Differs i st st') : i.isTerminator = false := by
  cases h with
  | bits hopc | iCmpPointers hopc | sExt hopc | zExt hopc | truncBit hopc | memset hopc | getElementPtr hopc =>
    exact plain_opcode hopc rfl
  | mallocNull hcall => exact plain_library hcall
  | unsaid hunsaid => exact unsaid_body hunsaid

theorem differs_calls {st' : StoreOver Place} (h : F.Differs i st st') : st'.calls = st.calls := by
  cases h with
  | unsaid _ hcalls => exact hcalls
  | _ => rfl

/-- Of what the language does not say, it does not say it of the node. -/
theorem unsaid_translated (hsame : SameOperands F P i) (h : F.Unsaid i st) (g : Place → NodeId) :
    ∃ op args, translate i = .ok (.inner op args i i.hasBreakpoint) ∧ P.Unsaid args (st.map g) op := by
  cases h with
  | @operand x hcomputes hx hnone =>
    obtain ⟨-, op, options, htranslate, hop⟩ := computes_translated hcomputes
    obtain ⟨k, hk⟩ := List.getElem?_of_mem hx
    exact ⟨op, _, htranslate, .operand hop (getOperand_args hk) (hsame.operand hk hnone g)⟩
  | @binary op nsw nuw isExact x y w a b hopc hop hops ha hb hr =>
    exact ⟨_, _, translate_opcode hopc rfl rfl, .binOp rfl (getOperand_first hops) (getOperand_second hops)
      (hsame.first hops ha g) (hsame.second hops hb g) ((apply_options a b nsw nuw isExact hop).trans hr)⟩
  | @bitCast x w a hopc hops ha =>
    exact ⟨_, _, translate_opcode hopc rfl rfl, .bitCast rfl (getOperand_first hops) (hsame.first hops ha g)⟩
  | @cast op x d hopc hops hd hkind =>
    obtain ⟨target, htarget, -, htype⟩ := getTarget_exists i (.castOpOpts op.options)
    exact ⟨_, _, translate_opcode hopc rfl rfl, .cast rfl (getOperand_first hops) htarget (hsame.first hops hd g)
      (htype ▸ hkind)⟩
  | createUnknown hcall hname hkind =>
    obtain ⟨id, hopc, -⟩ := hcall
    obtain ⟨target, htarget, -, htype⟩ := getTarget_exists i (.idTypePair ⟨id, .ptr .func⟩)
    exact ⟨_, _, translate_opcode hopc (operationForCall_unknown hname) rfl, .createUnknown htarget (htype ▸ hkind)⟩
  | @load p b f k blk hopc hops hp hblk hlive hfield =>
    obtain ⟨target, htarget, -, htype⟩ := getTarget_exists i OperArg.empty
    exact ⟨_, _, translate_opcode hopc rfl rfl, .load (getOperand_first hops) htarget (hsame.first hops hp g) hblk hlive
      (htype ▸ hfield)⟩
  | @store x p b f k blk d hopc hops hx hp hblk hlive hfield =>
    exact ⟨_, _, translate_opcode hopc rfl rfl, .store (getOperand_first hops) (getOperand_second hops)
      (hsame.first hops hx g) (hsame.second hops hp g) hblk hlive hfield⟩
  | @free p b o k blk hcall hops hp hblk hlive hspace ho =>
    obtain ⟨id, hopc, -⟩ := hcall
    exact ⟨_, _, translate_opcode hopc rfl rfl, .free (getOperand_first hops) (hsame.first hops hp g) hblk hlive hspace ho⟩
  | @freeWild p hcall hops hp =>
    obtain ⟨id, hopc, -⟩ := hcall
    exact ⟨_, _, translate_opcode hopc rfl rfl, .freeWild (getOperand_first hops) (hsame.first hops hp g)⟩
  | @memset id name p operands d hopc hname hops hp hinvalid =>
    exact ⟨_, _, translate_opcode hopc (operationForCall_memset hname) rfl,
      .memset (getOperand_first hops) (hsame.first hops hp g) (invalid_map.2 hinvalid)⟩

/-- What else the language makes of the store, it makes of it at the node. -/
theorem differs_translated {st' : StoreOver Place} (hsame : SameOperands F P i) (h : F.Differs i st st')
    (g : Place → NodeId) : ∃ op args, translate i = .ok (.inner op args i i.hasBreakpoint) ∧
      P.Differs args (st.map g) op (st'.map g) := by
  cases h with
  | @bits op nsw nuw isExact x y w a b r hopc hops htype ha hb hbits hand hor hxor hr =>
    have hvoid : i.type ≠ .void := by rw [htype]; exact nofun
    have hinteger := isInteger_of_result hr
    refine ⟨_, _, translate_opcode hopc rfl rfl, .bits rfl (getOperand_first hops) (getOperand_second hops)
      (getTarget_args hvoid) (hsame.first hops ha g) (hsame.second hops hb g) hbits ?_
      ((apply_options a b nsw nuw isExact hinteger).trans hr)⟩
    cases op <;> first | rfl | contradiction
  | @iCmpPointers p x y a b answer hopc hops htype ha hb hkind hequal =>
    have hvoid : i.type ≠ .void := by rw [htype]; exact nofun
    refine ⟨_, _, translate_opcode hopc rfl rfl, .cmpPointers rfl (getOperand_first hops) (getOperand_second hops)
      (getTarget_args hvoid) (hsame.first hops ha g) (hsame.second hops hb g) hkind fun hp => hequal ?_⟩
    revert hp
    cases p <;> decide
  | @sExt x v w a hopc hops htype ha =>
    have hvoid : i.type ≠ .void := by rw [htype]; exact nofun
    exact ⟨_, _, translate_opcode hopc rfl rfl, .sExt rfl (getOperand_first hops) (getTarget_args hvoid) htype
      (hsame.first hops ha g)⟩
  | @zExt x v w a hopc hops htype ha hbits =>
    have hvoid : i.type ≠ .void := by rw [htype]; exact nofun
    exact ⟨_, _, translate_opcode hopc rfl rfl, .zExt rfl (getOperand_first hops) (getTarget_args hvoid) htype
      (hsame.first hops ha g) hbits⟩
  | @truncBit x v w a hopc hops htype ha hbits =>
    have hvoid : i.type ≠ .void := by rw [htype]; exact nofun
    exact ⟨_, _, translate_opcode hopc rfl rfl, .truncBit rfl (getOperand_first hops) (getTarget_args hvoid) htype
      (hsame.first hops ha g) hbits⟩
  | @mallocNull x w n hcall hops htype hsize =>
    obtain ⟨id, hopc, -⟩ := hcall
    exact ⟨_, _, translate_opcode hopc rfl rfl, .mallocNull (getOperand_first hops) (hsame.first hops hsize g)
      (getTarget_args (isPointer_ne_void htype))⟩
  | @memset id name p operands b o k blk blk' hopc hname hops hp hblk hlive hshape hspace hlive' =>
    exact ⟨_, _, translate_opcode hopc (operationForCall_memset hname) rfl,
      .memset (getOperand_first hops) (hsame.first hops hp g) hblk hlive hshape hspace hlive'⟩
  | @getElementPtr constantOffset base index fields elem offset d hopc hops hbase htype helement hd hkind =>
    obtain ⟨options, htranslate, hargs⟩ := translate_getElementPtr hopc (isPointer_ne_void htype)
    rw [hops] at hargs
    have hmem : ∀ x ∈ index :: fields, x ∈ i.operands := fun x hx => hops ▸ List.mem_cons_of_mem _ hx
    exact ⟨_, _, htranslate, .getElementPtr hargs hbase
      (fun offset h => helement offset ((hsame.elementAt hmem).1 h)) (hsame.first hops hd g) hkind⟩
  | unsaid hunsaid hcalls =>
    obtain ⟨op, args, htranslate, hunsaid'⟩ := unsaid_translated hsame hunsaid g
    exact ⟨op, args, htranslate, .unsaid hunsaid' (congrArg (List.map _) hcalls)⟩

end Does

end Angie
