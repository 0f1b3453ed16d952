import Angie.Frontend.Faithful
import Angie.Semantics.Files

/-!
# The machine that runs the module

What a file means before it is parsed: the instructions of its module on the stores of the machine that runs the nodes
(`Angie.Semantics.Machine`), from the entry through the blocks, by what an instruction says and not by what the frontend
makes of it. As there, the interpreter follows `File.Moves`, and `File.Departs` is what the language does where it does
something else. `File.Drops` is where control goes behind what has no node that leads there: a terminator other than
`br` and `ret`, a function of the module that has the name of one of the library, and a call through a pointer.

A function of the library does what C says if the module has no body for it, and `exit` and what else has a name of the
tool end the run. An instruction that the interpreter refuses may do anything (`Opcode.isOther`), exceptions are left
out.
-/

namespace Angie

open Llvm

/-! ## Instructions -/

/-- The result of an instruction, in two's complement where it overflows. -/
def Llvm.BinaryOps.apply {w : ℕ} (op : BinaryOps) (x y : BitVec w) : Option (BitVec w) :=
  match op with
  | .add => some (x + y)
  | .sub => some (x - y)
  | .mul => some (x * y)
  | .uDiv => if y = 0 then none else some (quotient false x y)
  | .sDiv => if y = 0 then none else some (quotient true x y)
  | .uRem => if y = 0 then none else some (remainder false x y)
  | .sRem => if y = 0 then none else some (remainder true x y)
  | .shl => if y.toNat < w then some (x <<< y.toNat) else none
  | .lShr => if y.toNat < w then some (x >>> y.toNat) else none
  | .aShr => if y.toNat < w then some (x.sshiftRight y.toNat) else none
  | .and => some (x &&& y)
  | .or => some (x ||| y)
  | .xor => some (x ^^^ y)
  | .fAdd | .fSub | .fMul | .fDiv | .fRem => none

/-- An exact operation leaves nothing over. -/
def Llvm.BinaryOps.leavesNothing {w : ℕ} (op : BinaryOps) (x y : BitVec w) : Bool :=
  match op with
  | .uDiv => remainder false x y == 0
  | .sDiv => remainder true x y == 0
  | .lShr => (x >>> y.toNat) <<< y.toNat == x
  | .aShr => (x.sshiftRight y.toNat) <<< y.toNat == x
  | _ => true

/-- The result, if an exact operation is. -/
def Llvm.BinaryOps.result {w : ℕ} (op : BinaryOps) (isExact : Bool) (x y : BitVec w) : Option (BitVec w) :=
  if isExact = true → op.leavesNothing x y = true then op.apply x y else none

/-- An operation on integers. -/
def Llvm.BinaryOps.isInteger : BinaryOps → Bool
  | .fAdd | .fSub | .fMul | .fDiv | .fRem => false
  | _ => true

/-- A cast between pointers and integers, or of numbers that are no integers. -/
def Llvm.CastOps.isOther : CastOps → Bool
  | .ptrToInt | .intToPtr | .addrSpaceCast | .fpToUI | .fpToSI | .uiToFP | .siToFP | .fpTrunc => true
  | _ => false

/-- An instruction that the interpreter refuses. -/
def Llvm.Opcode.isOther : Opcode → Bool
  | .fence | .atomicCmpXchg | .atomicRMW | .catchPad | .phi | .select | .userOp | .vaArg | .extractElement
  | .insertElement | .shuffleVector | .extractValue | .insertValue | .landingPad => true
  | _ => false

def Llvm.Predicate.holds {w : ℕ} (p : Predicate) (x y : BitVec w) : Bool :=
  match p with
  | .eq => x == y
  | .ne => x != y
  | .ugt => y.ult x
  | .uge => y.ule x
  | .ult => x.ult y
  | .ule => x.ule y
  | .sgt => y.slt x
  | .sge => y.sle x
  | .slt => x.slt y
  | .sle => x.sle y

/-- The register of the result. -/
def Llvm.Instruction.result (i : Instruction) : FrontendIdTypePair := ⟨i.id, i.type⟩

/-- The registers of a callee. -/
def Llvm.Function.registers (f : Function) (data : List (Option Datum)) : Registers :=
  fun id => ((f.args.zip data).find? (·.1.id == id)).bind (·.2)

/-- The names that are not those of a program. -/
def isReserved (name : String) : Bool :=
  startsWith name "__ANGIE" || name == "abort" || name == "exit" || name == "malloc" || name == "free"

/-- Where control is: in `__entry`, before the call of `main` or behind it, or at an instruction. -/
inductive Place where
  | entry
  | fin
  | instruction (p : Module.Pos)

/-- The machine that runs a module. -/
structure ModuleMachine [DataLayout] where
  place : Place
  store : StoreOver Place

namespace File

variable [DataLayout] (F : File)

/-- The datum of an operand. -/
def value {Place : Type} (st : StoreOver Place) (x : Llvm.Value) : Option Datum :=
  if x.isConstant then (F.constantAt x.id).datum else st.registers x.id

/-- The distance of an element from the base pointer, in bytes, by the constants that index it. -/
inductive ElementAt (elem : Ty) (index : Llvm.Value) : List Llvm.Value → Word → Prop
  | element {n : Width} {x : BitVec n.bits} : index.type = n.type → index.isConstant = true →
      (F.constantAt index.id).datum = some (.int n x) → x.msb = false ∨ n.bits = 64 →
      ElementAt elem index [] (x.signExtend 64 * BitVec.ofNat 64 elem.getSizeOf)
  | field {operand : Llvm.Value} {layout : ℕ} {w : Width} {k : BitVec w.bits} {offset : Word} :
      ElementAt elem index [] offset → elem = .struct layout → w.bits = 32 → operand.type = w.type →
      operand.isConstant = true → (F.constantAt operand.id).datum = some (.int w k) →
      ElementAt elem index [operand] (offset + BitVec.ofNat 64 (DataLayout.getElementOffset layout k.toNat))

/-- The instruction calls a function of the library. -/
def CallsLibrary (i : Instruction) (name : String) : Prop :=
  ∃ id, i.opcode = .call (.function id name false) ∧ ∀ f ∈ F.module.functions, f.id = id → f.isDeclaration = true

/-- What an instruction makes of the store, `none` when it fails. What the interpreter refuses may do anything to it. -/
inductive Does {Place : Type} (i : Instruction) (st : StoreOver Place) : Option (StoreOver Place) → Prop
  | binary {op nsw nuw isExact x y w a b r} : i.opcode = .binary op nsw nuw isExact → i.operands = [x, y] →
      x.type = Width.type w → i.type = Width.type w → F.value st x = some (.int w a) → F.value st y = some (.int w b) →
      (w.bits = 1 → op = .and ∨ op = .or ∨ op = .xor) → op.result isExact a b = some r →
      Does i st (some (st.assign i.result (.int w r)))
  | iCmp {p x y w a b} : i.opcode = .iCmp p → i.operands = [x, y] → x.type = Width.type w → i.type = .int 1 →
      F.value st x = some (.int w a) → F.value st y = some (.int w b) →
      Does i st (some (st.assign i.result (.int .bit (BitVec.ofBool (p.holds a b)))))
  | iCmpPointers {p x y a b eq} : i.opcode = .iCmp p → i.operands = [x, y] → x.type.isPointer = true → i.type = .int 1 →
      F.value st x = some a → F.value st y = some b → st.equal a b = some eq → p = .eq ∨ p = .ne →
      Does i st (some (st.assign i.result (.int .bit (BitVec.ofBool (eq == (p == .eq))))))
  | bitCast {x d} : i.opcode = .cast .bitCast → i.operands = [x] → i.type.isPointer = true → F.value st x = some d →
      d.kind = .pointer → Does i st (some (st.assign i.result d))
  | zExt {x w b} : i.opcode = .cast .zExt → i.operands = [x] → i.type = Width.type w →
      F.value st x = some (.int .bit b) → Does i st (some (st.assign i.result (.int w (b.setWidth w.bits))))
  | trunc {x v w a} : i.opcode = .cast .trunc → i.operands = [x] → i.type = Width.type w → w.bits ≤ v.bits →
      w.bits ≠ 1 → F.value st x = some (.int v a) → Does i st (some (st.assign i.result (.int w (a.setWidth w.bits))))
  | otherCast {op x d st'} : i.opcode = .cast op → op.isOther = true → i.operands = [x] → F.value st x = some d →
      st'.calls = st.calls → Does i st (some st')
  | other {st'} : i.opcode.isOther = true → st'.calls = st.calls → Does i st (some st')
  | alloca {x w n elem blk} : i.opcode = .alloca → i.operands = [x] → F.value st x = some (.int w n) →
      i.type = .ptr elem → blk.IsNew (n.toNat * elem.getSizeOf) .stack → Does i st (some (st.allocate blk i.result))
  | load {p b f k blk} : i.opcode = .load → i.operands = [p] → F.value st p = some (.ptr b f k) →
      st.blocks[b]? = some blk → blk.freed = false → blk.shape.field f = i.type.kind → i.type.kind.isSome →
      Does i st (some (st.assign i.result (blk.contents f)))
  | loadInvalid {p d} : i.opcode = .load → i.operands = [p] → F.value st p = some d → st.Invalid d → Does i st none
  | store {x p b f k blk d} (hd : blk.shape.field f = some (Datum.kind d)) : i.opcode = .store → i.operands = [x, p] →
      F.value st x = some d → x.type.kind = some d.kind → F.value st p = some (.ptr b f k) →
      st.blocks[b]? = some blk → blk.freed = false → Does i st (some (st.setBlock b (blk.write f d hd)))
  | storeInvalid {x p d e} : i.opcode = .store → i.operands = [x, p] → F.value st x = some e → F.value st p = some d →
      st.Invalid d → Does i st none
  | getElementPtr {constantOffset base index fields elem offset d} : i.opcode = .getElementPtr constantOffset →
      i.operands = base :: index :: fields → base.type = .ptr elem → i.type.isPointer = true →
      F.ElementAt elem index fields offset → F.value st base = some d → d.kind = .pointer →
      Does i st (some (st.move i.result d offset))
  | malloc {x w n blk} : F.CallsLibrary i "malloc" → i.operands = [x] → i.type.isPointer = true →
      F.value st x = some (.int w n) → blk.IsNew n.toNat .heap → Does i st (some (st.allocate blk i.result))
  | freeNull {p} : F.CallsLibrary i "free" → i.operands = [p] → F.value st p = some .null → Does i st (some st)
  | free {p b k blk} : F.CallsLibrary i "free" → i.operands = [p] → F.value st p = some (.ptr b 0 k) →
      st.blocks[b]? = some blk → blk.freed = false → blk.space = .heap → Does i st (some (st.setBlock b blk.free))
  | freeNonHeap {p b o k blk} : F.CallsLibrary i "free" → i.operands = [p] → F.value st p = some (.ptr b o k) →
      st.blocks[b]? = some blk → blk.freed = false → blk.space ≠ .heap → Does i st none
  | freeInvalid {p d} : F.CallsLibrary i "free" → i.operands = [p] → F.value st p = some d → d ≠ .null → d ≠ .wild →
      st.Invalid d → Does i st none
  | abort : F.CallsLibrary i "abort" → Does i st none
  /-- Anything of the type of the result. A pointer is not set. -/
  | createUnknown {name k d} : F.CallsLibrary i name → startsWith name "__ANGIE_CREATE_UNKNOWN_" = true →
      i.type.kind = some k → d.kind = k → (k.isPointer = true → d = .junk) → Does i st (some (st.assign i.result d))
  | plotMemory : F.CallsLibrary i "__ANGIE_DIAGNOSTICS_PLOT_MEMORY" → Does i st (some st)
  | debug {id name} : i.opcode = .call (.function id name true) → startsWith name "llvm.dbg" = true →
      Does i st (some st)

/-- The instruction computes something from its operands. -/
def Computes (i : Instruction) : Prop :=
  match i.opcode with
  | .binary _ _ _ _ | .cast _ | .alloca | .load | .store | .getElementPtr _ | .iCmp _ => True
  | .call (.function _ name true) => startsWith name "llvm.memset" = true
  | .call (.function _ _ false) => F.CallsLibrary i "malloc" ∨ F.CallsLibrary i "free"
  | _ => False

/-- Of what the instruction does, the language says nothing, or the machine does not know. -/
inductive Unsaid {Place : Type} (i : Instruction) (st : StoreOver Place) : Prop
  | operand {x} : F.Computes i → x ∈ i.operands → F.value st x = none → Unsaid i st
  | binary {op nsw nuw isExact x y w a b} : i.opcode = .binary op nsw nuw isExact → op.isInteger = true →
      i.operands = [x, y] → F.value st x = some (.int w a) → F.value st y = some (.int w b) →
      op.result isExact a b = none → Unsaid i st
  | bitCast {x w a} : i.opcode = .cast .bitCast → i.operands = [x] → F.value st x = some (.int w a) → Unsaid i st
  /-- A cast to a type of which nothing is known. -/
  | cast {op x d} : i.opcode = .cast op → i.operands = [x] → F.value st x = some d → i.type.kind = none → Unsaid i st
  | createUnknown {name} : F.CallsLibrary i name → startsWith name "__ANGIE_CREATE_UNKNOWN_" = true →
      i.type.kind = none → Unsaid i st
  | load {p b f k blk} : i.opcode = .load → i.operands = [p] → F.value st p = some (.ptr b f k) →
      st.blocks[b]? = some blk → blk.freed = false → (i.type.kind.isSome → blk.shape.field f ≠ i.type.kind) →
      Unsaid i st
  | store {x p b f k blk d} : i.opcode = .store → i.operands = [x, p] → F.value st x = some d →
      F.value st p = some (.ptr b f k) → st.blocks[b]? = some blk → blk.freed = false →
      blk.shape.field f ≠ some d.kind → Unsaid i st
  | free {p b o k blk} : F.CallsLibrary i "free" → i.operands = [p] → F.value st p = some (.ptr b o k) →
      st.blocks[b]? = some blk → blk.freed = false → blk.space = .heap → o ≠ 0 → Unsaid i st
  | freeWild {p} : F.CallsLibrary i "free" → i.operands = [p] → F.value st p = some .wild → Unsaid i st
  | memset {id name p operands d} : i.opcode = .call (.function id name true) →
      startsWith name "llvm.memset" = true → i.operands = p :: operands → F.value st p = some d → st.Invalid d →
      Unsaid i st

/-- What else the language makes of the store. -/
inductive Differs {Place : Type} (i : Instruction) (st : StoreOver Place) : StoreOver Place → Prop
  | bits {op nsw nuw isExact x y w a b r} : i.opcode = .binary op nsw nuw isExact → i.operands = [x, y] →
      i.type = Width.type w → F.value st x = some (.int w a) → F.value st y = some (.int w b) → w.bits = 1 →
      op ≠ .and → op ≠ .or → op ≠ .xor → op.result isExact a b = some r →
      Differs i st (st.assign i.result (.int w r))
  | iCmpPointers {p x y a b answer} : i.opcode = .iCmp p → i.operands = [x, y] → i.type = .int 1 →
      F.value st x = some a → F.value st y = some b → a.kind = .pointer → (p = .eq ∨ p = .ne → st.equal a b = none) →
      Differs i st (st.assign i.result (.int .bit (BitVec.ofBool answer)))
  | sExt {x v w a} : i.opcode = .cast .sExt → i.operands = [x] → i.type = Width.type w → F.value st x = some (.int v a) →
      Differs i st (st.assign i.result (.int w (a.signExtend w.bits)))
  | zExt {x v w a} : i.opcode = .cast .zExt → i.operands = [x] → i.type = Width.type w → F.value st x = some (.int v a) →
      v.bits ≠ 1 → Differs i st (st.assign i.result (.int w (a.setWidth w.bits)))
  | truncBit {x v w a} : i.opcode = .cast .trunc → i.operands = [x] → i.type = Width.type w →
      F.value st x = some (.int v a) → w.bits = 1 → Differs i st (st.assign i.result (.int w (a.setWidth w.bits)))
  | mallocNull {x w n} : F.CallsLibrary i "malloc" → i.operands = [x] → i.type.isPointer = true →
      F.value st x = some (.int w n) → Differs i st (st.assign i.result .null)
  /-- What the bytes come to in the fields of a block is left open. -/
  | memset {id name p operands b o k blk blk'} : i.opcode = .call (.function id name true) →
      startsWith name "llvm.memset" = true → i.operands = p :: operands → F.value st p = some (.ptr b o k) →
      st.blocks[b]? = some blk → blk.freed = false → blk'.shape = blk.shape → blk'.space = blk.space →
      blk'.freed = false → Differs i st (st.setBlock b blk')
  | getElementPtr {constantOffset base index fields elem offset d} : i.opcode = .getElementPtr constantOffset →
      i.operands = base :: index :: fields → base.type = .ptr elem → i.type.isPointer = true →
      (∀ offset, ¬ F.ElementAt elem index fields offset) → F.value st base = some d → d.kind = .pointer →
      Differs i st (st.move i.result d offset)
  | unsaid {st'} : F.Unsaid i st → st'.calls = st.calls → Differs i st st'

/-- The instruction at which the machine is. -/
def At (c : ModuleMachine) (p : Module.Pos) (i : Instruction) : Prop :=
  c.place = .instruction p ∧ F.module.instructionAt p = some i

/-- The machine behind a call, in the entry of the function. Without a result the target is 0, the address of nothing. -/
def enter (c : ModuleMachine) (p : Module.Pos) (i : Instruction) (f : Function) (entry : BasicBlock) : ModuleMachine :=
  ⟨.instruction (entry.id, 0), { c.store with
    registers := f.registers (i.operands.map (F.value c.store))
    calls := ⟨c.store.registers, if i.type = .void then 0 else i.id, .instruction (p.1, p.2 + 1)⟩ :: c.store.calls }⟩

/-- What the interpreter follows. -/
inductive Moves : ModuleMachine → ModuleMachine → Prop
  /-- Of the arguments of the program nothing is known. -/
  | main {c f entry} : c.place = .entry → F.module.getFunction "main" = some f → f.blocks.head? = some entry →
      Moves c ⟨.instruction (entry.id, 0), { c.store with
        registers := fun _ => none
        calls := ⟨c.store.registers, 0, .fin⟩ :: c.store.calls }⟩
  | next {c p i st} : F.At c p i → F.Does i c.store (some st) → Moves c ⟨.instruction (p.1, p.2 + 1), st⟩
  | br {c p i target} : F.At c p i → i.opcode = .br target → Moves c ⟨.instruction (target, 0), c.store⟩
  | condBr {c p i ifTrue ifFalse x labels b} : F.At c p i → i.opcode = .condBr ifTrue ifFalse →
      i.operands = x :: labels → F.value c.store x = some (.int .bit b) →
      Moves c ⟨.instruction (if b = 1 then ifTrue else ifFalse, 0), c.store⟩
  | call {c p i f name entry} : F.At c p i → i.opcode = .call (.function f.id name false) → isReserved name = false →
      F.module.Defines f entry → f.args.length ≤ i.operands.length → Moves c (F.enter c p i f entry)
  | ret {c p i x call calls} : F.At c p i → i.opcode = .ret → i.operands = [x] → c.store.calls = call :: calls →
      Moves c ⟨call.back, { c.store with
        registers := Function.update call.registers call.target (F.value c.store x)
        calls := calls }⟩
  | retVoid {c p i call calls} : F.At c p i → i.opcode = .ret → i.operands = [] → c.store.calls = call :: calls →
      Moves c ⟨call.back, { c.store with registers := call.registers, calls := calls }⟩

/-- Where else the language goes on. -/
inductive Departs : ModuleMachine → ModuleMachine → Prop
  | next {c p i st} : F.At c p i → F.Differs i c.store st → Departs c ⟨.instruction (p.1, p.2 + 1), st⟩
  /-- Of the condition nothing is known. -/
  | condBr {c p i ifTrue ifFalse x labels target} : F.At c p i → i.opcode = .condBr ifTrue ifFalse →
      i.operands = x :: labels → F.value c.store x = none → target = ifTrue ∨ target = ifFalse →
      Departs c ⟨.instruction (target, 0), c.store⟩
  /-- A call of a function that is not in the module, which does anything. -/
  | callOutside {c p i f name st} : F.At c p i → i.opcode = .call (.function f.id name false) →
      isReserved name = false → f ∈ F.module.functions → f.isDeclaration = true → st.calls = c.store.calls →
      Departs c ⟨.instruction (p.1, p.2 + 1), st⟩

/-- Where control goes behind what has no node that leads there. -/
inductive Drops : ModuleMachine → ModuleMachine → Prop
  /-- Such a terminator does anything. -/
  | terminator {c p i target st} : F.At c p i → (∀ target, i.opcode ≠ .br target) →
      (∀ ifTrue ifFalse, i.opcode ≠ .condBr ifTrue ifFalse) → target ∈ i.successors → st.calls = c.store.calls →
      Drops c ⟨.instruction (target, 0), st⟩
  | reserved {c p i f name entry} : F.At c p i → i.opcode = .call (.function f.id name false) → isReserved name = true →
      F.module.Defines f entry → f.args.length ≤ i.operands.length → Drops c (F.enter c p i f entry)
  /-- A call through a pointer, which leads to any function of the module. -/
  | callPointer {c p i id type f entry} : F.At c p i → i.opcode = .call (.value id type) → F.module.Defines f entry →
      Drops c (F.enter c p i f entry)
  /-- Or out of it. -/
  | callAnything {c p i id type st} : F.At c p i → i.opcode = .call (.value id type) → st.calls = c.store.calls →
      Drops c ⟨.instruction (p.1, p.2 + 1), st⟩

/-- The instruction of the machine does what C forbids, or aborts. -/
def Fails (c : ModuleMachine) : Prop := ∃ p i, F.At c p i ∧ F.Does i c.store none

/-- A run of the machine, from its first state. -/
abbrev Run (c : ModuleMachine) (cs : List ModuleMachine) : Prop :=
  List.IsChain (fun x y => F.Moves x y ∨ F.Departs x y ∨ F.Drops x y) (c :: cs)

end File

/-- A machine that has not done anything. -/
def ModuleMachine.start [DataLayout] : ModuleMachine := ⟨.entry, fun _ => none, [], [], 0⟩

end Angie
