import Angie.Base
import Mathlib.Data.List.Nodup

/-!
# Modules of LLVM instructions

What `LlvmFrontend.cpp` asks of the intermediate representation: functions of basic blocks, each a body of plain
instructions ended by a terminator. Values, blocks and functions are pointers, here identified by their address.
A well-formed module is a `Module`: addresses are distinct and terminators lead to blocks of their own function.
-/

namespace Angie.Llvm

/-- The address of a `llvm::BasicBlock`. -/
abbrev BlockId := ℕ

/-- An operand. The type of a label is not looked at. -/
structure Value where
  id : FrontendId
  type : Ty
  isConstant : Bool
  deriving DecidableEq, Repr

/-! ## Instructions -/

/-- `llvm::CmpInst::Predicate` of an integer comparison. -/
inductive Predicate where
  | eq | ne | ugt | uge | ult | ule | sgt | sge | slt | sle
  deriving DecidableEq, Repr

/-- `llvm::Instruction::BinaryOps`. -/
inductive BinaryOps where
  | add | fAdd | sub | fSub | mul | fMul | uDiv | sDiv | fDiv | uRem | sRem | fRem
  | shl | lShr | aShr | and | or | xor
  deriving DecidableEq, Repr

/-- `llvm::Instruction::CastOps`. -/
inductive CastOps where
  | trunc | zExt | sExt | fpToUI | fpToSI | uiToFP | siToFP | fpTrunc | fpExt | ptrToInt | intToPtr | bitCast
  | addrSpaceCast
  deriving DecidableEq, Repr

/-- `getCalledFunction`, or `getCalledValue` of an indirect call. -/
inductive Callee where
  | function (id : FrontendId) (name : String) (isIntrinsic : Bool)
  | value (id : FrontendId) (type : Ty)
  deriving DecidableEq, Repr

/-- `getOpcode`, with what else an instruction of that opcode says: the successors of a terminator, the answer of
`accumulateConstantOffset`, the flags of an arithmetic instruction. -/
inductive Opcode where
  | ret
  | br (target : BlockId)
  | condBr (ifTrue ifFalse : BlockId)
  | switch (targets : List BlockId)
  | indirectBr (targets : List BlockId)
  | invoke (targets : List BlockId)
  | resume
  | unreachable
  | cleanupRet (targets : List BlockId)
  | catchRet (targets : List BlockId)
  | catchSwitch (targets : List BlockId)
  | binary (op : BinaryOps) (hasNoSignedWrap hasNoUnsignedWrap isExact : Bool)
  | alloca | load | store
  | getElementPtr (constantOffset : Option Word)
  | fence | atomicCmpXchg | atomicRMW
  | cast (op : CastOps)
  | cleanupPad | catchPad
  | iCmp (predicate : Predicate)
  | fCmp
  | phi
  | call (callee : Callee)
  | select | userOp | vaArg | extractElement | insertElement | shuffleVector | extractValue | insertValue
  | landingPad
  deriving DecidableEq, Repr

namespace Opcode

def isTerminator : Opcode → Bool
  | ret | br _ | condBr _ _ | switch _ | indirectBr _ | invoke _ | resume | unreachable | cleanupRet _ | catchRet _
  | catchSwitch _ => true
  | _ => false

/-- `getSuccessor`, by index. -/
def successors : Opcode → List BlockId
  | br t => [t]
  | condBr t f => [t, f]
  | switch ts | indirectBr ts | invoke ts | cleanupRet ts | catchRet ts | catchSwitch ts => ts
  | _ => []

end Opcode

/-- `operands` are those of `getOperand`, of a call those of `getArgOperand`. -/
structure Instruction where
  id : FrontendId
  type : Ty
  opcode : Opcode
  operands : List Value
  /-- The metadata `angie.debugbreak`. -/
  hasBreakpoint : Bool
  deriving DecidableEq, Repr

def Instruction.isTerminator (i : Instruction) : Bool := i.opcode.isTerminator

def Instruction.successors (i : Instruction) : List BlockId := i.opcode.successors

/-! ## Blocks, functions and modules -/

structure BasicBlock where
  id : BlockId
  body : List Instruction
  terminator : Instruction
  body_plain : ∀ i ∈ body, i.isTerminator = false
  terminator_ends : terminator.isTerminator = true

/-- The instructions in the order of the block. -/
def BasicBlock.instructions (b : BasicBlock) : List Instruction := b.body ++ [b.terminator]

/-- A formal parameter. -/
structure Param where
  id : FrontendId
  type : Ty
  deriving DecidableEq, Repr

structure Function where
  id : FrontendId
  name : String
  args : List Param
  blocks : List BasicBlock
  args_nodup : (args.map (·.id)).Nodup

/-- A function without a body. -/
def Function.isDeclaration (f : Function) : Bool := f.blocks.isEmpty

structure Module where
  functions : List Function
  functions_nodup : (functions.map (·.id)).Nodup
  blocks_nodup : ((functions.flatMap (·.blocks)).map (·.id)).Nodup
  closed : ∀ f ∈ functions, ∀ b ∈ f.blocks, ∀ t ∈ b.terminator.successors, ∃ b' ∈ f.blocks, b'.id = t

namespace Module

variable (m : Module)

def blocks : List BasicBlock := m.functions.flatMap (·.blocks)

/-- `getFunction`. -/
def getFunction (name : String) : Option Function := m.functions.find? (·.name == name)

/-- The functions that are not declarations, with their entry blocks. -/
def Defines (f : Function) (entry : BasicBlock) : Prop := f ∈ m.functions ∧ f.blocks.head? = some entry

/-- The block at an address. -/
def block? (id : BlockId) : Option BasicBlock := m.blocks.find? (·.id == id)

variable {m}

theorem block?_some {id : BlockId} {b : BasicBlock} (h : m.block? id = some b) : b ∈ m.blocks ∧ b.id = id := by
  refine ⟨List.mem_of_find?_eq_some h, ?_⟩
  simpa using List.find?_some h

/-- Distinct addresses: a block of the module is the one at its address. -/
theorem block?_of_mem {b : BasicBlock} (h : b ∈ m.blocks) : m.block? b.id = some b := by
  have hex : ∃ x, m.block? b.id = some x := by
    rw [← Option.isSome_iff_exists]
    exact List.find?_isSome.2 ⟨b, h, by simp⟩
  obtain ⟨x, hx⟩ := hex
  obtain ⟨hxm, hxid⟩ := block?_some hx
  rw [hx, List.inj_on_of_nodup_map m.blocks_nodup hxm h hxid]

theorem mem_blocks {f : Function} {b : BasicBlock} (hf : f ∈ m.functions) (hb : b ∈ f.blocks) : b ∈ m.blocks :=
  List.mem_flatMap.2 ⟨f, hf, hb⟩

theorem Defines.block? {f : Function} {b : BasicBlock} (h : m.Defines f b) : m.block? b.id = some b :=
  block?_of_mem (mem_blocks h.1 (List.mem_of_mem_head? h.2))

/-- A successor of a block is a block. -/
theorem block?_successor {b : BasicBlock} (h : b ∈ m.blocks) {t : BlockId} (ht : t ∈ b.terminator.successors) :
    ∃ b', m.block? t = some b' := by
  obtain ⟨f, hf, hb⟩ := List.mem_flatMap.1 h
  obtain ⟨b', hb', rfl⟩ := m.closed f hf b hb t ht
  exact ⟨b', block?_of_mem (mem_blocks hf hb')⟩

end Module

end Angie.Llvm
