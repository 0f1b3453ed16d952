import Angie.Interp.State
import Angie.Values.Branch

/-!
# Operations of the memory-graph analysis

The operations of `MemoryGraphAnalysis.hpp` and `Operation.hpp`: what each does to the new state (`ExecuteOnNewState`),
and how its class executes it (`Execute`): which successor it creates, that an analysis error drops the successor and
any other exception leaves the interpreter. `Context.execute` is `Execute` of a node; `MemGraphOpFactory` says which
operation stands behind each of the factory's.
-/

namespace Angie

open Exec Llvm

namespace MemGraphOp

open OpM

variable (ctx : Context) (args : OperationArgs)

section Typed

variable [DataLayout]

/-! ## What an operation does to the new state -/

omit [DataLayout] in
def load : OpM Unit := do
  let ptr ← ofExcept (args.getOperand 0)
  let reg ← ofExcept args.getTarget
  let ptrId ← getValue ctx ptr
  let value ← callGraph (readValue ptrId reg.type)
  assignValue reg value

omit [DataLayout] in
def store : OpM Unit := do
  let value ← ofExcept (args.getOperand 0)
  let valueId ← getValue ctx value
  let target ← getValue ctx (← ofExcept (args.getOperand 1))
  callGraph (writeValue target valueId value.type)

/-- The element type of a pointer; the assertion in it holds of pointers only. -/
def pointee (type : Ty) : Except Exn Ty :=
  match type.getPointerElementType with
  | some t => .ok t
  | none => .error (.undefinedBehaviour "not a pointer type")

/-- `MemoryGraphAnalysisState::Alloca`. -/
def allocaRegion (type : Ty) (count : ValueId) : OpM ValueId := do
  match (← get).state.vc.constantContainer[count]? with
  | none => throw (.notSupported "Alloca with abstract count is not supported")
  | some n =>
    if n ≠ 1 then throw (.notSupported "Alloca with count != 1 is not supported")
    else callGraph (allocateRegion type .stack)

def alloca : OpM Unit := do
  let operand ← ofExcept (args.getOperand 0)
  let count ← getValue ctx operand
  let target ← ofExcept args.getTarget
  let count64 ← OpM.callVc (extendInt count operand.type Ty.charPointer .default)
  let retVal ← allocaRegion (← ofExcept (pointee target.type)) count64
  assignValue target retVal

/-- `MemoryGraphAnalysisState::Malloc`. -/
def mallocRegion (size : ValueId) : OpM ValueId := do
  match (← get).state.vc.constantContainer[size]? with
  | none => throw (.notSupported "Malloc with abstract size is not supported")
  | some n => callGraph (allocateRegion (.array (.int 8) n.toNat) .heap)

def malloc : OpM Unit := do
  let operand ← ofExcept (args.getOperand 0)
  let size ← getValue ctx operand
  let size64 ← OpM.callVc (extendInt size operand.type Ty.charPointer .default)
  let retVal ← mallocRegion size64
  assignValue (← ofExcept args.getTarget) retVal

/-- `MemoryGraphAnalysisState::Memset`. -/
def memsetRegion (ptr value size : ValueId) : OpM Unit := do
  if (← OpM.callVc (VcM.query (·.isZero value))) = some true then callGraph (memclear ptr size)
  else
    match (← get).state.vc.constantContainer[size]? with
    | none => throw (.notSupported "Memset of arbitraty value with abstract size is not supported")
    | some _ => throw (.notSupported "Memset of arbitraty value is not supported")

def memset : OpM Unit := do
  let target ← getValue ctx (← ofExcept (args.getOperand 0))
  let value ← getValue ctx (← ofExcept (args.getOperand 1))
  let len ← getValue ctx (← ofExcept (args.getOperand 2))
  memsetRegion target value len

omit [DataLayout] in
def free : OpM Unit := do
  let ptr ← getValue ctx (← ofExcept (args.getOperand 0))
  callGraph (Angie.free ptr)

/-- `GetStructElementOffsetV`. -/
def structElementOffset (type : Ty) (index : ℕ) : OpM ValueId := do
  match type.getStructElementOffset index with
  | some offset => OpM.callVc (createConstIntVal (BitVec.ofNat 64 offset))
  | none => throw (.undefinedBehaviour "not a struct type")

/-- The second index if there is one, a constant field of a struct. -/
def fieldOffset (elementType : Ty) (offsetVal : ValueId) : OpM ValueId := do
  if 4 < args.length then
    let vIdx1 ← getValue ctx (← ofExcept (args.getOperand 2))
    let fieldIndex ← OpM.callVc (VcM.query (·.getConstantIntInnerVal vIdx1))
    -- the index is narrowed to `unsigned`
    let vL1Offset ← structElementOffset elementType (fieldIndex.toNat % 2 ^ 32)
    let offsetVal ← OpM.callVc (add offsetVal vL1Offset Ty.charPointer .default)
    if 5 < args.length then
      throw (.notSupported "Only 2 levels (L0 and L1) of indexation via GEP are supported.")
    else return offsetVal
  else return offsetVal

def getElementPtr : OpM Unit := do
  let source ← ofExcept (args.getOperand 0)
  let sourceId ← getValue ctx source
  let elementType ← ofExcept (pointee source.type)
  -- a null pointer is reported only
  let _ ← OpM.callVc (VcM.query (·.isZero sourceId))
  let vIdx0 ← getValue ctx (← ofExcept (args.getOperand 1))
  let vL0Size ← OpM.callVc (getSizeOfV elementType)
  let offsetVal ← OpM.callVc (mul vIdx0 vL0Size Ty.charPointer .default)
  let offsetVal ← fieldOffset ctx args elementType offsetVal
  let retVal ← callGraph (createDerivedPointer sourceId offsetVal)
  assignValue (← ofExcept args.getTarget) retVal.1

def cast : OpM Unit := do
  let operand ← ofExcept (args.getOperand 0)
  let lhs ← getValue ctx operand
  let opts ← ofExcept args.castOptions
  let target ← ofExcept args.getTarget
  match opts.opKind with
  | .bitCast => do
    assignValue target lhs
    let _ ← callGraph (createDerivedPointer lhs (← get).state.vc.zero)
  | .extend => assignValue target lhs
  | .truncate => do
    let trunc ← OpM.callVc (truncateInt lhs operand.type target.type)
    assignValue target trunc
  | _ => throw (.notImplemented "unimplemented cast op type")

/-- `IsCmp`; what the container does not know may be known of pointers. -/
def isCmp (lhs rhs : ValueId) (type : Ty) (flags : CmpFlags) : OpM (Option Bool) := do
  let result ← OpM.callVc (VcM.query (·.isCmp lhs rhs type flags))
  if result = none then ofExcept ((← get).state.graph.smgIsCmp lhs rhs flags) else return result

/-- The value of an answer, a new one when it is not known. -/
def cmpValue : Option Bool → OpM ValueId
  | none => OpM.callVc (createVal (.int 1))
  | some b => OpM.callVc (createConstIntVal (if b then 1 else 0))

def cmp : OpM Unit := do
  let operand ← ofExcept (args.getOperand 0)
  let lhs ← getValue ctx operand
  let rhs ← getValue ctx (← ofExcept (args.getOperand 1))
  let flags ← ofExcept args.cmpOptions
  let retVal ← cmpValue (← isCmp lhs rhs operand.type flags)
  assignValue (← ofExcept args.getTarget) retVal

def binOp : OpM Unit := do
  let opts ← ofExcept args.binaryOptions
  let operand ← ofExcept (args.getOperand 0)
  let lhs ← getValue ctx operand
  let rhs ← getValue ctx (← ofExcept (args.getOperand 1))
  let retVal ← OpM.callVc (Angie.binOp lhs rhs operand.type opts)
  assignValue (← ofExcept args.getTarget) retVal

omit [DataLayout] in
def createUnknown : OpM Unit := do
  let target ← ofExcept args.getTarget
  let retVal ← OpM.callVc (createVal target.type)
  assignValue target retVal

omit [DataLayout] in
def abort : OpM Unit := throw (.analysisError "abort or exit called")

/-- One direction of a branch. -/
def branch (br : Bool) : OpM Unit := do
  let lhs ← getValue ctx (← ofExcept (args.getOperand 0))
  OpM.callVc (branchOn lhs br)

/-- The values of the actual arguments, one for each formal one. -/
def callArgs : ℕ → List FrontendIdTypePair → OpM (List ValueId)
  | _, [] => pure []
  | i, _ :: params => do
    let value ← getValue ctx (← ofExcept (args.getOperand i))
    let rest ← callArgs (i + 1) params
    return value :: rest

/-- The formal parameters take the values of the actual arguments. -/
def assignParams : List FrontendIdTypePair → List ValueId → OpM Unit
  | param :: params, value :: values => do
    assignValue param value
    assignParams params values
  | _, _ => pure ()

/-- `GetFunction`: `funcMap.at`. -/
def getFunction (vid : ValueId) : Except Exn FunctionHandle :=
  match ctx.funcMapping[vid]? with
  | some func => .ok func
  | none => .error .outOfRange

def call : OpM Unit := do
  let func ← ofExcept (getFunction ctx (← getValue ctx (← ofExcept args.callOptions)))
  let values ← callArgs ctx args 0 func.params
  update (·.stackPush (← ofExcept args.getTarget).id)
  assignParams func.params values

def ret : OpM Unit := do
  if 2 < args.length then
    let retVal ← getValue ctx (← ofExcept (args.getOperand 0))
    update (·.stackPopValue retVal)
  else update (·.stackPop)

end Typed

end MemGraphOp

/-! ## Executing an operation -/

/-- What executing a node leaves: the successors that were enqueued, the exception that was not caught, and the
counters. -/
structure Outcome where
  enqueued : List AnalysisState
  thrown : Option Exn
  statics : Statics

namespace Outcome

/-- An exception before any successor. -/
def throws (e : Exn) (statics : Statics) : Outcome := ⟨[], some e, statics⟩

/-- `SafelyExecuteAndEnque`: an analysis error drops the successor, another exception is not caught. -/
def safely (body : OpM Unit) (successor : AnalysisState) (statics : Statics) : Outcome :=
  match body ⟨statics, successor⟩ with
  | .ok () s => ⟨[s.state], none, s.statics⟩
  | .error e s => if e.isAnalysisError then ⟨[], none, s.statics⟩ else throws e s.statics

end Outcome

/-- The implementations behind the operations. -/
inductive Implementation where
  | basic (body : OpM Unit)
  | branch
  | call
  | ret
  | notSupported

/-- `MemGraphOpFactory`. -/
def memGraphOpFactory [DataLayout] (ctx : Context) (args : OperationArgs) : Operation → Implementation
  | .ret => .ret
  | .br => .branch
  | .call => .call
  | .invoke | .memcpy | .memmove | .notSupportedInstr => .notSupported
  | .binOp => .basic (MemGraphOp.binOp ctx args)
  | .cast => .basic (MemGraphOp.cast ctx args)
  | .alloca => .basic (MemGraphOp.alloca ctx args)
  | .load => .basic (MemGraphOp.load ctx args)
  | .store => .basic (MemGraphOp.store ctx args)
  | .getElementPtr => .basic (MemGraphOp.getElementPtr ctx args)
  | .cmp => .basic (MemGraphOp.cmp ctx args)
  | .abort | .exit => .basic MemGraphOp.abort
  | .memset => .basic (MemGraphOp.memset ctx args)
  | .malloc => .basic (MemGraphOp.malloc ctx args)
  | .free => .basic (MemGraphOp.free ctx args)
  | .createUnknownVal => .basic (MemGraphOp.createUnknown args)
  -- the plot only prints
  | .noop | .terminate | .diagnosticsPlotMem => .basic (pure ())

/-- `getOpcodeName`. -/
def Llvm.Opcode.name : Opcode → String
  | ret => "ret"
  | br _ | condBr _ _ => "br"
  | switch _ => "switch"
  | indirectBr _ => "indirectbr"
  | invoke _ => "invoke"
  | resume => "resume"
  | unreachable => "unreachable"
  | cleanupRet _ => "cleanupret"
  | catchRet _ => "catchret"
  | catchSwitch _ => "catchswitch"
  | binary op _ _ _ =>
    match op with
    | .add => "add" | .fAdd => "fadd" | .sub => "sub" | .fSub => "fsub" | .mul => "mul" | .fMul => "fmul"
    | .uDiv => "udiv" | .sDiv => "sdiv" | .fDiv => "fdiv" | .uRem => "urem" | .sRem => "srem" | .fRem => "frem"
    | .shl => "shl" | .lShr => "lshr" | .aShr => "ashr" | .and => "and" | .or => "or" | .xor => "xor"
  | alloca => "alloca"
  | load => "load"
  | store => "store"
  | getElementPtr _ => "getelementptr"
  | fence => "fence"
  | atomicCmpXchg => "cmpxchg"
  | atomicRMW => "atomicrmw"
  | cast op =>
    match op with
    | .trunc => "trunc" | .zExt => "zext" | .sExt => "sext" | .fpToUI => "fptoui" | .fpToSI => "fptosi"
    | .uiToFP => "uitofp" | .siToFP => "sitofp" | .fpTrunc => "fptrunc" | .fpExt => "fpext"
    | .ptrToInt => "ptrtoint" | .intToPtr => "inttoptr" | .bitCast => "bitcast" | .addrSpaceCast => "addrspacecast"
  | cleanupPad => "cleanuppad"
  | catchPad => "catchpad"
  | iCmp _ => "icmp"
  | fCmp => "fcmp"
  | phi => "phi"
  | call _ => "call"
  | select => "select"
  | userOp => "<Invalid operator> "
  | vaArg => "va_arg"
  | extractElement => "extractelement"
  | insertElement => "insertelement"
  | shuffleVector => "shufflevector"
  | extractValue => "extractvalue"
  | insertValue => "insertvalue"
  | landingPad => "landingpad"

namespace Context

variable [DataLayout] (ctx : Context) (args : OperationArgs) (statics : Statics) (s : AnalysisState) (node : Node)

omit [DataLayout] in
/-- `GetNext`, through a pointer. -/
def nextOf (p : Option NodeId) (f : NodeId → Outcome) : Outcome :=
  match p with
  | some n => f n
  | none => .throws (.undefinedBehaviour "null node") statics

omit [DataLayout] in
/-- The assertion that a node is branching, or that it is not. -/
def assertBranching (branching : Bool) (o : Outcome) : Outcome :=
  if node.nextFalse.isSome = branching then o else .throws (.undefinedBehaviour "assertion") statics

omit [DataLayout] in
/-- `BasicOperation::Execute`. -/
def executeBasic (body : OpM Unit) : Outcome :=
  assertBranching statics node false (nextOf statics node.next fun next =>
    .safely body (s.createSuccessor next) statics)

/-- `OperationRet::Execute`. -/
def executeRet : Outcome :=
  assertBranching statics node false
    (match s.getStackRetNode with
    | .error e => .throws e statics
    | .ok next => .safely (MemGraphOp.ret ctx args) (s.createSuccessor next) statics)

omit [DataLayout] in
/-- The callee, as `OperationCall::Execute` looks it up. -/
def callee : Except Exn FunctionHandle :=
  match args.callOptions with
  | .error e => .error e
  | .ok options =>
    match s.getValue ctx options with
    | .error _ => .error (.notSupported
        "attempted to call unknown function -- either an unsupported stdlib function or missing definition")
    | .ok funcVid => MemGraphOp.getFunction ctx funcVid

/-- `OperationCall::Execute`. -/
def executeCall : Outcome :=
  assertBranching statics node false
    (match callee ctx args s with
    | .error e => .throws e statics
    | .ok func =>
      nextOf statics node.next fun next =>
        .safely (MemGraphOp.call ctx args) ((s.createSuccessor func.cfg).setStackRetNode next) statics)

/-- `OperationBranch::Execute`: the false successor, then the true one. -/
def executeBranch : Outcome :=
  assertBranching statics node true (nextOf statics node.nextFalse fun onFalse => nextOf statics node.next fun onTrue =>
    let first := Outcome.safely (MemGraphOp.branch ctx args false) (s.createSuccessor onFalse) statics
    match first.thrown with
    | some _ => first
    | none =>
      let second := Outcome.safely (MemGraphOp.branch ctx args true) (s.createSuccessor onTrue) first.statics
      ⟨first.enqueued ++ second.enqueued, second.thrown, second.statics⟩)

/-- `Execute` of a node. -/
def executeNode : Outcome :=
  match node.kind with
  | .start => .throws (.notSupported "Not supported") statics
  | .terminal => ⟨[], none, statics⟩
  | .inner op args instr _ =>
    match memGraphOpFactory ctx args op with
    | .basic body => executeBasic statics s node body
    | .branch => executeBranch ctx args statics s node
    | .call => executeCall ctx args statics s node
    | .ret => executeRet ctx args statics s node
    | .notSupported => .throws (.notSupported ("Not supported instruction: " ++ instr.opcode.name)) statics

/-- Executing a state: `Execute` of the node that it stands at. -/
def execute : Outcome :=
  match ctx.nodes[s.node]? with
  | none => .throws (.undefinedBehaviour "dangling node") statics
  | some node => executeNode ctx statics s node

end Context

end Angie
