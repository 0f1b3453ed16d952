import Angie.Frontend.Node
import Angie.Values.Container

/-!
# The parser of modules

`LlvmCfgParser` with the mappings of `FrontedValueMapper.hpp`: every basic block becomes a chain of nodes behind a
start node of its own, `copyMapping` keeps the first node of every block parsed, and a branch to a block that is not
parsed yet is planned in the queue `parseAndLinkTogether`. `parseModule` parses the entry block of every function,
puts `__entry` in front of `main` and works off the queue, `queueLoop n` at most `n` entries of it. The constants that
the operands mention are collected; binding them to values is not modelled here.
-/

namespace Angie

open Exec Llvm

/-! ## Mappings -/

/-- `Mapper`. -/
abbrev Mapper := Std.TreeMap FrontendId ValueId

/-- The formal parameters are arguments of a function, which are distinct. -/
structure FunctionHandle where
  cfg : NodeId
  params : List FrontendIdTypePair
  params_nodup : (params.map (·.id)).Nodup

/-- `FuncMapper`. -/
abbrev FuncMapper := Std.TreeMap ValueId FunctionHandle

/-! ## The parser -/

/-- A block to be parsed, with the node to be linked to it and the index of the successor. -/
structure Link where
  block : BlockId
  node : NodeId
  targetIndex : ℕ
  deriving DecidableEq, Repr

structure ParserState where
  nodes : Cfg
  statics : Statics
  vc : ValueContainer
  mapper : Mapper
  fmap : FuncMapper
  copyMapping : Std.TreeMap BlockId NodeId
  parseAndLinkTogether : List Link
  constantValuesToBeCreated : List Llvm.Value
  entryPointCfg : Option NodeId
  mainCfg : Option NodeId

abbrev ParserM := EStateM Exn ParserState

/-- A new parser with empty mappings, over a container. -/
def ParserState.new (s : VcState) : ParserState :=
  { nodes := []
    statics := s.statics
    vc := s.vc
    mapper := ∅
    fmap := ∅
    copyMapping := ∅
    parseAndLinkTogether := []
    constantValuesToBeCreated := []
    entryPointCfg := none
    mainCfg := none }

namespace ParserM

/-- An operation on nodes. -/
def callCfg {α : Type} (m : CfgM α) : ParserM α := zoom ParserState.nodes (fun t s => { s with nodes := t }) m

/-- A call of the container. -/
def callVc {α : Type} (m : VcM α) : ParserM α :=
  zoom (fun s => ⟨s.statics, s.vc⟩) (fun t s => { s with statics := t.statics, vc := t.vc }) m

end ParserM

open ParserM

/-! ## Blocks -/

/-- `GetOperArgsForInstr`, which keeps the constants among the operands. -/
def getOperArgsForInstr (instr : Instruction) : ParserM OperationArgs := do
  let args ← ofExcept (operArgsFor instr)
  modify fun s =>
    { s with constantValuesToBeCreated := s.constantValuesToBeCreated ++ instr.operands.filter (·.isConstant) }
  return args

/-- `LinkWithOrPlanProcessing`. -/
def linkWithOrPlanProcessing (currentNode : NodeId) (nextBlock : BlockId) (targetIndex : ℕ) : ParserM Unit := do
  match (← get).copyMapping[nextBlock]? with
  | some nextBlockNode => callCfg (linkTogether currentNode nextBlockNode targetIndex)
  | none =>
    modify fun s =>
      { s with parseAndLinkTogether := s.parseAndLinkTogether ++ [⟨nextBlock, currentNode, targetIndex⟩] }

/-- The loop over the instructions before the terminator. -/
def parseBody : List Instruction → NodeId → ParserM NodeId
  | [], currentNode => pure currentNode
  | instr :: rest, currentNode => do
    let op ← ofExcept (getOperationFor instr)
    let args ← getOperArgsForInstr instr
    let currentNode ← callCfg (insertNewAfter currentNode op args instr instr.hasBreakpoint)
    parseBody rest currentNode

/-- The last instruction. A terminator other than `br` and `ret` leaves no node behind. -/
def parseTerminator (instr : Instruction) (currentNode : NodeId) : ParserM Unit := do
  let op ← ofExcept (getOperationFor instr)
  let args ← getOperArgsForInstr instr
  match instr.opcode with
  | .br target => do
    let currentNode ← callCfg (insertNewAfter currentNode .noop args instr instr.hasBreakpoint)
    linkWithOrPlanProcessing currentNode target 0
  | .condBr ifTrue ifFalse => do
    let currentNode ← callCfg (insertNewBranchAfter currentNode op args instr instr.hasBreakpoint)
    linkWithOrPlanProcessing currentNode ifTrue 0
    linkWithOrPlanProcessing currentNode ifFalse 1
  | .ret => do
    let _ ← callCfg (insertNewAfter currentNode op args instr instr.hasBreakpoint)
  | _ => pure ()

/-- `GetNext`. -/
def getNext (n : NodeId) : CfgM NodeId := do deref (← nodeAt n).next

/-- A block that is not in `copyMapping`. -/
def parseNewBlock (block : BasicBlock) : ParserM NodeId := do
  let zeroNode ← callCfg createEmpty
  let currentNode ← parseBody block.body zeroNode
  parseTerminator block.terminator currentNode
  let firstNode ← callCfg (getNext zeroNode)
  modify fun s => { s with copyMapping := s.copyMapping.insert block.id firstNode }
  return firstNode

variable (m : Module)

def parseBasicBlock (entryBlock : BlockId) : ParserM NodeId := do
  match (← get).copyMapping[entryBlock]? with
  | some node => return node
  | none =>
    match m.block? entryBlock with
    | some block => parseNewBlock block
    | none => throw (.undefinedBehaviour "dangling block")

/-! ## Functions -/

def parseFunction (func : Function) : ParserM NodeId :=
  match func.blocks.head? with
  | some entryBlock => parseBasicBlock m entryBlock.id
  | none => throw (.undefinedBehaviour "no entry block")

/-- `Mapper::CreateOrGetValueId`. -/
def createOrGetValueId (arg : FrontendIdTypePair) : ParserM ValueId := do
  match (← get).mapper[arg.id]? with
  | some value => return value
  | none =>
    let newValue ← callVc (createVal arg.type)
    modify fun s => { s with mapper := s.mapper.insert arg.id newValue }
    return newValue

/-- The handle that is registered for a function. -/
def Llvm.Function.handle (func : Function) (cfg : NodeId) : FunctionHandle where
  cfg := cfg
  params := func.args.map fun p => ⟨p.id, p.type⟩
  params_nodup := by
    rw [List.map_map]
    exact func.args_nodup

/-- The loop over the functions. -/
def parseFunctions : List Function → ParserM Unit
  | [] => pure ()
  | func :: rest => do
    if func.isDeclaration then parseFunctions rest
    else
      let cfg ← parseFunction m func
      let vid ← createOrGetValueId ⟨func.id, .ptr .func⟩
      modify fun s => { s with fmap := s.fmap.insertIfNew vid (func.handle cfg) }
      parseFunctions rest

/-! ## The entry -/

/-- `void __entry(int32, int8**)`, which calls `main` and then `__ANGIE_fin`. -/
structure EntryFunction where
  argc : FrontendId
  argv : FrontendId
  mainCall : Instruction
  finCall : Instruction

def EntryFunction.args (e : EntryFunction) : List FrontendIdTypePair :=
  [⟨e.argc, .int 32⟩, ⟨e.argv, .ptr (.ptr (.int 8))⟩]

/-- One argument of `__entry` for every parameter of `main`. -/
def mainArgs : List Param → List FrontendIdTypePair → ParserM OperationArgs
  | [], _ => pure []
  | _ :: _, [] => throw (.undefinedBehaviour "argument past the end")
  | _ :: params, arg :: args => do
    let _ ← createOrGetValueId arg
    let rest ← mainArgs params args
    return .idTypePair arg :: rest

/-- The handle of `main`; a null pointer and a declaration are not mapped. -/
def findMain : ParserM (Function × FunctionHandle) := do
  match m.getFunction "main" with
  | none => throw .outOfRange
  | some mainFunc =>
    match (← get).mapper[mainFunc.id]? with
    | none => throw .outOfRange
    | some vid =>
      match (← get).fmap[vid]? with
      | none => throw .outOfRange
      | some handle => return (mainFunc, handle)

/-- The call of `main` and the termination behind it. -/
def prependEntry (e : EntryFunction) (mainFunc : Function) : ParserM Unit := do
  let args ← mainArgs mainFunc.args e.args
  let start ← callCfg createEmpty
  let call ← callCfg
    (insertNewAfter start .call (OperArg.empty :: .idTypePair ⟨mainFunc.id, .ptr .func⟩ :: args) e.mainCall false)
  modify fun s => { s with entryPointCfg := some call }
  let _ ← callCfg (insertNewAfter call .terminate [OperArg.empty] e.finCall false)

/-! ## Modules -/

/-- What precedes the loop over the queue. -/
def parsePrologue (e : EntryFunction) : ParserM Unit := do
  if m.functions.isEmpty then
    throw (.runtimeError "The input LLVM IR module contains zero functions -- compilation probably failed")
  else
    parseFunctions m m.functions
    let (mainFunc, handle) ← findMain m
    modify fun s => { s with mainCfg := some handle.cfg }
    prependEntry e mainFunc

/-- At most `n` rounds of the loop over the queue. -/
def queueLoop : ℕ → ParserM Unit
  | 0 => pure ()
  | n + 1 => do
    match (← get).parseAndLinkTogether with
    | [] => pure ()
    | link :: rest => do
      modify fun s => { s with parseAndLinkTogether := rest }
      let blockStartNode ← parseBasicBlock m link.block
      callCfg (linkTogether link.node blockStartNode link.targetIndex)
      queueLoop n

/-- `ParseModule`, with a bound on the rounds. -/
def parseModule (e : EntryFunction) (n : ℕ) : ParserM Unit := do
  parsePrologue m e
  queueLoop m n

end Angie
