import Angie.Frontend.Parser
import Angie.Smg.Graph

/-!
# States of the memory-graph analysis

`State` of `IState.hpp` with `MemoryGraphAnalysisState`: a node, a container, a graph, the values of the local frontend
ids, and the call stack with its top first. The graph of nodes, the global mapping and the functions are shared by all
states (`Context`). An operation runs in `OpM` on the successor that it was given, with the static counters.
-/

namespace Angie

open Exec

/-- An element of `stack`: the mapping of the caller, the target of the call and the node behind it. -/
structure Frame where
  mapping : Mapper
  retFrontendId : FrontendId
  node : NodeId

structure AnalysisState where
  node : NodeId
  vc : ValueContainer
  graph : Graph
  localMapping : Mapper
  stack : List Frame
  /-- Uninitialised but in a successor that `SetStackRetNode` was called on. -/
  stackRetNode : Option NodeId

/-- What the states share. -/
structure Context where
  nodes : Cfg
  globalMapping : Mapper
  funcMapping : FuncMapper

/-- A state with the static counters. -/
structure OpState where
  statics : Statics
  state : AnalysisState

abbrev OpM := EStateM Exn OpState

namespace AnalysisState

/-- The constructor: the state in which the analysis starts at a node. -/
def new (node : NodeId) (vc : ValueContainer) : AnalysisState :=
  { node := node, vc := vc, graph := Graph.new, localMapping := ∅, stack := [], stackRetNode := none }

variable (s : AnalysisState)

/-- The copy constructor, for a state at another node. -/
def createSuccessor (nextStep : NodeId) : AnalysisState := { s with node := nextStep, stackRetNode := none }

def setStackRetNode (node : NodeId) : AnalysisState := { s with stackRetNode := some node }

/-- `GetStackRetNode`: `stack.back()`. -/
def getStackRetNode : Except Exn NodeId :=
  match s.stack with
  | frame :: _ => .ok frame.node
  | [] => .error (.undefinedBehaviour "back of an empty stack")

/-- `GetValue`: a global value hides a local one. -/
def getValue (ctx : Context) (var : FrontendIdTypePair) : Except Exn ValueId :=
  match ctx.globalMapping[var.id]? with
  | some value => .ok value
  | none =>
    match s.localMapping[var.id]? with
    | some value => .ok value
    | none => .error .outOfRange

/-- `AssignValue`. -/
def assignValue (var : FrontendIdTypePair) (value : ValueId) : AnalysisState :=
  { s with localMapping := s.localMapping.insert var.id value }

/-- `StackPush`. -/
def stackPush (retFrontendId : FrontendId) : Except Exn AnalysisState :=
  match s.stackRetNode with
  | some node => .ok { s with stack := ⟨s.localMapping, retFrontendId, node⟩ :: s.stack, localMapping := ∅ }
  | none => .error (.undefinedBehaviour "uninitialised stackRetNode")

/-- `StackPop()`. -/
def stackPop : Except Exn AnalysisState :=
  match s.stack with
  | frame :: stack => .ok { s with stack := stack, localMapping := frame.mapping }
  | [] => .error (.undefinedBehaviour "back of an empty stack")

/-- `StackPop(ValueId)`. -/
def stackPopValue (retValId : ValueId) : Except Exn AnalysisState :=
  match s.stack with
  | frame :: stack =>
    .ok { s with stack := stack, localMapping := frame.mapping.insert frame.retFrontendId retValId }
  | [] => .error (.undefinedBehaviour "back of an empty stack")

end AnalysisState

/-! ## Access to the new state -/

namespace OpM

/-- A call of the container of the new state. -/
def callVc {α : Type} (m : VcM α) : OpM α :=
  zoom (fun s => ⟨s.statics, s.state.vc⟩) (fun t s => ⟨t.statics, { s.state with vc := t.vc }⟩) m

/-- An operation on the graph of the new state. -/
def callGraph {α : Type} (m : GraphM α) : OpM α :=
  zoom (fun s => ⟨s.statics, s.state.vc, s.state.graph⟩)
    (fun t s => ⟨t.statics, { s.state with vc := t.vc, graph := t.graph }⟩) m

def getValue (ctx : Context) (var : FrontendIdTypePair) : OpM ValueId := do
  ofExcept ((← get).state.getValue ctx var)

def assignValue (var : FrontendIdTypePair) (value : ValueId) : OpM Unit :=
  modify fun s => { s with state := s.state.assignValue var value }

/-- Replace the new state by what a method makes of it. -/
def update (f : AnalysisState → Except Exn AnalysisState) : OpM Unit := do
  let state ← ofExcept (f (← get).state)
  modify fun s => { s with state := state }

end OpM

end Angie
