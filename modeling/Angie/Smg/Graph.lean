import Angie.Lib.KeyedList
import Angie.Values.Calls

/-!
# The memory graph

`Smg/Edge.hpp`, `Smg/Object.hpp` and `Smg/Graph.hpp`: objects with has-value edges and points-to edges, each edge
at an offset that is a value id, and the `handles`, the points-to edges of the pointers that are held outside of the
memory. The operations are in `GraphM`, whose state joins the graph with the container that it is called with.

Edges are found by the first match (`KeyedList.lookup`); vectors are lists with the new edge at the end.
-/

namespace Angie

open Exec KeyedList

/-! ## Data -/

structure HvEdge where
  sourceOffset : ValueId
  value : ValueId
  valueType : Ty
  deriving DecidableEq, Repr

/-- A points-to edge is a has-value edge with a target. -/
structure PtEdge extends HvEdge where
  targetObjectId : ObjectId
  targetOffset : ValueId
  deriving DecidableEq, Repr

structure DlsOffsets where
  hfo : ValueId
  nfo : ValueId
  pfo : ValueId
  deriving DecidableEq, Repr

/-- The classes derived from `Object`. -/
inductive ObjectKind where
  | region
  | dls (minLength : ℕ) (offsets : DlsOffsets)
  deriving DecidableEq, Repr

structure Object where
  id : ObjectId
  kind : ObjectKind
  hvEdges : List HvEdge
  ptEdges : List PtEdge
  size : ValueId
  memSpace : MemorySpace

/-- `handles` is a region of which only the points-to edges are used. -/
structure Graph where
  handles : List PtEdge
  objects : Std.TreeMap ObjectId Object

/-- A graph with the container and the counters its operations use. -/
structure MemState where
  statics : Statics
  vc : ValueContainer
  graph : Graph

abbrev GraphM := EStateM Exn MemState

namespace PtEdge

/-- The constructor from an existing edge with a different source. -/
def withSource (offset : ValueId) (baseEdge : PtEdge) : PtEdge := { baseEdge with sourceOffset := offset }

/-- The constructor from an existing edge with the same source and another field of the same target. -/
def derive (baseEdge : PtEdge) (value : ValueId) (targetOffset : ValueId) : PtEdge :=
  { sourceOffset := baseEdge.sourceOffset
    value := value
    valueType := Ty.charPointer
    targetObjectId := baseEdge.targetObjectId
    targetOffset := targetOffset }

/-- `Modify` by another edge: everything but the source is copied. -/
def modify (edge baseEdge : PtEdge) : PtEdge := { baseEdge with sourceOffset := edge.sourceOffset }

/-- Freeing the object `id` turns the edge to the freed object. -/
def retarget (id : ObjectId) (edge : PtEdge) : PtEdge :=
  if edge.targetObjectId = id then { edge with targetObjectId := -2 } else edge

/-- An edge of `handles` to the start of an object. -/
def handle (ptr : ValueId) (target : ObjectId) : PtEdge :=
  { sourceOffset := 0, value := ptr, valueType := Ty.charPointer, targetObjectId := target, targetOffset := 0 }

end PtEdge

namespace Object

/-- `Region::Create`. -/
def region (id : ObjectId) : Object :=
  { id := id, kind := .region, hvEdges := [], ptEdges := [], size := 0, memSpace := .heap }

variable (o : Object)

def findHvEdgeByOffset (offset : ValueId) : Option HvEdge := lookup (·.sourceOffset) offset o.hvEdges

def findPtEdgeByOffset (offset : ValueId) : Option PtEdge := lookup (·.sourceOffset) offset o.ptEdges

def createHvEdge (edge : HvEdge) : Object := { o with hvEdges := o.hvEdges ++ [edge] }

def createOrModifyHvEdge (offset value : ValueId) (type : Ty) : Object :=
  { o with
    hvEdges := upsert (·.sourceOffset) offset (fun e => { e with value := value, valueType := type })
      ⟨offset, value, type⟩ o.hvEdges }

def createOrModifyPtEdge (offset : ValueId) (edge : PtEdge) : Object :=
  { o with ptEdges := upsert (·.sourceOffset) offset (·.modify edge) (edge.withSource offset) o.ptEdges }

/-- The first points-to edge at the offset is hidden behind the reserved one. -/
def disablePtEdge (offset : ValueId) : Object :=
  { o with ptEdges := modifyFirst (·.sourceOffset) offset (·.withSource (-1)) o.ptEdges }

def retargetEdges (id : ObjectId) : Object := { o with ptEdges := o.ptEdges.map (·.retarget id) }

end Object

/-- The constructor: the null, unknown and freed objects, and the handle of the null pointer. -/
def Graph.new : Graph :=
  { handles := [PtEdge.handle 0 0]
    objects :=
      (((∅ : Std.TreeMap ObjectId Object).insert 0 (Object.region 0)).insert (-1) (Object.region (-1))).insert (-2)
        (Object.region (-2)) }

/-- The state in which the analysis starts: the container is the first to draw an id. -/
def MemState.new : MemState :=
  let s := VcState.new {}
  ⟨s.statics, s.vc, Graph.new⟩

/-! ## Access to the state -/

namespace MemState

def toVc (s : MemState) : VcState := ⟨s.statics, s.vc⟩

def withVc (t : VcState) (s : MemState) : MemState := { s with statics := t.statics, vc := t.vc }

def addHandle (s : MemState) (edge : PtEdge) : MemState :=
  { s with graph := { s.graph with handles := s.graph.handles ++ [edge] } }

def setObject (s : MemState) (id : ObjectId) (o : Object) : MemState :=
  { s with graph := { s.graph with objects := s.graph.objects.insert id o } }

end MemState

/-- A call of the container. -/
def callVc {α : Type} (m : VcM α) : GraphM α := zoom MemState.toVc MemState.withVc m

/-- `ObjectId::GetNextId`. -/
def getNextObjectId : GraphM ObjectId := fun s =>
  .ok s.statics.nextObjectIdToGive
    { s with statics := { s.statics with nextObjectIdToGive := s.statics.nextObjectIdToGive + 1 } }

def createPtEdge (edge : PtEdge) : GraphM PtEdge := fun s => .ok edge (s.addHandle edge)

/-- `objects.at`. -/
def objectAt (id : ObjectId) : GraphM Object := fun s =>
  match s.graph.objects[id]? with
  | some o => .ok o s
  | none => .error .outOfRange s

/-- Change an object through the reference that `objects.at` returned. -/
def updateObject (id : ObjectId) (o : Object) : GraphM Unit := fun s => .ok () (s.setObject id o)

/-! ## Operations -/

def createUnknownPtEdge (ptr : ValueId) : GraphM PtEdge := createPtEdge (PtEdge.handle ptr (-1))

def Graph.existsPtEdge (g : Graph) (ptr : ValueId) : Bool := (lookup (·.value) ptr g.handles).isSome

/-- `FindPtEdge`: the first handle of the pointer, created when there is none. -/
def findPtEdge (ptr : ValueId) : GraphM PtEdge := do
  match lookup (·.value) ptr (← get).graph.handles with
  | some edge => return edge
  | none => createUnknownPtEdge ptr

/-- The check at the start of an access. -/
def checkTarget (objectId : ObjectId) : GraphM Unit :=
  if objectId = 0 then throw .nullDereference
  else if objectId = -1 ∨ objectId = -2 then throw .invalidDereference
  else pure ()

section Typed

variable [DataLayout]

/-- `CreateDerivedPointer`: the value of the new pointer with its edge. -/
def createDerivedPointer (basePtr offset : ValueId) : GraphM (ValueId × PtEdge) := do
  let baseEdge ← findPtEdge basePtr
  let derivedOffset ← callVc (add baseEdge.targetOffset offset Ty.charPointer ArithFlags.default)
  let derivedValue ← callVc (add basePtr derivedOffset Ty.charPointer ArithFlags.default)
  let edge ← createPtEdge (baseEdge.derive derivedValue derivedOffset)
  return (derivedValue, edge)

def allocateRegion (type : Ty) (ms : MemorySpace) : GraphM ValueId := do
  let ptr ← callVc (createVal (.ptr type))
  let oid ← getNextObjectId
  let size ← callVc (getSizeOfV type)
  updateObject oid { Object.region oid with size := size, memSpace := ms }
  let _ ← createPtEdge (PtEdge.handle ptr oid)
  return ptr

omit [DataLayout]

/-- `ReadValue`. The type of the pointer is not looked at. -/
def readValue (ptr : ValueId) (tarType : Ty) : GraphM ValueId := do
  let ptrEdge ← findPtEdge ptr
  let objectId := ptrEdge.targetObjectId
  checkTarget objectId
  let object ← objectAt objectId
  let offset := ptrEdge.targetOffset
  match (if tarType.isPointer then object.findPtEdgeByOffset offset else none) with
  | some edge =>
    let _ ← createPtEdge (edge.withSource 0)
    return edge.value
  | none =>
    match object.findHvEdgeByOffset offset with
    | some edge => return edge.value
    | none =>
      let unknown ← callVc (createVal tarType)
      updateObject objectId (object.createHvEdge ⟨offset, unknown, tarType⟩)
      return unknown

/-- `WriteValue(const PtEdge&)`. -/
def writeEdge (ptrEdge : PtEdge) (value : ValueId) (type : Ty) : GraphM Unit := do
  let objectId := ptrEdge.targetObjectId
  checkTarget objectId
  let object ← objectAt objectId
  let offset := ptrEdge.targetOffset
  if type.isPointer then
    match lookup (·.value) value (← get).graph.handles with
    | some assignedPtr => updateObject objectId (object.createOrModifyPtEdge offset assignedPtr)
    | none =>
      -- an unknown pointer is stored as a plain value
      updateObject objectId ((object.disablePtEdge offset).createOrModifyHvEdge offset value type)
  else updateObject objectId (object.createOrModifyHvEdge offset value type)

/-- `WriteValue(ValueId)`. -/
def writeValue (ptr value : ValueId) (type : Ty) : GraphM Unit := do
  writeEdge (← findPtEdge ptr) value type

/-- `Free`, which does nothing for the null object. -/
def free (ptr : ValueId) : GraphM Unit := do
  let ptrEdge ← findPtEdge ptr
  let objectId := ptrEdge.targetObjectId
  if objectId = 0 then pure ()
  else if objectId = -1 then throw .invalidFree
  else if objectId = -2 then throw .doubleFree
  else
    match (← get).graph.objects[objectId]? with
    | none => throw (.undefinedBehaviour "null object")
    | some object =>
      if object.memSpace ≠ .heap then throw (.nonHeapFree "ADD THE REAL SPACE HERE")
      else
        modify fun s =>
          { s with
            graph :=
              { handles := s.graph.handles.map (·.retarget objectId)
                objects := (s.graph.objects.map fun _ o => o.retargetEdges objectId).erase objectId } }

/-- `MemoryGraphAnalysisState::Memclear`: the bytes are written as one array of zeros. -/
def memclear (ptr size : ValueId) : GraphM Unit := do
  match (← get).vc.constantContainer[size]? with
  | none => throw (.notSupported "Memclear with abstract size is not supported")
  | some n =>
    let derived ← createDerivedPointer ptr 0
    writeEdge derived.2 (← get).vc.zero (.array (.int 8) n.toNat)

/-- `MemoryGraphAnalysisState::SmgIsCmp`. -/
def Graph.smgIsCmp (g : Graph) (first second : ValueId) (flags : CmpFlags) : Except Exn Tribool :=
  if ¬ (g.existsPtEdge first ∧ g.existsPtEdge second) then .ok none
  else
    match flags with
    | .eq => .ok (some (first == second))
    | .neq => .ok (some (first != second))
    | _ => .error (.logicError "not supported")

end Typed

end Angie
