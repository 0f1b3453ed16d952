import Angie.Lib.Trace
import Angie.Smg.Invariant

/-!
# Runs of operations on a memory graph

What each operation does, as one equation for every outcome (`readValue_region`, `writeEdge_region`, `free_region`,
`createDerivedPointer_spec`, `allocateRegion_spec` and their siblings for the other targets). Hence each operation is a
sequence of elementary changes (`exec_edits`), also when it throws, and `GraphOk` holds in every run (`run_graphOk`).
-/

namespace Angie

open Exec KeyedList Trace

/-! ## Finding the edge of a pointer -/

namespace MemState

variable (s : MemState)

/-- The edge that `FindPtEdge` returns. -/
def resolve (ptr : ValueId) : PtEdge :=
  (lookup (·.value) ptr s.graph.handles).getD (PtEdge.handle ptr (-1))

/-- The state that `FindPtEdge` leaves. -/
def touch (ptr : ValueId) : MemState :=
  if s.graph.existsPtEdge ptr then s else s.addHandle (PtEdge.handle ptr (-1))

end MemState

section Calls

variable {s : MemState}

theorem callVc_ok {α : Type} {m : VcM α} {a : α} {t : VcState} (h : m s.toVc = .ok a t) :
    callVc m s = .ok a (s.withVc t) := by
  unfold callVc zoom
  rw [h]

theorem findPtEdge_eq (ptr : ValueId) : findPtEdge ptr s = .ok (s.resolve ptr) (s.touch ptr) := by
  unfold findPtEdge MemState.resolve MemState.touch Graph.existsPtEdge
  rw [bind_of_ok (get_apply s)]
  cases lookup (·.value) ptr s.graph.handles <;> rfl

/-- A known pointer. -/
theorem resolve_of_lookup {ptr : ValueId} {e : PtEdge} (h : lookup (·.value) ptr s.graph.handles = some e) :
    s.resolve ptr = e ∧ s.touch ptr = s := by
  simp [MemState.resolve, MemState.touch, Graph.existsPtEdge, h]

/-- An unknown pointer gets a handle to the unknown object. -/
theorem resolve_of_none {ptr : ValueId} (h : lookup (·.value) ptr s.graph.handles = none) :
    s.resolve ptr = PtEdge.handle ptr (-1) ∧ s.touch ptr = s.addHandle (PtEdge.handle ptr (-1)) := by
  simp [MemState.resolve, MemState.touch, Graph.existsPtEdge, h]

theorem resolve_value (s : MemState) (ptr : ValueId) : (s.resolve ptr).value = ptr := by
  cases h : lookup (·.value) ptr s.graph.handles with
  | some e => rw [(resolve_of_lookup h).1]; exact (lookup_some h).2
  | none => rw [(resolve_of_none h).1]; rfl

theorem resolve_mem_touch (s : MemState) (ptr : ValueId) : s.resolve ptr ∈ (s.touch ptr).graph.handles := by
  cases h : lookup (·.value) ptr s.graph.handles with
  | some e =>
    rw [(resolve_of_lookup h).1, (resolve_of_lookup h).2]
    exact (lookup_some h).1
  | none =>
    rw [(resolve_of_none h).1, (resolve_of_none h).2]
    exact List.mem_append_right _ (List.mem_singleton_self _)

@[simp] theorem toVc_touch (s : MemState) (ptr : ValueId) : (s.touch ptr).toVc = s.toVc := by
  unfold MemState.touch
  split <;> rfl

@[simp] theorem statics_touch (s : MemState) (ptr : ValueId) : (s.touch ptr).statics = s.statics :=
  congrArg VcState.statics (toVc_touch s ptr)

@[simp] theorem objects_touch (s : MemState) (ptr : ValueId) : (s.touch ptr).graph.objects = s.graph.objects := by
  unfold MemState.touch
  split <;> rfl

/-- A pointer to something else than the unknown object is known. -/
theorem touch_of_target {ptr : ValueId} (h : (s.resolve ptr).targetObjectId ≠ -1) : s.touch ptr = s := by
  cases hl : lookup (·.value) ptr s.graph.handles with
  | some e => exact (resolve_of_lookup hl).2
  | none =>
    rw [(resolve_of_none hl).1] at h
    exact absurd rfl h

theorem touch_edits {ptr : ValueId} (hp : s.Given ptr) : Edits s (s.touch ptr) := by
  cases hl : lookup (·.value) ptr s.graph.handles with
  | some e => rw [(resolve_of_lookup hl).2]
  | none => rw [(resolve_of_none hl).2]; exact .single (.unknown hp hl)

/-- Every pointer resolves to an object that exists. -/
theorem resolve_exists (hs : GraphOk s) (ptr : ValueId) : s.Exists (s.resolve ptr).targetObjectId := by
  cases hl : lookup (·.value) ptr s.graph.handles with
  | some e => rw [(resolve_of_lookup hl).1]; exact (hs.handle e (lookup_some hl).1).target
  | none => rw [(resolve_of_none hl).1]; exact hs.unknown

theorem resolve_targetOffset (hs : GraphOk s) (ptr : ValueId) : s.Given (s.resolve ptr).targetOffset := by
  cases hl : lookup (·.value) ptr s.graph.handles with
  | some e => rw [(resolve_of_lookup hl).1]; exact (hs.handle e (lookup_some hl).1).targetOffset
  | none => rw [(resolve_of_none hl).1]; exact hs.given_zero

/-- The four kinds of targets. -/
theorem resolve_target_cases (hs : GraphOk s) (ptr : ValueId) :
    (s.resolve ptr).targetObjectId = 0 ∨ (s.resolve ptr).targetObjectId = -1 ∨
    (s.resolve ptr).targetObjectId = -2 ∨
    (0 < (s.resolve ptr).targetObjectId ∧ ∃ o, s.graph.objects[(s.resolve ptr).targetObjectId]? = some o) := by
  obtain ⟨o, ho⟩ := resolve_exists hs ptr
  have h := (hs.key _ o ho).1
  by_cases h0 : 0 < (s.resolve ptr).targetObjectId
  · exact Or.inr (Or.inr (Or.inr ⟨h0, o, ho⟩))
  · lia

/-! ## Reading and writing -/

/-- What an access to something else than a region throws. -/
def accessError (target : ObjectId) : Exn := if target = 0 then .nullDereference else .invalidDereference

theorem checkTarget_error {target : ObjectId} (h : target = 0 ∨ target = -1 ∨ target = -2) (s : MemState) :
    checkTarget target s = .error (accessError target) s := by
  unfold checkTarget accessError
  rcases h with rfl | rfl | rfl <;> rfl

theorem checkTarget_ok {target : ObjectId} (h : 0 < target) (s : MemState) : checkTarget target s = .ok () s := by
  unfold checkTarget
  rw [if_neg (by lia), if_neg (by lia)]
  rfl

theorem objectAt_ok {id : ObjectId} {o : Object} (h : s.graph.objects[id]? = some o) : objectAt id s = .ok o s := by
  unfold objectAt
  rw [h]

/-- The state after a new id was given out. -/
def MemState.nextValue (s : MemState) : MemState :=
  { s with statics := { s.statics with nextIdToGive := s.statics.nextIdToGive + 1 } }

theorem readValue_error {ptr : ValueId} {type : Ty} (h : (s.resolve ptr).targetObjectId = 0 ∨
    (s.resolve ptr).targetObjectId = -1 ∨ (s.resolve ptr).targetObjectId = -2) :
    readValue ptr type s = .error (accessError (s.resolve ptr).targetObjectId) (s.touch ptr) := by
  unfold readValue
  rw [bind_of_ok (findPtEdge_eq ptr), bind_of_error (checkTarget_error h _)]

/-- Reading a region: the points-to edge for a pointer, else the has-value edge, else a new unknown. -/
theorem readValue_region {ptr : ValueId} {type : Ty} {o : Object} (h0 : 0 < (s.resolve ptr).targetObjectId)
    (ho : s.graph.objects[(s.resolve ptr).targetObjectId]? = some o) :
    readValue ptr type s =
      match (if type.isPointer then o.findPtEdgeByOffset (s.resolve ptr).targetOffset else none) with
      | some e => .ok e.value (s.addHandle (e.withSource 0))
      | none =>
        match o.findHvEdgeByOffset (s.resolve ptr).targetOffset with
        | some e => .ok e.value s
        | none =>
          .ok s.statics.nextIdToGive (s.nextValue.setObject (s.resolve ptr).targetObjectId
            (o.createOrModifyHvEdge (s.resolve ptr).targetOffset s.statics.nextIdToGive type)) := by
  have htouch : s.touch ptr = s := touch_of_target (by lia)
  unfold readValue
  rw [bind_of_ok (findPtEdge_eq ptr), htouch, bind_of_ok (checkTarget_ok h0 s), bind_of_ok (objectAt_ok ho)]
  cases (if type.isPointer then o.findPtEdgeByOffset (s.resolve ptr).targetOffset else none) with
  | some e => rfl
  | none =>
    dsimp only
    cases hhv : o.findHvEdgeByOffset (s.resolve ptr).targetOffset with
    | some e => rfl
    | none =>
      have hup : o.createOrModifyHvEdge (s.resolve ptr).targetOffset s.statics.nextIdToGive type =
          o.createHvEdge ⟨(s.resolve ptr).targetOffset, s.statics.nextIdToGive, type⟩ := by
        unfold Object.createOrModifyHvEdge Object.createHvEdge
        rw [upsert_of_none hhv]
      rw [hup]
      rfl

theorem writeEdge_error {e : PtEdge} {value : ValueId} {type : Ty}
    (h : e.targetObjectId = 0 ∨ e.targetObjectId = -1 ∨ e.targetObjectId = -2) :
    writeEdge e value type s = .error (accessError e.targetObjectId) s := by
  unfold writeEdge
  rw [bind_of_error (checkTarget_error h _)]

/-- The region after a write: a known pointer becomes a points-to edge, an unknown one hides it. -/
def Object.written (o : Object) (known : Option PtEdge) (offset value : ValueId) (type : Ty) : Object :=
  if type.isPointer then
    match known with
    | some e => o.createOrModifyPtEdge offset e
    | none => (o.disablePtEdge offset).createOrModifyHvEdge offset value type
  else o.createOrModifyHvEdge offset value type

theorem writeEdge_region {e : PtEdge} {value : ValueId} {type : Ty} {o : Object} (h0 : 0 < e.targetObjectId)
    (ho : s.graph.objects[e.targetObjectId]? = some o) :
    writeEdge e value type s = .ok () (s.setObject e.targetObjectId
      (o.written (lookup (·.value) value s.graph.handles) e.targetOffset value type)) := by
  unfold writeEdge Object.written
  rw [bind_of_ok (checkTarget_ok h0 s), bind_of_ok (objectAt_ok ho)]
  split
  · rw [bind_of_ok (get_apply s)]
    cases lookup (·.value) value s.graph.handles <;> rfl
  · rfl

theorem writeValue_error {ptr value : ValueId} {type : Ty} (h : (s.resolve ptr).targetObjectId = 0 ∨
    (s.resolve ptr).targetObjectId = -1 ∨ (s.resolve ptr).targetObjectId = -2) :
    writeValue ptr value type s = .error (accessError (s.resolve ptr).targetObjectId) (s.touch ptr) := by
  unfold writeValue
  rw [bind_of_ok (findPtEdge_eq ptr), writeEdge_error h]

theorem writeValue_region {ptr value : ValueId} {type : Ty} {o : Object} (h0 : 0 < (s.resolve ptr).targetObjectId)
    (ho : s.graph.objects[(s.resolve ptr).targetObjectId]? = some o) :
    writeValue ptr value type s = .ok () (s.setObject (s.resolve ptr).targetObjectId
      (o.written (lookup (·.value) value s.graph.handles) (s.resolve ptr).targetOffset value type)) := by
  have htouch : s.touch ptr = s := touch_of_target (by lia)
  unfold writeValue
  rw [bind_of_ok (findPtEdge_eq ptr), htouch, writeEdge_region h0 ho]

/-! ## Freeing -/

theorem free_null {ptr : ValueId} (h : (s.resolve ptr).targetObjectId = 0) : free ptr s = .ok () (s.touch ptr) := by
  unfold free
  rw [bind_of_ok (findPtEdge_eq ptr)]
  simp only [h, if_true]
  rfl

theorem free_unknown {ptr : ValueId} (h : (s.resolve ptr).targetObjectId = -1) :
    free ptr s = .error .invalidFree (s.touch ptr) := by
  unfold free
  rw [bind_of_ok (findPtEdge_eq ptr)]
  simp only [h]
  rfl

theorem free_freed {ptr : ValueId} (h : (s.resolve ptr).targetObjectId = -2) :
    free ptr s = .error .doubleFree (s.touch ptr) := by
  unfold free
  rw [bind_of_ok (findPtEdge_eq ptr)]
  simp only [h]
  rfl

theorem free_region {ptr : ValueId} {o : Object} (h0 : 0 < (s.resolve ptr).targetObjectId)
    (ho : s.graph.objects[(s.resolve ptr).targetObjectId]? = some o) :
    free ptr s =
      if o.memSpace = .heap then .ok () (s.freed (s.resolve ptr).targetObjectId)
      else .error (.nonHeapFree "ADD THE REAL SPACE HERE") s := by
  have htouch : s.touch ptr = s := touch_of_target (by lia)
  unfold free
  rw [bind_of_ok (findPtEdge_eq ptr), htouch]
  rw [if_neg (by lia), if_neg (by lia), if_neg (by lia), bind_of_ok (get_apply s), ho]
  dsimp only
  by_cases hm : o.memSpace = .heap
  · rw [if_pos hm, if_neg (not_not.2 hm)]
    rfl
  · rw [if_neg hm, if_pos hm]
    rfl

/-! ## New pointers -/

/-- What `CreateDerivedPointer` computes: the offset `o` and the value `v`, in the container `t`. -/
structure Derived (s : MemState) (basePtr offset o v : ValueId) (t : VcState) : Prop where
  grows : Grows s.toVc t
  offsetFresh : Fresh s.toVc t o
  valueFresh : Fresh s.toVc t v
  offset_constants : ∀ x y : Word, s.vc.constantContainer[(s.resolve basePtr).targetOffset]? = some x →
    s.vc.constantContainer[offset]? = some y → t.vc.constantContainer[o]? = some (x + y)
  offset_unknown : s.vc.constantContainer[(s.resolve basePtr).targetOffset]? = none ∨
    s.vc.constantContainer[offset]? = none → s.statics.nextIdToGive ≤ o ∧ t.vc.constantContainer[o]? = none
  value_unknown : s.vc.constantContainer[basePtr]? = none →
    s.statics.nextIdToGive ≤ v ∧ t.vc.constantContainer[v]? = none

section Typed

variable [DataLayout]

omit [DataLayout] in
/-- An id that the counter has not reached names no constant. -/
theorem constant_next {t : VcState} (ht : ConstOk t) {v : ValueId} (hv : t.statics.nextIdToGive ≤ v) :
    t.vc.constantContainer[v]? = none := by
  cases h : t.vc.constantContainer[v]? with
  | none => rfl
  | some c =>
    have := ht.range v c h
    lia

/-- A derivation adds twice, and returns a handle to the object of the base pointer. -/
theorem createDerivedPointer_run (s : MemState) (basePtr offset : ValueId) :
    ∃ o t v u, add (s.resolve basePtr).targetOffset offset Ty.charPointer ArithFlags.default s.toVc = .ok o t ∧
      add basePtr o Ty.charPointer ArithFlags.default t = .ok v u ∧
      createDerivedPointer basePtr offset s = .ok (v, (s.resolve basePtr).derive v o)
        (((s.touch basePtr).withVc u).addHandle ((s.resolve basePtr).derive v o)) := by
  obtain ⟨o, t, h1⟩ := add_ok (s.resolve basePtr).targetOffset offset s.toVc
  obtain ⟨v, u, h2⟩ := add_ok basePtr o t
  refine ⟨o, t, v, u, h1, h2, ?_⟩
  have h1' := callVc_ok (s := s.touch basePtr) (by rw [toVc_touch]; exact h1)
  have h2' := callVc_ok (s := (s.touch basePtr).withVc t) h2
  unfold createDerivedPointer
  rw [bind_of_ok (findPtEdge_eq basePtr), bind_of_ok h1', bind_of_ok h2']
  rfl

/-- What the two additions of a derivation yield. -/
theorem derived_of_add (hs : GraphOk s) {basePtr offset o v : ValueId} {t u : VcState} (hb : s.Given basePtr)
    (h1 : add (s.resolve basePtr).targetOffset offset Ty.charPointer ArithFlags.default s.toVc = .ok o t)
    (h2 : add basePtr o Ty.charPointer ArithFlags.default t = .ok v u) : Derived s basePtr offset o v u := by
  have hy1 := yields_binOp (s.resolve basePtr).targetOffset offset Ty.charPointer ⟨.add, ArithFlags.default⟩
  have hy2 := yields_binOp basePtr o Ty.charPointer ⟨.add, ArithFlags.default⟩
  have hg1 : Grows s.toVc t := hy1.steps.ok h1
  have hg2 : Grows t u := hy2.steps.ok h2
  have hf1 : Fresh s.toVc t o := hy1.fresh hs.const h1
  have hf2 : Fresh t u v := hy2.fresh (hg1.keeps hs.const) h2
  refine ⟨hg1.trans hg2, ⟨hg2.given hf1.given, ?_⟩, ⟨hf2.given, ?_⟩, ?_, ?_, ?_⟩
  · refine hf1.new.imp_right fun h => ?_
    rw [hg2.isConstant hf1.given]; exact h
  · exact hf2.new.imp_left fun h => Int.le_trans hg1.nextId h
  · intro x y hx hy
    rw [add_constants hx hy] at h1
    exact hg2.bound (hg1.keeps hs.const) (createConstIntVal_ok h1).2
  · intro hun
    rw [add_unknown hun, createVal_apply] at h1
    cases h1
    refine ⟨Int.le_refl _, ?_⟩
    rw [hg2.constant hf1.given]
    exact constant_next hs.const (Int.le_refl _)
  · intro hun
    have hun' : t.vc.constantContainer[basePtr]? = none := (hg1.constant hb).trans hun
    rw [add_unknown (Or.inl hun'), createVal_apply] at h2
    cases h2
    exact ⟨hg1.nextId, constant_next (hg1.keeps hs.const) (Int.le_refl _)⟩

theorem createDerivedPointer_spec (hs : GraphOk s) {basePtr : ValueId} (hb : s.Given basePtr) (offset : ValueId) :
    ∃ o v t, Derived s basePtr offset o v t ∧
      createDerivedPointer basePtr offset s = .ok (v, (s.resolve basePtr).derive v o)
        (((s.touch basePtr).withVc t).addHandle ((s.resolve basePtr).derive v o)) := by
  obtain ⟨o, t, v, u, h1, h2, heq⟩ := createDerivedPointer_run s basePtr offset
  exact ⟨o, v, u, derived_of_add hs hb h1 h2, heq⟩

/-- An allocation numbers a pointer and a region, in this order, and sizes the region by a constant. -/
theorem allocateRegion_spec (hs : GraphOk s) (type : Ty) (ms : MemorySpace) :
    ∃ size t, Grows s.toVc t ∧ t.statics.nextObjectIdToGive = s.statics.nextObjectIdToGive ∧
      s.statics.nextIdToGive < t.statics.nextIdToGive ∧ t.vc.constantContainer[s.statics.nextIdToGive]? = none ∧
      t.vc.constantContainer[size]? = some (BitVec.ofNat 64 type.getSizeOf) ∧
      allocateRegion type ms s =
        .ok s.statics.nextIdToGive ((s.withVc t).newRegion s.statics.nextIdToGive size ms) := by
  have hg := grows_next s.toVc
  have hlt : s.statics.nextIdToGive < s.statics.nextIdToGive + 1 := by lia
  have hnone := constant_next hs.const (Int.le_refl s.statics.nextIdToGive)
  have hcreate : callVc (createVal (.ptr type)) s = .ok s.statics.nextIdToGive s.nextValue := rfl
  have hnext : getNextObjectId s.nextValue = .ok s.statics.nextObjectIdToGive s.nextValue.nextObject := rfl
  rcases createConstIntVal_cases (BitVec.ofNat 64 type.getSizeOf) s.nextValue.nextObject.toVc with
    ⟨size, hsize, h⟩ | ⟨hnew, h⟩ <;> change getSizeOfV type _ = _ at h
  · refine ⟨size, s.nextValue.toVc, hg, rfl, hlt, hnone, hsize, ?_⟩
    unfold allocateRegion
    rw [bind_of_ok hcreate, bind_of_ok hnext, bind_of_ok (callVc_ok h)]
    rfl
  · have hb : Grows s.nextValue.toVc (s.nextValue.toVc.bind (BitVec.ofNat 64 type.getSizeOf)) := grows_bind hnew
    refine ⟨s.statics.nextIdToGive + 1, s.nextValue.toVc.bind (BitVec.ofNat 64 type.getSizeOf), hg.trans hb, rfl,
      Int.lt_of_lt_of_le hlt hb.nextId, ?_, ?_, ?_⟩
    · exact (hb.constants _ (Or.inl hlt)).trans hnone
    · exact (bind_constant _ _ _).trans (if_pos rfl)
    · unfold allocateRegion
      rw [bind_of_ok hcreate, bind_of_ok hnext, bind_of_ok (callVc_ok h)]
      rfl

theorem memclear_abstract {ptr size : ValueId} (h : s.vc.constantContainer[size]? = none) :
    memclear ptr size s = .error (.notSupported "Memclear with abstract size is not supported") s := by
  unfold memclear
  rw [bind_of_ok (get_apply s), h]
  rfl

theorem memclear_constant {ptr size : ValueId} {n : Word} (h : s.vc.constantContainer[size]? = some n) {v : ValueId}
    {e : PtEdge} {t : MemState} (hd : createDerivedPointer ptr 0 s = .ok (v, e) t) :
    memclear ptr size s = writeEdge e t.vc.zero (.array (.int 8) n.toNat) t := by
  unfold memclear
  rw [bind_of_ok (get_apply s), h]
  dsimp only
  rw [bind_of_ok hd, bind_of_ok (get_apply t)]

end Typed

end Calls

/-! ## Operations -/

inductive GraphOp where
  | allocateRegion (type : Ty) (ms : MemorySpace)
  | createDerivedPointer (basePtr offset : ValueId)
  | readValue (ptr : ValueId) (type : Ty)
  | writeValue (ptr value : ValueId) (type : Ty)
  | free (ptr : ValueId)
  | memclear (ptr size : ValueId)
  | container (op : VcOp)

/-- The ids that the operation is called with. -/
def GraphOp.ids : GraphOp → List ValueId
  | .allocateRegion _ _ | .container _ => []
  | .createDerivedPointer a b | .writeValue a b _ | .memclear a b => [a, b]
  | .readValue a _ | .free a => [a]

/-- Operations are called with ids that were given out. -/
def GraphOp.Adm (s : MemState) (op : GraphOp) : Prop := ∀ v ∈ op.ids, s.Given v

instance (s : MemState) (op : GraphOp) : Decidable (op.Adm s) := inferInstanceAs (Decidable (∀ v ∈ op.ids, s.Given v))

section Runs

variable [DataLayout]

def GraphOp.run : GraphOp → GraphM (Option ValueId)
  | .allocateRegion t ms => some <$> Angie.allocateRegion t ms
  | .createDerivedPointer p o => (fun d => some d.1) <$> Angie.createDerivedPointer p o
  | .readValue p t => some <$> Angie.readValue p t
  | .writeValue p v t => (fun _ => none) <$> Angie.writeValue p v t
  | .free p => (fun _ => none) <$> Angie.free p
  | .memclear p n => (fun _ => none) <$> Angie.memclear p n
  | .container op => callVc op.run

/-- An operation with its answer; one that throws leaves the state as it stood. -/
def GraphOp.exec (op : GraphOp) (s : MemState) : Except Exn (Option ValueId) × MemState :=
  match op.run s with
  | .ok v t => (.ok v, t)
  | .error e t => (.error e, t)

theorem GraphOp.exec_state (op : GraphOp) (s : MemState) : (op.exec s).2 = final (op.run s) := by
  unfold GraphOp.exec
  cases op.run s <;> rfl

theorem final_container (op : VcOp) (s : MemState) :
    final (GraphOp.run (.container op) s) = s.withVc (final (op.run s.toVc)) := by
  simp only [GraphOp.run, callVc, zoom]
  cases op.run s.toVc <;> rfl

theorem GraphOp.exec_of_ok {α : Type} (op : GraphOp) {m : GraphM α} {f : α → Option ValueId} (hop : op.run = f <$> m)
    {s t : MemState} {a : α} (h : m s = .ok a t) : op.exec s = (.ok (f a), t) := by
  have hrun : op.run s = .ok (f a) t := by
    rw [hop]
    change EStateM.map f m s = _
    rw [EStateM.map, h]
  rw [GraphOp.exec, hrun]

theorem GraphOp.exec_of_error {α : Type} (op : GraphOp) {m : GraphM α} {f : α → Option ValueId}
    (hop : op.run = f <$> m) {s t : MemState} {e : Exn} (h : m s = .error e t) : op.exec s = (.error e, t) := by
  have hrun : op.run s = .error e t := by
    rw [hop]
    change EStateM.map f m s = _
    rw [EStateM.map, h]
  rw [GraphOp.exec, hrun]

/-- An operation that returned. -/
theorem GraphOp.ok_of_exec {α : Type} (op : GraphOp) {m : GraphM α} {f : α → Option ValueId} (hop : op.run = f <$> m)
    {s : MemState} {r : Option ValueId} (h : (op.exec s).1 = .ok r) : ∃ a, m s = .ok a (op.exec s).2 ∧ f a = r := by
  cases hm : m s with
  | ok a t =>
    rw [op.exec_of_ok hop hm] at h ⊢
    exact ⟨a, rfl, Except.ok.inj h⟩
  | error e t =>
    rw [op.exec_of_error hop hm] at h
    cases h

/-! ## Operations are sequences of changes -/

variable {s : MemState}

omit [DataLayout] in
theorem readValue_edits (hs : GraphOk s) {ptr : ValueId} (hp : s.Given ptr) (type : Ty) :
    Edits s (final (Angie.readValue ptr type s)) := by
  by_cases h : (s.resolve ptr).targetObjectId = 0 ∨ (s.resolve ptr).targetObjectId = -1 ∨
      (s.resolve ptr).targetObjectId = -2
  · rw [readValue_error h]; exact touch_edits hp
  · obtain ⟨h0, o, ho⟩ : 0 < (s.resolve ptr).targetObjectId ∧
        ∃ o, s.graph.objects[(s.resolve ptr).targetObjectId]? = some o := by
      have := resolve_target_cases hs ptr
      tauto
    rw [readValue_region h0 ho]
    split
    · rename_i e he
      split at he
      · exact .single (.load ho (lookup_some he).1)
      · cases he
    · split
      · exact .refl
      · have hg := grows_next s.toVc
        have hoff := hg.given (resolve_targetOffset hs ptr)
        have hnew : s.nextValue.Given s.statics.nextIdToGive := by
          have hc := hs.const.counter
          refine ⟨hc, ?_⟩
          simp only [MemState.nextValue, MemState.toVc]; lia
        exact .tail (.single (.container hg.toExtends)) (.plain h0 ho hoff hnew)

omit [DataLayout] in
/-- A write through an edge of the graph. -/
theorem writeEdge_edits (hs : GraphOk s) {e : PtEdge} (he : EdgeOk s e) {value : ValueId} (hv : s.Given value)
    (type : Ty) : Edits s (final (writeEdge e value type s)) := by
  obtain ⟨o, ho⟩ := he.target
  have hkey := (hs.key _ o ho).1
  by_cases h : e.targetObjectId = 0 ∨ e.targetObjectId = -1 ∨ e.targetObjectId = -2
  · rw [writeEdge_error h]; exact .refl
  · have h0 : 0 < e.targetObjectId := by lia
    rw [writeEdge_region h0 ho]
    unfold Object.written
    split
    · split
      · rename_i a ha
        exact .single (.pointer h0 ho he.targetOffset (lookup_some ha).1)
      · exact .single (.hide h0 ho he.targetOffset hv)
    · exact .single (.plain h0 ho he.targetOffset hv)

omit [DataLayout] in
theorem resolve_edgeOk (hs : GraphOk s) {ptr : ValueId} (hp : s.Given ptr) : EdgeOk s (s.resolve ptr) where
  value := by rw [resolve_value]; exact hp
  targetOffset := resolve_targetOffset hs ptr
  target := resolve_exists hs ptr

omit [DataLayout] in
theorem writeValue_edits (hs : GraphOk s) {ptr value : ValueId} (hp : s.Given ptr) (hv : s.Given value) (type : Ty) :
    Edits s (final (Angie.writeValue ptr value type s)) := by
  have ht := touch_edits hp
  have he : EdgeOk (s.touch ptr) (s.resolve ptr) := (Edits.ok ht hs).handle _ (resolve_mem_touch s ptr)
  have hv' : (s.touch ptr).Given value := by
    unfold MemState.Given; rw [toVc_touch]; exact hv
  unfold Angie.writeValue
  rw [bind_of_ok (findPtEdge_eq ptr)]
  exact ht.trans (writeEdge_edits (Edits.ok ht hs) he hv' type)

omit [DataLayout] in
theorem free_edits (hs : GraphOk s) {ptr : ValueId} (hp : s.Given ptr) : Edits s (final (Angie.free ptr s)) := by
  rcases resolve_target_cases hs ptr with h | h | h | ⟨h0, o, ho⟩
  · rw [free_null h]; exact touch_edits hp
  · rw [free_unknown h]; exact touch_edits hp
  · rw [free_freed h]; exact touch_edits hp
  · rw [free_region h0 ho]
    split
    · exact .single (.free h0 ⟨o, ho⟩)
    · exact .refl

omit [DataLayout] in
/-- The changes of a derivation, with the container it leaves. -/
theorem derive_edits (hs : GraphOk s) {basePtr offset o v : ValueId} {t : VcState} (hp : s.Given basePtr)
    (hd : Derived s basePtr offset o v t) :
    Edits s (((s.touch basePtr).withVc t).addHandle ((s.resolve basePtr).derive v o)) := by
  have ht := touch_edits hp
  have hs1 := Edits.ok ht hs
  have hext : Extends (s.touch basePtr).toVc t := by rw [toVc_touch]; exact hd.grows.toExtends
  refine (ht.tail (.container hext)).tail
    (.derive (resolve_mem_touch s basePtr) hd.valueFresh.given hd.offsetFresh.given ?_)
  refine hd.valueFresh.new.symm.imp_right fun hnew => hs1.unused_next ?_
  rw [statics_touch]
  exact hnew

theorem createDerivedPointer_edits (hs : GraphOk s) {basePtr offset : ValueId} (hp : s.Given basePtr) :
    Edits s (final (Angie.createDerivedPointer basePtr offset s)) := by
  obtain ⟨o, v, t, hd, heq⟩ := createDerivedPointer_spec hs hp offset
  rw [heq]
  exact derive_edits hs hp hd

theorem allocateRegion_edits (hs : GraphOk s) (type : Ty) (ms : MemorySpace) :
    Edits s (final (Angie.allocateRegion type ms s)) := by
  obtain ⟨size, t, hg, _, hlt, _, hsize, heq⟩ := allocateRegion_spec hs type ms
  rw [heq]
  have hc := hs.const.counter
  have hunused : s.Unused s.statics.nextIdToGive := hs.unused_next (Int.le_refl _)
  exact .tail (.single (.container hg.toExtends))
    (.allocate ⟨hc, hlt⟩ hunused (isConstant_iff.2 ⟨_, hsize⟩))

theorem memclear_edits (hs : GraphOk s) {ptr size : ValueId} (hp : s.Given ptr) :
    Edits s (final (Angie.memclear ptr size s)) := by
  cases hn : s.vc.constantContainer[size]? with
  | none => rw [memclear_abstract hn]; exact .refl
  | some n =>
    obtain ⟨o, v, t, hd, heq⟩ := createDerivedPointer_spec hs hp 0
    have hed := derive_edits hs hp hd
    have hs2 := Edits.ok hed hs
    rw [memclear_constant hn heq]
    refine hed.trans (writeEdge_edits hs2 (hs2.handle _ ?_) ?_ _)
    · exact List.mem_append_right _ (List.mem_singleton_self _)
    · exact hs2.const.range _ _ hs2.const.zero

/-- Every operation, also one that throws, is a sequence of elementary changes. -/
theorem exec_edits (hs : GraphOk s) {op : GraphOp} (ha : op.Adm s) : Edits s (op.exec s).2 := by
  rw [GraphOp.exec_state]
  cases op with
  | allocateRegion t ms => rw [GraphOp.run, final_map]; exact allocateRegion_edits hs t ms
  | createDerivedPointer p o =>
    rw [GraphOp.run, final_map]; exact createDerivedPointer_edits hs (ha p (by simp [GraphOp.ids]))
  | readValue p t => rw [GraphOp.run, final_map]; exact readValue_edits hs (ha p (by simp [GraphOp.ids])) t
  | writeValue p v t =>
    rw [GraphOp.run, final_map]
    exact writeValue_edits hs (ha p (by simp [GraphOp.ids])) (ha v (by simp [GraphOp.ids])) t
  | free p => rw [GraphOp.run, final_map]; exact free_edits hs (ha p (by simp [GraphOp.ids]))
  | memclear p n => rw [GraphOp.run, final_map]; exact memclear_edits hs (ha p (by simp [GraphOp.ids]))
  | container op =>
    have hext := exec_extends op s.toVc
    rw [VcOp.exec_state] at hext
    rw [final_container]
    exact .single (.container hext)

/-! ## Runs -/

abbrev GraphHistory := List (Event MemState GraphOp (Except Exn (Option ValueId)))

/-- The runs from the initial graph. -/
abbrev GraphRun := Run GraphOp.exec GraphOp.Adm (· = MemState.new)

theorem run_graphOk {es : GraphHistory} (h : GraphRun es s) : GraphOk s := by
  refine h.invariant (I := fun _ s => GraphOk s) ?_ ?_
  · rintro s rfl
    exact new_graphOk
  · intro es s op _ ha hs
    exact Edits.ok (exec_edits hs ha) hs

/-! ## The container of a graph -/

/-- An operation on the graph only grows its container. -/
def MemState.VcGrows (s t : MemState) : Prop := Grows s.toVc t.toVc

omit [DataLayout] in
instance : IsPreorder MemState MemState.VcGrows where
  refl := fun s => Grows.refl s.toVc
  trans := fun _ _ _ => Grows.trans

omit [DataLayout] in
theorem steps_callVc {α : Type} {m : VcM α} (h : Steps Grows m) : Steps MemState.VcGrows (callVc m) := by
  intro s
  have hg := h s.toVc
  unfold callVc zoom
  cases hm : m s.toVc <;> rw [hm] at hg <;> exact hg

omit [DataLayout] in
theorem steps_findPtEdge (ptr : ValueId) : Steps MemState.VcGrows (findPtEdge ptr) := by
  intro s
  rw [findPtEdge_eq]
  show Grows s.toVc (s.touch ptr).toVc
  rw [toVc_touch]
  exact Grows.refl s.toVc

omit [DataLayout] in
theorem steps_checkTarget (id : ObjectId) : Steps MemState.VcGrows (checkTarget id) :=
  steps_ite (steps_throw _) (steps_ite (steps_throw _) (steps_pure _))

omit [DataLayout] in
theorem steps_objectAt (id : ObjectId) : Steps MemState.VcGrows (objectAt id) := by
  intro s
  unfold objectAt
  cases s.graph.objects[id]? <;> exact Grows.refl s.toVc

omit [DataLayout] in
theorem steps_updateObject (id : ObjectId) (o : Object) : Steps MemState.VcGrows (updateObject id o) :=
  fun s => Grows.refl s.toVc

omit [DataLayout] in
theorem steps_createPtEdge (e : PtEdge) : Steps MemState.VcGrows (createPtEdge e) := fun s => Grows.refl s.toVc

omit [DataLayout] in
theorem steps_getNextObjectId : Steps MemState.VcGrows getNextObjectId := fun s =>
  grows_statics (s := s.toVc) (Int.le_refl _) (Nat.le_refl _) (Int.le_of_lt (Int.lt_succ _))

theorem steps_allocateRegion (type : Ty) (ms : MemorySpace) :
    Steps MemState.VcGrows (Angie.allocateRegion type ms) := by
  refine steps_bind (steps_callVc (yields_createVal _).steps) fun ptr => steps_bind steps_getNextObjectId fun oid => ?_
  refine steps_bind (steps_callVc (yields_createConstIntVal _).steps) fun size => ?_
  exact steps_bind (steps_updateObject _ _) fun _ => steps_bind (steps_createPtEdge _) fun _ => steps_pure ptr

theorem steps_createDerivedPointer (basePtr offset : ValueId) :
    Steps MemState.VcGrows (Angie.createDerivedPointer basePtr offset) := by
  refine steps_bind (steps_findPtEdge basePtr) fun base => ?_
  refine steps_bind (steps_callVc (yields_binOp _ _ _ _).steps) fun o => ?_
  refine steps_bind (steps_callVc (yields_binOp _ _ _ _).steps) fun v => ?_
  exact steps_bind (steps_createPtEdge _) fun e => steps_pure _

omit [DataLayout] in
theorem steps_readValue (ptr : ValueId) (type : Ty) : Steps MemState.VcGrows (Angie.readValue ptr type) := by
  refine steps_bind (steps_findPtEdge ptr) fun e => steps_bind (steps_checkTarget _) fun _ => ?_
  refine steps_bind (steps_objectAt _) fun o => ?_
  dsimp only
  cases (if type.isPointer then o.findPtEdgeByOffset e.targetOffset else none) with
  | some edge => exact steps_bind (steps_createPtEdge _) fun _ => steps_pure _
  | none =>
    cases o.findHvEdgeByOffset e.targetOffset with
    | some edge => exact steps_pure edge.value
    | none =>
      refine steps_bind (steps_callVc (yields_createVal _).steps) fun v => ?_
      exact steps_bind (steps_updateObject _ _) fun _ => steps_pure v

omit [DataLayout] in
theorem steps_writeEdge (e : PtEdge) (value : ValueId) (type : Ty) :
    Steps MemState.VcGrows (Angie.writeEdge e value type) := by
  refine steps_bind (steps_checkTarget _) fun _ => steps_bind (steps_objectAt _) fun o => steps_ite ?_ ?_
  · refine steps_get fun s => ?_
    cases lookup (·.value) value s.graph.handles <;> exact Grows.refl s.toVc
  · exact steps_updateObject _ _

omit [DataLayout] in
theorem steps_free (ptr : ValueId) : Steps MemState.VcGrows (Angie.free ptr) := by
  refine steps_bind (steps_findPtEdge ptr) fun e => steps_ite (steps_pure _) ?_
  refine steps_ite (steps_throw _) (steps_ite (steps_throw _) (steps_get fun s => ?_))
  cases s.graph.objects[e.targetObjectId]? with
  | none => exact Grows.refl s.toVc
  | some o =>
    dsimp only
    split <;> exact Grows.refl s.toVc

theorem steps_memclear (ptr size : ValueId) : Steps MemState.VcGrows (Angie.memclear ptr size) := by
  refine steps_get fun s => ?_
  cases s.vc.constantContainer[size]? with
  | none => exact Grows.refl s.toVc
  | some n =>
    have hsteps : Steps MemState.VcGrows (do
        let derived ← Angie.createDerivedPointer ptr 0
        Angie.writeEdge derived.2 (← get).vc.zero (.array (.int 8) n.toNat)) :=
      steps_bind (steps_createDerivedPointer ptr 0) fun d => steps_get fun t => steps_writeEdge _ _ _ t
    exact hsteps s

/-- Every operation keeps the invariant of the container. -/
theorem GraphOp.exec_vcOk (op : GraphOp) (hs : VcOk s.toVc) : VcOk (op.exec s).2.toVc := by
  rw [GraphOp.exec_state]
  cases op with
  | allocateRegion t ms => rw [GraphOp.run, final_map]; exact (steps_allocateRegion t ms s).vcOk hs
  | createDerivedPointer p o => rw [GraphOp.run, final_map]; exact (steps_createDerivedPointer p o s).vcOk hs
  | readValue p t => rw [GraphOp.run, final_map]; exact (steps_readValue p t s).vcOk hs
  | writeValue p v t =>
    rw [GraphOp.run, final_map]
    exact (steps_bind (steps_findPtEdge p) (fun e => steps_writeEdge e v t) s).vcOk hs
  | free p => rw [GraphOp.run, final_map]; exact (steps_free p s).vcOk hs
  | memclear p n => rw [GraphOp.run, final_map]; exact (steps_memclear p n s).vcOk hs
  | container op =>
    have hop := Angie.exec_vcOk op hs
    rw [VcOp.exec_state] at hop
    rw [final_container]
    exact hop

theorem run_vcOk {es : GraphHistory} (h : GraphRun es s) : VcOk s.toVc := by
  refine h.invariant (I := fun _ s => VcOk s.toVc) ?_ fun _ _ op _ _ hs => op.exec_vcOk hs
  rintro s rfl
  exact ⟨new_storeOk {}, new_constOk (Int.le_refl 0)⟩

end Runs

end Angie
