import Angie.Lib.TwoView
import Angie.Smg.Calls

/-!
# The graph as a memory with two views

The regions of a graph form a memory with two views: the has-value edges are the plain one, the points-to edges the one
for pointers. Handles, derivations, hidden edges and the retargeting of edges are invisible in it.

- `GraphOp.effect`: what an operation does to this memory, told from the state before it;
- `exec_memory`: the graph follows: after the operation its memory is the effect applied to the memory before;
- `readValue_of_memory`: a read returns what the memory holds in the cell.
-/

namespace Angie

open Exec KeyedList TwoView

/-! ## The memory of a graph -/

/-- Hidden edges are in no view. -/
def Object.slots (o : Object) : Slots ValueId ValueId where
  plain k := (o.findHvEdgeByOffset k).map (·.value)
  pointer k := if k = -1 then none else (o.findPtEdgeByOffset k).map (·.value)

/-- The regions; the null, unknown and freed objects have no contents. -/
def MemState.memory (s : MemState) : Memory ObjectId ValueId ValueId := fun id =>
  if 0 < id then s.graph.objects[id]?.map Object.slots else none

section Slots

variable {o : Object} {k : ValueId}

theorem slots_plain (o : Object) (k value : ValueId) (type : Ty) :
    (o.createOrModifyHvEdge k value type).slots = o.slots.setPlain k value := by
  ext1
  · funext k'
    simp only [Object.slots, Object.findHvEdgeByOffset, Object.createOrModifyHvEdge, Slots.setPlain]
    by_cases hk : k = k'
    · subst hk
      rw [lookup_upsert_self, Function.update_self]
      · cases lookup (·.sourceOffset) k o.hvEdges <;> rfl
      · exact fun _ he => he
      · rfl
    · rw [lookup_upsert_ne hk, Function.update_of_ne (Ne.symm hk)]
      · exact fun _ he => he
      · rfl
  · rfl

theorem slots_pointer (o : Object) (hk : k ≠ -1) (e : PtEdge) :
    (o.createOrModifyPtEdge k e).slots = o.slots.setPointer k e.value := by
  ext1
  · rfl
  · funext k'
    simp only [Object.slots, Object.findPtEdgeByOffset, Object.createOrModifyPtEdge, Slots.setPointer]
    by_cases hkk : k = k'
    · subst hkk
      rw [lookup_upsert_self, Function.update_self, if_neg hk]
      · cases lookup (·.sourceOffset) k o.ptEdges <;> rfl
      · exact fun _ he => he
      · rfl
    · rw [lookup_upsert_ne hkk, Function.update_of_ne (Ne.symm hkk)]
      · exact fun _ he => he
      · rfl

theorem slots_hide (hk : k ≠ -1) (ho : KeysNodup (·.sourceOffset) (-1) o.ptEdges) :
    (o.disablePtEdge k).slots = o.slots.hide k := by
  ext1
  · rfl
  · funext k'
    simp only [Object.slots, Object.findPtEdgeByOffset, Object.disablePtEdge, Slots.hide]
    by_cases hkk : k = k'
    · subst hkk
      rw [lookup_modifyFirst_hide hk _ ho, Function.update_self, if_neg hk]
      · rfl
      · exact fun _ _ => rfl
    · rw [Function.update_of_ne (Ne.symm hkk)]
      by_cases h1 : k' = -1
      · rw [if_pos h1, if_pos h1]
      · rw [lookup_modifyFirst_ne hkk]
        exact fun _ _ => Ne.symm h1

/-- Retargeted edges keep their values. -/
theorem slots_retarget (o : Object) (id : ObjectId) : (o.retargetEdges id).slots = o.slots := by
  ext1
  · rfl
  · funext k'
    simp only [Object.slots, Object.findPtEdgeByOffset, Object.retargetEdges]
    rw [lookup_map fun e => e.retarget_sourceOffset id, Option.map_map]
    congr 2
    funext e
    exact e.retarget_value id

end Slots

section Memory

variable {s : MemState} {id : ObjectId}

theorem memory_region (h0 : 0 < id) {o : Object} (ho : s.graph.objects[id]? = some o) :
    s.memory id = some o.slots := by
  rw [MemState.memory, if_pos h0, ho]
  rfl

theorem memory_some {l : Slots ValueId ValueId} (h : s.memory id = some l) :
    0 < id ∧ ∃ o, s.graph.objects[id]? = some o ∧ o.slots = l := by
  unfold MemState.memory at h
  split at h
  · exact ⟨‹_›, Option.map_eq_some_iff.1 h⟩
  · cases h

/-- The offsets and the values in memory were given out. -/
theorem slot_given (hs : GraphOk s) {l : Slots ValueId ValueId} (hl : s.memory id = some l) {k v : ValueId}
    (h : l.plain k = some v ∨ l.pointer k = some v) : s.Given k ∧ s.Given v := by
  obtain ⟨-, o, ho, rfl⟩ := memory_some hl
  have hok := hs.object id o ho
  rcases h with h | h
  · obtain ⟨e, he, rfl⟩ := Option.map_eq_some_iff.1 h
    obtain ⟨hmem, hkey⟩ := lookup_some he
    exact ⟨hkey ▸ hok.hvOffset e hmem, hok.hvValue e hmem⟩
  · simp only [Object.slots] at h
    split at h
    · cases h
    · rename_i hk
      obtain ⟨e, he, rfl⟩ := Option.map_eq_some_iff.1 h
      obtain ⟨hmem, hkey⟩ := lookup_some he
      have hkey' : e.sourceOffset = k := hkey
      refine ⟨?_, (hok.ptEdge e hmem).value⟩
      rcases hok.ptOffset e hmem with hg | hhid
      · exact hkey' ▸ hg
      · exact absurd (hkey'.symm.trans hhid) hk

/-- The memory depends on the objects only. -/
theorem memory_congr {t : MemState} (h : t.graph.objects = s.graph.objects) : t.memory = s.memory := by
  funext id
  simp only [MemState.memory, h]

theorem memory_setObject (h0 : 0 < id) (s : MemState) (o : Object) :
    (s.setObject id o).memory = Function.update s.memory id (some o.slots) := by
  funext id'
  by_cases hid : id = id'
  · subst hid
    rw [Function.update_self]
    exact memory_region h0 (by simp)
  · rw [Function.update_of_ne (Ne.symm hid)]
    simp only [MemState.memory, MemState.objects_setObject, if_neg hid]

theorem memory_freed (s : MemState) (id : ObjectId) : (s.freed id).memory = Function.update s.memory id none := by
  funext id'
  by_cases hid : id = id'
  · subst hid
    simp [MemState.memory]
  · rw [Function.update_of_ne (Ne.symm hid)]
    simp only [MemState.memory, MemState.objects_freed, if_neg hid, Option.map_map, Function.comp_def, slots_retarget]

theorem memory_newRegion (h0 : 0 < s.statics.nextObjectIdToGive) (ptr size : ValueId) (ms : MemorySpace) :
    (s.newRegion ptr size ms).memory = Function.update s.memory s.statics.nextObjectIdToGive (some Slots.empty) := by
  have hempty : Object.slots { Object.region s.statics.nextObjectIdToGive with size := size, memSpace := ms } =
      Slots.empty := by
    ext1
    · rfl
    · funext k
      simp [Object.slots, Slots.empty, Object.findPtEdgeByOffset, Object.region]
  have h := memory_setObject h0 s.nextObject
    { Object.region s.statics.nextObjectIdToGive with size := size, memSpace := ms }
  rw [hempty] at h
  exact h

/-- There are no regions at the start. -/
theorem memory_new : MemState.new.memory = fun _ => none := by
  funext id
  cases h : MemState.new.memory id with
  | none => rfl
  | some l =>
    obtain ⟨h0, o, ho, _⟩ := memory_some h
    have := (new_object ho).1
    lia

end Memory

/-! ## Effects of the operations -/

/-- The effect of a write through the edge. -/
def MemState.writeEffect (s : MemState) (edge : PtEdge) (value : ValueId) (type : Ty) :
    Effect ObjectId ValueId ValueId :=
  if type.isPointer then
    if s.graph.existsPtEdge value then .pointer edge.targetObjectId edge.targetOffset value
    else .hide edge.targetObjectId edge.targetOffset value
  else .plain edge.targetObjectId edge.targetOffset value

/-- A read that finds nothing makes up a value. -/
def MemState.readEffect (s : MemState) (ptr : ValueId) (type : Ty) : Effect ObjectId ValueId ValueId :=
  let edge := s.resolve ptr
  match s.memory edge.targetObjectId with
  | none => .quiet
  | some l =>
    match l.read type.isPointer edge.targetOffset with
    | some _ => .quiet
    | none => .plain edge.targetObjectId edge.targetOffset s.statics.nextIdToGive

def MemState.freeEffect (s : MemState) (ptr : ValueId) : Effect ObjectId ValueId ValueId :=
  let id := (s.resolve ptr).targetObjectId
  match s.graph.objects[id]? with
  | none => .quiet
  | some o => if 0 < id ∧ o.memSpace = .heap then .destroy id else .quiet

section Effects

variable [DataLayout]

/-- The offset of a cleared range is the one that a new derived pointer has. -/
def MemState.clearEffect (s : MemState) (ptr size : ValueId) : Effect ObjectId ValueId ValueId :=
  match s.vc.constantContainer[size]? with
  | none => .quiet
  | some n =>
    match createDerivedPointer ptr 0 s with
    | .error _ _ => .quiet
    | .ok d t => t.writeEffect d.2 t.vc.zero (.array (.int 8) n.toNat)

def GraphOp.effect (s : MemState) : GraphOp → Effect ObjectId ValueId ValueId
  | .allocateRegion _ _ => .create s.statics.nextObjectIdToGive
  | .readValue p t => s.readEffect p t
  | .writeValue p v t => s.writeEffect (s.resolve p) v t
  | .free p => s.freeEffect p
  | .memclear p n => s.clearEffect p n
  | .createDerivedPointer _ _ | .container _ => .quiet

/-! ## The graph follows the memory -/

variable {s : MemState}

omit [DataLayout] in
/-- Effects on something else than a region do nothing. -/
theorem apply_writeEffect_of_none {edge : PtEdge} (h : s.memory edge.targetObjectId = none) (value : ValueId)
    (type : Ty) (t : MemState) : (t.writeEffect edge value type).apply s.memory = s.memory := by
  unfold MemState.writeEffect
  split
  · split <;> simp [Effect.apply, h]
  · simp [Effect.apply, h]

omit [DataLayout] in
theorem memory_none_of_target (h : (e : ObjectId) = 0 ∨ e = -1 ∨ e = -2) : s.memory e = none :=
  if_neg (by lia)

omit [DataLayout] in
theorem slots_written (o : Object) (known : Option PtEdge) {offset value : ValueId} (type : Ty) (hoff : offset ≠ -1)
    (ho : KeysNodup (·.sourceOffset) (-1) o.ptEdges) (hknown : ∀ e, known = some e → e.value = value) :
    (o.written known offset value type).slots =
      if type.isPointer then
        if known.isSome then o.slots.setPointer offset value else (o.slots.hide offset).setPlain offset value
      else o.slots.setPlain offset value := by
  unfold Object.written
  split
  · cases known with
    | some e =>
      rw [Option.isSome_some, if_pos rfl, ← hknown e rfl]
      exact slots_pointer o hoff e
    | none =>
      rw [Option.isSome_none, if_neg Bool.false_ne_true]
      exact (slots_plain _ _ _ _).trans (by rw [slots_hide hoff ho])
  · exact slots_plain _ _ _ _

omit [DataLayout] in
theorem writeEdge_memory (hs : GraphOk s) {edge : PtEdge} (he : EdgeOk s edge) (value : ValueId) (type : Ty) :
    (final (writeEdge edge value type s)).memory = (s.writeEffect edge value type).apply s.memory := by
  obtain ⟨o, ho⟩ := he.target
  have hkey := (hs.key _ o ho).1
  by_cases h : edge.targetObjectId = 0 ∨ edge.targetObjectId = -1 ∨ edge.targetObjectId = -2
  · rw [writeEdge_error h, apply_writeEffect_of_none (memory_none_of_target h)]
    rfl
  · have h0 : 0 < edge.targetObjectId := by lia
    have hoff : edge.targetOffset ≠ -1 := by
      have := he.targetOffset.1
      lia
    have hslots := slots_written o (lookup (·.value) value s.graph.handles) type hoff (hs.object _ o ho).ptNodup
      fun e he => (lookup_some he).2
    rw [writeEdge_region h0 ho, final_ok, memory_setObject h0, hslots]
    unfold MemState.writeEffect Graph.existsPtEdge
    split
    · split <;> simp only [Effect.apply, memory_region h0 ho, Option.map_some]
    · simp only [Effect.apply, memory_region h0 ho, Option.map_some]

omit [DataLayout] in
/-- `FindPtEdge` leaves the memory alone. -/
theorem memory_touch (s : MemState) (ptr : ValueId) : (s.touch ptr).memory = s.memory :=
  memory_congr (objects_touch s ptr)

omit [DataLayout] in
theorem writeValue_memory (hs : GraphOk s) {ptr : ValueId} (hp : s.Given ptr) (value : ValueId) (type : Ty) :
    (final (Angie.writeValue ptr value type s)).memory =
      (s.writeEffect (s.resolve ptr) value type).apply s.memory := by
  by_cases h : (s.resolve ptr).targetObjectId = -1
  · have h' : (s.resolve ptr).targetObjectId = 0 ∨ (s.resolve ptr).targetObjectId = -1 ∨
      (s.resolve ptr).targetObjectId = -2 := Or.inr (Or.inl h)
    rw [writeValue_error h', apply_writeEffect_of_none (memory_none_of_target h')]
    exact memory_touch s ptr
  · have htouch := touch_of_target h
    unfold Angie.writeValue
    rw [bind_of_ok (findPtEdge_eq ptr), htouch]
    exact writeEdge_memory hs (resolve_edgeOk hs hp) value type

omit [DataLayout] in
theorem readValue_memory (hs : GraphOk s) (ptr : ValueId) (type : Ty) :
    (final (Angie.readValue ptr type s)).memory = (s.readEffect ptr type).apply s.memory := by
  rcases resolve_target_cases hs ptr with h | h | h | ⟨h0, o, ho⟩
  iterate 3
    have h' : (s.resolve ptr).targetObjectId = 0 ∨ (s.resolve ptr).targetObjectId = -1 ∨
      (s.resolve ptr).targetObjectId = -2 := by simp [h]
    rw [readValue_error h', MemState.readEffect, memory_none_of_target h']
    exact memory_touch s ptr
  have hoff : (s.resolve ptr).targetOffset ≠ -1 := by
    have := (resolve_targetOffset hs ptr).1
    lia
  rw [readValue_region h0 ho, MemState.readEffect, memory_region h0 ho]
  simp only [Slots.read, Object.slots, if_neg hoff]
  cases type.isPointer with
  | true =>
    simp only [if_true]
    cases o.findPtEdgeByOffset (s.resolve ptr).targetOffset with
    | some e => exact memory_congr rfl
    | none =>
      cases o.findHvEdgeByOffset (s.resolve ptr).targetOffset with
      | some e => rfl
      | none =>
        simp only [final_ok, memory_setObject h0, slots_plain, Option.map_none, Option.or_none, Effect.apply,
          memory_region h0 ho, Option.map_some]
        rfl
  | false =>
    simp only [Bool.false_eq_true, if_false]
    cases o.findHvEdgeByOffset (s.resolve ptr).targetOffset with
    | some e => rfl
    | none =>
      simp only [final_ok, memory_setObject h0, slots_plain, Option.map_none, Effect.apply, memory_region h0 ho,
        Option.map_some]
      rfl

omit [DataLayout] in
/-- A read returns what the memory holds in the cell, or a new id. -/
theorem readValue_of_memory (hs : GraphOk s) {ptr : ValueId} {l : Slots ValueId ValueId}
    (hl : s.memory (s.resolve ptr).targetObjectId = some l) (type : Ty) :
    ∃ t, Angie.readValue ptr type s =
      .ok ((l.read type.isPointer (s.resolve ptr).targetOffset).getD s.statics.nextIdToGive) t := by
  obtain ⟨h0, o, ho, rfl⟩ := memory_some hl
  have hoff : (s.resolve ptr).targetOffset ≠ -1 := by
    have := (resolve_targetOffset hs ptr).1
    lia
  rw [readValue_region h0 ho]
  simp only [Slots.read, Object.slots, if_neg hoff]
  cases type.isPointer with
  | true =>
    simp only [if_true]
    cases o.findPtEdgeByOffset (s.resolve ptr).targetOffset with
    | some e => exact ⟨_, rfl⟩
    | none => cases o.findHvEdgeByOffset (s.resolve ptr).targetOffset <;> exact ⟨_, rfl⟩
  | false =>
    simp only [Bool.false_eq_true, if_false]
    cases o.findHvEdgeByOffset (s.resolve ptr).targetOffset <;> exact ⟨_, rfl⟩

omit [DataLayout] in
theorem free_memory (hs : GraphOk s) (ptr : ValueId) :
    (final (Angie.free ptr s)).memory = (s.freeEffect ptr).apply s.memory := by
  have hquiet : ¬ 0 < (s.resolve ptr).targetObjectId → (s.freeEffect ptr).apply s.memory = s.memory := by
    intro h0
    unfold MemState.freeEffect
    dsimp only
    split
    · rfl
    · rw [if_neg fun h => h0 h.1]; rfl
  rcases resolve_target_cases hs ptr with h | h | h | ⟨h0, o, ho⟩
  · rw [free_null h, hquiet (by lia)]; exact memory_touch s ptr
  · rw [free_unknown h, hquiet (by lia)]; exact memory_touch s ptr
  · rw [free_freed h, hquiet (by lia)]; exact memory_touch s ptr
  · rw [free_region h0 ho, MemState.freeEffect, ho]
    dsimp only
    by_cases hm : o.memSpace = .heap
    · rw [if_pos hm, if_pos ⟨h0, hm⟩]; exact memory_freed s _
    · rw [if_neg hm, if_neg fun h => hm h.2]; rfl

omit [DataLayout] in
/-- The state that a derivation leaves has the memory of the state before. -/
theorem memory_derive (s : MemState) (ptr : ValueId) (t : VcState) (edge : PtEdge) :
    (((s.touch ptr).withVc t).addHandle edge).memory = s.memory :=
  memory_congr (objects_touch s ptr)

theorem memclear_memory (hs : GraphOk s) {ptr : ValueId} (hp : s.Given ptr) (size : ValueId) :
    (final (Angie.memclear ptr size s)).memory = (s.clearEffect ptr size).apply s.memory := by
  unfold MemState.clearEffect
  cases hn : s.vc.constantContainer[size]? with
  | none => rw [memclear_abstract hn]; rfl
  | some n =>
    obtain ⟨o, v, t, hd, heq⟩ := createDerivedPointer_spec hs hp 0
    have hs2 := Edits.ok (derive_edits hs hp hd) hs
    have hedge := hs2.handle _ (List.mem_append_right _ (List.mem_singleton_self _))
    rw [memclear_constant hn heq, heq, writeEdge_memory hs2 hedge, memory_derive]

theorem createDerivedPointer_memory (hs : GraphOk s) {basePtr : ValueId} (hp : s.Given basePtr) (offset : ValueId) :
    (final (Angie.createDerivedPointer basePtr offset s)).memory = s.memory := by
  obtain ⟨o, v, t, hd, heq⟩ := createDerivedPointer_spec hs hp offset
  rw [heq]
  exact memory_derive s basePtr t _

theorem allocateRegion_memory (hs : GraphOk s) (type : Ty) (ms : MemorySpace) :
    (final (Angie.allocateRegion type ms s)).memory =
      Function.update s.memory s.statics.nextObjectIdToGive (some Slots.empty) := by
  obtain ⟨size, t, _, hid, _, _, _, heq⟩ := allocateRegion_spec hs type ms
  have h0 : 0 < (s.withVc t).statics.nextObjectIdToGive := hid.symm ▸ hs.counter
  rw [heq, final_ok, memory_newRegion h0, ← hid]
  rfl

/-- The graph follows the memory: every operation, also one that throws, changes the memory by its effect. -/
theorem exec_memory (hs : GraphOk s) {op : GraphOp} (ha : op.Adm s) :
    (op.exec s).2.memory = (op.effect s).apply s.memory := by
  rw [GraphOp.exec_state]
  cases op with
  | allocateRegion t ms => rw [GraphOp.run, final_map]; exact allocateRegion_memory hs t ms
  | createDerivedPointer p o =>
    rw [GraphOp.run, final_map]; exact createDerivedPointer_memory hs (ha p (by simp [GraphOp.ids])) o
  | readValue p t => rw [GraphOp.run, final_map]; exact readValue_memory hs p t
  | writeValue p v t =>
    rw [GraphOp.run, final_map]; exact writeValue_memory hs (ha p (by simp [GraphOp.ids])) v t
  | free p => rw [GraphOp.run, final_map]; exact free_memory hs p
  | memclear p n => rw [GraphOp.run, final_map]; exact memclear_memory hs (ha p (by simp [GraphOp.ids])) n
  | container op =>
    rw [final_container]
    rfl

end Effects

end Angie
