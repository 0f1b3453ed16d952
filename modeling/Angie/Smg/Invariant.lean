import Mathlib.Logic.Relation
import Angie.Smg.Graph

/-!
# The invariant of the memory graph

Every operation is a sequence of elementary changes of the graph (`Edit`): the container grows, a handle is added for an
unknown, derived, new or loaded pointer, an edge of a region is written or hidden, a region is freed. `GraphOk` is the
invariant that each of them keeps (`Edit.ok`): ids are given out, every edge has an existing target, no two edges of
an object have the same offset, except for the hidden ones.
-/

namespace Angie

open KeyedList

/-! ## The state -/

namespace MemState

variable (s : MemState)

@[simp] theorem toVc_withVc (t : VcState) : (s.withVc t).toVc = t := rfl

@[simp] theorem graph_withVc (t : VcState) : (s.withVc t).graph = s.graph := rfl

@[simp] theorem toVc_addHandle (e : PtEdge) : (s.addHandle e).toVc = s.toVc := rfl

@[simp] theorem handles_addHandle (e : PtEdge) : (s.addHandle e).graph.handles = s.graph.handles ++ [e] := rfl

@[simp] theorem objects_addHandle (e : PtEdge) : (s.addHandle e).graph.objects = s.graph.objects := rfl

@[simp] theorem toVc_setObject (id : ObjectId) (o : Object) : (s.setObject id o).toVc = s.toVc := rfl

@[simp] theorem handles_setObject (id : ObjectId) (o : Object) :
    (s.setObject id o).graph.handles = s.graph.handles := rfl

@[simp] theorem objects_setObject (id id' : ObjectId) (o : Object) :
    (s.setObject id o).graph.objects[id']? = if id = id' then some o else s.graph.objects[id']? := by
  simp [setObject, Std.TreeMap.getElem?_insert]

/-- The graph after the object was freed. -/
def freed (id : ObjectId) : MemState :=
  { s with
    graph :=
      { handles := s.graph.handles.map (·.retarget id)
        objects := (s.graph.objects.map fun _ o => o.retargetEdges id).erase id } }

@[simp] theorem toVc_freed (id : ObjectId) : (s.freed id).toVc = s.toVc := rfl

@[simp] theorem handles_freed (id : ObjectId) :
    (s.freed id).graph.handles = s.graph.handles.map (·.retarget id) := rfl

@[simp] theorem objects_freed (id id' : ObjectId) :
    (s.freed id).graph.objects[id']? =
      if id = id' then none else s.graph.objects[id']?.map (·.retargetEdges id) := by
  simp [freed, Std.TreeMap.getElem?_erase, Std.TreeMap.getElem?_map]

/-- The objects after a free stood before it, with other targets. -/
theorem object_of_freed {s : MemState} {id id' : ObjectId} {o : Object} (h : (s.freed id).graph.objects[id']? = some o) :
    ∃ o', s.graph.objects[id']? = some o' ∧ o = o'.retargetEdges id := by
  rw [objects_freed] at h
  split at h
  · cases h
  · obtain ⟨o', ho', rfl⟩ := Option.map_eq_some_iff.1 h
    exact ⟨o', ho', rfl⟩

/-- The object counter after an object was numbered. -/
def nextObject : MemState :=
  { s with statics := { s.statics with nextObjectIdToGive := s.statics.nextObjectIdToGive + 1 } }

/-- The graph with a new region and its handle. -/
def newRegion (ptr size : ValueId) (ms : MemorySpace) : MemState :=
  let oid := s.statics.nextObjectIdToGive
  (s.nextObject.setObject oid { Object.region oid with size := size, memSpace := ms }).addHandle
    (PtEdge.handle ptr oid)

/-- The edge is held by `handles` or by an object. -/
def Edge (e : PtEdge) : Prop :=
  e ∈ s.graph.handles ∨ ∃ (id : ObjectId) (o : Object), s.graph.objects[id]? = some o ∧ e ∈ o.ptEdges

/-- No edge has the value. -/
def Unused (v : ValueId) : Prop := ∀ e, s.Edge e → e.value ≠ v

/-- The id was given out. -/
abbrev Given (v : ValueId) : Prop := s.toVc.Given v

def Exists (id : ObjectId) : Prop := ∃ o, s.graph.objects[id]? = some o

end MemState

@[simp] theorem PtEdge.retarget_value (id : ObjectId) (e : PtEdge) : (e.retarget id).value = e.value := by
  unfold retarget; split <;> rfl

@[simp] theorem PtEdge.retarget_sourceOffset (id : ObjectId) (e : PtEdge) :
    (e.retarget id).sourceOffset = e.sourceOffset := by
  unfold retarget; split <;> rfl

@[simp] theorem PtEdge.retarget_targetOffset (id : ObjectId) (e : PtEdge) :
    (e.retarget id).targetOffset = e.targetOffset := by
  unfold retarget; split <;> rfl

theorem PtEdge.retarget_target (id : ObjectId) (e : PtEdge) :
    (e.retarget id).targetObjectId = if e.targetObjectId = id then -2 else e.targetObjectId := by
  unfold retarget; split <;> rfl

/-! ## Elementary changes -/

inductive Edit : MemState → MemState → Prop
  | container {s : MemState} {t : VcState} : Extends s.toVc t → Edit s (s.withVc t)
  | unknown {s : MemState} {ptr : ValueId} : s.Given ptr → lookup (·.value) ptr s.graph.handles = none →
      Edit s (s.addHandle (PtEdge.handle ptr (-1)))
  | derive {s : MemState} {base : PtEdge} {value offset : ValueId} : base ∈ s.graph.handles → s.Given value →
      s.Given offset → s.vc.isConstant value = true ∨ s.Unused value → Edit s (s.addHandle (base.derive value offset))
  | allocate {s : MemState} {ptr size : ValueId} {ms : MemorySpace} : s.Given ptr → s.Unused ptr →
      s.vc.isConstant size = true → Edit s (s.newRegion ptr size ms)
  | load {s : MemState} {id : ObjectId} {o : Object} {e : PtEdge} : s.graph.objects[id]? = some o → e ∈ o.ptEdges →
      Edit s (s.addHandle (e.withSource 0))
  | plain {s : MemState} {id : ObjectId} {o : Object} {offset value : ValueId} {type : Ty} : 0 < id →
      s.graph.objects[id]? = some o → s.Given offset → s.Given value →
      Edit s (s.setObject id (o.createOrModifyHvEdge offset value type))
  | pointer {s : MemState} {id : ObjectId} {o : Object} {offset : ValueId} {e : PtEdge} : 0 < id →
      s.graph.objects[id]? = some o → s.Given offset → e ∈ s.graph.handles →
      Edit s (s.setObject id (o.createOrModifyPtEdge offset e))
  | hide {s : MemState} {id : ObjectId} {o : Object} {offset value : ValueId} {type : Ty} : 0 < id →
      s.graph.objects[id]? = some o → s.Given offset → s.Given value →
      Edit s (s.setObject id ((o.disablePtEdge offset).createOrModifyHvEdge offset value type))
  | free {s : MemState} {id : ObjectId} : 0 < id → s.Exists id → Edit s (s.freed id)

/-- Sequences of elementary changes. -/
abbrev Edits : MemState → MemState → Prop := Relation.ReflTransGen Edit

/-! ## The invariant -/

/-- Ids are given out and the target exists. -/
structure EdgeOk (s : MemState) (e : PtEdge) : Prop where
  value : s.Given e.value
  targetOffset : s.Given e.targetOffset
  target : s.Exists e.targetObjectId

structure ObjectOk (s : MemState) (o : Object) : Prop where
  size : s.vc.isConstant o.size = true
  hvOffset : ∀ e ∈ o.hvEdges, s.Given e.sourceOffset
  hvValue : ∀ e ∈ o.hvEdges, s.Given e.value
  hvNodup : KeysNodup (·.sourceOffset) (-1) o.hvEdges
  ptOffset : ∀ e ∈ o.ptEdges, s.Given e.sourceOffset ∨ e.sourceOffset = -1
  ptNodup : KeysNodup (·.sourceOffset) (-1) o.ptEdges
  ptEdge : ∀ e ∈ o.ptEdges, EdgeOk s e
  /-- A stored pointer is held by a handle too. -/
  held : ∀ e ∈ o.ptEdges, ∃ h ∈ s.graph.handles, h.value = e.value

structure GraphOk (s : MemState) : Prop where
  const : ConstOk s.toVc
  zero : s.vc.zero = 0
  counter : 0 < s.statics.nextObjectIdToGive
  key : ∀ (id : ObjectId) o, s.graph.objects[id]? = some o → -2 ≤ id ∧ id < s.statics.nextObjectIdToGive
  null : s.Exists 0
  unknown : s.Exists (-1)
  freed : s.Exists (-2)
  handle : ∀ e ∈ s.graph.handles, EdgeOk s e
  object : ∀ (id : ObjectId) o, s.graph.objects[id]? = some o → ObjectOk s o

theorem GraphOk.edge {s : MemState} (h : GraphOk s) {e : PtEdge} (he : s.Edge e) : EdgeOk s e := by
  rcases he with he | ⟨id, o, ho, he⟩
  · exact h.handle e he
  · exact (h.object id o ho).ptEdge e he

/-- An id that was not given out is on no edge. -/
theorem GraphOk.unused {s : MemState} (h : GraphOk s) {v : ValueId} (hv : ¬ s.Given v) : s.Unused v :=
  fun _ he heq => hv (heq ▸ (h.edge he).value)

theorem GraphOk.unused_next {s : MemState} (h : GraphOk s) {v : ValueId} (hv : s.statics.nextIdToGive ≤ v) :
    s.Unused v := h.unused fun hg => Int.lt_irrefl _ (Int.lt_of_lt_of_le hg.2 hv)

/-- The id `0` names the constant `0`. -/
theorem GraphOk.bound_zero {s : MemState} (h : GraphOk s) : s.vc.constantContainer[(0 : ValueId)]? = some 0 := by
  have hzero : s.vc.constantContainer[s.vc.zero]? = some 0 := h.const.zero
  rwa [h.zero] at hzero

theorem GraphOk.given_zero {s : MemState} (h : GraphOk s) : s.Given 0 := h.const.range _ _ h.bound_zero

/-! ## Preservation -/

/-- What the edges and objects that exist in `s` need of `t`. -/
structure Keeps (s t : MemState) : Prop where
  given : ∀ v, s.Given v → t.Given v
  constant : ∀ v, s.vc.isConstant v = true → t.vc.isConstant v = true
  live : ∀ id, s.Exists id → t.Exists id
  held : ∀ h ∈ s.graph.handles, ∃ h' ∈ t.graph.handles, h'.value = h.value

theorem EdgeOk.keep {s t : MemState} {e : PtEdge} (h : EdgeOk s e) (hk : Keeps s t) : EdgeOk t e :=
  ⟨hk.given _ h.value, hk.given _ h.targetOffset, hk.live _ h.target⟩

theorem ObjectOk.keep {s t : MemState} {o : Object} (h : ObjectOk s o) (hk : Keeps s t) : ObjectOk t o where
  size := hk.constant _ h.size
  hvOffset := fun e he => hk.given _ (h.hvOffset e he)
  hvValue := fun e he => hk.given _ (h.hvValue e he)
  hvNodup := h.hvNodup
  ptOffset := fun e he => (h.ptOffset e he).imp (hk.given _) id
  ptNodup := h.ptNodup
  ptEdge := fun e he => (h.ptEdge e he).keep hk
  held := by
    intro e' he
    obtain ⟨h1, hh1, heq⟩ := h.held e' he
    obtain ⟨h2, hh2, heq2⟩ := hk.held h1 hh1
    exact ⟨h2, hh2, heq2.trans heq⟩

section Keeps

variable {s : MemState}

theorem keeps_withVc (hs : GraphOk s) {t : VcState} (h : Extends s.toVc t) : Keeps s (s.withVc t) where
  given := fun _ hv => h.given hv
  constant := by
    intro v hv
    obtain ⟨c, hc⟩ := isConstant_iff.1 hv
    exact isConstant_iff.2 ⟨c, h.bound hs.const hc⟩
  live := fun _ h => h
  held := fun h hh => ⟨h, hh, rfl⟩

theorem keeps_addHandle (e : PtEdge) : Keeps s (s.addHandle e) where
  given := fun _ h => h
  constant := fun _ h => h
  live := fun _ h => h
  held := fun h hh => ⟨h, List.mem_append_left _ hh, rfl⟩

theorem keeps_setObject (id : ObjectId) (o : Object) : Keeps s (s.setObject id o) where
  given := fun _ h => h
  constant := fun _ h => h
  live := by
    rintro id' ⟨o', ho'⟩
    by_cases hid : id = id'
    · exact ⟨o, by simp [hid]⟩
    · exact ⟨o', by simp [hid, ho']⟩
  held := fun h hh => ⟨h, hh, rfl⟩

theorem GraphOk.withVc (hs : GraphOk s) {t : VcState} (h : Extends s.toVc t) : GraphOk (s.withVc t) where
  const := h.keeps hs.const
  zero := h.zero.trans hs.zero
  counter := Int.lt_of_lt_of_le hs.counter h.nextObjectId
  key := fun id o ho => ⟨(hs.key id o ho).1, Int.lt_of_lt_of_le (hs.key id o ho).2 h.nextObjectId⟩
  null := hs.null
  unknown := hs.unknown
  freed := hs.freed
  handle := fun e he => (hs.handle e he).keep (keeps_withVc hs h)
  object := fun id o ho => (hs.object id o ho).keep (keeps_withVc hs h)

theorem GraphOk.addHandle (hs : GraphOk s) {e : PtEdge} (he : EdgeOk s e) : GraphOk (s.addHandle e) where
  const := hs.const
  zero := hs.zero
  counter := hs.counter
  key := hs.key
  null := hs.null
  unknown := hs.unknown
  freed := hs.freed
  handle := by
    intro e' he'
    rcases List.mem_append.1 he' with h | h
    · exact (hs.handle e' h).keep (keeps_addHandle e)
    · rw [List.mem_singleton.1 h]; exact he.keep (keeps_addHandle e)
  object := fun id o ho => (hs.object id o ho).keep (keeps_addHandle e)

/-- A changed or new object. -/
theorem GraphOk.setObject (hs : GraphOk s) {id : ObjectId} {o : Object} (h1 : -2 ≤ id)
    (h2 : id < s.statics.nextObjectIdToGive) (ho : ObjectOk s o) : GraphOk (s.setObject id o) where
  const := hs.const
  zero := hs.zero
  counter := hs.counter
  key := by
    intro id' o' ho'
    rw [MemState.objects_setObject] at ho'
    split at ho'
    · rename_i h; subst h; exact ⟨h1, h2⟩
    · exact hs.key id' o' ho'
  null := (keeps_setObject id o).live _ hs.null
  unknown := (keeps_setObject id o).live _ hs.unknown
  freed := (keeps_setObject id o).live _ hs.freed
  handle := fun e he => (hs.handle e he).keep (keeps_setObject id o)
  object := by
    intro id' o' ho'
    rw [MemState.objects_setObject] at ho'
    split at ho'
    · cases ho'; exact ho.keep (keeps_setObject id o)
    · exact (hs.object id' o' ho').keep (keeps_setObject id o)

/-! ## Objects -/

section Objects

variable {o : Object} {offset : ValueId}

theorem ObjectOk.plain (ho : ObjectOk s o) (hoff : s.Given offset) {value : ValueId} (hv : s.Given value) (type : Ty) :
    ObjectOk s (o.createOrModifyHvEdge offset value type) where
  size := ho.size
  hvOffset := by
    intro e he
    rcases mem_upsert he with he | ⟨a, ha, hk, rfl⟩ | rfl
    · exact ho.hvOffset e he
    · exact ho.hvOffset a ha
    · exact hoff
  hvValue := by
    intro e he
    rcases mem_upsert he with he | ⟨a, ha, hk, rfl⟩ | rfl
    · exact ho.hvValue e he
    · exact hv
    · exact hv
  hvNodup := by
    refine keysNodup_upsert (fun e he => ?_) ?_ ho.hvNodup
    · exact he
    · rfl
  ptOffset := ho.ptOffset
  ptNodup := ho.ptNodup
  ptEdge := ho.ptEdge
  held := ho.held

theorem ObjectOk.pointer (hs : GraphOk s) (ho : ObjectOk s o) (hoff : s.Given offset) {e : PtEdge}
    (he : e ∈ s.graph.handles) : ObjectOk s (o.createOrModifyPtEdge offset e) where
  size := ho.size
  hvOffset := ho.hvOffset
  hvValue := ho.hvValue
  hvNodup := ho.hvNodup
  ptOffset := by
    intro e' he'
    rcases mem_upsert he' with he' | ⟨a, ha, hk, rfl⟩ | rfl
    · exact ho.ptOffset e' he'
    · exact ho.ptOffset a ha
    · exact Or.inl hoff
  ptNodup := by
    refine keysNodup_upsert (fun a ha => ?_) ?_ ho.ptNodup
    · exact ha
    · rfl
  ptEdge := by
    have h := hs.handle e he
    intro e' he'
    rcases mem_upsert he' with he' | ⟨a, ha, hk, rfl⟩ | rfl
    · exact ho.ptEdge e' he'
    · exact ⟨h.value, h.targetOffset, h.target⟩
    · exact ⟨h.value, h.targetOffset, h.target⟩
  held := by
    intro e' he'
    rcases mem_upsert he' with he' | ⟨a, ha, hk, rfl⟩ | rfl
    · exact ho.held e' he'
    · exact ⟨e, he, rfl⟩
    · exact ⟨e, he, rfl⟩

theorem ObjectOk.hide (ho : ObjectOk s o) : ObjectOk s (o.disablePtEdge offset) where
  size := ho.size
  hvOffset := ho.hvOffset
  hvValue := ho.hvValue
  hvNodup := ho.hvNodup
  ptOffset := by
    intro e he
    rcases mem_modifyFirst he with he | ⟨a, ha, hk, rfl⟩
    · exact ho.ptOffset e he
    · exact Or.inr rfl
  ptNodup := by
    refine keysNodup_modifyFirst (fun e he => ?_) ho.ptNodup
    exact Or.inr rfl
  ptEdge := by
    intro e he
    rcases mem_modifyFirst he with he | ⟨a, ha, hk, rfl⟩
    · exact ho.ptEdge e he
    · exact ⟨(ho.ptEdge a ha).value, (ho.ptEdge a ha).targetOffset, (ho.ptEdge a ha).target⟩
  held := by
    intro e he
    rcases mem_modifyFirst he with he | ⟨a, ha, hk, rfl⟩
    · exact ho.held e he
    · exact ho.held a ha

/-- A region without edges. -/
theorem objectOk_empty {size : ValueId} (h : s.vc.isConstant size = true) (id : ObjectId) (ms : MemorySpace) :
    ObjectOk s { Object.region id with size := size, memSpace := ms } where
  size := h
  hvOffset := fun _ he => by cases he
  hvValue := fun _ he => by cases he
  hvNodup := List.Pairwise.nil
  ptOffset := fun _ he => by cases he
  ptNodup := List.Pairwise.nil
  ptEdge := fun _ he => by cases he
  held := fun _ he => by cases he

end Objects

/-! ## Freeing -/

section Freed

variable {id : ObjectId}

theorem EdgeOk.retarget (hs : GraphOk s) (hid : 0 < id) {e : PtEdge} (h : EdgeOk s e) :
    EdgeOk (s.freed id) (e.retarget id) where
  value := by rw [PtEdge.retarget_value]; exact h.value
  targetOffset := by rw [PtEdge.retarget_targetOffset]; exact h.targetOffset
  target := by
    have hlive : ∀ id', id ≠ id' → s.Exists id' → (s.freed id).Exists id' := by
      rintro id' hne ⟨o, ho⟩
      exact ⟨o.retargetEdges id, by simp [hne, ho]⟩
    rw [PtEdge.retarget_target]
    split
    · exact hlive (-2) (by lia) hs.freed
    · rename_i hne
      exact hlive _ (Ne.symm hne) h.target

theorem ObjectOk.retarget (hs : GraphOk s) (hid : 0 < id) {o : Object} (ho : ObjectOk s o) :
    ObjectOk (s.freed id) (o.retargetEdges id) where
  size := ho.size
  hvOffset := ho.hvOffset
  hvValue := ho.hvValue
  hvNodup := ho.hvNodup
  ptOffset := by
    intro e he
    obtain ⟨a, ha, rfl⟩ := List.mem_map.1 he
    rw [PtEdge.retarget_sourceOffset]
    exact ho.ptOffset a ha
  ptNodup := keysNodup_map ho.ptNodup fun e => e.retarget_sourceOffset id
  ptEdge := by
    intro e he
    obtain ⟨a, ha, rfl⟩ := List.mem_map.1 he
    exact (ho.ptEdge a ha).retarget hs hid
  held := by
    intro e he
    obtain ⟨a, ha, rfl⟩ := List.mem_map.1 he
    obtain ⟨h, hh, heq⟩ := ho.held a ha
    refine ⟨h.retarget id, List.mem_map_of_mem hh, ?_⟩
    rw [PtEdge.retarget_value, PtEdge.retarget_value, heq]

theorem GraphOk.free (hs : GraphOk s) (hid : 0 < id) : GraphOk (s.freed id) := by
  have hlive : ∀ id', id ≠ id' → s.Exists id' → (s.freed id).Exists id' := by
    rintro id' hne ⟨o, ho⟩
    exact ⟨o.retargetEdges id, by simp [hne, ho]⟩
  refine ⟨hs.const, hs.zero, hs.counter, ?_, hlive _ (by lia) hs.null, hlive _ (by lia) hs.unknown,
    hlive _ (by lia) hs.freed, ?_, ?_⟩
  · intro id' o ho
    obtain ⟨o', ho', _⟩ := MemState.object_of_freed ho
    exact hs.key id' o' ho'
  · intro e he
    obtain ⟨a, ha, rfl⟩ := List.mem_map.1 he
    exact (hs.handle a ha).retarget hs hid
  · intro id' o ho
    obtain ⟨o', ho', rfl⟩ := MemState.object_of_freed ho
    exact (hs.object id' o' ho').retarget hs hid

end Freed

/-! ## Every change -/

theorem GraphOk.newRegion (hs : GraphOk s) {ptr size : ValueId} (hp : s.Given ptr) (hsz : s.vc.isConstant size = true)
    (ms : MemorySpace) : GraphOk (s.newRegion ptr size ms) := by
  have hc := hs.counter
  have hle : s.statics.nextObjectIdToGive ≤ s.statics.nextObjectIdToGive + 1 := by lia
  have hg : Grows s.toVc s.nextObject.toVc :=
    grows_statics (Int.le_refl s.statics.nextIdToGive) (Nat.le_refl s.statics.nextConstraintIdToGive) hle
  have h2 := (hs.withVc hg.toExtends).setObject (by lia) (Int.lt_succ s.statics.nextObjectIdToGive)
    (objectOk_empty (s := s.nextObject) hsz s.statics.nextObjectIdToGive ms)
  refine h2.addHandle ⟨hp, hs.given_zero, ?_⟩
  exact ⟨_, (MemState.objects_setObject _ _ _ _).trans (if_pos rfl)⟩

/-- Every elementary change keeps the invariant. -/
theorem Edit.ok {t : MemState} (h : Edit s t) (hs : GraphOk s) : GraphOk t := by
  cases h with
  | container h => exact hs.withVc h
  | unknown hp _ => exact hs.addHandle ⟨hp, hs.given_zero, hs.unknown⟩
  | derive hb hv ho _ => exact hs.addHandle ⟨hv, ho, (hs.handle _ hb).target⟩
  | allocate hp _ hsz => exact hs.newRegion hp hsz _
  | load ho he =>
    have h := (hs.object _ _ ho).ptEdge _ he
    exact hs.addHandle ⟨h.value, h.targetOffset, h.target⟩
  | plain hid ho hoff hv => exact hs.setObject (by lia) (hs.key _ _ ho).2 ((hs.object _ _ ho).plain hoff hv _)
  | pointer hid ho hoff he =>
    exact hs.setObject (by lia) (hs.key _ _ ho).2 ((hs.object _ _ ho).pointer hs hoff he)
  | hide hid ho hoff hv => exact hs.setObject (by lia) (hs.key _ _ ho).2 ((hs.object _ _ ho).hide.plain hoff hv _)
  | free hid _ => exact hs.free hid

theorem Edits.ok {t : MemState} (h : Edits s t) (hs : GraphOk s) : GraphOk t := by
  induction h with
  | refl => exact hs
  | tail _ hb ih => exact hb.ok ih

/-- A property that every elementary change of a correct graph keeps is kept by sequences of them. -/
theorem Edits.induct {P : MemState → Prop} (hP : ∀ {s t}, Edit s t → GraphOk s → P s → P t) {t : MemState}
    (h : Edits s t) (hs : GraphOk s) (hp : P s) : P t := by
  induction h with
  | refl => exact hp
  | tail hab hb ih => exact hP hb (Edits.ok hab hs) ih

end Keeps

/-! ## The initial graph -/

theorem new_object {id : ObjectId} {o : Object} (h : MemState.new.graph.objects[id]? = some o) :
    (id = 0 ∨ id = -1 ∨ id = -2) ∧ o = Object.region id := by
  have hobj : MemState.new.graph.objects[id]? = if -2 = id then some (Object.region (-2)) else
      if -1 = id then some (Object.region (-1)) else if 0 = id then some (Object.region 0) else none := by
    simp [MemState.new, Graph.new, Std.TreeMap.getElem?_insert]
  rw [hobj] at h
  split at h
  · rename_i h1; subst h1; cases h; simp
  · split at h
    · rename_i h1; subst h1; cases h; simp
    · split at h
      · rename_i h1; subst h1; cases h; simp
      · cases h

theorem new_graphOk : GraphOk MemState.new where
  const := new_constOk (Int.le_refl 0)
  zero := rfl
  counter := by decide
  key := by
    intro id o ho
    obtain ⟨h, _⟩ := new_object ho
    have hn : MemState.new.statics.nextObjectIdToGive = 1 := rfl
    lia
  null := ⟨Object.region 0, rfl⟩
  unknown := ⟨Object.region (-1), rfl⟩
  freed := ⟨Object.region (-2), rfl⟩
  handle := by
    intro e he
    rw [List.mem_singleton.1 he]
    exact ⟨by decide, by decide, ⟨Object.region 0, rfl⟩⟩
  object := by
    intro id o ho
    rw [(new_object ho).2]
    exact objectOk_empty rfl id .heap

end Angie
