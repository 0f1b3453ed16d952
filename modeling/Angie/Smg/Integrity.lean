import Angie.Smg.Calls

/-!
# Referential integrity

`Graph.Intact` says that a graph can be followed: the three special objects exist, every edge has an existing target,
objects are stored under their own ids and have one edge for an offset, the hidden points-to edges apart, and every
stored pointer is held by a handle with the same target. Unlike `GraphOk` it does not look at a container, so that it
holds of every graph of a process in which containers and graphs are copied and operations take any of them
(`World`, `world_intact`). The object counter is shared, so that no graph meets the id of a new region
(`MemState.Sound`). An invariant that the single changes keep (`Kept`), as this one is, is kept by every operation, and no
operation fails to find an object (`run_safely`).
-/

namespace Angie

open Exec KeyedList Trace

/-! ## The invariant -/

/-- The edges are to the same place, for the same pointer. -/
def PtEdge.SameTarget (e h : PtEdge) : Prop :=
  h.value = e.value ∧ h.targetObjectId = e.targetObjectId ∧ h.targetOffset = e.targetOffset

structure Object.Intact (handles : List PtEdge) (o : Object) : Prop where
  hvOffsets : (o.hvEdges.map (·.sourceOffset)).Nodup
  /-- Only the reserved offset of the hidden edges occurs twice. -/
  ptOffsets : KeysNodup (·.sourceOffset) (-1) o.ptEdges
  held : ∀ e ∈ o.ptEdges, ∃ h ∈ handles, e.SameTarget h

structure Graph.Intact (g : Graph) : Prop where
  null : (0 : ObjectId) ∈ g.objects
  unknown : (-1 : ObjectId) ∈ g.objects
  freed : (-2 : ObjectId) ∈ g.objects
  handle : ∀ e ∈ g.handles, e.targetObjectId ∈ g.objects
  id : ∀ (id : ObjectId) o, g.objects[id]? = some o → o.id = id
  object : ∀ (id : ObjectId) o, g.objects[id]? = some o → o.Intact g.handles

/-- The edges of objects have existing targets too: handles have the same ones. -/
theorem Graph.Intact.stored {g : Graph} (h : g.Intact) {id : ObjectId} {o : Object} (ho : g.objects[id]? = some o)
    {e : PtEdge} (he : e ∈ o.ptEdges) : e.targetObjectId ∈ g.objects := by
  obtain ⟨k, hk, _, ht, _⟩ := (h.object id o ho).held e he
  rw [← ht]
  exact h.handle k hk

/-- The graph is intact, and the counter has not reached any other object than its own. -/
structure MemState.Sound (s : MemState) : Prop where
  intact : s.graph.Intact
  numbered : ∀ id ∈ s.graph.objects, -2 ≤ id ∧ id < s.statics.nextObjectIdToGive
  counter : 0 < s.statics.nextObjectIdToGive

theorem PtEdge.SameTarget.refl (e : PtEdge) : e.SameTarget e := ⟨rfl, rfl, rfl⟩

theorem PtEdge.SameTarget.retarget {e h : PtEdge} (hs : e.SameTarget h) (id : ObjectId) :
    (e.retarget id).SameTarget (h.retarget id) := by
  obtain ⟨h1, h2, h3⟩ := hs
  refine ⟨?_, ?_, ?_⟩
  · simp [h1]
  · rw [retarget_target, retarget_target, h2]
  · simp [h3]

/-! ## Objects -/

section Objects

variable {hs hs' : List PtEdge} {o : Object} {offset : ValueId}

theorem Object.Intact.mono (ho : o.Intact hs) (h : ∀ e ∈ hs, ∃ e' ∈ hs', e.SameTarget e') : o.Intact hs' where
  hvOffsets := ho.hvOffsets
  ptOffsets := ho.ptOffsets
  held := by
    intro e he
    obtain ⟨k, hk, h1, h2, h3⟩ := ho.held e he
    obtain ⟨k', hk', h1', h2', h3'⟩ := h k hk
    exact ⟨k', hk', h1'.trans h1, h2'.trans h2, h3'.trans h3⟩

theorem Object.Intact.plain (ho : o.Intact hs) (value : ValueId) (type : Ty) :
    (o.createOrModifyHvEdge offset value type).Intact hs where
  hvOffsets := by
    rw [nodup_map_iff]
    intro d
    refine keysNodup_upsert (fun e he => ?_) ?_ (nodup_map_iff.1 ho.hvOffsets d)
    · exact he
    · rfl
  ptOffsets := ho.ptOffsets
  held := ho.held

theorem Object.Intact.pointer (ho : o.Intact hs) {e : PtEdge} (he : e ∈ hs) :
    (o.createOrModifyPtEdge offset e).Intact hs where
  hvOffsets := ho.hvOffsets
  ptOffsets := by
    refine keysNodup_upsert (fun a ha => ?_) ?_ ho.ptOffsets
    · exact ha
    · rfl
  held := by
    intro e' he'
    rcases mem_upsert he' with he' | ⟨a, _, _, rfl⟩ | rfl
    · exact ho.held e' he'
    · exact ⟨e, he, rfl, rfl, rfl⟩
    · exact ⟨e, he, rfl, rfl, rfl⟩

theorem Object.Intact.hide (ho : o.Intact hs) : (o.disablePtEdge offset).Intact hs where
  hvOffsets := ho.hvOffsets
  ptOffsets := by
    refine keysNodup_modifyFirst (fun e _ => ?_) ho.ptOffsets
    exact Or.inr rfl
  held := by
    intro e he
    rcases mem_modifyFirst he with he | ⟨a, ha, _, rfl⟩
    · exact ho.held e he
    · exact ho.held a ha

theorem Object.Intact.retarget (ho : o.Intact hs) (id : ObjectId) :
    (o.retargetEdges id).Intact (hs.map (·.retarget id)) where
  hvOffsets := ho.hvOffsets
  ptOffsets := keysNodup_map ho.ptOffsets fun e => e.retarget_sourceOffset id
  held := by
    intro e he
    obtain ⟨a, ha, rfl⟩ := List.mem_map.1 he
    obtain ⟨k, hk, hka⟩ := ho.held a ha
    exact ⟨k.retarget id, List.mem_map_of_mem hk, hka.retarget id⟩

theorem Object.Intact.written (ho : o.Intact hs) (value : ValueId) (type : Ty) :
    (o.written (lookup (·.value) value hs) offset value type).Intact hs := by
  unfold Object.written
  split
  · cases hl : lookup (·.value) value hs with
    | some e => exact ho.pointer (lookup_some hl).1
    | none => exact ho.hide.plain value type
  · exact ho.plain value type

theorem written_id (known : Option PtEdge) (value : ValueId) (type : Ty) :
    (o.written known offset value type).id = o.id := by
  unfold Object.written
  split
  · cases known <;> rfl
  · rfl

end Objects

/-! ## Changes of the state -/

namespace MemState.Sound

variable {s : MemState}

theorem withVc (h : s.Sound) {t : VcState} (ht : s.statics.nextObjectIdToGive ≤ t.statics.nextObjectIdToGive) :
    (s.withVc t).Sound where
  intact := h.intact
  numbered := fun id hid => ⟨(h.numbered id hid).1, Int.lt_of_lt_of_le (h.numbered id hid).2 ht⟩
  counter := Int.lt_of_lt_of_le h.counter ht

theorem addHandle (h : s.Sound) {e : PtEdge} (he : e.targetObjectId ∈ s.graph.objects) : (s.addHandle e).Sound where
  intact :=
    { null := h.intact.null
      unknown := h.intact.unknown
      freed := h.intact.freed
      handle := by
        intro e' he'
        rcases List.mem_append.1 he' with he' | he'
        · exact h.intact.handle e' he'
        · rw [List.mem_singleton.1 he']
          exact he
      id := h.intact.id
      object := fun id o ho => (h.intact.object id o ho).mono fun k hk =>
        ⟨k, List.mem_append_left _ hk, PtEdge.SameTarget.refl k⟩ }
  numbered := h.numbered
  counter := h.counter

theorem setObject (h : s.Sound) (id : ObjectId) (o : Object) (h1 : -2 ≤ id) (h2 : id < s.statics.nextObjectIdToGive)
    (hid : o.id = id) (ho : o.Intact s.graph.handles) : (s.setObject id o).Sound := by
  have hmem : ∀ id' ∈ s.graph.objects, id' ∈ (s.setObject id o).graph.objects := by
    intro id' hid'
    simp [MemState.setObject, hid']
  refine ⟨⟨hmem _ h.intact.null, hmem _ h.intact.unknown, hmem _ h.intact.freed, ?_, ?_, ?_⟩, ?_, h.counter⟩
  · exact fun e he => hmem _ (h.intact.handle e he)
  · intro id' o' ho'
    rw [MemState.objects_setObject] at ho'
    split at ho'
    · rename_i heq
      cases ho'
      exact hid.trans heq
    · exact h.intact.id id' o' ho'
  · intro id' o' ho'
    rw [MemState.objects_setObject] at ho'
    split at ho'
    · cases ho'; exact ho
    · exact h.intact.object id' o' ho'
  · intro id' hid'
    simp only [MemState.setObject, Std.TreeMap.mem_insert, Std.compare_eq_iff_eq] at hid'
    rcases hid' with rfl | hid'
    · exact ⟨h1, h2⟩
    · exact h.numbered id' hid'

theorem free (h : s.Sound) {id : ObjectId} (hid : 0 < id) : (s.freed id).Sound := by
  have hmem : ∀ id' ∈ s.graph.objects, id ≠ id' → id' ∈ (s.freed id).graph.objects := by
    intro id' hid' hne
    simp [MemState.freed, hne, hid']
  refine ⟨⟨hmem _ h.intact.null (by lia), hmem _ h.intact.unknown (by lia), hmem _ h.intact.freed (by lia), ?_, ?_, ?_⟩,
    ?_, h.counter⟩
  · intro e he
    obtain ⟨a, ha, rfl⟩ := List.mem_map.1 he
    rw [PtEdge.retarget_target]
    split
    · exact hmem _ h.intact.freed (by lia)
    · rename_i hne
      exact hmem _ (h.intact.handle a ha) (Ne.symm hne)
  · intro id' o ho
    obtain ⟨o', ho', rfl⟩ := MemState.object_of_freed ho
    exact h.intact.id id' o' ho'
  · intro id' o ho
    obtain ⟨o', ho', rfl⟩ := MemState.object_of_freed ho
    exact (h.intact.object id' o' ho').retarget id
  · intro id' hid'
    simp only [MemState.freed, Std.TreeMap.mem_erase, Std.TreeMap.mem_map] at hid'
    exact h.numbered id' hid'.2

end MemState.Sound

/-! ## Invariants of the operations -/

/-- Every edge leads to an object; objects are stored under their own ids, which the counter has not reached. -/
structure MemState.Closed (s : MemState) : Prop where
  edge : ∀ e, s.Edge e → e.targetObjectId ∈ s.graph.objects
  own : ∀ (id : ObjectId) o, s.graph.objects[id]? = some o → o.id = id
  below : ∀ id ∈ s.graph.objects, id < s.statics.nextObjectIdToGive

/-- A closed graph with the special objects. -/
structure MemState.Grounded (s : MemState) : Prop extends s.Closed where
  null : (0 : ObjectId) ∈ s.graph.objects
  unknown : (-1 : ObjectId) ∈ s.graph.objects
  freed : (-2 : ObjectId) ∈ s.graph.objects
  least : ∀ id ∈ s.graph.objects, -2 ≤ id

theorem MemState.Sound.grounded {s : MemState} (h : s.Sound) : s.Grounded where
  edge := by
    rintro e (he | ⟨id, o, ho, he⟩)
    · exact h.intact.handle e he
    · exact h.intact.stored ho he
  own := h.intact.id
  below := fun id hid => (h.numbered id hid).2
  null := h.intact.null
  unknown := h.intact.unknown
  freed := h.intact.freed
  least := fun id hid => (h.numbered id hid).1

/-- An invariant of grounded states that every change of an operation keeps: the container is called, a handle is added,
a value is stored that was read or written, a region is added or freed. -/
structure Kept (P : MemState → Prop) : Prop where
  grounded : ∀ {s}, P s → s.Grounded
  withVc : ∀ {s} {t : VcState}, P s → s.statics.nextObjectIdToGive ≤ t.statics.nextObjectIdToGive → P (s.withVc t)
  addHandle : ∀ {s e}, P s → e.targetObjectId ∈ s.graph.objects → P (s.addHandle e)
  plain : ∀ {s} {id : ObjectId} {o}, P s → 0 < id → s.graph.objects[id]? = some o → ∀ offset value type,
    P (s.setObject id (o.createOrModifyHvEdge offset value type))
  written : ∀ {s} {id : ObjectId} {o}, P s → 0 < id → s.graph.objects[id]? = some o → ∀ offset value type,
    P (s.setObject id (o.written (lookup (·.value) value s.graph.handles) offset value type))
  region : ∀ {s} {t : VcState}, P s → s.statics.nextObjectIdToGive + 1 ≤ t.statics.nextObjectIdToGive → ∀ size ms,
    P ((s.withVc t).setObject s.statics.nextObjectIdToGive
      { Object.region s.statics.nextObjectIdToGive with size := size, memSpace := ms })
  free : ∀ {s} {id : ObjectId}, P s → 0 < id → P (s.freed id)

theorem sound_kept : Kept MemState.Sound where
  grounded := MemState.Sound.grounded
  withVc := fun h ht => h.withVc ht
  addHandle := fun h he => h.addHandle he
  plain := by
    intro s id o h h0 ho offset value type
    have hn := h.numbered _ (Std.TreeMap.mem_iff_isSome_getElem?.2 (by rw [ho]; rfl))
    have hid : (o.createOrModifyHvEdge offset value type).id = id := h.intact.id id o ho
    exact h.setObject _ _ hn.1 hn.2 hid ((h.intact.object _ _ ho).plain value type)
  written := by
    intro s id o h h0 ho offset value type
    have hn := h.numbered _ (Std.TreeMap.mem_iff_isSome_getElem?.2 (by rw [ho]; rfl))
    refine h.setObject _ _ hn.1 hn.2 ?_ ((h.intact.object _ _ ho).written value type)
    rw [written_id]
    exact h.intact.id _ o ho
  region := by
    intro s t h ht size ms
    have hpos := h.counter
    refine (h.withVc (by lia)).setObject _ _ (by lia) (Int.lt_of_lt_of_le (Int.lt_succ _) ht) rfl ?_
    exact ⟨List.nodup_nil, List.Pairwise.nil, fun e he => by cases he⟩
  free := fun h h0 => h.free h0

/-! ## Operations -/

/-- The exceptions of a lookup of an object: `objects.at` fails, or a missing object is dereferenced. -/
def Exn.isLookupFailure : Exn → Bool
  | .outOfRange | .undefinedBehaviour _ => true
  | _ => false

/-- The call keeps the invariant, and does not end with a failed lookup. -/
structure Safely (P : MemState → Prop) {α : Type} (s : MemState) (r : EStateM.Result Exn MemState α) : Prop where
  kept : P (final r)
  counter : s.statics.nextObjectIdToGive ≤ (final r).statics.nextObjectIdToGive
  found : ∀ e t, r = .error e t → e.isLookupFailure = false

section Operations

variable {P : MemState → Prop} (hP : Kept P) {s : MemState} {α : Type}

theorem safely_ok {a : α} {t : MemState} (ht : P t)
    (hc : s.statics.nextObjectIdToGive ≤ t.statics.nextObjectIdToGive) :
    Safely P s (.ok a t : EStateM.Result Exn MemState α) := ⟨ht, hc, nofun⟩

theorem safely_error {e : Exn} {t : MemState} (ht : P t)
    (hc : s.statics.nextObjectIdToGive ≤ t.statics.nextObjectIdToGive) (he : e.isLookupFailure = false) :
    Safely P s (.error e t : EStateM.Result Exn MemState α) :=
  ⟨ht, hc, fun _ _ h => by cases h; exact he⟩

/-- Every pointer resolves to an object of the graph. -/
theorem resolve_mem_objects (h : s.Grounded) (ptr : ValueId) : (s.resolve ptr).targetObjectId ∈ s.graph.objects := by
  cases hl : lookup (·.value) ptr s.graph.handles with
  | some e => rw [(resolve_of_lookup hl).1]; exact h.edge e (Or.inl (lookup_some hl).1)
  | none => rw [(resolve_of_none hl).1]; exact h.unknown

/-- An object of the graph is one of the special ones, or a region. -/
theorem target_cases (h : s.Grounded) {id : ObjectId} (hid : id ∈ s.graph.objects) :
    (id = 0 ∨ id = -1 ∨ id = -2) ∨ (0 < id ∧ ∃ o, s.graph.objects[id]? = some o) := by
  have hge := h.least id hid
  by_cases h0 : 0 < id
  · exact Or.inr ⟨h0, _, Std.TreeMap.getElem?_eq_some_getElem hid⟩
  · exact Or.inl (by lia)

theorem touch_counter (s : MemState) (ptr : ValueId) :
    (s.touch ptr).statics.nextObjectIdToGive = s.statics.nextObjectIdToGive := by
  rw [statics_touch]

theorem accessError_found (target : ObjectId) : (accessError target).isLookupFailure = false := by
  unfold accessError
  split <;> rfl

theorem Safely.of_touch {ptr : ValueId} {r : EStateM.Result Exn MemState α} (h : Safely P (s.touch ptr) r) :
    Safely P s r := ⟨h.kept, by rw [← touch_counter s ptr]; exact h.counter, h.found⟩

include hP

theorem touch_kept (h : P s) (ptr : ValueId) : P (s.touch ptr) := by
  unfold MemState.touch
  split
  · exact h
  · exact hP.addHandle h (hP.grounded h).unknown

theorem readValue_safely (h : P s) (ptr : ValueId) (type : Ty) : Safely P s (Angie.readValue ptr type s) := by
  have htouch := touch_counter s ptr
  have hg := hP.grounded h
  rcases target_cases hg (resolve_mem_objects hg ptr) with hsp | ⟨h0, o, ho⟩
  · rw [readValue_error hsp]
    exact safely_error (touch_kept hP h ptr) (by rw [htouch]) (accessError_found _)
  · rw [readValue_region h0 ho]
    split
    · rename_i e he
      split at he
      · -- the pointer that is read has an existing target
        have hmem := hg.edge e (Or.inr ⟨_, o, ho, (lookup_some he).1⟩)
        exact safely_ok (hP.addHandle h hmem) (Int.le_refl _)
      · cases he
    · split
      · exact safely_ok h (Int.le_refl _)
      · have hnext : P s.nextValue :=
          hP.withVc (t := ⟨s.nextValue.statics, s.vc⟩) h (Int.le_refl s.statics.nextObjectIdToGive)
        exact safely_ok (hP.plain hnext h0 ho _ _ _) (Int.le_refl _)

theorem writeEdge_safely (h : P s) {e : PtEdge} (he : e.targetObjectId ∈ s.graph.objects) (value : ValueId)
    (type : Ty) : Safely P s (writeEdge e value type s) := by
  rcases target_cases (hP.grounded h) he with hsp | ⟨h0, o, ho⟩
  · rw [writeEdge_error hsp]
    exact safely_error h (Int.le_refl _) (accessError_found _)
  · rw [writeEdge_region h0 ho]
    exact safely_ok (hP.written h h0 ho _ value type) (Int.le_refl _)

theorem writeValue_safely (h : P s) (ptr value : ValueId) (type : Ty) :
    Safely P s (Angie.writeValue ptr value type s) := by
  have hmem : (s.resolve ptr).targetObjectId ∈ (s.touch ptr).graph.objects := by
    rw [objects_touch]
    exact resolve_mem_objects (hP.grounded h) ptr
  unfold Angie.writeValue
  rw [bind_of_ok (findPtEdge_eq ptr)]
  exact (writeEdge_safely hP (touch_kept hP h ptr) hmem value type).of_touch

theorem free_safely (h : P s) (ptr : ValueId) : Safely P s (Angie.free ptr s) := by
  have hkept := touch_kept hP h ptr
  have hcount := (touch_counter s ptr).ge
  have hg := hP.grounded h
  rcases target_cases hg (resolve_mem_objects hg ptr) with (h0 | h0 | h0) | ⟨h0, o, ho⟩
  · rw [free_null h0]; exact safely_ok hkept hcount
  · rw [free_unknown h0]; exact safely_error hkept hcount rfl
  · rw [free_freed h0]; exact safely_error hkept hcount rfl
  · rw [free_region h0 ho]
    split
    · exact safely_ok (hP.free h h0) (Int.le_refl _)
    · exact safely_error h (Int.le_refl _) rfl

section Typed

variable [DataLayout]

omit hP in
theorem createDerivedPointer_eq (s : MemState) (basePtr offset : ValueId) :
    ∃ v o t, s.statics.nextObjectIdToGive ≤ t.statics.nextObjectIdToGive ∧
      createDerivedPointer basePtr offset s = .ok (v, (s.resolve basePtr).derive v o)
        (((s.touch basePtr).withVc t).addHandle ((s.resolve basePtr).derive v o)) := by
  obtain ⟨o, t, v, u, h1, h2, heq⟩ := createDerivedPointer_run s basePtr offset
  have hg1 := (yields_binOp _ offset Ty.charPointer ⟨.add, ArithFlags.default⟩).steps.ok h1
  have hg2 := (yields_binOp basePtr o Ty.charPointer ⟨.add, ArithFlags.default⟩).steps.ok h2
  exact ⟨v, o, u, Int.le_trans hg1.nextObjectId hg2.nextObjectId, heq⟩

omit [DataLayout] in
/-- The state of a derivation keeps the invariant, and its edge leads to an object. -/
theorem derived_kept (h : P s) (basePtr v o : ValueId) {t : VcState}
    (ht : s.statics.nextObjectIdToGive ≤ t.statics.nextObjectIdToGive) :
    P (((s.touch basePtr).withVc t).addHandle ((s.resolve basePtr).derive v o)) := by
  refine hP.addHandle (hP.withVc (touch_kept hP h basePtr) ?_) ?_
  · rw [touch_counter]; exact ht
  · rw [MemState.graph_withVc, objects_touch]
    exact resolve_mem_objects (hP.grounded h) basePtr

theorem createDerivedPointer_safely (h : P s) (basePtr offset : ValueId) :
    Safely P s (Angie.createDerivedPointer basePtr offset s) := by
  obtain ⟨v, o, t, ht, heq⟩ := createDerivedPointer_eq s basePtr offset
  rw [heq]
  exact safely_ok (derived_kept hP h basePtr v o ht) ht

theorem allocateRegion_safely (h : P s) (type : Ty) (ms : MemorySpace) :
    Safely P s (Angie.allocateRegion type ms s) := by
  obtain ⟨size, t, hsz, hg, _⟩ := createConstIntVal_spec (BitVec.ofNat 64 type.getSizeOf) s.nextValue.nextObject.toVc
  have hcreate : callVc (createVal (.ptr type)) s = .ok s.statics.nextIdToGive s.nextValue := rfl
  have hnext : getNextObjectId s.nextValue = .ok s.statics.nextObjectIdToGive s.nextValue.nextObject := rfl
  have hcount : s.statics.nextObjectIdToGive + 1 ≤ t.statics.nextObjectIdToGive := hg.nextObjectId
  -- the new region is stored under the id that the counter gave
  have hregion := hP.region h hcount size ms
  have hhandle := hP.addHandle (e := PtEdge.handle s.statics.nextIdToGive s.statics.nextObjectIdToGive) hregion
    (by simp [MemState.setObject, PtEdge.handle])
  have hsz' : getSizeOfV type s.nextValue.nextObject.toVc = .ok size t := hsz
  unfold Angie.allocateRegion
  rw [bind_of_ok hcreate, bind_of_ok hnext, bind_of_ok (callVc_ok hsz')]
  exact safely_ok hhandle (Int.le_trans (Int.le_of_lt (Int.lt_succ _)) hcount)

theorem memclear_safely (h : P s) (ptr size : ValueId) : Safely P s (Angie.memclear ptr size s) := by
  cases hn : s.vc.constantContainer[size]? with
  | none =>
    rw [memclear_abstract hn]
    exact safely_error h (Int.le_refl _) rfl
  | some n =>
    obtain ⟨v, o, t, ht, heq⟩ := createDerivedPointer_eq s ptr 0
    have hd := derived_kept hP h ptr v o ht
    rw [memclear_constant hn heq]
    have hmem := (hP.grounded hd).edge _ (Or.inl (List.mem_append_right _ (List.mem_singleton_self _)))
    have hw := writeEdge_safely hP hd hmem t.vc.zero (.array (.int 8) n.toNat)
    exact ⟨hw.kept, Int.le_trans ht hw.counter, hw.found⟩

/-! ## Steps -/

/-- The operations of the graph itself. -/
def GraphOp.isGraphCall : GraphOp → Bool
  | .container _ => false
  | _ => true

omit [DataLayout] hP in
theorem Safely.map {m : GraphM α} (f : α → Option ValueId) (h : Safely P s (m s)) : Safely P s ((f <$> m) s) where
  kept := by rw [final_map]; exact h.kept
  counter := by rw [final_map]; exact h.counter
  found := by
    intro e t he
    change EStateM.map f m s = _ at he
    unfold EStateM.map at he
    cases hm : m s with
    | ok a u => rw [hm] at he; cases he
    | error e' u => rw [hm] at he; cases he; exact h.found _ _ hm

/-- Every operation of the graph keeps the invariant and finds the objects it looks up. -/
theorem run_safely (h : P s) {op : GraphOp} (hop : op.isGraphCall = true) : Safely P s (op.run s) := by
  cases op with
  | allocateRegion t ms => exact (allocateRegion_safely hP h t ms).map some
  | createDerivedPointer p o => exact (createDerivedPointer_safely hP h p o).map fun d => some d.1
  | readValue p t => exact (readValue_safely hP h p t).map some
  | writeValue p v t => exact (writeValue_safely hP h p v t).map fun _ => none
  | free p => exact (free_safely hP h p).map fun _ => none
  | memclear p n => exact (memclear_safely hP h p n).map fun _ => none
  | container op => cases hop

theorem exec_kept (h : P s) (op : GraphOp) :
    P (op.exec s).2 ∧ s.statics.nextObjectIdToGive ≤ (op.exec s).2.statics.nextObjectIdToGive := by
  rw [GraphOp.exec_state]
  cases hop : op.isGraphCall with
  | true =>
    have hs := run_safely hP h hop
    exact ⟨hs.kept, hs.counter⟩
  | false =>
    obtain ⟨op, rfl⟩ : ∃ vcOp, op = .container vcOp := by
      cases op with
      | container vcOp => exact ⟨vcOp, rfl⟩
      | _ => cases hop
    have hext := exec_extends op s.toVc
    rw [VcOp.exec_state] at hext
    rw [final_container]
    exact ⟨hP.withVc h hext.nextObjectId, hext.nextObjectId⟩

end Typed

end Operations

/-! ## Copies -/

/-- The containers and graphs of a process, which draw from the same counters. -/
structure World where
  statics : Statics
  containers : List ValueContainer
  graphs : List Graph

inductive WorldOp where
  /-- An operation on one of the graphs, called with one of the containers. -/
  | call (container graph : ℕ) (op : GraphOp)
  | copyContainer (container : ℕ)
  | copyGraph (graph : ℕ)

namespace World

/-- One container and one graph, both new. -/
def new : World := ⟨MemState.new.statics, [MemState.new.vc], [MemState.new.graph]⟩

/-- The state of a call. -/
def memState (w : World) (vc : ValueContainer) (g : Graph) : MemState := ⟨w.statics, vc, g⟩

/-- The world after a call, whose container and graph are put back. -/
def withMem (w : World) (container graph : ℕ) (s : MemState) : World :=
  ⟨s.statics, w.containers.set container s.vc, w.graphs.set graph s.graph⟩

end World

section World

variable [DataLayout]

/-- A step of the world. Nothing happens where there is no such container or graph. -/
def WorldOp.exec : WorldOp → World → Except Exn (Option ValueId) × World
  | .call i j op, w =>
    match w.containers[i]?, w.graphs[j]? with
    | some vc, some g => ((op.exec (w.memState vc g)).1, w.withMem i j (op.exec (w.memState vc g)).2)
    | _, _ => (.ok none, w)
  | .copyContainer i, w =>
    match w.containers[i]? with
    | some vc => (.ok none, { w with containers := w.containers ++ [vc] })
    | none => (.ok none, w)
  | .copyGraph j, w =>
    match w.graphs[j]? with
    | some g => (.ok none, { w with graphs := w.graphs ++ [g] })
    | none => (.ok none, w)

/-- The runs from a new graph. -/
abbrev WorldRun := Run WorldOp.exec (fun _ _ => True) (· = World.new)

omit [DataLayout] in
/-- Every graph is sound with the counters of the world; a container plays no part in it. -/
def World.Sound (w : World) : Prop := ∀ vc, ∀ g ∈ w.graphs, (w.memState vc g).Sound

theorem exec_worldSound {w : World} (h : w.Sound) (op : WorldOp) : (op.exec w).2.Sound := by
  cases op with
  | call i j op =>
    dsimp only [WorldOp.exec]
    cases w.containers[i]? with
    | none => exact h
    | some vc =>
      cases hg : w.graphs[j]? with
      | none => exact h
      | some g =>
        have hstep := exec_kept sound_kept (h vc g (List.mem_of_getElem? hg)) op
        intro vc' g' hg'
        rcases List.mem_or_eq_of_mem_set hg' with hmem | rfl
        · -- another graph meets a larger counter only
          exact (h vc' g' hmem).withVc (t := ⟨(op.exec (w.memState vc g)).2.statics, vc'⟩) hstep.2
        · exact ⟨hstep.1.intact, hstep.1.numbered, hstep.1.counter⟩
  | copyContainer i =>
    dsimp only [WorldOp.exec]
    cases w.containers[i]? with
    | none => exact h
    | some vc => exact h
  | copyGraph j =>
    dsimp only [WorldOp.exec]
    cases hg : w.graphs[j]? with
    | none => exact h
    | some g =>
      intro vc g' hg'
      rcases List.mem_append.1 hg' with hmem | hmem
      · exact h vc g' hmem
      · rw [List.mem_singleton.1 hmem]
        exact h vc g (List.mem_of_getElem? hg)

omit [DataLayout] in
theorem new_worldSound : World.new.Sound := by
  intro vc g hg
  rw [List.mem_singleton.1 hg]
  refine ⟨⟨rfl, rfl, rfl, ?_, ?_, ?_⟩, ?_, Int.zero_lt_one⟩
  · intro e he
    rw [List.mem_singleton.1 he]
    rfl
  · intro id o ho
    rw [(new_object ho).2]
    rfl
  · intro id o ho
    rw [(new_object ho).2]
    exact ⟨List.nodup_nil, List.Pairwise.nil, fun e he => by cases he⟩
  · intro id hid
    obtain ⟨hid', _⟩ := new_object (Std.TreeMap.getElem?_eq_some_getElem hid)
    have hn : World.new.statics.nextObjectIdToGive = 1 := rfl
    simp only [World.memState, hn]
    lia

/-- Every graph that operations and copies reach, with whatever containers, is intact, and no operation on it fails to
find an object. -/
theorem world_intact {es : List (Event World WorldOp (Except Exn (Option ValueId)))} {w : World} (h : WorldRun es w) :
    ∀ g ∈ w.graphs, g.Intact ∧
      (∀ (id : ObjectId) o, g.objects[id]? = some o → ∀ e ∈ o.ptEdges, e.targetObjectId ∈ g.objects) ∧
      ∀ vc ∈ w.containers, ∀ op : GraphOp, op.isGraphCall = true →
        ∀ e, (op.exec (w.memState vc g)).1 = .error e → e.isLookupFailure = false := by
  have hs : w.Sound := h.invariant (I := fun _ w => w.Sound) (fun _ h0 => h0 ▸ new_worldSound)
    fun _ _ op _ _ hw => exec_worldSound hw op
  intro g hg
  have hg' := (hs MemState.new.vc g hg).intact
  refine ⟨hg', fun id o ho e he => hg'.stored ho he, fun vc _ op hop e he => ?_⟩
  have hsafe := run_safely sound_kept (hs vc g hg) hop
  unfold GraphOp.exec at he
  cases hr : op.run (w.memState vc g) with
  | ok a t => rw [hr] at he; cases he
  | error e' t => rw [hr] at he; cases he; exact hsafe.found e t hr

end World

section Examples

attribute [local instance] Ty.x86

/-- A region is allocated, the graph is copied, and the copy is freed of the region. -/
def freedCopy : List (Event World WorldOp (Except Exn (Option ValueId))) × World :=
  play WorldOp.exec [] World.new [.call 0 0 (.allocateRegion (.int 32) .heap), .copyGraph 0, .call 0 1 (.free 1)]

theorem freedCopy_run : WorldRun freedCopy.1 freedCopy.2 := Run.play (Run.start rfl) ⟨trivial, trivial, trivial, trivial⟩

/-- The original graph is intact; freeing the region in the copy once more is refused as a double free. -/
theorem freedCopy_intact :
    freedCopy.2.graphs[0].Intact ∧ Exn.doubleFree.isLookupFailure = false :=
  ⟨(world_intact freedCopy_run _ (List.getElem_mem _)).1,
    (world_intact freedCopy_run freedCopy.2.graphs[1] (List.getElem_mem _)).2.2 freedCopy.2.containers[0]
      (List.getElem_mem _) (.free 1) rfl _ rfl⟩

end Examples

end Angie
