import Angie.Smg.Contents

/-!
# Provenance of pointers

A pointer into a region stays one, however many copies of its edge there are.

- `run_lifetimes`: the regions of a graph are the ones that were allocated and not freed;
- `Tracks`: every edge of the value goes to the region, or to the freed object once the region is freed; every
  elementary change keeps this (`Edit.tracks`);
- `pointer_provenance`: a pointer that an allocation returned, or that was derived from such a pointer or loaded from
  where one is stored, resolves to this region until the region is freed, and to the freed object from then on.
-/

namespace Angie

open Exec KeyedList TwoView Trace

/-! ## Allocated and freed regions -/

/-- An allocation created the region. -/
def Allocated (es : GraphHistory) (oid : ObjectId) : Prop :=
  ∃ e ∈ es, (∃ t ms, e.op = .allocateRegion t ms) ∧ e.pre.statics.nextObjectIdToGive = oid

/-- A call of `Free` deleted the region. -/
def Freed (es : GraphHistory) (oid : ObjectId) : Prop :=
  ∃ e ∈ es, ∃ p, e.op = .free p ∧ e.out = .ok none ∧ (e.pre.resolve p).targetObjectId = oid

section Lifetime

variable [DataLayout] {es : GraphHistory} {s : MemState} {oid : ObjectId}

omit [DataLayout] in
theorem exists_iff_memory (h0 : 0 < oid) : s.Exists oid ↔ (s.memory oid).isSome := by
  rw [MemState.memory, if_pos h0, Option.isSome_map, Option.isSome_iff_exists]
  rfl

/-- An operation creates a region by allocating it and destroys one by freeing it. -/
theorem exists_exec (hs : GraphOk s) {op : GraphOp} (ha : op.Adm s) (h0 : 0 < oid) :
    (op.exec s).2.Exists oid ↔ op.effect s = .create oid ∨ (s.Exists oid ∧ op.effect s ≠ .destroy oid) := by
  rw [exists_iff_memory h0, exists_iff_memory h0, exec_memory hs ha]
  cases he : op.effect s with
  | quiet => simp [Effect.apply]
  | create i =>
    by_cases hi : oid = i
    · simp [Effect.apply, hi]
    · simp [Effect.apply, hi, Ne.symm hi]
  | destroy i =>
    by_cases hi : oid = i
    · simp [Effect.apply, hi]
    · simp [Effect.apply, hi, Ne.symm hi]
  | plain i k v | pointer i k v | hide i k v =>
    rw [Effect.apply_isSome (Or.inl rfl)]
    simp

omit [DataLayout] in
theorem writeEffect_lifetime (s : MemState) (edge : PtEdge) (value : ValueId) (type : Ty) :
    (s.writeEffect edge value type).isLifetime = false := by
  unfold MemState.writeEffect
  split
  · split <;> rfl
  · rfl

/-- Only allocating and freeing create and destroy regions. -/
theorem effect_lifetime {op : GraphOp} (h : (op.effect s).isLifetime = true) :
    (∃ t ms, op = .allocateRegion t ms ∧ op.effect s = .create s.statics.nextObjectIdToGive) ∨
    (∃ p o, op = .free p ∧ 0 < (s.resolve p).targetObjectId ∧
      s.graph.objects[(s.resolve p).targetObjectId]? = some o ∧ o.memSpace = .heap ∧
      op.effect s = .destroy (s.resolve p).targetObjectId) := by
  cases op with
  | allocateRegion t ms => exact Or.inl ⟨t, ms, rfl, rfl⟩
  | createDerivedPointer | container => cases h
  | readValue p t =>
    simp only [GraphOp.effect, MemState.readEffect] at h
    split at h
    · cases h
    · split at h <;> cases h
  | writeValue p v t =>
    rw [GraphOp.effect, writeEffect_lifetime] at h
    cases h
  | free p =>
    refine Or.inr ⟨p, ?_⟩
    simp only [GraphOp.effect, MemState.freeEffect] at h ⊢
    split at h
    · cases h
    · rename_i o ho
      split at h
      · rename_i hm
        exact ⟨o, trivial, hm.1, ho, hm.2, if_pos hm⟩
      · cases h
  | memclear p n =>
    simp only [GraphOp.effect, MemState.clearEffect] at h
    split at h
    · cases h
    · split at h
      · cases h
      · rw [writeEffect_lifetime] at h
        cases h

/-- A call of `Free` that returns deletes the region its pointer resolves to. -/
theorem free_effect (hs : GraphOk s) {p : ValueId} (h0 : 0 < (s.resolve p).targetObjectId)
    (h : ((GraphOp.free p).exec s).1 = .ok none) :
    (GraphOp.free p).effect s = .destroy (s.resolve p).targetObjectId := by
  rcases resolve_target_cases hs p with h' | h' | h' | ⟨_, o, ho⟩
  iterate 3 exact absurd h0 (by lia)
  have hm : o.memSpace = .heap := by
    by_contra hm
    have hrun := free_region h0 ho
    rw [if_neg hm] at hrun
    rw [GraphOp.exec_of_error (.free p) rfl hrun] at h
    cases h
  simp only [GraphOp.effect, MemState.freeEffect, ho]
  exact if_pos ⟨h0, hm⟩

theorem allocated_step {op : GraphOp} :
    Allocated (step GraphOp.exec s op :: es) oid ↔ op.effect s = .create oid ∨ Allocated es oid := by
  have hcreate : ((∃ t ms, op = .allocateRegion t ms) ∧ s.statics.nextObjectIdToGive = oid) ↔
      op.effect s = .create oid := by
    constructor
    · rintro ⟨⟨t, ms, rfl⟩, rfl⟩
      rfl
    · intro h
      rcases effect_lifetime (congrArg Effect.isLifetime h) with ⟨t, ms, rfl, h'⟩ | ⟨p, o, _, _, _, _, h'⟩
      · rw [h] at h'; cases h'; exact ⟨⟨t, ms, rfl⟩, rfl⟩
      · rw [h] at h'; cases h'
  simp only [Allocated, List.exists_mem_cons_iff, ← hcreate]
  rfl

theorem freed_step (hs : GraphOk s) (h0 : 0 < oid) {op : GraphOp} :
    Freed (step GraphOp.exec s op :: es) oid ↔ op.effect s = .destroy oid ∨ Freed es oid := by
  have hdestroy : (∃ p, op = .free p ∧ (op.exec s).1 = .ok none ∧ (s.resolve p).targetObjectId = oid) ↔
      op.effect s = .destroy oid := by
    constructor
    · rintro ⟨p, rfl, hout, rfl⟩
      exact free_effect hs h0 hout
    · intro h
      rcases effect_lifetime (congrArg Effect.isLifetime h) with ⟨t, ms, _, h'⟩ | ⟨p, o, rfl, h1, ho, hm, h'⟩
      · rw [h] at h'; cases h'
      · rw [h] at h'
        cases h'
        have hrun := free_region h1 ho
        rw [if_pos hm] at hrun
        exact ⟨p, rfl, by rw [GraphOp.exec_of_ok (.free p) rfl hrun], rfl⟩
  simp only [Freed, List.exists_mem_cons_iff, ← hdestroy]
  rfl

omit [DataLayout] in
theorem Edit.nextObjectId {t : MemState} (h : Edit s t) :
    s.statics.nextObjectIdToGive ≤ t.statics.nextObjectIdToGive := by
  cases h with
  | container h => exact h.nextObjectId
  | allocate => exact Int.le_of_lt (Int.lt_succ s.statics.nextObjectIdToGive)
  | _ => exact Int.le_refl _

/-- The regions that exist are the ones that were allocated and not freed; an id that the counter has not reached was
neither. -/
structure Lifetimes (es : GraphHistory) (s : MemState) : Prop where
  graph : GraphOk s
  live : ∀ id, 0 < id → (s.Exists id ↔ Allocated es id ∧ ¬ Freed es id)
  known : ∀ id, 0 < id → Allocated es id ∨ Freed es id → id < s.statics.nextObjectIdToGive

theorem Lifetimes.step (h : Lifetimes es s) {op : GraphOp} (ha : op.Adm s) :
    Lifetimes (step GraphOp.exec s op :: es) (op.exec s).2 := by
  have hed := exec_edits h.graph ha
  have hgraph := Edits.ok hed h.graph
  have hnext : s.statics.nextObjectIdToGive ≤ (op.exec s).2.statics.nextObjectIdToGive :=
    hed.induct (P := fun t => s.statics.nextObjectIdToGive ≤ t.statics.nextObjectIdToGive)
      (fun h' _ hle => Int.le_trans hle h'.nextObjectId) h.graph (Int.le_refl _)
  refine ⟨hgraph, fun id h0 => ?_, fun id h0 => ?_⟩
  · rw [exists_exec h.graph ha h0, allocated_step, freed_step h.graph h0, h.live id h0]
    constructor
    · rintro (hc | ⟨⟨hal, hfr⟩, hd⟩)
      · refine ⟨Or.inl hc, ?_⟩
        rintro (hd | hfr)
        · rw [hc] at hd; cases hd
        · have hlt := h.known id h0 (Or.inr hfr)
          rcases effect_lifetime (congrArg Effect.isLifetime hc) with ⟨_, _, _, h'⟩ | ⟨_, _, _, _, _, _, h'⟩
          · rw [hc] at h'; cases h'; exact Int.lt_irrefl _ hlt
          · rw [hc] at h'; cases h'
      · exact ⟨Or.inr hal, not_or.2 ⟨hd, hfr⟩⟩
    · rintro ⟨hc | hal, hn⟩
      · exact Or.inl hc
      · obtain ⟨hd, hfr⟩ := not_or.1 hn
        exact Or.inr ⟨⟨hal, hfr⟩, hd⟩
  · rw [allocated_step, freed_step h.graph h0]
    rintro ((hc | hal) | (hd | hfr))
    · obtain ⟨o, ho⟩ := (exists_exec h.graph ha h0).2 (Or.inl hc)
      exact (hgraph.key id o ho).2
    · exact Int.lt_of_lt_of_le (h.known id h0 (Or.inl hal)) hnext
    · rcases effect_lifetime (congrArg Effect.isLifetime hd) with ⟨_, _, _, h'⟩ | ⟨p, o, _, _, ho, _, h'⟩
      · rw [hd] at h'; cases h'
      · rw [hd] at h'; cases h'
        exact Int.lt_of_lt_of_le (h.graph.key _ o ho).2 hnext
    · exact Int.lt_of_lt_of_le (h.known id h0 (Or.inr hfr)) hnext

theorem run_lifetimes (h : GraphRun es s) : Lifetimes es s := by
  refine h.invariant ?_ fun es s op _ ha hs => hs.step ha
  rintro s rfl
  refine ⟨new_graphOk, fun id h0 => ⟨?_, ?_⟩, ?_⟩
  · rintro ⟨o, ho⟩
    have := (new_object ho).1
    lia
  · rintro ⟨⟨e, he, _⟩, _⟩
    cases he
  · rintro id _ (⟨e, he, _⟩ | ⟨e, he, _⟩) <;> cases he

end Lifetime

/-! ## Copies of an edge -/

namespace MemState

variable (s : MemState)

/-- What stands for the region: itself, or the freed object once it is deleted. -/
def current (oid : ObjectId) : ObjectId := if s.graph.objects.contains oid then oid else -2

variable {s} {oid : ObjectId}

theorem current_of_exists (h : s.Exists oid) : s.current oid = oid := by
  obtain ⟨o, ho⟩ := h
  rw [current, Std.TreeMap.contains_eq_isSome_getElem?, ho]
  rfl

theorem current_of_not_exists (h : ¬ s.Exists oid) : s.current oid = -2 := by
  have hnone : s.graph.objects[oid]? = none := by
    cases ho : s.graph.objects[oid]? with
    | none => rfl
    | some o => exact absurd ⟨o, ho⟩ h
  rw [current, Std.TreeMap.contains_eq_isSome_getElem?, hnone]
  rfl

theorem current_congr {t : MemState} (h : t.Exists oid ↔ s.Exists oid) : t.current oid = s.current oid := by
  by_cases hs : s.Exists oid
  · rw [current_of_exists hs, current_of_exists (h.2 hs)]
  · rw [current_of_not_exists hs, current_of_not_exists fun ht => hs (h.1 ht)]

theorem edge_addHandle {e e' : PtEdge} : (s.addHandle e).Edge e' ↔ s.Edge e' ∨ e' = e := by
  simp only [Edge, handles_addHandle, objects_addHandle, List.mem_append, List.mem_singleton]
  exact or_right_comm

theorem edge_setObject {id : ObjectId} {o : Object} {e : PtEdge} (h : (s.setObject id o).Edge e) :
    s.Edge e ∨ e ∈ o.ptEdges := by
  rcases h with h | ⟨id', o', ho', he⟩
  · exact Or.inl (Or.inl h)
  · rw [objects_setObject] at ho'
    split at ho'
    · cases ho'; exact Or.inr he
    · exact Or.inl (Or.inr ⟨id', o', ho', he⟩)

theorem edge_freed {id : ObjectId} {e : PtEdge} (h : (s.freed id).Edge e) : ∃ a, s.Edge a ∧ e = a.retarget id := by
  rcases h with h | ⟨id', o', ho', he⟩
  · obtain ⟨a, ha, rfl⟩ := List.mem_map.1 h
    exact ⟨a, Or.inl ha, rfl⟩
  · obtain ⟨o, ho, rfl⟩ := object_of_freed ho'
    obtain ⟨a, ha, rfl⟩ := List.mem_map.1 he
    exact ⟨a, Or.inr ⟨id', o, ho, ha⟩, rfl⟩

end MemState

/-- Every edge of the value goes to what stands for the region. -/
structure Tracks (s : MemState) (v : ValueId) (oid : ObjectId) : Prop where
  given : s.Given v
  abstracted : s.vc.constantContainer[v]? = none
  pos : 0 < oid
  known : oid < s.statics.nextObjectIdToGive
  held : ∃ e ∈ s.graph.handles, e.value = v
  edge : ∀ e, s.Edge e → e.value = v → e.targetObjectId = s.current oid

section Tracks

variable {s : MemState} {v : ValueId} {oid : ObjectId}

theorem Tracks.not_constant (h : Tracks s v oid) : ¬ s.vc.isConstant v = true := by
  rw [isConstant_eq_false.2 h.abstracted]
  exact Bool.false_ne_true

/-- An added handle is no edge of the value, or a copy of one. -/
theorem Tracks.addHandle (h : Tracks s v oid) {e : PtEdge}
    (he : e.value ≠ v ∨ ∃ a, s.Edge a ∧ a.value = e.value ∧ a.targetObjectId = e.targetObjectId) :
    Tracks (s.addHandle e) v oid where
  given := h.given
  abstracted := h.abstracted
  pos := h.pos
  known := h.known
  held := by
    obtain ⟨a, ha, hv⟩ := h.held
    exact ⟨a, List.mem_append_left _ ha, hv⟩
  edge := by
    intro e' he' hv
    rcases MemState.edge_addHandle.1 he' with he' | rfl
    · exact h.edge e' he' hv
    · rcases he with he | ⟨a, ha, hav, hat⟩
      · exact absurd hv he
      · exact hat.symm.trans (h.edge a ha (hav.trans hv))

/-- So are the edges of a changed object. -/
theorem Tracks.setObject (h : Tracks s v oid) {id : ObjectId} {o : Object} (hid : s.Exists id)
    (ho : ∀ e ∈ o.ptEdges, ∃ a, s.Edge a ∧ a.value = e.value ∧ a.targetObjectId = e.targetObjectId) :
    Tracks (s.setObject id o) v oid where
  given := h.given
  abstracted := h.abstracted
  pos := h.pos
  known := h.known
  held := h.held
  edge := by
    have hex : (s.setObject id o).Exists oid ↔ s.Exists oid := by
      by_cases hio : id = oid
      · subst hio
        exact iff_of_true ⟨o, by simp⟩ hid
      · simp [MemState.Exists, hio]
    intro e he hv
    rw [MemState.current_congr hex]
    rcases MemState.edge_setObject he with he | he
    · exact h.edge e he hv
    · obtain ⟨a, ha, hav, hat⟩ := ho e he
      exact hat.symm.trans (h.edge a ha (hav.trans hv))

theorem Tracks.freed (h : Tracks s v oid) {id : ObjectId} (h0 : 0 < id) : Tracks (s.freed id) v oid where
  given := h.given
  abstracted := h.abstracted
  pos := h.pos
  known := h.known
  held := by
    obtain ⟨a, ha, hv⟩ := h.held
    exact ⟨a.retarget id, List.mem_map_of_mem ha, by rw [PtEdge.retarget_value, hv]⟩
  edge := by
    intro e he hv
    obtain ⟨a, ha, rfl⟩ := MemState.edge_freed he
    rw [PtEdge.retarget_value] at hv
    rw [PtEdge.retarget_target, h.edge a ha hv]
    by_cases hio : id = oid
    · subst hio
      have hgone : ¬ (s.freed id).Exists id := by simp [MemState.Exists]
      rw [MemState.current_of_not_exists hgone]
      by_cases hex : s.Exists id
      · rw [MemState.current_of_exists hex, if_pos rfl]
      · rw [MemState.current_of_not_exists hex, if_neg (by lia)]
    · have hex : (s.freed id).Exists oid ↔ s.Exists oid := by
        simp [MemState.Exists, hio]
      rw [MemState.current_congr hex]
      by_cases hex : s.Exists oid
      · rw [MemState.current_of_exists hex, if_neg (Ne.symm hio)]
      · rw [MemState.current_of_not_exists hex, if_neg (by lia)]

theorem Tracks.newRegion (h : Tracks s v oid) {ptr size : ValueId} (hp : ptr ≠ v) (ms : MemorySpace) :
    Tracks (s.newRegion ptr size ms) v oid := by
  have hne : s.statics.nextObjectIdToGive ≠ oid := Int.ne_of_gt h.known
  refine ⟨h.given, h.abstracted, h.pos, ?_, ?_, ?_⟩
  · exact Int.lt_trans h.known (Int.lt_succ s.statics.nextObjectIdToGive)
  · obtain ⟨a, ha, hv⟩ := h.held
    exact ⟨a, List.mem_append_left _ ha, hv⟩
  · intro e he hv
    have hex : (s.newRegion ptr size ms).Exists oid ↔ s.Exists oid := by
      simp only [MemState.Exists, MemState.newRegion, MemState.objects_addHandle, MemState.objects_setObject, if_neg hne]
      rfl
    rw [MemState.current_congr hex]
    rcases MemState.edge_addHandle.1 he with he | rfl
    · rcases MemState.edge_setObject he with he | he
      · exact h.edge e he hv
      · cases he
    · exact absurd hv hp

/-- Every elementary change keeps track of the pointers into a region. -/
theorem Edit.tracks {t : MemState} (h : Edit s t) (hv : Tracks s v oid) : Tracks t v oid := by
  have hheld : ∀ e, s.Edge e → ∀ e' : PtEdge, e'.value = e.value → e'.targetObjectId = e.targetObjectId →
      ∃ a, s.Edge a ∧ a.value = e'.value ∧ a.targetObjectId = e'.targetObjectId :=
    fun e he e' h1 h2 => ⟨e, he, h1.symm, h2.symm⟩
  cases h with
  | container hext =>
    exact ⟨hext.given hv.given, (hext.constant hv.given).trans hv.abstracted, hv.pos,
      Int.lt_of_lt_of_le hv.known hext.nextObjectId, hv.held, hv.edge⟩
  | unknown hp hnone =>
    refine hv.addHandle (Or.inl fun heq => ?_)
    obtain ⟨a, ha, hav⟩ := hv.held
    exact lookup_eq_none.1 hnone a ha (hav.trans heq.symm)
  | @derive base value offset hb _ _ hnew =>
    refine hv.addHandle (Or.inl fun heq => ?_)
    have hval : value = v := heq
    subst hval
    rcases hnew with hc | hun
    · exact hv.not_constant hc
    · obtain ⟨a, ha, hav⟩ := hv.held
      exact hun a (Or.inl ha) hav
  | allocate _ hun _ =>
    refine hv.newRegion (fun heq => ?_) _
    obtain ⟨a, ha, hav⟩ := hv.held
    exact hun a (Or.inl ha) (hav.trans heq.symm)
  | load ho he => exact hv.addHandle (Or.inr (hheld _ (Or.inr ⟨_, _, ho, he⟩) _ rfl rfl))
  | plain _ ho _ _ => exact hv.setObject ⟨_, ho⟩ fun e he => ⟨e, Or.inr ⟨_, _, ho, he⟩, rfl, rfl⟩
  | pointer _ ho _ hh =>
    refine hv.setObject ⟨_, ho⟩ fun e he => ?_
    rcases mem_upsert he with he | ⟨a, ha, _, rfl⟩ | rfl
    · exact hheld _ (Or.inr ⟨_, _, ho, he⟩) _ rfl rfl
    · exact hheld _ (Or.inl hh) _ rfl rfl
    · exact hheld _ (Or.inl hh) _ rfl rfl
  | hide _ ho _ _ =>
    refine hv.setObject ⟨_, ho⟩ fun e he => ?_
    rcases mem_modifyFirst he with he | ⟨a, ha, _, rfl⟩
    · exact hheld _ (Or.inr ⟨_, _, ho, he⟩) _ rfl rfl
    · exact hheld _ (Or.inr ⟨_, _, ho, ha⟩) _ rfl rfl
  | free h0 _ => exact hv.freed h0

/-- `FindPtEdge` finds a copy. -/
theorem Tracks.resolve (h : Tracks s v oid) : (s.resolve v).targetObjectId = s.current oid := by
  obtain ⟨a, ha, hav⟩ := h.held
  obtain ⟨e, he⟩ : ∃ e, lookup (·.value) v s.graph.handles = some e := lookup_isSome ha hav
  rw [(resolve_of_lookup he).1]
  exact h.edge e (Or.inl (lookup_some he).1) (lookup_some he).2

theorem Tracks.touch (h : Tracks s v oid) : s.touch v = s := by
  obtain ⟨a, ha, hav⟩ := h.held
  obtain ⟨e, he⟩ : ∃ e, lookup (·.value) v s.graph.handles = some e := lookup_isSome ha hav
  exact (resolve_of_lookup he).2

end Tracks

/-! ## Pointers into a region -/

/-- The cell that the pointer resolves to holds the value for reads of the type. -/
def MemState.Holds (s : MemState) (ptr : ValueId) (type : Ty) (v : ValueId) : Prop :=
  ∃ l, s.memory (s.resolve ptr).targetObjectId = some l ∧
    l.read type.isPointer (s.resolve ptr).targetOffset = some v

/-- The value is a pointer into the region, by the events so far: an allocation returned it, a derivation from such a
pointer, or a load from a cell where such a pointer is stored. -/
def PointerInto (oid : ObjectId) : GraphHistory → ValueId → Prop
  | [], _ => False
  | e :: es, v => PointerInto oid es v ∨ (e.out = .ok (some v) ∧
      match e.op with
      | .allocateRegion _ _ => e.pre.statics.nextObjectIdToGive = oid
      | .createDerivedPointer p _ => PointerInto oid es p
      | .readValue p t => ∃ w, e.pre.Holds p t w ∧ PointerInto oid es w
      | _ => False)

section Pointers

variable [DataLayout] {es : GraphHistory} {s : MemState} {v : ValueId} {oid : ObjectId}

/-- The pointer to a new region. -/
theorem tracks_allocate (hs : GraphOk s) {type : Ty} {ms : MemorySpace}
    (h : ((GraphOp.allocateRegion type ms).exec s).1 = .ok (some v)) :
    Tracks ((GraphOp.allocateRegion type ms).exec s).2 v s.statics.nextObjectIdToGive := by
  obtain ⟨size, t, hg, hid, hlt, hnone, _, heq⟩ := allocateRegion_spec hs type ms
  rw [GraphOp.exec_of_ok (.allocateRegion type ms) rfl heq] at h ⊢
  cases h
  have hold : ∀ e, s.Edge e → e.value ≠ s.statics.nextIdToGive := hs.unused_next (Int.le_refl _)
  refine ⟨⟨hs.const.counter, hlt⟩, hnone, hs.counter, ?_, ?_, ?_⟩
  · exact hid ▸ Int.lt_succ t.statics.nextObjectIdToGive
  · exact ⟨_, List.mem_append_right _ (List.mem_singleton_self _), rfl⟩
  · intro e he hv
    rcases MemState.edge_addHandle.1 he with he | rfl
    · rcases MemState.edge_setObject he with he | he
      · exact absurd hv (hold e he)
      · cases he
    · rw [MemState.current_of_exists]
      · exact hid
      · exact ⟨_, (MemState.objects_setObject _ _ _ _).trans (if_pos hid)⟩

/-- A pointer derived from a pointer into a region. -/
theorem tracks_derive (hs : GraphOk s) {p offset : ValueId} (hp : Tracks s p oid)
    (h : ((GraphOp.createDerivedPointer p offset).exec s).1 = .ok (some v)) :
    Tracks ((GraphOp.createDerivedPointer p offset).exec s).2 v oid := by
  obtain ⟨o, w, t, hd, heq⟩ := createDerivedPointer_spec hs hp.given offset
  rw [hp.touch] at heq
  rw [GraphOp.exec_of_ok (.createDerivedPointer p offset) rfl heq] at h ⊢
  cases h
  obtain ⟨hnew, hnone⟩ := hd.value_unknown hp.abstracted
  have hold : ∀ e, s.Edge e → e.value ≠ w := hs.unused_next hnew
  refine ⟨hd.valueFresh.given, hnone, hp.pos, Int.lt_of_lt_of_le hp.known hd.grows.nextObjectId, ?_, ?_⟩
  · exact ⟨_, List.mem_append_right _ (List.mem_singleton_self _), rfl⟩
  · intro e he hv
    rcases MemState.edge_addHandle.1 he with he | rfl
    · exact absurd hv (hold e he)
    · exact hp.resolve

/-- A load returns the value that is stored. -/
theorem readValue_holds (hs : GraphOk s) {p w : ValueId} {t : Ty} (hw : s.Holds p t w)
    (h : ((GraphOp.readValue p t).exec s).1 = .ok (some v)) : v = w := by
  obtain ⟨l, hl, hread⟩ := hw
  obtain ⟨u, hu⟩ := readValue_of_memory hs hl t
  obtain ⟨a, ha, hav⟩ := GraphOp.ok_of_exec (.readValue p t) rfl h
  rw [hread, Option.getD_some, ha] at hu
  cases hu
  exact (Option.some.inj hav).symm

theorem run_tracks (h : GraphRun es s) : ∀ {v oid}, PointerInto oid es v → Tracks s v oid := by
  refine h.invariant (I := fun es s => ∀ {v oid}, PointerInto oid es v → Tracks s v oid) ?_ ?_
  · intro s _ v oid hv
    exact hv.elim
  · intro es s op hr ha ih v oid hv
    have hs := run_graphOk hr
    rcases hv with hv | ⟨hout, hv⟩
    · exact (exec_edits hs ha).induct (fun h _ => h.tracks) hs (ih hv)
    · cases op with
      | allocateRegion t ms =>
        have hid : s.statics.nextObjectIdToGive = oid := hv
        subst hid
        exact tracks_allocate hs hout
      | createDerivedPointer p o => exact tracks_derive hs (ih hv) hout
      | readValue p t =>
        obtain ⟨w, hw, hp⟩ : ∃ w, s.Holds p t w ∧ PointerInto oid es w := hv
        have hvw : v = w := readValue_holds hs hw hout
        subst hvw
        exact (exec_edits hs ha).induct (fun h _ => h.tracks) hs (ih hp)
      | writeValue | free | memclear | container => exact hv.elim

omit [DataLayout] in
theorem PointerInto.allocated : ∀ {es : GraphHistory} {v : ValueId}, PointerInto oid es v → Allocated es oid
  | [], _, h => h.elim
  | e :: es, v, h => by
    have hmono : Allocated es oid → Allocated (e :: es) oid := fun ⟨a, ha, hp⟩ => ⟨a, List.mem_cons_of_mem _ ha, hp⟩
    rcases h with h | ⟨_, h⟩
    · exact hmono h.allocated
    · cases hop : e.op with
      | allocateRegion t ms =>
        rw [hop] at h
        exact ⟨e, List.mem_cons_self, ⟨t, ms, hop⟩, h⟩
      | createDerivedPointer p o =>
        rw [hop] at h
        have hp : PointerInto oid es p := h
        exact hmono hp.allocated
      | readValue p t =>
        rw [hop] at h
        obtain ⟨w, _, hw⟩ : ∃ w, e.pre.Holds p t w ∧ PointerInto oid es w := h
        exact hmono hw.allocated
      | writeValue | free | memclear | container =>
        rw [hop] at h
        exact h.elim

/-- A pointer into a region resolves to the region as long as it is not freed, and to the freed object from then on,
when every access through it and every further `Free` throws. -/
theorem pointer_provenance (h : GraphRun es s) (hv : PointerInto oid es v) :
    (¬ Freed es oid → (∃ e, findPtEdge v s = .ok e s ∧ e.targetObjectId = oid) ∧ s.Exists oid ∧ 0 < oid) ∧
    (Freed es oid → (∃ e, findPtEdge v s = .ok e s ∧ e.targetObjectId = -2) ∧
      (∀ type, readValue v type s = .error .invalidDereference s) ∧
      (∀ value type, writeValue v value type s = .error .invalidDereference s) ∧
      free v s = .error .doubleFree s) := by
  have ht := run_tracks h hv
  have hl := run_lifetimes h
  have hfind : findPtEdge v s = .ok (s.resolve v) s := by
    rw [findPtEdge_eq, ht.touch]
  constructor
  · intro hf
    have hex := (hl.live oid ht.pos).2 ⟨hv.allocated, hf⟩
    exact ⟨⟨_, hfind, ht.resolve.trans (MemState.current_of_exists hex)⟩, hex, ht.pos⟩
  · intro hf
    have hgone : ¬ s.Exists oid := fun hex => ((hl.live oid ht.pos).1 hex).2 hf
    have htarget : (s.resolve v).targetObjectId = -2 := ht.resolve.trans (MemState.current_of_not_exists hgone)
    have herr : accessError (s.resolve v).targetObjectId = .invalidDereference := by
      rw [htarget]; rfl
    refine ⟨⟨_, hfind, htarget⟩, fun type => ?_, fun value type => ?_, ?_⟩
    · rw [readValue_error (Or.inr (Or.inr htarget)), herr, ht.touch]
    · rw [writeValue_error (Or.inr (Or.inr htarget)), herr, ht.touch]
    · rw [free_freed htarget, ht.touch]

end Pointers

section Example

attribute [local instance] Ty.x86

/-- The pointer to a byte is stored in another region. The byte is freed, and the pointer loaded back. -/
def storedPointer : GraphHistory × MemState :=
  play GraphOp.exec [] MemState.new [.allocateRegion (.int 8) .heap, .allocateRegion Ty.charPointer .heap,
    .writeValue 3 1 Ty.charPointer, .free 1, .readValue 3 Ty.charPointer]

theorem storedPointer_run : GraphRun storedPointer.1 storedPointer.2 := Run.play (Run.start rfl) (by decide +kernel)

/-- By the load, from a cell that holds the pointer of the allocation. -/
theorem storedPointer_loaded : PointerInto 1 storedPointer.1 1 :=
  Or.inr ⟨rfl, 1, ⟨_, rfl, by decide +kernel⟩, Or.inl (Or.inl (Or.inl (Or.inr ⟨rfl, rfl⟩)))⟩

theorem storedPointer_freed : Freed storedPointer.1 1 :=
  ⟨_, List.mem_cons_of_mem _ List.mem_cons_self, 1, rfl, rfl, rfl⟩

theorem pointer_provenance_freed : storedPointer.1.head?.map (·.out) = some (.ok (some 1)) ∧
    readValue 1 (.int 8) storedPointer.2 = .error .invalidDereference storedPointer.2 ∧
    free 1 storedPointer.2 = .error .doubleFree storedPointer.2 := by
  obtain ⟨-, hread, -, hfree⟩ := (pointer_provenance storedPointer_run storedPointer_loaded).2 storedPointer_freed
  exact ⟨rfl, hread _, hfree⟩

end Example

end Angie
