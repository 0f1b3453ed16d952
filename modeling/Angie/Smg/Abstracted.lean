import Angie.Smg.Abstraction
import Angie.Smg.Integrity

/-!
# Reading after the abstraction

A segment keeps two edges, the next edge of its second object and the previous edge of its first one, and no other
field. What was read from another object is read again, and a field that the segment does not have gives a new
unknown. But a pointer to the first object finds the next edge of the second one, and a pointer to the second object
the previous edge of the first one: `MemState.Misreads`. These are the only reads that give another known value
(`reading_kept_iff`).
-/

namespace Angie

open Exec KeyedList Trace

/-! ## The property -/

/-- The value is a constant or a pointer with an edge. -/
def MemState.Known (s : MemState) (v : ValueId) : Prop :=
  s.vc.isConstant v = true ∨ s.graph.existsPtEdge v = true

/-- The pointer leads to the next field of the first object, or to the previous field of the second one, and the other
object has another pointer there. -/
def MemState.Misreads (s : MemState) (ptr : ValueId) (type : Ty) : Prop :=
  type.isPointer = true ∧ ∃ o1 o2 offsets, ∃ e e' : PtEdge, s.candidatePair = some (o1, o2, offsets) ∧
    e.value ≠ e'.value ∧
    (((s.resolve ptr).targetObjectId = o1.id ∧ (s.resolve ptr).targetOffset = offsets.nfo ∧
        o1.findPtEdgeByOffset offsets.nfo = some e ∧ o2.findPtEdgeByOffset offsets.nfo = some e') ∨
      ((s.resolve ptr).targetObjectId = o2.id ∧ (s.resolve ptr).targetOffset = offsets.pfo ∧
        offsets.pfo ≠ offsets.nfo ∧ o2.findPtEdgeByOffset offsets.pfo = some e ∧
        o1.findPtEdgeByOffset offsets.pfo = some e'))

/-! ## Reading -/

/-- What an object answers to a read at an offset, if it has the field. -/
def Object.readAt (o : Object) (offset : ValueId) (type : Ty) : Option ValueId :=
  match (if type.isPointer then o.findPtEdgeByOffset offset else none) with
  | some e => some e.value
  | none => (o.findHvEdgeByOffset offset).map (·.value)

theorem readAt_pointer {o : Object} {offset : ValueId} {type : Ty} {e : PtEdge} (ht : type.isPointer = true)
    (he : o.findPtEdgeByOffset offset = some e) : o.readAt offset type = some e.value := by
  simp [Object.readAt, ht, he]

section Reading

variable {s : MemState} {ptr : ValueId} {type : Ty}

/-- Reading a region: the field, or a new unknown. -/
theorem readValue_readAt (type : Ty) {o : Object} (h0 : 0 < (s.resolve ptr).targetObjectId)
    (ho : s.graph.objects[(s.resolve ptr).targetObjectId]? = some o) :
    ∃ t, readValue ptr type s =
        .ok ((o.readAt (s.resolve ptr).targetOffset type).getD s.statics.nextIdToGive) t ∧ t.vc = s.vc ∧
      s.graph.handles ⊆ t.graph.handles ∧
      (o.readAt (s.resolve ptr).targetOffset type = none → t.graph.handles = s.graph.handles) := by
  rw [readValue_region h0 ho]
  unfold Object.readAt
  cases (if type.isPointer then o.findPtEdgeByOffset (s.resolve ptr).targetOffset else none) with
  | some e => exact ⟨_, rfl, rfl, List.subset_append_left _ _, nofun⟩
  | none =>
    dsimp only
    cases o.findHvEdgeByOffset (s.resolve ptr).targetOffset with
    | some e => exact ⟨s, rfl, rfl, List.Subset.refl _, nofun⟩
    | none => exact ⟨_, rfl, rfl, List.Subset.refl _, fun _ => rfl⟩

/-- A read that returned was from a region. -/
theorem region_of_readValue (hs : GraphOk s) {v : ValueId} {t : MemState} (h : readValue ptr type s = .ok v t) :
    0 < (s.resolve ptr).targetObjectId ∧ ∃ o, s.graph.objects[(s.resolve ptr).targetObjectId]? = some o ∧
      v = (o.readAt (s.resolve ptr).targetOffset type).getD s.statics.nextIdToGive := by
  rcases resolve_target_cases hs ptr with h0 | h0 | h0 | ⟨h0, o, ho⟩
  · rw [readValue_error (Or.inl h0)] at h; cases h
  · rw [readValue_error (Or.inr (Or.inl h0))] at h; cases h
  · rw [readValue_error (Or.inr (Or.inr h0))] at h; cases h
  · obtain ⟨t', ht', -⟩ := readValue_readAt type h0 ho
    rw [h] at ht'
    cases ht'
    exact ⟨h0, o, ho, rfl⟩

/-! ## The joined graph -/

variable {id1 id2 : ObjectId} {offsets : DlsOffsets} {nextEdge prevEdge : PtEdge}

theorem resolve_joined (h : (s.resolve ptr).targetObjectId ≠ -1) :
    (s.joined id1 id2 offsets nextEdge prevEdge).resolve ptr =
      (s.resolve ptr).join id1 id2 s.statics.nextObjectIdToGive := by
  cases hl : lookup (·.value) ptr s.graph.handles with
  | some e =>
    rw [(resolve_of_lookup hl).1]
    refine (resolve_of_lookup ?_).1
    rw [handles_joined, lookup_map fun e => PtEdge.join_value _ _ _ e, hl]
    rfl
  | none =>
    rw [(resolve_of_none hl).1] at h
    exact absurd rfl h

theorem findPtEdge_joinEdges (o : Object) (dlsId : ObjectId) (offset : ValueId) :
    (o.joinEdges id1 id2 dlsId).findPtEdgeByOffset offset =
      (o.findPtEdgeByOffset offset).map (·.join id1 id2 dlsId) :=
  lookup_map (fun e => PtEdge.join_sourceOffset _ _ _ e) _

/-- Joining leaves the values in the fields of an object. -/
theorem readAt_joinEdges (o : Object) (dlsId : ObjectId) (offset : ValueId) :
    (o.joinEdges id1 id2 dlsId).readAt offset type = o.readAt offset type := by
  unfold Object.readAt
  rw [findPtEdge_joinEdges]
  cases type.isPointer with
  | false => rfl
  | true =>
    cases o.findPtEdgeByOffset offset with
    | some e => simp
    | none => rfl

/-- The fields of a segment. -/
theorem readAt_dls (dlsId : ObjectId) (offset : ValueId) :
    (Object.dls dlsId 2 offsets [nextEdge, prevEdge]).readAt offset type =
      if type.isPointer then
        if nextEdge.sourceOffset = offset then some nextEdge.value
        else if prevEdge.sourceOffset = offset then some prevEdge.value else none
      else none := by
  unfold Object.readAt Object.findPtEdgeByOffset
  cases type.isPointer with
  | false => rfl
  | true =>
    by_cases hnext : nextEdge.sourceOffset = offset
    · simp [Object.dls, lookup, hnext]
    · by_cases hprev : prevEdge.sourceOffset = offset
      · simp [Object.dls, lookup, hnext, hprev]
      · simp [Object.dls, lookup, hnext, hprev, Object.findHvEdgeByOffset]

theorem readAt_dls_some {dlsId : ObjectId} {offset w : ValueId}
    (h : (Object.dls dlsId 2 offsets [nextEdge, prevEdge]).readAt offset type = some w) :
    w = nextEdge.value ∨ w = prevEdge.value := by
  rw [readAt_dls] at h
  split at h
  · split at h
    · exact Or.inl (Option.some.inj h).symm
    · split at h
      · exact Or.inr (Option.some.inj h).symm
      · cases h
  · cases h

end Reading

/-! ## What is kept -/

section Kept

variable [DataLayout] {es : GraphHistory} {s t : MemState}

theorem run_sound (h : GraphRun es s) : s.Sound := by
  refine h.invariant (I := fun _ s => s.Sound) ?_ ?_
  · rintro s rfl
    exact new_worldSound MemState.new.vc MemState.new.graph (List.mem_singleton_self _)
  · intro es s op _ _ hs
    exact (exec_kept sound_kept hs op).1

omit [DataLayout] in
theorem existsPtEdge_iff {g : Graph} {v : ValueId} : g.existsPtEdge v = true ↔ ∃ h ∈ g.handles, h.value = v := by
  unfold Graph.existsPtEdge
  cases hl : lookup (·.value) v g.handles with
  | some e => simpa using ⟨e, lookup_some hl⟩
  | none =>
    have hno := lookup_eq_none.1 hl
    simpa using hno

variable {ptr : ValueId} {type : Ty} {o1 o2 o : Object} {offsets : DlsOffsets} {nextEdge prevEdge : PtEdge}

omit [DataLayout] in
/-- An object that was not joined answers as before. -/
theorem reads_apart (offsets : DlsOffsets) (nextEdge prevEdge : PtEdge) (type : Ty) (hs : GraphOk s)
    (h0 : 0 < (s.resolve ptr).targetObjectId) (ho : s.graph.objects[(s.resolve ptr).targetObjectId]? = some o)
    (hapart : ¬ ((s.resolve ptr).targetObjectId = o1.id ∨ (s.resolve ptr).targetObjectId = o2.id)) :
    ∃ t, readValue ptr type (s.joined o1.id o2.id offsets nextEdge prevEdge) =
      .ok ((o.readAt (s.resolve ptr).targetOffset type).getD s.statics.nextIdToGive) t := by
  have hkey := (hs.key _ o ho).2
  have hres : (s.joined o1.id o2.id offsets nextEdge prevEdge).resolve ptr = _ := resolve_joined (by lia)
  have htarget : ((s.joined o1.id o2.id offsets nextEdge prevEdge).resolve ptr).targetObjectId =
      (s.resolve ptr).targetObjectId := by rw [hres, PtEdge.join_target, if_neg hapart]
  have hobj : (s.joined o1.id o2.id offsets nextEdge prevEdge).graph.objects[(s.resolve ptr).targetObjectId]? =
      some (o.joinEdges o1.id o2.id s.statics.nextObjectIdToGive) := by
    rw [objects_joined, if_neg hapart, if_neg (by lia), ho]
    rfl
  rw [← htarget] at h0 hobj
  obtain ⟨t, ht, -⟩ := readValue_readAt type h0 hobj
  rw [readAt_joinEdges, hres, PtEdge.join_targetOffset] at ht
  exact ⟨t, ht⟩

omit [DataLayout] in
/-- The segment answers for both objects. -/
theorem reads_segment (offsets : DlsOffsets) (nextEdge prevEdge : PtEdge) (type : Ty) (hs : GraphOk s)
    (ho1 : s.graph.objects[o1.id]? = some o1) (ho2 : s.graph.objects[o2.id]? = some o2) (h0 : 0 < (s.resolve ptr).targetObjectId)
    (hin : (s.resolve ptr).targetObjectId = o1.id ∨ (s.resolve ptr).targetObjectId = o2.id) :
    ∃ t w, readValue ptr type (s.joined o1.id o2.id offsets nextEdge prevEdge) = .ok w t ∧
      w = ((Object.dls s.statics.nextObjectIdToGive 2 offsets [nextEdge, prevEdge]).readAt
        (s.resolve ptr).targetOffset type).getD s.statics.nextIdToGive ∧
      t.vc = s.vc ∧ (∀ h ∈ s.graph.handles, ∃ h' ∈ t.graph.handles, h'.value = h.value) ∧
      ((Object.dls s.statics.nextObjectIdToGive 2 offsets [nextEdge, prevEdge]).readAt
        (s.resolve ptr).targetOffset type = none →
        ∀ h' ∈ t.graph.handles, ∃ h ∈ s.graph.handles, h'.value = h.value) := by
  have hlt1 := (hs.key _ o1 ho1).2
  have hlt2 := (hs.key _ o2 ho2).2
  have hpos := hs.counter
  have hres : (s.joined o1.id o2.id offsets nextEdge prevEdge).resolve ptr = _ := resolve_joined (by lia)
  have htarget : ((s.joined o1.id o2.id offsets nextEdge prevEdge).resolve ptr).targetObjectId =
      s.statics.nextObjectIdToGive := by rw [hres, PtEdge.join_target, if_pos hin]
  have hobj : (s.joined o1.id o2.id offsets nextEdge prevEdge).graph.objects[s.statics.nextObjectIdToGive]? =
      some ((Object.dls s.statics.nextObjectIdToGive 2 offsets [nextEdge, prevEdge]).joinEdges o1.id o2.id
        s.statics.nextObjectIdToGive) := by
    rw [objects_joined, if_neg (by lia), if_pos rfl]
  rw [← htarget] at hpos hobj
  obtain ⟨t, ht, hvc, hsub, hsame⟩ := readValue_readAt type hpos hobj
  rw [readAt_joinEdges, hres, PtEdge.join_targetOffset, handles_joined] at *
  refine ⟨t, _, ht, rfl, hvc, fun h hh => ?_, fun hnone h' hh' => ?_⟩
  · exact ⟨_, hsub (List.mem_map_of_mem hh), PtEdge.join_value _ _ _ h⟩
  · rw [hsame hnone] at hh'
    obtain ⟨a, ha, rfl⟩ := List.mem_map.1 hh'
    exact ⟨a, ha, PtEdge.join_value _ _ _ a⟩

omit [DataLayout] in
/-- A new id is not known after a read that added no handle. -/
theorem not_known_next (hs : GraphOk s) {t : MemState} (hvc : t.vc = s.vc)
    (hhandles : ∀ h' ∈ t.graph.handles, ∃ h ∈ s.graph.handles, h'.value = h.value) :
    ¬ t.Known s.statics.nextIdToGive := by
  rintro (hconst | hptr)
  · have hnone : s.vc.constantContainer[s.statics.nextIdToGive]? = none := constant_next hs.const (Int.le_refl _)
    rw [hvc, isConstant_eq_false.2 hnone] at hconst
    cases hconst
  · obtain ⟨h', hh', hv'⟩ := existsPtEdge_iff.1 hptr
    obtain ⟨h, hh, hv⟩ := hhandles h' hh'
    exact hs.unused_next (Int.le_refl _) h (Or.inl hh) (hv.symm.trans hv')

omit [DataLayout] in
theorem misreads_iff (hpair : s.candidatePair = some (o1, o2, offsets)) : s.Misreads ptr type ↔
    type.isPointer = true ∧ ∃ e e' : PtEdge, e.value ≠ e'.value ∧
      (((s.resolve ptr).targetObjectId = o1.id ∧ (s.resolve ptr).targetOffset = offsets.nfo ∧
          o1.findPtEdgeByOffset offsets.nfo = some e ∧ o2.findPtEdgeByOffset offsets.nfo = some e') ∨
        ((s.resolve ptr).targetObjectId = o2.id ∧ (s.resolve ptr).targetOffset = offsets.pfo ∧
          offsets.pfo ≠ offsets.nfo ∧ o2.findPtEdgeByOffset offsets.pfo = some e ∧
          o1.findPtEdgeByOffset offsets.pfo = some e')) := by
  simp only [MemState.Misreads, hpair, Option.some.injEq, Prod.mk.injEq]
  constructor
  · rintro ⟨ht, _, _, _, e, e', ⟨rfl, rfl, rfl⟩, h⟩
    exact ⟨ht, e, e', h⟩
  · rintro ⟨ht, e, e', h⟩
    exact ⟨ht, o1, o2, offsets, e, e', ⟨rfl, rfl, rfl⟩, h⟩

section Segment

omit [DataLayout]

variable (ho1 : s.graph.objects[o1.id]? = some o1) (ho2 : s.graph.objects[o2.id]? = some o2)
  (hpair : s.candidatePair = some (o1, o2, offsets)) (hc : s.graph.Candidate o1 o2 offsets)
  (hnext : o2.findPtEdgeByOffset offsets.nfo = some nextEdge)
  (hprev : o1.findPtEdgeByOffset offsets.pfo = some prevEdge)
  (hin : (s.resolve ptr).targetObjectId = o1.id ∨ (s.resolve ptr).targetObjectId = o2.id)
  (ho : s.graph.objects[(s.resolve ptr).targetObjectId]? = some o)

include ho1 ho2 hpair hc hin ho

include hnext in
/-- The next field of the segment is the one of the second object. -/
theorem next_value_iff (htype : type.isPointer = true) (hoff : offsets.nfo = (s.resolve ptr).targetOffset) :
    o.readAt (s.resolve ptr).targetOffset type = some nextEdge.value ↔ ¬ s.Misreads ptr type := by
  have hsame : o1.id = o2.id → o1 = o2 := fun heq => Option.some.inj (ho1.symm.trans ((congrArg _ heq).trans ho2))
  rw [misreads_iff hpair, ← hoff]
  rcases hin with h1 | h2
  · obtain rfl : o = o1 := Option.some.inj (ho.symm.trans ((congrArg _ h1).trans ho1))
    obtain ⟨nfEdge, hmem, -, hnf, -⟩ := hc.next
    obtain ⟨e, he⟩ : ∃ e, o.findPtEdgeByOffset offsets.nfo = some e := lookup_isSome hmem hnf
    rw [readAt_pointer htype he]
    constructor
    · rintro heq ⟨-, a, a', hne, ⟨-, -, ha, ha'⟩ | ⟨-, hoff', hno, -⟩⟩
      · have hae : a = e := Option.some.inj (ha.symm.trans he)
        have hae' : a' = nextEdge := Option.some.inj (ha'.symm.trans hnext)
        rw [hae, hae'] at hne
        exact hne (Option.some.inj heq)
      · exact hno hoff'.symm
    · intro hno
      by_contra hne
      exact hno ⟨htype, e, nextEdge, fun heq => hne (congrArg some heq), Or.inl ⟨h1, rfl, he, hnext⟩⟩
  · obtain rfl : o = o2 := Option.some.inj (ho.symm.trans ((congrArg _ h2).trans ho2))
    refine iff_of_true (readAt_pointer htype hnext) ?_
    rintro ⟨-, a, a', hne, ⟨h1, -, ha, ha'⟩ | ⟨-, hoff', hno, -⟩⟩
    · rw [hsame (h1.symm.trans h2)] at ha
      exact hne (congrArg (·.value) (Option.some.inj (ha.symm.trans ha')))
    · exact hno hoff'.symm

include hprev in
/-- The previous field of the segment is the one of the first object. -/
theorem prev_value_iff (htype : type.isPointer = true) (hoff : offsets.pfo = (s.resolve ptr).targetOffset)
    (hnoff : ¬ offsets.nfo = offsets.pfo) :
    o.readAt (s.resolve ptr).targetOffset type = some prevEdge.value ↔ ¬ s.Misreads ptr type := by
  have hsame : o1.id = o2.id → o1 = o2 := fun heq => Option.some.inj (ho1.symm.trans ((congrArg _ heq).trans ho2))
  rw [misreads_iff hpair, ← hoff]
  rcases hin with h1 | h2
  · obtain rfl : o = o1 := Option.some.inj (ho.symm.trans ((congrArg _ h1).trans ho1))
    refine iff_of_true (readAt_pointer htype hprev) ?_
    rintro ⟨-, a, a', hne, ⟨-, hoff', -⟩ | ⟨h2, -, -, ha, ha'⟩⟩
    · exact hnoff hoff'.symm
    · rw [← hsame (h1.symm.trans h2)] at ha
      exact hne (congrArg (·.value) (Option.some.inj (ha.symm.trans ha')))
  · obtain rfl : o = o2 := Option.some.inj (ho.symm.trans ((congrArg _ h2).trans ho2))
    obtain ⟨pfEdge, hmem, -, -, hpf⟩ := hc.prev
    obtain ⟨e, he⟩ : ∃ e, o.findPtEdgeByOffset offsets.pfo = some e := lookup_isSome hmem hpf
    rw [readAt_pointer htype he]
    constructor
    · rintro heq ⟨-, a, a', hne, ⟨-, hoff', -⟩ | ⟨-, -, -, ha, ha'⟩⟩
      · exact hnoff hoff'.symm
      · have hae : a = e := Option.some.inj (ha.symm.trans he)
        have hae' : a' = prevEdge := Option.some.inj (ha'.symm.trans hprev)
        rw [hae, hae'] at hne
        exact hne (Option.some.inj heq)
    · intro hno
      by_contra hne
      exact hno ⟨htype, e, prevEdge, fun heq => hne (congrArg some heq), Or.inr ⟨h2, rfl, Ne.symm hnoff, he, hprev⟩⟩

include hnext hprev in
/-- A pointer into one of the joined objects reads the same from the segment, when the segment has the field, exactly
when the field is its own. -/
theorem segment_value_iff {w : ValueId} {dlsId : ObjectId}
    (hw : (Object.dls dlsId 2 offsets [nextEdge, prevEdge]).readAt (s.resolve ptr).targetOffset type = some w) :
    o.readAt (s.resolve ptr).targetOffset type = some w ↔ ¬ s.Misreads ptr type := by
  rw [readAt_dls, (lookup_some hnext).2, (lookup_some hprev).2] at hw
  split at hw
  · rename_i htype
    split at hw
    · rename_i hoff
      cases hw
      exact next_value_iff ho1 ho2 hpair hc hnext hin ho htype hoff
    · rename_i hnoff
      split at hw
      · rename_i hoff
        cases hw
        rw [← hoff] at hnoff
        exact prev_value_iff ho1 ho2 hpair hc hprev hin ho htype hoff hnoff
      · cases hw
  · cases hw

end Segment

omit [DataLayout] in
/-- The value of a stored edge was given out, and is known as long as the handles keep their values. -/
theorem stored_known (hs : GraphOk s) (hkept : ∀ h ∈ s.graph.handles, ∃ h' ∈ t.graph.handles, h'.value = h.value)
    {id : ObjectId} (ho : s.graph.objects[id]? = some o) {e : PtEdge} (he : e ∈ o.ptEdges) :
    t.Known e.value ∧ e.value < s.statics.nextIdToGive := by
  obtain ⟨k, hk, hkv⟩ := (hs.object id o ho).held e he
  obtain ⟨k', hk', hkv'⟩ := hkept k hk
  exact ⟨Or.inr (existsPtEdge_iff.2 ⟨k', hk', hkv'.trans hkv⟩), (hs.edge (Or.inr ⟨id, o, ho, he⟩)).value.2⟩

omit [DataLayout] in
/-- The value that a pointer finds in the segment was stored in one of the two objects. -/
theorem segment_value_stored (ho1 : s.graph.objects[o1.id]? = some o1) (ho2 : s.graph.objects[o2.id]? = some o2)
    (hnext : o2.findPtEdgeByOffset offsets.nfo = some nextEdge)
    (hprev : o1.findPtEdgeByOffset offsets.pfo = some prevEdge) {w k : ValueId} {dlsId : ObjectId}
    (hw : (Object.dls dlsId 2 offsets [nextEdge, prevEdge]).readAt k type = some w) :
    ∃ e : PtEdge, (∃ id : ObjectId, ∃ o, s.graph.objects[id]? = some o ∧ e ∈ o.ptEdges) ∧ e.value = w := by
  rcases readAt_dls_some hw with hval | hval
  · exact ⟨nextEdge, ⟨_, o2, ho2, (lookup_some hnext).1⟩, hval.symm⟩
  · exact ⟨prevEdge, ⟨_, o1, ho1, (lookup_some hprev).1⟩, hval.symm⟩

/-- After a search that succeeds, a pointer reads the value that it read before, or an unknown, exactly when it does
not lead to a field of one object that the segment took from the other one. -/
theorem reading_kept_iff (h : GraphRun es s) (hjoin : lookForCandidates s = .ok true t) {v : ValueId} {s' : MemState}
    (hread : readValue ptr type s = .ok v s') :
    (∃ v' t', readValue ptr type t = .ok v' t' ∧ (v' = v ∨ ¬ t'.Known v')) ↔ ¬ s.Misreads ptr type := by
  have hs := run_graphOk h
  have hid := (run_sound h).intact.id
  obtain ⟨o1, o2, offsets, nextEdge, prevEdge, hpair, ho1, ho2, hc, hnext, hprev, rfl⟩ :=
    lookForCandidates_true hid hjoin
  obtain ⟨h0, o, ho, hv⟩ := region_of_readValue hs hread
  by_cases hin : (s.resolve ptr).targetObjectId = o1.id ∨ (s.resolve ptr).targetObjectId = o2.id
  · obtain ⟨t, w, ht, hw, hvc, hkept, hnew⟩ := reads_segment offsets nextEdge prevEdge type
      hs ho1 ho2 h0 hin
    cases hdls : (Object.dls s.statics.nextObjectIdToGive 2 offsets [nextEdge, prevEdge]).readAt
      (s.resolve ptr).targetOffset type with
    | none =>
      -- the segment does not have the field
      rw [hdls] at hw
      refine iff_of_true ⟨w, t, ht, Or.inr ?_⟩ fun hmis => ?_
      · rw [hw]
        exact not_known_next hs hvc (hnew hdls)
      · rw [readAt_dls, (lookup_some hnext).2, (lookup_some hprev).2] at hdls
        obtain ⟨htype, e, e', -, ⟨-, hoff, -⟩ | ⟨-, hoff, -⟩⟩ := (misreads_iff hpair).1 hmis
        · simp [htype, hoff] at hdls
        · simp [htype, hoff] at hdls
          split at hdls <;> cases hdls
    | some w' =>
      rw [hdls, Option.getD_some] at hw
      subst hw
      obtain ⟨e, ⟨id, o', ho', he⟩, hew⟩ := segment_value_stored ho1 ho2 hnext hprev hdls
      obtain ⟨hknown, hgiven⟩ := stored_known hs hkept ho' he
      rw [hew] at hknown hgiven
      rw [← segment_value_iff ho1 ho2 hpair hc hnext hprev hin ho hdls]
      constructor
      · rintro ⟨v', t', ht', hv'⟩
        rw [ht] at ht'
        cases ht'
        have hwv : w = v := hv'.resolve_right (not_not.2 hknown)
        rw [hwv] at hgiven ⊢
        cases hread : o.readAt (s.resolve ptr).targetOffset type with
        | some x => rw [hv, hread, Option.getD_some]
        | none =>
          rw [hread, Option.getD_none] at hv
          rw [hv] at hgiven
          exact absurd hgiven (Int.lt_irrefl _)
      · intro heq
        rw [heq, Option.getD_some] at hv
        exact ⟨w, t, ht, Or.inl hv.symm⟩
  · obtain ⟨t, ht⟩ := reads_apart offsets nextEdge prevEdge type hs h0 ho hin
    constructor
    · rintro - hmis
      obtain ⟨-, e, e', -, ⟨h1, -⟩ | ⟨h2, -⟩⟩ := (misreads_iff hpair).1 hmis
      · exact hin (Or.inl h1)
      · exact hin (Or.inr h2)
    · intro _
      exact ⟨v, t, by rw [hv]; exact ht, Or.inl rfl⟩

end Kept

/-! ### Examples -/

section Example

attribute [local instance] Ty.x86

/-- Two regions, each pointing to the other one, between null pointers. -/
def linkedPair : GraphHistory × MemState :=
  play GraphOp.exec [] MemState.new [.container (.createConstIntVal 8), .container (.createConstIntVal 16),
    .allocateRegion (.array (.int 64) 3) .heap, .allocateRegion (.array (.int 64) 3) .heap,
    .createDerivedPointer 3 1, .createDerivedPointer 3 2, .createDerivedPointer 5 1, .createDerivedPointer 5 2,
    .writeValue 6 5 Ty.charPointer, .writeValue 7 0 Ty.charPointer,
    .writeValue 8 0 Ty.charPointer, .writeValue 9 3 Ty.charPointer]

theorem linkedPair_run : GraphRun linkedPair.1 linkedPair.2 := Run.play (Run.start rfl) (by decide +kernel)

def linkedPairJoined : MemState := final (lookForCandidates linkedPair.2)

theorem linkedPair_joins : lookForCandidates linkedPair.2 = .ok true linkedPairJoined := rfl

/-- The pointer `8` leads to the next pointer of the second region, which the segment keeps. -/
theorem linkedPair_reads : ¬ linkedPair.2.Misreads 8 Ty.charPointer := by
  have hpair : linkedPair.2.candidatePair = some (_, _, _) := rfl
  rw [misreads_iff hpair]
  rintro ⟨-, e, e', -, ⟨hobject, -⟩ | ⟨-, hoffset, -⟩⟩
  · exact absurd hobject (by decide +kernel)
  · exact absurd hoffset (by decide +kernel)

/-- It is null before and afterwards. -/
theorem linkedPair_kept : ∃ v' t', readValue 8 Ty.charPointer linkedPairJoined = .ok v' t' ∧ (v' = 0 ∨ ¬ t'.Known v') := by
  have hread : readValue 8 Ty.charPointer linkedPair.2 = .ok 0 (final (readValue 8 Ty.charPointer linkedPair.2)) := rfl
  exact (reading_kept_iff linkedPair_run linkedPair_joins hread).2 linkedPair_reads

/-- The next pointer of the first region is the second region before, and null afterwards. -/
theorem linkedPair_misread :
    (GraphRun linkedPair.1 linkedPair.2 ∧ lookForCandidates linkedPair.2 = .ok true linkedPairJoined) ∧
    (∃ s', readValue 6 Ty.charPointer linkedPair.2 = .ok 5 s') ∧
    ¬ ∃ v' t', readValue 6 Ty.charPointer linkedPairJoined = .ok v' t' ∧ (v' = 5 ∨ ¬ t'.Known v') := by
  refine ⟨⟨linkedPair_run, linkedPair_joins⟩, ⟨_, rfl⟩, ?_⟩
  rintro ⟨v', t', ht, h⟩
  have hnull : readValue 6 Ty.charPointer linkedPairJoined =
      .ok 0 (final (readValue 6 Ty.charPointer linkedPairJoined)) := rfl
  rw [hnull] at ht
  cases ht
  rcases h with h | h
  · cases h
  · exact h (Or.inl (by decide +kernel))

end Example

end Angie
