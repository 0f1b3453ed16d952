import Angie.Smg.Abstraction
import Angie.Smg.Integrity

/-!
# Joins keep the graph closed

- In a closed graph a candidate and its linked object can always be joined: the edges of the segment exist, the two
  objects are gone, every edge into them leads to the segment at the same offset, and nothing else changes
  (`join_closed`). The two may be one object, and may point to themselves and to each other.
- `FoldRun`: runs of the graph operations and of joins, as the search makes them (`lookForCandidates_join`). Their
  states are closed, and the special objects have no points-to edges (`run_joinable`).
-/

namespace Angie

open Exec KeyedList Trace

/-! ## One join -/

/-- An edge into one of the two objects leads to the segment, another one is as it was. -/
def PtEdge.turned (id1 id2 dlsId : ObjectId) (e : PtEdge) : PtEdge :=
  if e.targetObjectId = id1 ∨ e.targetObjectId = id2 then { e with targetObjectId := dlsId } else e

theorem PtEdge.join_turned (id1 id2 dlsId : ObjectId) : PtEdge.join id1 id2 dlsId = PtEdge.turned id1 id2 dlsId := by
  funext e
  rw [join_eq, turned]
  split <;> rfl

theorem mem_objects_iff {g : Graph} {id : ObjectId} : id ∈ g.objects ↔ ∃ o, g.objects[id]? = some o := by
  rw [Std.TreeMap.mem_iff_isSome_getElem?, Option.isSome_iff_exists]

theorem mem_of_object {g : Graph} {id : ObjectId} {o : Object} (h : g.objects[id]? = some o) : id ∈ g.objects :=
  mem_objects_iff.2 ⟨o, h⟩

section Joined

variable {s : MemState} {id1 id2 : ObjectId} {offsets : DlsOffsets} {nextEdge prevEdge : PtEdge}

/-- The two objects are gone, the segment is new. -/
theorem mem_joined {id : ObjectId} : id ∈ (s.joined id1 id2 offsets nextEdge prevEdge).graph.objects ↔
    id ≠ id1 ∧ id ≠ id2 ∧ (id = s.statics.nextObjectIdToGive ∨ id ∈ s.graph.objects) := by
  rw [mem_objects_iff, objects_joined]
  by_cases h : id = id1 ∨ id = id2
  · rw [if_pos h]
    exact iff_of_false (fun ⟨_, h'⟩ => by cases h') fun h' => h.elim h'.1 h'.2.1
  · rw [if_neg h]
    have hne := not_or.1 h
    by_cases hd : id = s.statics.nextObjectIdToGive
    · rw [if_pos hd]
      exact iff_of_true ⟨_, rfl⟩ ⟨hne.1, hne.2, Or.inl hd⟩
    · rw [if_neg hd]
      simp [hne, hd, mem_objects_iff]

/-- An edge after the join is one before it, turned. -/
theorem edge_joined (hnext : s.Edge nextEdge) (hprev : s.Edge prevEdge) {e : PtEdge}
    (he : (s.joined id1 id2 offsets nextEdge prevEdge).Edge e) :
    ∃ a, s.Edge a ∧ e = a.join id1 id2 s.statics.nextObjectIdToGive := by
  rcases he with he | ⟨id, o, ho, he⟩
  · rw [handles_joined] at he
    obtain ⟨a, ha, rfl⟩ := List.mem_map.1 he
    exact ⟨a, Or.inl ha, rfl⟩
  · obtain ⟨-, ⟨-, rfl⟩ | ⟨o', ho', rfl⟩⟩ := object_of_joined ho
    · -- the segment has copies of two edges
      obtain ⟨a, ha, rfl⟩ := List.mem_map.1 he
      rcases List.mem_cons.1 ha with rfl | ha
      · exact ⟨_, hnext, rfl⟩
      · rw [List.mem_singleton.1 ha]
        exact ⟨_, hprev, rfl⟩
    · obtain ⟨a, ha, rfl⟩ := List.mem_map.1 he
      exact ⟨a, Or.inr ⟨id, o', ho', ha⟩, rfl⟩

theorem MemState.Closed.joined (hs : s.Closed) (h1 : id1 ∈ s.graph.objects) (h2 : id2 ∈ s.graph.objects)
    (hnext : s.Edge nextEdge) (hprev : s.Edge prevEdge) : (s.joined id1 id2 offsets nextEdge prevEdge).Closed where
  edge := by
    intro e he
    obtain ⟨a, ha, rfl⟩ := edge_joined hnext hprev he
    have hb1 := hs.below id1 h1
    have hb2 := hs.below id2 h2
    rw [PtEdge.join_target, mem_joined]
    split
    · exact ⟨(Int.ne_of_lt hb1).symm, (Int.ne_of_lt hb2).symm, Or.inl rfl⟩
    · rename_i hne
      have hne := not_or.1 hne
      exact ⟨hne.1, hne.2, Or.inr (hs.edge a ha)⟩
  own := by
    intro id o ho
    obtain ⟨-, ⟨rfl, rfl⟩ | ⟨o', ho', rfl⟩⟩ := object_of_joined ho
    · rfl
    · exact hs.own id o' ho'
  below := by
    intro id hid
    have hcount : (s.joined id1 id2 offsets nextEdge prevEdge).statics.nextObjectIdToGive =
        s.statics.nextObjectIdToGive + 1 := rfl
    rw [hcount]
    obtain ⟨-, -, rfl | hid⟩ := mem_joined.1 hid
    · exact Int.lt_succ _
    · exact Int.lt_trans (hs.below id hid) (Int.lt_succ _)

end Joined

/-- What a pair that was found has: the linked object, with both objects in the graph, and the edges of the segment. -/
theorem candidate_edges {s : MemState} (hs : s.Closed) {c : Object} {offsets : DlsOffsets} {id : ObjectId}
    (h : s.graph.isCandidateObject c = .ok (some (offsets, id))) :
    ∃ o2 nextEdge prevEdge, s.graph.objects[id]? = some o2 ∧ o2.id = id ∧ s.graph.Candidate c o2 offsets ∧
      o2.findPtEdgeByOffset offsets.nfo = some nextEdge ∧ c.findPtEdgeByOffset offsets.pfo = some prevEdge := by
  obtain ⟨o2, hcand, rfl⟩ := isCandidateObject_some h
  obtain ⟨nfEdge, -, ho2, -⟩ := hcand.next
  have hown := hs.own _ o2 ho2
  obtain ⟨nextEdge, hnext⟩ := Option.isSome_iff_exists.1 hcand.nextField
  obtain ⟨prevEdge, hprev⟩ := Option.isSome_iff_exists.1 hcand.prevField
  exact ⟨o2, nextEdge, prevEdge, hown ▸ ho2, rfl, hcand, hnext, hprev⟩

theorem join_closed {s : MemState} (hs : s.Closed) {c : Object} (hc : s.graph.objects[c.id]? = some c)
    {offsets : DlsOffsets} {id : ObjectId} (h : s.graph.isCandidateObject c = .ok (some (offsets, id))) :
    ∃ o2 nextEdge prevEdge t, s.graph.objects[id]? = some o2 ∧ o2.findPtEdgeByOffset offsets.nfo = some nextEdge ∧
      c.findPtEdgeByOffset offsets.pfo = some prevEdge ∧ joinTwoRegions c o2 offsets s = .ok () t ∧
      (∀ e, t.Edge e → e.targetObjectId ∈ t.graph.objects) ∧
      c.id ∉ t.graph.objects ∧ id ∉ t.graph.objects ∧
      t.graph.handles = s.graph.handles.map (·.turned c.id id s.statics.nextObjectIdToGive) ∧
      (∀ id', id' ≠ c.id → id' ≠ id → id' ≠ s.statics.nextObjectIdToGive → t.graph.objects[id']? =
        s.graph.objects[id']?.map fun o =>
          { o with ptEdges := o.ptEdges.map (·.turned c.id id s.statics.nextObjectIdToGive) }) ∧
      s.statics.nextObjectIdToGive ∉ s.graph.objects ∧
      t.graph.objects[s.statics.nextObjectIdToGive]? =
        some (Object.dls s.statics.nextObjectIdToGive 2 offsets
          [nextEdge.turned c.id id s.statics.nextObjectIdToGive,
            prevEdge.turned c.id id s.statics.nextObjectIdToGive]) := by
  obtain ⟨o2, nextEdge, prevEdge, ho2, rfl, -, hnext, hprev⟩ := candidate_edges hs h
  have h1 := mem_of_object hc
  have h2 := mem_of_object ho2
  have hclosed : (s.joined c.id o2.id offsets nextEdge prevEdge).Closed :=
    hs.joined h1 h2 (Or.inr ⟨_, o2, ho2, (lookup_some hnext).1⟩) (Or.inr ⟨_, c, hc, (lookup_some hprev).1⟩)
  have hb1 := hs.below c.id h1
  have hb2 := hs.below o2.id h2
  refine ⟨o2, nextEdge, prevEdge, _, ho2, hnext, hprev, joinTwoRegions_eq hnext hprev, hclosed.edge, ?_, ?_, ?_, ?_,
    fun hmem => Int.lt_irrefl _ (hs.below _ hmem), ?_⟩
  · exact fun hmem => (mem_joined.1 hmem).1 rfl
  · exact fun hmem => (mem_joined.1 hmem).2.1 rfl
  · rw [handles_joined, PtEdge.join_turned]
  · intro id' hne1 hne2 hne
    rw [objects_joined, if_neg (not_or.2 ⟨hne1, hne2⟩), if_neg hne, ← PtEdge.join_turned]
    rfl
  · have hne : ¬ (s.statics.nextObjectIdToGive = c.id ∨ s.statics.nextObjectIdToGive = o2.id) := by lia
    rw [objects_joined, if_neg hne, if_pos rfl, ← PtEdge.join_turned]
    rfl

/-! ## Runs with joins -/

inductive FoldOp where
  | call (op : GraphOp)
  /-- The object with the id is joined with the one it is linked to, if it is a candidate. -/
  | join (id : ObjectId)

section Runs

variable [DataLayout]

/-- The join of an object that is a candidate. -/
def joinCandidate (id : ObjectId) : GraphM Unit := do
  let g := (← get).graph
  match g.objects[id]? with
  | none => return
  | some c =>
    match ← ofExcept (g.isCandidateObject c) with
    | none => return
    | some (offsets, linkedToObjectId) =>
      let linkedToObject ← ofExcept (g.targetObject linkedToObjectId)
      joinTwoRegions c linkedToObject offsets

def FoldOp.exec : FoldOp → MemState → Except Exn (Option ValueId) × MemState
  | .call op, s => op.exec s
  | .join id, s =>
    match joinCandidate id s with
    | .ok _ t => (.ok none, t)
    | .error e t => (.error e, t)

/-- The runs of graph operations and joins from a new graph. -/
abbrev FoldRun := Run FoldOp.exec (fun _ _ => True) (· = MemState.new)

/-! ## The invariant -/

/-- A grounded state whose special objects have no points-to edges. -/
structure MemState.Joinable (s : MemState) : Prop extends s.Grounded where
  bare : ∀ (id : ObjectId) o, s.graph.objects[id]? = some o → id ≤ 0 → o.ptEdges = []

omit [DataLayout] in
/-- A written object has the edges it had and one to the target of a handle, at most. -/
theorem edge_written {o : Object} {known : Option PtEdge} {offset value : ValueId} {type : Ty} {e : PtEdge}
    (he : e ∈ (o.written known offset value type).ptEdges) :
    (∃ a ∈ o.ptEdges, e.targetObjectId = a.targetObjectId) ∨
      ∃ a, known = some a ∧ e.targetObjectId = a.targetObjectId := by
  unfold Object.written at he
  split at he
  · cases known with
    | some a =>
      refine Or.imp id (fun h => ⟨a, rfl, h⟩) ?_
      rcases mem_upsert he with he | ⟨b, _, _, rfl⟩ | rfl
      · exact Or.inl ⟨e, he, rfl⟩
      · exact Or.inr rfl
      · exact Or.inr rfl
    | none =>
      rcases mem_modifyFirst he with he | ⟨b, hb, _, rfl⟩
      · exact Or.inl ⟨e, he, rfl⟩
      · exact Or.inl ⟨b, hb, rfl⟩
  · exact Or.inl ⟨e, he, rfl⟩

namespace MemState.Joinable

variable {s : MemState}

omit [DataLayout]

/-- A changed or new object that is not one of the special ones. -/
theorem setObject (h : s.Joinable) {id : ObjectId} {o : Object} (h0 : 0 < id)
    (hlt : id < s.statics.nextObjectIdToGive) (hid : o.id = id)
    (ho : ∀ e ∈ o.ptEdges, e.targetObjectId ∈ s.graph.objects) : (s.setObject id o).Joinable := by
  have hmem : ∀ {id'}, id' ∈ (s.setObject id o).graph.objects ↔ id = id' ∨ id' ∈ s.graph.objects := by
    intro id'
    simp [MemState.setObject, Std.TreeMap.mem_insert]
  refine ⟨⟨⟨?_, ?_, ?_⟩, hmem.2 (Or.inr h.null), hmem.2 (Or.inr h.unknown), hmem.2 (Or.inr h.freed), ?_⟩, ?_⟩
  · rintro e (he | ⟨id', o', ho', he⟩)
    · exact hmem.2 (Or.inr (h.edge e (Or.inl he)))
    · rw [objects_setObject] at ho'
      split at ho'
      · cases ho'
        exact hmem.2 (Or.inr (ho e he))
      · exact hmem.2 (Or.inr (h.edge e (Or.inr ⟨id', o', ho', he⟩)))
  · intro id' o' ho'
    rw [objects_setObject] at ho'
    split at ho'
    · rename_i heq
      cases ho'
      exact hid.trans heq
    · exact h.own id' o' ho'
  · intro id' hid'
    rcases hmem.1 hid' with rfl | hid'
    · exact hlt
    · exact h.below id' hid'
  · intro id' hid'
    rcases hmem.1 hid' with rfl | hid'
    · lia
    · exact h.least id' hid'
  · intro id' o' ho' hle
    rw [objects_setObject, if_neg (by lia)] at ho'
    exact h.bare id' o' ho' hle

theorem withVc (h : s.Joinable) {t : VcState} (ht : s.statics.nextObjectIdToGive ≤ t.statics.nextObjectIdToGive) :
    (s.withVc t).Joinable where
  edge := h.edge
  own := h.own
  below := fun id hid => Int.lt_of_lt_of_le (h.below id hid) ht
  null := h.null
  unknown := h.unknown
  freed := h.freed
  least := h.least
  bare := h.bare

theorem addHandle (h : s.Joinable) {e : PtEdge} (he : e.targetObjectId ∈ s.graph.objects) :
    (s.addHandle e).Joinable where
  edge := by
    rintro e' (he' | he')
    · rcases List.mem_append.1 he' with he' | he'
      · exact h.edge e' (Or.inl he')
      · rw [List.mem_singleton.1 he']
        exact he
    · exact h.edge e' (Or.inr he')
  own := h.own
  below := h.below
  null := h.null
  unknown := h.unknown
  freed := h.freed
  least := h.least
  bare := h.bare

theorem free (h : s.Joinable) {id : ObjectId} (hid : 0 < id) : (s.freed id).Joinable := by
  have hmem : ∀ {id'}, id' ∈ (s.freed id).graph.objects ↔ id ≠ id' ∧ id' ∈ s.graph.objects := by
    intro id'
    simp [MemState.freed]
  have hturn : ∀ a, s.Edge a → (a.retarget id).targetObjectId ∈ (s.freed id).graph.objects := by
    intro a ha
    rw [PtEdge.retarget_target, hmem]
    split
    · exact ⟨by lia, h.freed⟩
    · rename_i hne
      exact ⟨Ne.symm hne, h.edge a ha⟩
  refine ⟨⟨⟨?_, ?_, ?_⟩, hmem.2 ⟨by lia, h.null⟩, hmem.2 ⟨by lia, h.unknown⟩, hmem.2 ⟨by lia, h.freed⟩, ?_⟩, ?_⟩
  · rintro e (he | ⟨id', o, ho, he⟩)
    · obtain ⟨a, ha, rfl⟩ := List.mem_map.1 he
      exact hturn a (Or.inl ha)
    · obtain ⟨o', ho', rfl⟩ := object_of_freed ho
      obtain ⟨a, ha, rfl⟩ := List.mem_map.1 he
      exact hturn a (Or.inr ⟨id', o', ho', ha⟩)
  · intro id' o ho
    obtain ⟨o', ho', rfl⟩ := object_of_freed ho
    exact h.own id' o' ho'
  · exact fun id' hid' => h.below id' (hmem.1 hid').2
  · exact fun id' hid' => h.least id' (hmem.1 hid').2
  · intro id' o ho hle
    obtain ⟨o', ho', rfl⟩ := object_of_freed ho
    simp [Object.retargetEdges, h.bare id' o' ho' hle]

end MemState.Joinable

omit [DataLayout] in
theorem joinable_kept : Kept MemState.Joinable where
  grounded := fun h => h.toGrounded
  withVc := fun h ht => h.withVc ht
  addHandle := fun h he => h.addHandle he
  plain := by
    intro s id o h h0 ho offset value type
    refine h.setObject h0 (h.below id (mem_of_object ho)) (h.own id o ho) fun e he => ?_
    exact h.edge e (Or.inr ⟨id, o, ho, he⟩)
  written := by
    intro s id o h h0 ho offset value type
    refine h.setObject h0 (h.below id (mem_of_object ho)) ((written_id _ _ _).trans (h.own id o ho)) fun e he => ?_
    rcases edge_written he with ⟨a, ha, heq⟩ | ⟨a, ha, heq⟩
    · rw [heq]
      exact h.edge a (Or.inr ⟨id, o, ho, ha⟩)
    · rw [heq]
      exact h.edge a (Or.inl (lookup_some ha).1)
  region := by
    intro s t h ht size ms
    have hpos := h.below 0 h.null
    refine (h.withVc (by lia)).setObject hpos (Int.lt_of_lt_of_le (Int.lt_succ _) ht) rfl ?_
    exact fun e he => by cases he
  free := fun h h0 => h.free h0

/-! ## Joins in a run -/

section Join

omit [DataLayout]

variable {s : MemState}

theorem MemState.Joinable.pos_of_edge (hs : s.Joinable) {id : ObjectId} {o : Object}
    (ho : s.graph.objects[id]? = some o) {e : PtEdge} (he : e ∈ o.ptEdges) : 0 < id := by
  refine Int.not_le.1 fun hle => ?_
  rw [hs.bare id o ho hle] at he
  cases he

theorem MemState.Joinable.joined (hs : s.Joinable) {id1 id2 : ObjectId} (h1 : id1 ∈ s.graph.objects)
    (h2 : id2 ∈ s.graph.objects) (hpos1 : 0 < id1) (hpos2 : 0 < id2) {offsets : DlsOffsets}
    {nextEdge prevEdge : PtEdge} (hnext : s.Edge nextEdge) (hprev : s.Edge prevEdge) :
    (s.joined id1 id2 offsets nextEdge prevEdge).Joinable where
  toClosed := hs.toClosed.joined h1 h2 hnext hprev
  null := mem_joined.2 ⟨by lia, by lia, Or.inr hs.null⟩
  unknown := mem_joined.2 ⟨by lia, by lia, Or.inr hs.unknown⟩
  freed := mem_joined.2 ⟨by lia, by lia, Or.inr hs.freed⟩
  least := by
    intro id hid
    obtain ⟨-, -, rfl | hid⟩ := mem_joined.1 hid
    · have hpos := hs.below 0 hs.null
      lia
    · exact hs.least id hid
  bare := by
    intro id o ho hle
    have hpos := hs.below 0 hs.null
    rw [objects_joined, if_neg (by lia), if_neg (by lia)] at ho
    obtain ⟨o', ho', rfl⟩ := Option.map_eq_some_iff.1 ho
    simp [Object.joinEdges, hs.bare id o' ho' hle]

/-- A search in a closed graph does not fail: each edge it follows has a target. -/
theorem isCandidateObject_ok (hs : s.Closed) {c : Object} {id : ObjectId} (hc : s.graph.objects[id]? = some c) :
    ∃ r, s.graph.isCandidateObject c = .ok r := by
  have hedges : ∀ edges : List PtEdge, edges ⊆ c.ptEdges → ∃ r, s.graph.candidateAmong c edges = .ok r := by
    intro edges
    induction edges with
    | nil => exact fun _ => ⟨none, rfl⟩
    | cons e rest ih =>
      intro hsub
      obtain ⟨he, hrest⟩ := List.cons_subset.1 hsub
      obtain ⟨o2, ho2⟩ := mem_objects_iff.1 (hs.edge e (Or.inr ⟨id, c, hc, he⟩))
      rw [candidateAmong_cons ho2]
      split
      · split
        · exact ⟨_, rfl⟩
        · exact ih hrest
      · exact ih hrest
  exact hedges _ (List.Subset.refl _)

/-- A join returns: there was nothing to join, or a candidate was joined with its linked object. -/
theorem joinCandidate_cases (hs : s.Closed) (id : ObjectId) :
    joinCandidate id s = .ok () s ∨
    ∃ c o2 offsets nextEdge prevEdge, s.graph.objects[id]? = some c ∧
      s.graph.isCandidateObject c = .ok (some (offsets, o2.id)) ∧ s.graph.objects[o2.id]? = some o2 ∧
      s.graph.Candidate c o2 offsets ∧ o2.findPtEdgeByOffset offsets.nfo = some nextEdge ∧
      c.findPtEdgeByOffset offsets.pfo = some prevEdge ∧
      joinCandidate id s = .ok () (s.joined c.id o2.id offsets nextEdge prevEdge) := by
  unfold joinCandidate
  rw [bind_of_ok (get_apply s)]
  cases hc : s.graph.objects[id]? with
  | none => exact Or.inl rfl
  | some c =>
    obtain ⟨r, hr⟩ := isCandidateObject_ok hs hc
    cases r with
    | none => exact Or.inl (ofExcept_bind hr _ s)
    | some r =>
      obtain ⟨offsets, id2⟩ := r
      obtain ⟨o2, nextEdge, prevEdge, ho2, rfl, hcand, hnext, hprev⟩ := candidate_edges hs hr
      have htarget : s.graph.targetObject o2.id = .ok o2 := by
        unfold Graph.targetObject
        rw [ho2]
      refine Or.inr ⟨c, o2, offsets, nextEdge, prevEdge, rfl, hr, ho2, hcand, hnext, hprev, ?_⟩
      dsimp only
      rw [ofExcept_bind hr]
      dsimp only
      rw [ofExcept_bind htarget, joinTwoRegions_eq hnext hprev]

/-- The search is the join of some object. -/
theorem lookForCandidates_join {t : MemState} (hs : s.Closed) (h : lookForCandidates s = .ok true t) :
    ∃ id, joinCandidate id s = .ok () t := by
  obtain ⟨o1, o2, offsets, nextEdge, prevEdge, hpair, ho1, -, -, hnext, hprev, rfl⟩ := lookForCandidates_true hs.own h
  unfold MemState.candidatePair at hpair
  split at hpair
  · rename_i c offsets' id hfirst
    obtain ⟨o2', ho2', heq⟩ := Option.map_eq_some_iff.1 hpair
    cases heq
    have hcand := (firstCandidate_some hfirst).2
    have htarget : s.graph.targetObject id = .ok o2 := by
      unfold Graph.targetObject
      rw [ho2']
    refine ⟨o1.id, ?_⟩
    unfold joinCandidate
    rw [bind_of_ok (get_apply s), ho1]
    dsimp only
    rw [ofExcept_bind hcand]
    dsimp only
    rw [ofExcept_bind htarget, joinTwoRegions_eq hnext hprev]
  · cases hpair

theorem joinCandidate_joinable (hs : s.Joinable) (id : ObjectId) : ∃ t, joinCandidate id s = .ok () t ∧ t.Joinable := by
  rcases joinCandidate_cases hs.toClosed id with h |
    ⟨c, o2, offsets, nextEdge, prevEdge, hc, -, ho2, hcand, hnext, hprev, h⟩
  · exact ⟨s, h, hs⟩
  · have hid := hs.own id c hc
    subst hid
    -- both have edges, so that neither is a special object
    obtain ⟨nf, hnf, -⟩ := hcand.next
    obtain ⟨pf, hpf, -⟩ := hcand.prev
    exact ⟨_, h, hs.joined (mem_of_object hc) (mem_of_object ho2) (hs.pos_of_edge hc hnf) (hs.pos_of_edge ho2 hpf)
      (Or.inr ⟨_, o2, ho2, (lookup_some hnext).1⟩) (Or.inr ⟨_, c, hc, (lookup_some hprev).1⟩)⟩

end Join

theorem exec_joinable {s : MemState} (hs : s.Joinable) (op : FoldOp) : (op.exec s).2.Joinable := by
  cases op with
  | call op => exact (exec_kept joinable_kept hs op).1
  | join id =>
    obtain ⟨t, heq, ht⟩ := joinCandidate_joinable hs id
    simp only [FoldOp.exec, heq]
    exact ht

theorem run_joinable {es : List (Event MemState FoldOp (Except Exn (Option ValueId)))} {s : MemState}
    (h : FoldRun es s) : s.Joinable := by
  refine h.invariant (I := fun _ s => s.Joinable) ?_ ?_
  · rintro s rfl
    refine ⟨(new_worldSound MemState.new.vc MemState.new.graph (List.mem_singleton_self _)).grounded, ?_⟩
    intro id o ho _
    rw [(new_object ho).2]
    rfl
  · intro es s op _ _ hs
    exact exec_joinable hs op

end Runs

section Example

attribute [local instance] Ty.x86

/-- A region whose only field is a pointer to itself. -/
def selfNode : List (Event MemState FoldOp (Except Exn (Option ValueId))) × MemState :=
  play FoldOp.exec [] MemState.new
    [.call (.allocateRegion Ty.charPointer .heap), .call (.writeValue 1 1 Ty.charPointer)]

theorem selfNode_run : FoldRun selfNode.1 selfNode.2 := Run.play (Run.start rfl) ⟨trivial, trivial, trivial⟩

def selfObject : Object := { Object.region 1 with ptEdges := [PtEdge.handle 1 1], size := 2 }

theorem selfObject_stored : selfNode.2.graph.objects[(1 : ObjectId)]? = some selfObject := rfl

theorem selfObject_candidate : selfNode.2.graph.isCandidateObject selfObject = .ok (some (⟨0, 0, 0⟩, 1)) := rfl

/-- The region is joined with itself, and its handles lead to the segment. -/
theorem join_closed_self : ∃ t, joinTwoRegions selfObject selfObject ⟨0, 0, 0⟩ selfNode.2 = .ok () t ∧
    (∀ e, t.Edge e → e.targetObjectId ∈ t.graph.objects) ∧ (1 : ObjectId) ∉ t.graph.objects := by
  obtain ⟨o2, _, _, t, ho2, -, -, hjoin, hedge, hgone, -⟩ :=
    join_closed (run_joinable selfNode_run).toClosed (c := selfObject) selfObject_stored selfObject_candidate
  rw [selfObject_stored] at ho2
  cases ho2
  exact ⟨t, hjoin, hedge, hgone⟩

end Example

end Angie
