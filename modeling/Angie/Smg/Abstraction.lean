import Angie.Smg.Calls

/-!
# The abstraction

`Smg/Abstraction.hpp`: `LookForCandidates` looks for two objects of one size that point to each other and joins them to
a segment of a doubly linked list.

- `Graph.Candidate`: what a pair that was found satisfies (`isCandidateObject_some`);
- `MemState.joined`: the state after a join, which redirects every edge into the two objects to the segment;
- `lookForCandidates_true`, `lookForCandidates_false`: what the search does.
-/

namespace Angie

open Exec KeyedList

/-! ## The source -/

/-- `GetTargetObject`: the null pointer that `objects[…]` creates for a missing object is read. -/
def Graph.targetObject (g : Graph) (id : ObjectId) : Except Exn Object :=
  match g.objects[id]? with
  | some o => .ok o
  | none => .error (.undefinedBehaviour "null object")

/-- `GetPtEdgeByOffset`. -/
def Object.getPtEdgeByOffset (o : Object) (offset : ValueId) : Except Exn PtEdge :=
  match o.findPtEdgeByOffset offset with
  | some e => .ok e
  | none => .error (.undefinedBehaviour "Edge does not exist")

/-- `Dls::Create`, with what `JoinTwoRegions` sets; its size stays the default one. -/
def Object.dls (id : ObjectId) (minLength : ℕ) (offsets : DlsOffsets) (ptEdges : List PtEdge) : Object :=
  { id := id, kind := .dls minLength offsets, hvEdges := [], ptEdges := ptEdges, size := 0, memSpace := .heap }

/-- The test of `pfEdge`, an edge of the linked object, with the check that both objects have both fields. -/
def isPfEdge (o1 o2 : Object) (nfo hfo : ValueId) (pfEdge : PtEdge) : Bool :=
  pfEdge.targetObjectId == o1.id && pfEdge.targetOffset == hfo &&
    (o2.findPtEdgeByOffset nfo).isSome && (o1.findPtEdgeByOffset pfEdge.sourceOffset).isSome

/-- The loop of `IsCandidateObject` over the edges of the candidate. -/
def Graph.candidateAmong (g : Graph) (o1 : Object) : List PtEdge → Except Exn (Option (DlsOffsets × ObjectId))
  | [] => .ok none
  | nfEdge :: rest => do
    let o2 ← g.targetObject nfEdge.targetObjectId
    if o2.size = o1.size then
      let nfo := nfEdge.sourceOffset
      let hfo := nfEdge.targetOffset
      match o2.ptEdges.find? (isPfEdge o1 o2 nfo hfo) with
      | some pfEdge => return some (⟨hfo, nfo, pfEdge.sourceOffset⟩, o2.id)
      | none => g.candidateAmong o1 rest
    else g.candidateAmong o1 rest

def Graph.isCandidateObject (g : Graph) (c : Object) : Except Exn (Option (DlsOffsets × ObjectId)) :=
  g.candidateAmong c c.ptEdges

/-- An edge into the object `id` turns to another one. -/
def PtEdge.redirect (id target : ObjectId) (e : PtEdge) : PtEdge :=
  if e.targetObjectId = id then { e with targetObjectId := target } else e

def Object.redirectEdges (id target : ObjectId) (o : Object) : Object :=
  { o with ptEdges := o.ptEdges.map (·.redirect id target) }

namespace MemState

variable (s : MemState)

/-- All edges that `FindPtInEdges` finds turn to another object. -/
def redirect (id target : ObjectId) : MemState :=
  { s with
    graph :=
      { handles := s.graph.handles.map (·.redirect id target)
        objects := s.graph.objects.map fun _ o => o.redirectEdges id target } }

def erase (id : ObjectId) : MemState :=
  { s with graph := { s.graph with objects := s.graph.objects.erase id } }

@[simp] theorem objects_redirect (id target id' : ObjectId) :
    (s.redirect id target).graph.objects[id']? = s.graph.objects[id']?.map (·.redirectEdges id target) := by
  simp [redirect, Std.TreeMap.getElem?_map]

@[simp] theorem objects_erase (id id' : ObjectId) :
    (s.erase id).graph.objects[id']? = if id = id' then none else s.graph.objects[id']? := by
  simp [erase, Std.TreeMap.getElem?_erase]

end MemState

def joinTwoRegions (o1 o2 : Object) (offsets : DlsOffsets) : GraphM Unit := do
  let nextEdge ← ofExcept (o2.getPtEdgeByOffset offsets.nfo)
  let prevEdge ← ofExcept (o1.getPtEdgeByOffset offsets.pfo)
  let dlsId ← getNextObjectId
  updateObject dlsId (Object.dls dlsId 2 offsets [nextEdge, prevEdge])
  modify (·.redirect o1.id dlsId)
  modify (·.redirect o2.id dlsId)
  modify (·.erase o1.id)
  modify (·.erase o2.id)

/-- The loop of `LookForCandidates`: the first object that is a candidate. -/
def Graph.firstCandidate (g : Graph) : List Object → Except Exn (Option (Object × DlsOffsets × ObjectId))
  | [] => .ok none
  | obj :: rest => do
    match ← g.isCandidateObject obj with
    | some (offsets, linkedToObjectId) => return some (obj, offsets, linkedToObjectId)
    | none => g.firstCandidate rest

/-- `LookForCandidates`; `JoinTwoObjects` is `JoinTwoRegions`. -/
def lookForCandidates : GraphM Bool := do
  let g := (← get).graph
  match ← ofExcept (g.firstCandidate (g.objects.toList.map (·.2))) with
  | none => return false
  | some (obj, offsets, linkedToObjectId) =>
    let linkedToObject ← ofExcept (g.targetObject linkedToObjectId)
    joinTwoRegions obj linkedToObject offsets
    return true

/-! ## Candidates -/

/-- The candidate `o1` has an edge to the linked object `o2`, which has one back. -/
structure Graph.Candidate (g : Graph) (o1 o2 : Object) (offsets : DlsOffsets) : Prop where
  size : o2.size = o1.size
  next : ∃ nfEdge ∈ o1.ptEdges, g.objects[nfEdge.targetObjectId]? = some o2 ∧ nfEdge.sourceOffset = offsets.nfo ∧
    nfEdge.targetOffset = offsets.hfo
  prev : ∃ pfEdge ∈ o2.ptEdges, pfEdge.targetObjectId = o1.id ∧ pfEdge.targetOffset = offsets.hfo ∧
    pfEdge.sourceOffset = offsets.pfo
  nextField : (o2.findPtEdgeByOffset offsets.nfo).isSome
  prevField : (o1.findPtEdgeByOffset offsets.pfo).isSome

section Candidates

variable {g : Graph} {o1 : Object}

theorem targetObject_ok {id : ObjectId} {o : Object} (h : g.targetObject id = .ok o) : g.objects[id]? = some o := by
  unfold Graph.targetObject at h
  split at h
  · cases h
    assumption
  · cases h

theorem isPfEdge_iff {o2 : Object} {nfo hfo : ValueId} {e : PtEdge} :
    isPfEdge o1 o2 nfo hfo e = true ↔ e.targetObjectId = o1.id ∧ e.targetOffset = hfo ∧
      (o2.findPtEdgeByOffset nfo).isSome ∧ (o1.findPtEdgeByOffset e.sourceOffset).isSome := by
  simp [isPfEdge, and_assoc]

theorem candidateAmong_cons {nfEdge : PtEdge} {rest : List PtEdge} {o2 : Object}
    (h : g.objects[nfEdge.targetObjectId]? = some o2) :
    g.candidateAmong o1 (nfEdge :: rest) =
      if o2.size = o1.size then
        match o2.ptEdges.find? (isPfEdge o1 o2 nfEdge.sourceOffset nfEdge.targetOffset) with
        | some pfEdge =>
          .ok (some (⟨nfEdge.targetOffset, nfEdge.sourceOffset, pfEdge.sourceOffset⟩, o2.id))
        | none => g.candidateAmong o1 rest
      else g.candidateAmong o1 rest := by
  rw [Graph.candidateAmong, Graph.targetObject, h]
  rfl

theorem candidateAmong_some {offsets : DlsOffsets} {id : ObjectId} : ∀ {edges : List PtEdge},
    edges ⊆ o1.ptEdges → g.candidateAmong o1 edges = .ok (some (offsets, id)) →
    ∃ o2, g.Candidate o1 o2 offsets ∧ o2.id = id := by
  intro edges
  induction edges with
  | nil => intro _ h; cases h
  | cons nfEdge rest ih =>
    intro hsub h
    have hrest := (List.cons_subset.1 hsub).2
    cases ho2 : g.objects[nfEdge.targetObjectId]? with
    | none =>
      rw [Graph.candidateAmong, Graph.targetObject, ho2] at h
      cases h
    | some o2 =>
      rw [candidateAmong_cons ho2] at h
      split at h
      · rename_i hsize
        split at h
        · rename_i pfEdge hpf
          cases h
          obtain ⟨htarget, hoffset, hnext, hprev⟩ := isPfEdge_iff.1 (List.find?_some hpf)
          exact ⟨o2, ⟨hsize, ⟨nfEdge, (List.cons_subset.1 hsub).1, ho2, rfl, rfl⟩,
            ⟨pfEdge, List.mem_of_find?_eq_some hpf, htarget, hoffset, rfl⟩, hnext, hprev⟩, rfl⟩
        · exact ih hrest h
      · exact ih hrest h

theorem isCandidateObject_some {offsets : DlsOffsets} {id : ObjectId}
    (h : g.isCandidateObject o1 = .ok (some (offsets, id))) : ∃ o2, g.Candidate o1 o2 offsets ∧ o2.id = id :=
  candidateAmong_some (List.Subset.refl _) h

theorem firstCandidate_some {offsets : DlsOffsets} {id : ObjectId} : ∀ {objects : List Object},
    g.firstCandidate objects = .ok (some (o1, offsets, id)) →
    o1 ∈ objects ∧ g.isCandidateObject o1 = .ok (some (offsets, id)) := by
  intro objects
  induction objects with
  | nil => intro h; cases h
  | cons obj rest ih =>
    intro h
    rw [Graph.firstCandidate] at h
    cases hc : g.isCandidateObject obj with
    | error e => rw [hc] at h; cases h
    | ok r =>
      rw [hc] at h
      cases r with
      | some r =>
        cases h
        exact ⟨List.mem_cons_self, hc⟩
      | none => exact (ih h).imp_left (List.mem_cons_of_mem _)

/-- Edges to objects without edges lead to no candidate. -/
theorem candidateAmong_none : ∀ {edges : List PtEdge},
    (∀ e ∈ edges, ∃ o2, g.objects[e.targetObjectId]? = some o2 ∧ o2.ptEdges = []) →
    g.candidateAmong o1 edges = .ok none := by
  intro edges
  induction edges with
  | nil => exact fun _ => rfl
  | cons e rest ih =>
    intro h
    obtain ⟨⟨o2, ho2, hempty⟩, hrest⟩ := List.forall_mem_cons.1 h
    rw [candidateAmong_cons ho2, hempty, ih hrest]
    simp

/-- An edge that is the only one to an object with edges, which has one edge back. -/
theorem candidateAmong_found {o2 : Object} {nfEdge pfEdge : PtEdge}
    (ho2 : g.objects[nfEdge.targetObjectId]? = some o2) (hsize : o2.size = o1.size)
    (hfind : o2.ptEdges.find? (isPfEdge o1 o2 nfEdge.sourceOffset nfEdge.targetOffset) = some pfEdge) :
    ∀ {edges : List PtEdge}, nfEdge ∈ edges →
      (∀ e ∈ edges, e = nfEdge ∨ ∃ o, g.objects[e.targetObjectId]? = some o ∧ o.ptEdges = []) →
      g.candidateAmong o1 edges =
        .ok (some (⟨nfEdge.targetOffset, nfEdge.sourceOffset, pfEdge.sourceOffset⟩, o2.id)) := by
  intro edges
  induction edges with
  | nil => intro h; cases h
  | cons e rest ih =>
    intro hmem h
    obtain ⟨he, hrest⟩ := List.forall_mem_cons.1 h
    rcases he with rfl | ⟨o, ho, hempty⟩
    · rw [candidateAmong_cons ho2, if_pos hsize, hfind]
    · rw [candidateAmong_cons ho, hempty]
      rcases List.mem_cons.1 hmem with rfl | hmem
      · rw [ho2] at ho
        cases ho
        rw [hempty] at hfind
        cases hfind
      · simp [ih hmem hrest]

theorem firstCandidate_none : ∀ {objects : List Object}, (∀ o ∈ objects, g.isCandidateObject o = .ok none) →
    g.firstCandidate objects = .ok none := by
  intro objects
  induction objects with
  | nil => exact fun _ => rfl
  | cons o rest ih =>
    intro h
    obtain ⟨ho, hrest⟩ := List.forall_mem_cons.1 h
    rw [Graph.firstCandidate, ho]
    exact ih hrest

/-- The first candidate of a list that has one. -/
theorem firstCandidate_found : ∀ {objects : List Object}, (∀ o ∈ objects, ∃ r, g.isCandidateObject o = .ok r) →
    (∃ o ∈ objects, g.isCandidateObject o ≠ .ok none) →
    ∃ o ∈ objects, ∃ offsets id, g.isCandidateObject o = .ok (some (offsets, id)) ∧
      g.firstCandidate objects = .ok (some (o, offsets, id)) := by
  intro objects
  induction objects with
  | nil => rintro - ⟨o, ho, -⟩; cases ho
  | cons o rest ih =>
    rintro hok ⟨c, hc, hcand⟩
    obtain ⟨⟨r, hr⟩, hrest⟩ := List.forall_mem_cons.1 hok
    cases r with
    | some r =>
      refine ⟨o, List.mem_cons_self, r.1, r.2, hr, ?_⟩
      rw [Graph.firstCandidate, hr]
      rfl
    | none =>
      have hc' : c ∈ rest := by
        rcases List.mem_cons.1 hc with rfl | hc
        · exact absurd hr hcand
        · exact hc
      obtain ⟨o', ho', offsets, id, h1, h2⟩ := ih hrest ⟨c, hc', hcand⟩
      refine ⟨o', List.mem_cons_of_mem _ ho', offsets, id, h1, ?_⟩
      rw [Graph.firstCandidate, hr]
      exact h2

end Candidates

/-! ## Joining -/

/-- Both objects turn to the segment. -/
def PtEdge.join (id1 id2 dlsId : ObjectId) (e : PtEdge) : PtEdge := (e.redirect id1 dlsId).redirect id2 dlsId

def Object.joinEdges (id1 id2 dlsId : ObjectId) (o : Object) : Object :=
  { o with ptEdges := o.ptEdges.map (·.join id1 id2 dlsId) }

namespace PtEdge

variable (id1 id2 dlsId : ObjectId) (e : PtEdge)

theorem redirect_eq (id target : ObjectId) :
    e.redirect id target = { e with targetObjectId := if e.targetObjectId = id then target else e.targetObjectId } := by
  unfold redirect
  split <;> simp_all

theorem join_eq : e.join id1 id2 dlsId = { e with
    targetObjectId := if e.targetObjectId = id1 ∨ e.targetObjectId = id2 then dlsId else e.targetObjectId } := by
  unfold join
  rw [redirect_eq, redirect_eq]
  by_cases h1 : e.targetObjectId = id1
  · simp [h1]
  · simp [h1]

@[simp] theorem join_sourceOffset : (e.join id1 id2 dlsId).sourceOffset = e.sourceOffset := by rw [join_eq]

@[simp] theorem join_value : (e.join id1 id2 dlsId).value = e.value := by rw [join_eq]

@[simp] theorem join_targetOffset : (e.join id1 id2 dlsId).targetOffset = e.targetOffset := by rw [join_eq]

theorem join_target : (e.join id1 id2 dlsId).targetObjectId =
    if e.targetObjectId = id1 ∨ e.targetObjectId = id2 then dlsId else e.targetObjectId := by rw [join_eq]

end PtEdge

/-- The state after two objects were joined. -/
def MemState.joined (s : MemState) (id1 id2 : ObjectId) (offsets : DlsOffsets) (nextEdge prevEdge : PtEdge) :
    MemState :=
  let dlsId := s.statics.nextObjectIdToGive
  ((((s.nextObject.setObject dlsId (Object.dls dlsId 2 offsets [nextEdge, prevEdge])).redirect id1 dlsId).redirect
    id2 dlsId).erase id1).erase id2

section Joined

variable {s : MemState} {id1 id2 : ObjectId} {offsets : DlsOffsets} {nextEdge prevEdge : PtEdge}

theorem joinTwoRegions_eq {o1 o2 : Object} (hnext : o2.findPtEdgeByOffset offsets.nfo = some nextEdge)
    (hprev : o1.findPtEdgeByOffset offsets.pfo = some prevEdge) :
    joinTwoRegions o1 o2 offsets s = .ok () (s.joined o1.id o2.id offsets nextEdge prevEdge) := by
  unfold joinTwoRegions Object.getPtEdgeByOffset
  rw [hnext, hprev]
  rfl

theorem handles_joined : (s.joined id1 id2 offsets nextEdge prevEdge).graph.handles =
    s.graph.handles.map (·.join id1 id2 s.statics.nextObjectIdToGive) := by
  simp only [MemState.joined, MemState.erase, MemState.redirect, List.map_map]
  rfl

theorem redirectEdges_redirectEdges (o : Object) (dlsId : ObjectId) :
    (o.redirectEdges id1 dlsId).redirectEdges id2 dlsId = o.joinEdges id1 id2 dlsId := by
  simp only [Object.redirectEdges, Object.joinEdges, List.map_map]
  rfl

theorem objects_joined (id : ObjectId) : (s.joined id1 id2 offsets nextEdge prevEdge).graph.objects[id]? =
    if id = id1 ∨ id = id2 then none
    else if id = s.statics.nextObjectIdToGive then
      some ((Object.dls s.statics.nextObjectIdToGive 2 offsets [nextEdge, prevEdge]).joinEdges id1 id2
        s.statics.nextObjectIdToGive)
    else s.graph.objects[id]?.map (·.joinEdges id1 id2 s.statics.nextObjectIdToGive) := by
  simp only [MemState.joined, MemState.objects_erase, MemState.objects_redirect, MemState.objects_setObject]
  by_cases h2 : id2 = id
  · simp [h2]
  · by_cases h1 : id1 = id
    · simp [h1]
    · have hno : ¬ (id = id1 ∨ id = id2) := fun h => h.elim (fun h => h1 h.symm) fun h => h2 h.symm
      rw [if_neg h2, if_neg h1, if_neg hno]
      by_cases hd : s.statics.nextObjectIdToGive = id
      · rw [if_pos hd, if_pos hd.symm]
        simp only [Option.map_some, redirectEdges_redirectEdges]
      · rw [if_neg hd, if_neg (Ne.symm hd), Option.map_map]
        congr 1
        funext o
        exact redirectEdges_redirectEdges o _

/-- The objects after a join are the segment and those that stood before it, with other targets. -/
theorem object_of_joined {id : ObjectId} {o : Object}
    (h : (s.joined id1 id2 offsets nextEdge prevEdge).graph.objects[id]? = some o) : ¬ (id = id1 ∨ id = id2) ∧
    ((id = s.statics.nextObjectIdToGive ∧
        o = (Object.dls s.statics.nextObjectIdToGive 2 offsets [nextEdge, prevEdge]).joinEdges id1 id2
          s.statics.nextObjectIdToGive) ∨
      ∃ o', s.graph.objects[id]? = some o' ∧ o = o'.joinEdges id1 id2 s.statics.nextObjectIdToGive) := by
  rw [objects_joined] at h
  split at h
  · cases h
  · rename_i hne
    refine ⟨hne, ?_⟩
    split at h
    · rename_i hid
      exact Or.inl ⟨hid, (Option.some.inj h).symm⟩
    · obtain ⟨o', ho', rfl⟩ := Option.map_eq_some_iff.1 h
      exact Or.inr ⟨o', ho', rfl⟩

end Joined

/-! ## The search -/

/-- The objects that a search joins, with the offsets. -/
def MemState.candidatePair (s : MemState) : Option (Object × Object × DlsOffsets) :=
  match s.graph.firstCandidate (s.graph.objects.toList.map (·.2)) with
  | .ok (some (o1, offsets, id)) => s.graph.objects[id]?.map fun o2 => (o1, o2, offsets)
  | _ => none

/-- A search that succeeds joins a candidate with its linked object. -/
theorem lookForCandidates_true {s t : MemState}
    (hid : ∀ (id : ObjectId) o, s.graph.objects[id]? = some o → o.id = id) (h : lookForCandidates s = .ok true t) :
    ∃ (o1 o2 : Object) (offsets : DlsOffsets) (nextEdge prevEdge : PtEdge),
      s.candidatePair = some (o1, o2, offsets) ∧ s.graph.objects[o1.id]? = some o1 ∧
      s.graph.objects[o2.id]? = some o2 ∧ s.graph.Candidate o1 o2 offsets ∧
      o2.findPtEdgeByOffset offsets.nfo = some nextEdge ∧ o1.findPtEdgeByOffset offsets.pfo = some prevEdge ∧
      t = s.joined o1.id o2.id offsets nextEdge prevEdge := by
  unfold lookForCandidates at h
  rw [bind_of_ok (get_apply s)] at h
  obtain ⟨r, hr, h⟩ := bind_ofExcept_ok h
  cases r with
  | none => cases h
  | some r =>
    obtain ⟨o1, offsets, id⟩ := r
    obtain ⟨linked, hlinked, h⟩ := bind_ofExcept_ok h
    obtain ⟨⟨⟩, u, hjoin, h⟩ := bind_ok h
    cases h
    obtain ⟨hmem, hcand⟩ := firstCandidate_some hr
    obtain ⟨item, hitem, rfl⟩ := List.mem_map.1 hmem
    have ho1 : s.graph.objects[item.1]? = some item.2 := Std.TreeMap.mem_toList_iff_getElem?_eq_some.1 hitem
    obtain ⟨o2, hc, rfl⟩ := isCandidateObject_some hcand
    -- the linked object is looked up again, by its id
    have ho2 : s.graph.objects[o2.id]? = some o2 := by
      obtain ⟨nfEdge, -, ho2, -⟩ := hc.next
      rw [hid _ o2 ho2]
      exact ho2
    obtain rfl : o2 = linked := Option.some.inj (ho2.symm.trans (targetObject_ok hlinked))
    obtain ⟨nextEdge, hnext⟩ := Option.isSome_iff_exists.1 hc.nextField
    obtain ⟨prevEdge, hprev⟩ := Option.isSome_iff_exists.1 hc.prevField
    rw [joinTwoRegions_eq hnext hprev] at hjoin
    cases hjoin
    refine ⟨item.2, o2, offsets, nextEdge, prevEdge, ?_, ?_, ho2, hc, hnext, hprev, rfl⟩
    · rw [MemState.candidatePair, hr]
      simp [ho2]
    · rw [hid _ _ ho1]
      exact ho1

theorem lookForCandidates_of_none {s : MemState}
    (h : s.graph.firstCandidate (s.graph.objects.toList.map (·.2)) = .ok none) :
    lookForCandidates s = .ok false s := by
  unfold lookForCandidates
  rw [bind_of_ok (get_apply s), h]
  rfl

theorem lookForCandidates_of_some {s : MemState} {o1 o2 : Object} {offsets : DlsOffsets} {nextEdge prevEdge : PtEdge}
    (h : s.graph.firstCandidate (s.graph.objects.toList.map (·.2)) = .ok (some (o1, offsets, o2.id)))
    (ho2 : s.graph.objects[o2.id]? = some o2) (hnext : o2.findPtEdgeByOffset offsets.nfo = some nextEdge)
    (hprev : o1.findPtEdgeByOffset offsets.pfo = some prevEdge) :
    lookForCandidates s = .ok true (s.joined o1.id o2.id offsets nextEdge prevEdge) := by
  have htarget : s.graph.targetObject o2.id = .ok o2 := by
    unfold Graph.targetObject
    rw [ho2]
  unfold lookForCandidates
  rw [bind_of_ok (get_apply s), h, bind_of_ok (ofExcept_ok _ s)]
  dsimp only
  rw [htarget, bind_of_ok (ofExcept_ok _ s), bind_of_ok (joinTwoRegions_eq hnext hprev)]
  rfl

theorem lookForCandidates_false {s t : MemState} (h : lookForCandidates s = .ok false t) : t = s := by
  unfold lookForCandidates at h
  rw [bind_of_ok (get_apply s)] at h
  obtain ⟨r, hr, h⟩ := bind_ofExcept_ok h
  cases r with
  | none => cases h; rfl
  | some r =>
    obtain ⟨o1, offsets, id⟩ := r
    obtain ⟨linked, hlinked, h⟩ := bind_ofExcept_ok h
    obtain ⟨⟨⟩, u, hjoin, h⟩ := bind_ok h
    cases h

end Angie
