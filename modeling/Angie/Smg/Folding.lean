import Angie.Smg.Abstraction

/-!
# Folding a list

`ListGraph` is a null-terminated doubly linked list of regions, and `Folds` repeats the search until it fails. Every
segment that a join creates counts two nodes and has the default size (`folds_segments`), so that a list folds into
one segment of its length and of the size of its nodes only if it has two nodes of that size. Two such nodes do fold:
whichever of them is found first, the segment keeps their null edges (`twoNodes_folds`). Hence `list_folds_iff`.
-/

namespace Angie

open Exec KeyedList Trace

/-! ## The property -/

/-- The null, unknown and freed objects. -/
def isSpecial (id : ObjectId) : Prop := id = 0 ∨ id = -1 ∨ id = -2

/-- A node of a list, between two objects that may be null: its fields lead to their head offsets, and its other
points-to edges lead to the special objects. -/
structure ListNode (g : Graph) (size nfo pfo hfo : ValueId) (prev id next : ObjectId) (o : Object) : Prop where
  stored : g.objects[id]? = some o
  named : o.id = id
  region : o.kind = .region
  size : o.size = size
  nextEdge : ∃ e, o.findPtEdgeByOffset nfo = some e ∧ e.targetObjectId = next ∧ (next ≠ 0 → e.targetOffset = hfo)
  prevEdge : ∃ e, o.findPtEdgeByOffset pfo = some e ∧ e.targetObjectId = prev ∧ (prev ≠ 0 → e.targetOffset = hfo)
  others : ∀ e ∈ o.ptEdges, o.findPtEdgeByOffset nfo = some e ∨ o.findPtEdgeByOffset pfo = some e ∨
    isSpecial e.targetObjectId

/-- The objects are nodes, each linked with the next one, the last one with null. -/
def LinkedFrom (g : Graph) (size nfo pfo hfo : ValueId) : ObjectId → List ObjectId → Prop
  | _, [] => True
  | prev, id :: rest =>
    (∃ o, ListNode g size nfo pfo hfo prev id (rest.headD 0) o) ∧ LinkedFrom g size nfo pfo hfo id rest

/-- A graph with a list and nothing else. -/
structure ListGraph (s : MemState) (ids : List ObjectId) (size nfo pfo hfo : ValueId) : Prop where
  distinct : ids.Nodup
  fields : nfo ≠ pfo
  positive : ∀ id ∈ ids, 0 < id ∧ id < s.statics.nextObjectIdToGive
  linked : LinkedFrom s.graph size nfo pfo hfo 0 ids
  special : ∀ id, isSpecial id → s.graph.objects[id]? = some (Object.region id)
  only : ∀ (id : ObjectId) o, s.graph.objects[id]? = some o → isSpecial id ∨ id ∈ ids

/-- Repeating the search until it fails. -/
inductive Folds : MemState → MemState → Prop
  | stop {s t : MemState} : lookForCandidates s = .ok false t → Folds s t
  | join {s t u : MemState} : lookForCandidates s = .ok true t → Folds t u → Folds s u

/-- One object is left, a segment of `n` nodes between nulls. -/
def Folded (s : MemState) (n : ℕ) (size nfo pfo : ValueId) : Prop :=
  ∃ (id : ObjectId) (o : Object) (offsets : DlsOffsets), s.graph.objects[id]? = some o ∧ ¬ isSpecial id ∧
    (∀ (id' : ObjectId) o', s.graph.objects[id']? = some o' → isSpecial id' ∨ id' = id) ∧
    o.kind = .dls n offsets ∧ o.size = size ∧
    (∃ e, o.findPtEdgeByOffset nfo = some e ∧ e.targetObjectId = 0) ∧
    ∃ e, o.findPtEdgeByOffset pfo = some e ∧ e.targetObjectId = 0

/-! ## Segments -/

/-- Objects are stored under their ids, and every segment counts two nodes and has the default size. -/
structure Segments (s : MemState) : Prop where
  named : ∀ (id : ObjectId) o, s.graph.objects[id]? = some o → o.id = id
  two : ∀ (id : ObjectId) o n offsets, s.graph.objects[id]? = some o → o.kind = .dls n offsets → n = 2 ∧ o.size = 0

theorem join_segments {s t : MemState} (hs : Segments s) (h : lookForCandidates s = .ok true t) : Segments t := by
  obtain ⟨o1, o2, offsets, nextEdge, prevEdge, -, -, -, -, -, -, rfl⟩ := lookForCandidates_true hs.named h
  have hobj : ∀ (id : ObjectId) o, (s.joined o1.id o2.id offsets nextEdge prevEdge).graph.objects[id]? = some o →
      (id = s.statics.nextObjectIdToGive ∧ o.id = id ∧ o.kind = .dls 2 offsets ∧ o.size = 0) ∨
      ∃ o', s.graph.objects[id]? = some o' ∧ o.id = o'.id ∧ o.kind = o'.kind ∧ o.size = o'.size := by
    intro id o ho
    obtain ⟨-, ⟨rfl, rfl⟩ | ⟨o', ho', rfl⟩⟩ := object_of_joined ho
    · exact Or.inl ⟨rfl, rfl, rfl, rfl⟩
    · exact Or.inr ⟨o', ho', rfl, rfl, rfl⟩
  constructor
  · intro id o ho
    rcases hobj id o ho with ⟨-, hid, -⟩ | ⟨o', ho', hid, -⟩
    · exact hid
    · exact hid.trans (hs.named id o' ho')
  · intro id o n offsets' ho hk
    rcases hobj id o ho with ⟨-, -, hkind, hsize⟩ | ⟨o', ho', -, hkind, hsize⟩
    · rw [hkind] at hk
      cases hk
      exact ⟨rfl, hsize⟩
    · obtain ⟨hn, hsz⟩ := hs.two id o' n offsets' ho' (hkind.symm.trans hk)
      exact ⟨hn, hsize.trans hsz⟩

theorem folds_segments {s t : MemState} (h : Folds s t) (hs : Segments s) : Segments t := by
  induction h with
  | stop h =>
    rw [lookForCandidates_false h]
    exact hs
  | join h _ ih => exact ih (join_segments hs h)

theorem LinkedFrom.node {g : Graph} {size nfo pfo hfo : ValueId} : ∀ {ids : List ObjectId} {prev : ObjectId},
    LinkedFrom g size nfo pfo hfo prev ids → ∀ id ∈ ids, ∃ prev next o, ListNode g size nfo pfo hfo prev id next o := by
  intro ids
  induction ids with
  | nil => simp
  | cons id rest ih =>
    rintro prev ⟨⟨o, ho⟩, hrest⟩ id' hid'
    rcases List.mem_cons.1 hid' with rfl | hid'
    · exact ⟨prev, _, o, ho⟩
    · exact ih hrest id' hid'

theorem ListGraph.segments {s : MemState} {ids : List ObjectId} {size nfo pfo hfo : ValueId}
    (h : ListGraph s ids size nfo pfo hfo) : Segments s := by
  have hobj : ∀ (id : ObjectId) o, s.graph.objects[id]? = some o → o.id = id ∧ o.kind = .region := by
    intro id o ho
    rcases h.only id o ho with hid | hid
    · rw [h.special id hid] at ho
      cases ho
      exact ⟨rfl, rfl⟩
    · obtain ⟨prev, next, o', hnode⟩ := h.linked.node id hid
      rw [hnode.stored] at ho
      cases ho
      exact ⟨hnode.named, hnode.region⟩
  constructor
  · exact fun id o ho => (hobj id o ho).1
  · intro id o n offsets ho hk
    rw [(hobj id o ho).2] at hk
    cases hk

/-! ## Two nodes -/

/-- Two objects that lead to each other and to null, and otherwise to objects without edges. -/
structure TwoNodes (g : Graph) (oa ob : Object) (nfo pfo hfo : ValueId) : Prop where
  first : g.objects[oa.id]? = some oa
  second : g.objects[ob.id]? = some ob
  positive : ¬ isSpecial oa.id ∧ ¬ isSpecial ob.id
  size : ob.size = oa.size
  next : ∃ e, oa.findPtEdgeByOffset nfo = some e ∧ e.targetObjectId = ob.id ∧ e.targetOffset = hfo ∧
    ∀ e' ∈ oa.ptEdges, e' = e ∨ isSpecial e'.targetObjectId
  prev : ∃ e, ob.findPtEdgeByOffset pfo = some e ∧ e.targetObjectId = oa.id ∧ e.targetOffset = hfo ∧
    ∀ e' ∈ ob.ptEdges, e' = e ∨ isSpecial e'.targetObjectId
  last : ∃ e, ob.findPtEdgeByOffset nfo = some e ∧ e.targetObjectId = 0
  head : ∃ e, oa.findPtEdgeByOffset pfo = some e ∧ e.targetObjectId = 0
  special : ∀ id, isSpecial id → g.objects[id]? = some (Object.region id)
  only : ∀ (id : ObjectId) o, g.objects[id]? = some o → isSpecial id ∨ id = oa.id ∨ id = ob.id

section TwoNodes

variable {s : MemState} {g : Graph} {oa ob : Object} {nfo pfo hfo : ValueId}

/-- The list read backwards. -/
theorem TwoNodes.symm (h : TwoNodes g oa ob nfo pfo hfo) : TwoNodes g ob oa pfo nfo hfo where
  first := h.second
  second := h.first
  positive := h.positive.symm
  size := h.size.symm
  next := h.prev
  prev := h.next
  last := h.head
  head := h.last
  special := h.special
  only := fun id o ho => (h.only id o ho).imp_right Or.symm

/-- An object with edges only to special objects is no candidate. -/
theorem not_candidate (hspecial : ∀ id, isSpecial id → ∃ o, g.objects[id]? = some o ∧ o.ptEdges = []) {o : Object}
    (ho : ∀ e ∈ o.ptEdges, isSpecial e.targetObjectId) : g.isCandidateObject o = .ok none :=
  candidateAmong_none fun e he => hspecial _ (ho e he)

theorem TwoNodes.candidate (h : TwoNodes g oa ob nfo pfo hfo) :
    g.isCandidateObject oa = .ok (some (⟨hfo, nfo, pfo⟩, ob.id)) := by
  obtain ⟨nf, hnf, hnft, hnfo, honly⟩ := h.next
  obtain ⟨pf, hpf, hpft, hpfo, hback⟩ := h.prev
  obtain ⟨last, hlast, -⟩ := h.last
  obtain ⟨head, hhead, -⟩ := h.head
  have hnfs : nf.sourceOffset = nfo := (lookup_some hnf).2
  have hpfs : pf.sourceOffset = pfo := (lookup_some hpf).2
  have hfind : ob.ptEdges.find? (isPfEdge oa ob nf.sourceOffset nf.targetOffset) = some pf := by
    have hpred : isPfEdge oa ob nf.sourceOffset nf.targetOffset pf = true := by
      refine isPfEdge_iff.2 ⟨hpft, hpfo.trans hnfo.symm, ?_, ?_⟩
      · rw [hnfs, hlast]; rfl
      · rw [hpfs, hhead]; rfl
    cases hf : ob.ptEdges.find? (isPfEdge oa ob nf.sourceOffset nf.targetOffset) with
    | none => exact absurd hpred (List.find?_eq_none.1 hf pf (lookup_some hpf).1)
    | some e =>
      rcases hback e (List.mem_of_find?_eq_some hf) with rfl | he
      · rfl
      · rw [(isPfEdge_iff.1 (List.find?_some hf)).1] at he
        exact absurd he h.positive.1
  have hob : g.objects[nf.targetObjectId]? = some ob := by
    rw [hnft]
    exact h.second
  have hfound := candidateAmong_found hob h.size hfind (lookup_some hnf).1 fun e he =>
    (honly e he).imp_right fun hsp => ⟨_, h.special _ hsp, rfl⟩
  rw [hnfs, hpfs, hnfo] at hfound
  exact hfound

theorem join_of_null {id1 id2 dlsId : ObjectId} {e : PtEdge} (h : e.targetObjectId = 0) (h1 : id1 ≠ 0) (h2 : id2 ≠ 0) :
    e.join id1 id2 dlsId = e := by
  have hno : ¬ (e.targetObjectId = id1 ∨ e.targetObjectId = id2) := by
    rw [h]
    exact fun h' => h'.elim (fun h => h1 h.symm) fun h => h2 h.symm
  rw [PtEdge.join_eq, if_neg hno]

theorem mem_objects {o : Object} : o ∈ g.objects.toList.map (·.2) ↔ ∃ id : ObjectId, g.objects[id]? = some o := by
  simp only [List.mem_map, Prod.exists, Std.TreeMap.mem_toList_iff_getElem?_eq_some, exists_eq_right]

/-- The segment of two nodes is all that is left, and joins nothing. -/
theorem TwoNodes.folded (h : TwoNodes s.graph oa ob nfo pfo hfo) (hne : nfo ≠ pfo)
    (hnew : ¬ isSpecial s.statics.nextObjectIdToGive) {nextEdge prevEdge : PtEdge}
    (hnext : ob.findPtEdgeByOffset nfo = some nextEdge) (hnext0 : nextEdge.targetObjectId = 0)
    (hprev : oa.findPtEdgeByOffset pfo = some prevEdge) (hprev0 : prevEdge.targetObjectId = 0)
    (hfresh : oa.id ≠ s.statics.nextObjectIdToGive ∧ ob.id ≠ s.statics.nextObjectIdToGive) :
    Folded (s.joined oa.id ob.id ⟨hfo, nfo, pfo⟩ nextEdge prevEdge) 2 0 nfo pfo ∧
      Folds (s.joined oa.id ob.id ⟨hfo, nfo, pfo⟩ nextEdge prevEdge)
        (s.joined oa.id ob.id ⟨hfo, nfo, pfo⟩ nextEdge prevEdge) := by
  have ha0 : oa.id ≠ 0 := fun h0 => h.positive.1 (Or.inl h0)
  have hb0 : ob.id ≠ 0 := fun h0 => h.positive.2 (Or.inl h0)
  have hsource : nextEdge.sourceOffset = nfo ∧ prevEdge.sourceOffset = pfo :=
    ⟨(lookup_some hnext).2, (lookup_some hprev).2⟩
  have hspecial : ∀ id, isSpecial id →
      (s.joined oa.id ob.id ⟨hfo, nfo, pfo⟩ nextEdge prevEdge).graph.objects[id]? = some (Object.region id) := by
    intro id hid
    rw [objects_joined, if_neg, if_neg, h.special id hid]
    · rfl
    · rintro rfl
      exact hnew hid
    · rintro (rfl | rfl)
      · exact h.positive.1 hid
      · exact h.positive.2 hid
  have hdls : (s.joined oa.id ob.id ⟨hfo, nfo, pfo⟩ nextEdge prevEdge).graph.objects[s.statics.nextObjectIdToGive]? =
      some (Object.dls s.statics.nextObjectIdToGive 2 ⟨hfo, nfo, pfo⟩ [nextEdge, prevEdge]) := by
    rw [objects_joined, if_neg (not_or.2 ⟨hfresh.1.symm, hfresh.2.symm⟩), if_pos rfl]
    simp [Object.joinEdges, Object.dls, join_of_null hnext0 ha0 hb0, join_of_null hprev0 ha0 hb0]
  have honly : ∀ (id : ObjectId) o,
      (s.joined oa.id ob.id ⟨hfo, nfo, pfo⟩ nextEdge prevEdge).graph.objects[id]? = some o →
      isSpecial id ∨ id = s.statics.nextObjectIdToGive := by
    intro id o ho
    obtain ⟨hno, ⟨hid, -⟩ | ⟨o', ho', -⟩⟩ := object_of_joined ho
    · exact Or.inr hid
    · exact Or.inl ((h.only id o' ho').resolve_right hno)
  constructor
  · refine ⟨_, _, ⟨hfo, nfo, pfo⟩, hdls, hnew, honly, rfl, rfl, ⟨nextEdge, ?_, hnext0⟩, ⟨prevEdge, ?_, hprev0⟩⟩
    · simp [Object.findPtEdgeByOffset, Object.dls, lookup, hsource]
    · simp [Object.findPtEdgeByOffset, Object.dls, lookup, hsource, hne]
  · refine .stop (lookForCandidates_of_none (firstCandidate_none fun o ho => ?_))
    obtain ⟨id, ho⟩ := mem_objects.1 ho
    refine not_candidate (fun id hid => ⟨_, hspecial id hid, rfl⟩) fun e he => ?_
    rcases honly id o ho with hid | rfl
    · rw [hspecial id hid] at ho
      cases ho
      cases he
    · rw [hdls] at ho
      cases ho
      simp only [Object.dls, List.mem_cons, List.not_mem_nil, or_false] at he
      rcases he with rfl | rfl
      · exact Or.inl hnext0
      · exact Or.inl hprev0

/-- What a join of the two nodes leaves. -/
theorem TwoNodes.joins (h : TwoNodes s.graph oa ob nfo pfo hfo) (hne : nfo ≠ pfo)
    (hnew : ¬ isSpecial s.statics.nextObjectIdToGive)
    (hfresh : oa.id ≠ s.statics.nextObjectIdToGive ∧ ob.id ≠ s.statics.nextObjectIdToGive)
    (hfirst : s.graph.firstCandidate (s.graph.objects.toList.map (·.2)) = .ok (some (oa, ⟨hfo, nfo, pfo⟩, ob.id))) :
    ∃ t, Folds s t ∧ Folded t 2 0 nfo pfo := by
  obtain ⟨nextEdge, hnext, hnext0⟩ := h.last
  obtain ⟨prevEdge, hprev, hprev0⟩ := h.head
  obtain ⟨hfolded, hfolds⟩ := h.folded hne hnew hnext hnext0 hprev hprev0 hfresh
  exact ⟨_, .join (lookForCandidates_of_some hfirst h.second hnext hprev) hfolds, hfolded⟩

theorem Folded.symm {t : MemState} {n : ℕ} {size : ValueId} (h : Folded t n size pfo nfo) : Folded t n size nfo pfo := by
  obtain ⟨id, o, offsets, ho, hid, honly, hkind, hsize, h1, h2⟩ := h
  exact ⟨id, o, offsets, ho, hid, honly, hkind, hsize, h2, h1⟩

/-- Two nodes fold, whichever is found first. -/
theorem twoNodes_folds (h : TwoNodes s.graph oa ob nfo pfo hfo) (hne : nfo ≠ pfo)
    (hnew : ¬ isSpecial s.statics.nextObjectIdToGive)
    (hfresh : oa.id ≠ s.statics.nextObjectIdToGive ∧ ob.id ≠ s.statics.nextObjectIdToGive) :
    ∃ t, Folds s t ∧ Folded t 2 0 nfo pfo := by
  have hcand : ∀ o ∈ s.graph.objects.toList.map (·.2), s.graph.isCandidateObject o = .ok none ∨ o = oa ∨ o = ob := by
    intro o ho
    obtain ⟨id, ho⟩ := mem_objects.1 ho
    rcases h.only id o ho with hid | rfl | rfl
    · rw [h.special id hid] at ho
      cases ho
      exact Or.inl rfl
    · exact Or.inr (Or.inl (Option.some.inj (ho.symm.trans h.first)))
    · exact Or.inr (Or.inr (Option.some.inj (ho.symm.trans h.second)))
  have hok : ∀ o ∈ s.graph.objects.toList.map (·.2), ∃ r, s.graph.isCandidateObject o = .ok r := by
    intro o ho
    rcases hcand o ho with hno | rfl | rfl
    · exact ⟨_, hno⟩
    · exact ⟨_, h.candidate⟩
    · exact ⟨_, h.symm.candidate⟩
  have hsome : s.graph.isCandidateObject oa ≠ .ok none := by
    rw [h.candidate]
    nofun
  obtain ⟨o, ho, offsets, id, hfound, hfirst⟩ :=
    firstCandidate_found hok ⟨oa, mem_objects.2 ⟨_, h.first⟩, hsome⟩
  rcases hcand o ho with hno | rfl | rfl
  · rw [hno] at hfound
    cases hfound
  · rw [h.candidate] at hfound
    cases hfound
    exact h.joins hne hnew hfresh hfirst
  · rw [h.symm.candidate] at hfound
    cases hfound
    obtain ⟨t, hfolds, hfolded⟩ := h.symm.joins hne.symm hnew hfresh.symm hfirst
    exact ⟨t, hfolds, hfolded.symm⟩

end TwoNodes

/-! ## Lists -/

theorem ListGraph.twoNodes {s : MemState} {a b : ObjectId} {size nfo pfo hfo : ValueId}
    (h : ListGraph s [a, b] size nfo pfo hfo) : ∃ oa ob, oa.id = a ∧ ob.id = b ∧ oa.size = size ∧
      TwoNodes s.graph oa ob nfo pfo hfo := by
  obtain ⟨⟨oa, ha⟩, ⟨ob, hb⟩, -⟩ := h.linked
  have hapos := (h.positive a (by simp)).1
  have hbpos := (h.positive b (by simp)).1
  have hnot : ∀ {id : ObjectId}, 0 < id → ¬ isSpecial id := by
    rintro id hid (h0 | h0 | h0) <;> lia
  obtain ⟨e1, he1, ht1, hoff1⟩ := ha.nextEdge
  obtain ⟨e2, he2, ht2, -⟩ := ha.prevEdge
  obtain ⟨e3, he3, ht3, -⟩ := hb.nextEdge
  obtain ⟨e4, he4, ht4, hoff4⟩ := hb.prevEdge
  have hb0 : b ≠ 0 := by lia
  have ha0 : a ≠ 0 := by lia
  refine ⟨oa, ob, ha.named, hb.named, ha.size, ?_⟩
  refine
    { first := by rw [ha.named]; exact ha.stored
      second := by rw [hb.named]; exact hb.stored
      positive := by rw [ha.named, hb.named]; exact ⟨hnot hapos, hnot hbpos⟩
      size := hb.size.trans ha.size.symm
      next := ⟨e1, he1, ht1.trans hb.named.symm, hoff1 hb0, fun e he => ?_⟩
      prev := ⟨e4, he4, ht4.trans ha.named.symm, hoff4 ha0, fun e he => ?_⟩
      last := ⟨e3, he3, ht3⟩
      head := ⟨e2, he2, ht2⟩
      special := h.special
      only := fun id o ho => (h.only id o ho).imp_right fun hid => ?_ }
  · rcases ha.others e he with hnf | hpf | hsp
    · exact Or.inl (Option.some.inj (hnf.symm.trans he1))
    · rw [Option.some.inj (hpf.symm.trans he2)]
      exact Or.inr (Or.inl ht2)
    · exact Or.inr hsp
  · rcases hb.others e he with hnf | hpf | hsp
    · rw [Option.some.inj (hnf.symm.trans he3)]
      exact Or.inr (Or.inl ht3)
    · exact Or.inl (Option.some.inj (hpf.symm.trans he4))
    · exact Or.inr hsp
  · rw [ha.named, hb.named]
    simpa using hid

/-- A list folds into one segment of its length and the size of its nodes exactly when it has two nodes of the default
size. -/
theorem list_folds_iff {s : MemState} {ids : List ObjectId} {size nfo pfo hfo : ValueId}
    (h : ListGraph s ids size nfo pfo hfo) (hn : 2 ≤ ids.length) :
    (∃ t, Folds s t ∧ Folded t ids.length size nfo pfo) ↔ ids.length = 2 ∧ size = 0 := by
  constructor
  · rintro ⟨t, hfolds, id, o, offsets, ho, -, -, hkind, hsize, -⟩
    obtain ⟨hlen, hzero⟩ := (folds_segments hfolds h.segments).two id o _ offsets ho hkind
    exact ⟨hlen, hsize.symm.trans hzero⟩
  · rintro ⟨hlen, rfl⟩
    obtain ⟨a, b, rfl⟩ := List.length_eq_two.1 hlen
    obtain ⟨oa, ob, rfl, rfl, hsize, htwo⟩ := h.twoNodes
    have ha := h.positive oa.id (by simp)
    have hb := h.positive ob.id (by simp)
    refine twoNodes_folds htwo h.fields ?_ ⟨by lia, by lia⟩
    rintro (h0 | h0 | h0) <;> lia

/-! ### Examples -/

section Example

attribute [local instance] Ty.x86

/-- Two nodes of eight bytes, or of none, with their fields behind them. -/
def nodePair (full : Bool) : MemState :=
  let type := Ty.array (.int 64) (if full then 1 else 0)
  (play GraphOp.exec [] MemState.new [.container (.createConstIntVal 8), .container (.createConstIntVal 16),
    .allocateRegion type .heap, .allocateRegion type .heap,
    .createDerivedPointer 3 1, .createDerivedPointer 3 2, .createDerivedPointer 4 1, .createDerivedPointer 4 2,
    .writeValue 5 4 Ty.charPointer, .writeValue 6 0 Ty.charPointer,
    .writeValue 7 0 Ty.charPointer, .writeValue 8 3 Ty.charPointer]).2

def firstNode (full : Bool) : Object :=
  { Object.region 1 with
    size := if full then 1 else 0
    ptEdges := [⟨⟨1, 4, Ty.charPointer⟩, 2, 0⟩, ⟨⟨2, 0, Ty.charPointer⟩, 0, 0⟩] }

def secondNode (full : Bool) : Object :=
  { Object.region 2 with
    size := if full then 1 else 0
    ptEdges := [⟨⟨1, 0, Ty.charPointer⟩, 0, 0⟩, ⟨⟨2, 3, Ty.charPointer⟩, 1, 0⟩] }

theorem nodePair_list (full : Bool) : ListGraph (nodePair full) [1, 2] (if full then 1 else 0) 1 2 0 := by
  have hkeys : (nodePair full).graph.objects.toList.map (·.1) = [-2, -1, 0, 1, 2] := by cases full <;> rfl
  have hcount : (nodePair full).statics.nextObjectIdToGive = 3 := by cases full <;> rfl
  refine ⟨by decide, by decide, ?_, ⟨⟨firstNode full, ?_⟩, ⟨secondNode full, ?_⟩, trivial⟩, ?_, fun id o ho => ?_⟩
  · rw [hcount]
    decide
  · refine ⟨by cases full <;> rfl, rfl, rfl, rfl, ⟨_, rfl, rfl, fun _ => rfl⟩, ⟨_, rfl, rfl, fun h => absurd rfl h⟩, ?_⟩
    intro e he
    simp only [firstNode, List.mem_cons, List.not_mem_nil, or_false] at he
    rcases he with rfl | rfl
    · exact Or.inl rfl
    · exact Or.inr (Or.inl rfl)
  · refine ⟨by cases full <;> rfl, rfl, rfl, rfl, ⟨_, rfl, rfl, fun h => absurd rfl h⟩, ⟨_, rfl, rfl, fun _ => rfl⟩, ?_⟩
    intro e he
    simp only [secondNode, List.mem_cons, List.not_mem_nil, or_false] at he
    rcases he with rfl | rfl
    · exact Or.inl rfl
    · exact Or.inr (Or.inl rfl)
  · rintro id (rfl | rfl | rfl) <;> cases full <;> rfl
  · have hmem : id ∈ (nodePair full).graph.objects.toList.map (·.1) :=
      List.mem_map.2 ⟨(id, o), Std.TreeMap.mem_toList_iff_getElem?_eq_some.2 ho, rfl⟩
    rw [hkeys] at hmem
    simp only [List.mem_cons, List.not_mem_nil, or_false, isSpecial] at hmem ⊢
    rcases hmem with h | h | h | h | h <;> simp [h]

/-- Nodes without a size fold. -/
theorem nodePair_folds : ∃ t, Folds (nodePair false) t ∧ Folded t 2 0 1 2 :=
  (list_folds_iff (nodePair_list false) (Nat.le_refl _)).2 ⟨rfl, rfl⟩

/-- Nodes of eight bytes become a segment without a size. -/
theorem nodePair_not_folded :
    ListGraph (nodePair true) [1, 2] 1 1 2 0 ∧ ¬ ∃ t, Folds (nodePair true) t ∧ Folded t 2 1 1 2 := by
  refine ⟨nodePair_list true, ?_⟩
  rintro ⟨t, hfolds, id, o, offsets, ho, -, -, hkind, hsize, -⟩
  have hzero := ((folds_segments hfolds (nodePair_list true).segments).two id o _ offsets ho hkind).2
  rw [hsize] at hzero
  exact absurd hzero (by decide)

end Example

end Angie
