import Angie.Smg.Joining

/-!
# Which candidates are list pairs

The search stops at the first linked pair: an edge of the object, the object of the same size it leads to, and an edge
of that object back (`isCandidateObject_eq`). It does not ask whether the two objects and the two fields are different,
whether an edge is hidden or behind another one of its offset, nor where the objects live. `candidate_genuine_iff` says
that nothing else can be wrong.
-/

namespace Angie

open Exec KeyedList Trace

/-! ## The property -/

/-- Two different objects of the heap, linked to each other through two different fields. -/
structure Graph.Genuine (g : Graph) (c o2 : Object) (offsets : DlsOffsets) : Prop where
  different : o2.id ≠ c.id
  fields : offsets.nfo ≠ offsets.pfo ∧ offsets.nfo ≠ -1 ∧ offsets.pfo ≠ -1
  live : g.objects[c.id]? = some c ∧ 0 < c.id ∧ g.objects[o2.id]? = some o2 ∧ 0 < o2.id
  heap : c.memSpace = .heap ∧ o2.memSpace = .heap
  size : o2.size = c.size
  next : ∃ e, c.findPtEdgeByOffset offsets.nfo = some e ∧ e.targetObjectId = o2.id ∧ e.targetOffset = offsets.hfo
  prev : ∃ e, o2.findPtEdgeByOffset offsets.pfo = some e ∧ e.targetObjectId = c.id ∧ e.targetOffset = offsets.hfo

/-! ## The search -/

/-- The ways back from the object that an edge of `c` leads to. -/
def Graph.linksOver (g : Graph) (c : Object) (nf : PtEdge) : List (PtEdge × Object × PtEdge) :=
  match g.objects[nf.targetObjectId]? with
  | none => []
  | some o2 =>
    if o2.size = c.size then
      (o2.ptEdges.filter (isPfEdge c o2 nf.sourceOffset nf.targetOffset)).map fun pf => (nf, o2, pf)
    else []

/-- The linked pairs of `c`, in the order of its edges and of the edges of the linked objects. -/
def Graph.linkedPairs (g : Graph) (c : Object) : List (PtEdge × Object × PtEdge) := c.ptEdges.flatMap (g.linksOver c)

theorem linksOver_head {g : Graph} {c : Object} {nf : PtEdge} {link : PtEdge × Object × PtEdge} :
    (g.linksOver c nf).head? = some link ↔
      link.1 = nf ∧ g.objects[nf.targetObjectId]? = some link.2.1 ∧ link.2.1.size = c.size ∧
        link.2.1.ptEdges.find? (isPfEdge c link.2.1 nf.sourceOffset nf.targetOffset) = some link.2.2 := by
  obtain ⟨nf', o2, pf⟩ := link
  unfold Graph.linksOver
  cases ho : g.objects[nf.targetObjectId]? with
  | none => simp
  | some o =>
    dsimp only
    split
    · rename_i hsize
      rw [List.head?_map, List.head?_filter, Option.map_eq_some_iff]
      constructor
      · rintro ⟨pf', hpf, heq⟩
        cases heq
        exact ⟨rfl, rfl, hsize, hpf⟩
      · rintro ⟨rfl, ho2, -, hpf⟩
        cases ho2
        exact ⟨pf, hpf, rfl⟩
    · rename_i hsize
      refine iff_of_false (by simp) ?_
      rintro ⟨-, ho2, hsize', -⟩
      cases ho2
      exact hsize hsize'

/-- The search returns the first linked pair. -/
theorem isCandidateObject_eq {s : MemState} (hs : s.Closed) {c : Object} {id : ObjectId}
    (hc : s.graph.objects[id]? = some c) :
    s.graph.isCandidateObject c = .ok ((s.graph.linkedPairs c).head?.map fun link =>
      (⟨link.1.targetOffset, link.1.sourceOffset, link.2.2.sourceOffset⟩, link.2.1.id)) := by
  have hedges : ∀ edges : List PtEdge, edges ⊆ c.ptEdges → s.graph.candidateAmong c edges =
      .ok ((edges.flatMap (s.graph.linksOver c)).head?.map fun link =>
        (⟨link.1.targetOffset, link.1.sourceOffset, link.2.2.sourceOffset⟩, link.2.1.id)) := by
    intro edges
    induction edges with
    | nil => exact fun _ => rfl
    | cons nf rest ih =>
      intro hsub
      obtain ⟨he, hrest⟩ := List.cons_subset.1 hsub
      obtain ⟨o2, ho2⟩ := mem_objects_iff.1 (hs.edge nf (Or.inr ⟨id, c, hc, he⟩))
      rw [candidateAmong_cons ho2, ih hrest, List.flatMap_cons, List.head?_append]
      cases hlink : (s.graph.linksOver c nf).head? with
      | some link =>
        obtain ⟨h1, h2, hsize, hpf⟩ := linksOver_head.1 hlink
        rw [ho2] at h2
        cases h2
        rw [if_pos hsize, hpf, ← h1]
        rfl
      | none =>
        have hnone : ∀ pf, ¬ (o2.size = c.size ∧
            o2.ptEdges.find? (isPfEdge c o2 nf.sourceOffset nf.targetOffset) = some pf) := by
          rintro pf ⟨hsize, hpf⟩
          have hsome : (s.graph.linksOver c nf).head? = some (nf, o2, pf) :=
            linksOver_head.2 ⟨rfl, ho2, hsize, hpf⟩
          rw [hlink] at hsome
          cases hsome
        split
        · rename_i hsize
          cases hpf : o2.ptEdges.find? (isPfEdge c o2 nf.sourceOffset nf.targetOffset) with
          | some pf => exact absurd ⟨hsize, hpf⟩ (hnone pf)
          | none => rfl
        · rfl
  exact hedges _ (List.Subset.refl _)

/-! ## The first pair -/

/-- What the search does not look at. -/
structure GoodLink (c o2 : Object) (nf pf : PtEdge) : Prop where
  other : nf.targetObjectId ≠ c.id
  fields : nf.sourceOffset ≠ pf.sourceOffset
  shown : nf.sourceOffset ≠ -1 ∧ pf.sourceOffset ≠ -1
  first : c.findPtEdgeByOffset nf.sourceOffset = some nf ∧ o2.findPtEdgeByOffset pf.sourceOffset = some pf
  heap : c.memSpace = .heap ∧ o2.memSpace = .heap

theorem lookup_first {k : ValueId} {l1 l2 : List PtEdge} {a : PtEdge} (ha : a.sourceOffset = k) {e : PtEdge}
    (he : lookup (·.sourceOffset) k (l1 ++ a :: l2) = some e) (hno : e ∉ l1) : e = a := by
  rw [lookup_append] at he
  cases hl : lookup (·.sourceOffset) k l1 with
  | some e' =>
    rw [hl] at he
    cases he
    exact absurd (lookup_some hl).1 hno
  | none =>
    rw [hl, Option.none_or, lookup, if_pos ha] at he
    cases he
    rfl

section FirstPair

variable {g : Graph} {c o2 : Object} {nf pf : PtEdge} (h : (g.linkedPairs c).head? = some (nf, o2, pf))

include h

/-- The first linked pair, with the edges that were tried before. -/
theorem linkedPairs_head : ∃ l1 l2, c.ptEdges = l1 ++ nf :: l2 ∧ (∀ e ∈ l1, (g.linksOver c e).head? = none) ∧
    g.objects[nf.targetObjectId]? = some o2 ∧ o2.size = c.size ∧
    o2.ptEdges.find? (isPfEdge c o2 nf.sourceOffset nf.targetOffset) = some pf := by
  rw [Graph.linkedPairs, List.head?_flatMap] at h
  obtain ⟨l1, a, l2, hl, ha, hbefore⟩ := List.findSome?_eq_some_iff.1 h
  obtain ⟨rfl, ho2, hsize, hpf⟩ := linksOver_head.1 ha
  exact ⟨l1, l2, hl, hbefore, ho2, hsize, hpf⟩

/-- An edge of the same field to the same place would have been found before. -/
theorem nextEdge_first {e : PtEdge} (he : c.findPtEdgeByOffset nf.sourceOffset = some e)
    (ht : e.targetObjectId = nf.targetObjectId) (hoff : e.targetOffset = nf.targetOffset) : e = nf := by
  obtain ⟨l1, l2, hl, hbefore, ho2, hsize, hpf⟩ := linkedPairs_head h
  have hsource : e.sourceOffset = nf.sourceOffset := (lookup_some he).2
  unfold Object.findPtEdgeByOffset at he
  rw [hl] at he
  refine lookup_first rfl he fun hmem => ?_
  have hsome : (g.linksOver c e).head? = some (e, o2, pf) :=
    linksOver_head.2 ⟨rfl, by rw [ht]; exact ho2, hsize, by rw [hsource, hoff]; exact hpf⟩
  rw [hbefore e hmem] at hsome
  cases hsome

theorem prevEdge_first {e : PtEdge} (he : o2.findPtEdgeByOffset pf.sourceOffset = some e)
    (ht : e.targetObjectId = c.id) (hoff : e.targetOffset = nf.targetOffset) : e = pf := by
  obtain ⟨-, -, -, -, -, -, hpf⟩ := linkedPairs_head h
  obtain ⟨hback, l1, l2, hl, hbefore⟩ := List.find?_eq_some_iff_append.1 hpf
  obtain ⟨-, -, hnext, hprev⟩ := isPfEdge_iff.1 hback
  have hsource : e.sourceOffset = pf.sourceOffset := (lookup_some he).2
  unfold Object.findPtEdgeByOffset at he
  rw [hl] at he
  refine lookup_first rfl he fun hmem => ?_
  have hpf' := isPfEdge_iff.2 ⟨ht, hoff, hnext, by rw [hsource]; exact hprev⟩
  simpa [hpf'] using hbefore e hmem

end FirstPair

/-! ## The result -/

section Runs

variable [DataLayout]

/-- A candidate is a pair of list nodes exactly when the first linked pair is: its edge does not lead back to the
object itself, its two fields differ, neither edge is a hidden one or behind another edge of its field, and both objects
are in the heap. -/
theorem candidate_genuine_iff {es : List (Event MemState FoldOp (Except Exn (Option ValueId)))} {s : MemState}
    (h : FoldRun es s) {c : Object} (hc : s.graph.objects[c.id]? = some c) :
    (∀ offsets id, s.graph.isCandidateObject c = .ok (some (offsets, id)) →
      ∃ o2, s.graph.objects[id]? = some o2 ∧ s.graph.Genuine c o2 offsets) ↔
    ∀ nf o2 pf, (s.graph.linkedPairs c).head? = some (nf, o2, pf) → GoodLink c o2 nf pf := by
  have hs := run_joinable h
  have hsearch := isCandidateObject_eq hs.toClosed hc
  constructor
  · intro hall nf o2 pf hhead
    obtain ⟨l1, l2, hl, -, ho2, hsize, hpf⟩ := linkedPairs_head hhead
    have hid : o2.id = nf.targetObjectId := hs.own _ o2 ho2
    obtain ⟨o, ho, hg⟩ := hall ⟨nf.targetOffset, nf.sourceOffset, pf.sourceOffset⟩ o2.id (by rw [hsearch, hhead]; rfl)
    rw [hid, ho2] at ho
    cases ho
    obtain ⟨e1, he1, ht1, hoff1⟩ := hg.next
    obtain ⟨e2, he2, ht2, hoff2⟩ := hg.prev
    have h1 := nextEdge_first hhead he1 (ht1.trans hid) hoff1
    have h2 := prevEdge_first hhead he2 ht2 hoff2
    subst h1 h2
    exact ⟨fun heq => hg.different (hid.trans heq), hg.fields.1, hg.fields.2, ⟨he1, he2⟩, hg.heap⟩
  · intro hgood offsets id hfound
    rw [hsearch] at hfound
    obtain ⟨⟨nf, o2, pf⟩, hhead, heq⟩ := Option.map_eq_some_iff.1 (Except.ok.inj hfound)
    cases heq
    obtain ⟨l1, l2, hl, -, ho2, hsize, hpf⟩ := linkedPairs_head hhead
    have hid : o2.id = nf.targetObjectId := hs.own _ o2 ho2
    have hgl := hgood nf o2 pf hhead
    obtain ⟨hback, hoff, -, -⟩ := isPfEdge_iff.1 (List.find?_some hpf)
    have ho2' : s.graph.objects[o2.id]? = some o2 := by rw [hid]; exact ho2
    have hnf : nf ∈ c.ptEdges := hl ▸ List.mem_append_right l1 List.mem_cons_self
    refine ⟨o2, ho2', fun heq => hgl.other (hid.symm.trans heq), ⟨hgl.fields, hgl.shown⟩, ?_, hgl.heap, hsize,
      ⟨nf, hgl.first.1, hid.symm, rfl⟩, ⟨pf, hgl.first.2, hback, hoff⟩⟩
    exact ⟨hc, hs.pos_of_edge hc hnf, ho2', hs.pos_of_edge ho2' (List.mem_of_find?_eq_some hpf)⟩

end Runs

section Example

attribute [local instance] Ty.x86

/-- Two regions, linked forth at offset 0 and back at offset 8, between null pointers. -/
def twoNodes : List (Event MemState FoldOp (Except Exn (Option ValueId))) × MemState :=
  play FoldOp.exec [] MemState.new
    [.call (.allocateRegion (.array (.int 64) 2) .heap), .call (.allocateRegion (.array (.int 64) 2) .heap),
      .call (.container (.createConstIntVal 8)), .call (.createDerivedPointer 1 4), .call (.createDerivedPointer 3 4),
      .call (.writeValue 1 3 Ty.charPointer), .call (.writeValue 5 0 Ty.charPointer),
      .call (.writeValue 3 0 Ty.charPointer), .call (.writeValue 6 1 Ty.charPointer)]

theorem twoNodes_run : FoldRun twoNodes.1 twoNodes.2 :=
  Run.play (Run.start rfl) ⟨trivial, trivial, trivial, trivial, trivial, trivial, trivial, trivial, trivial, trivial⟩

def firstOfTwo : Object :=
  { Object.region 1 with
    ptEdges := [PtEdge.handle 3 2, (PtEdge.handle 0 0).withSource 4]
    size := 2 }

def secondOfTwo : Object :=
  { Object.region 2 with
    ptEdges := [PtEdge.handle 0 0, (PtEdge.handle 1 1).withSource 4]
    size := 2 }

theorem candidate_genuine_pair : ∃ o2, twoNodes.2.graph.objects[(2 : ObjectId)]? = some o2 ∧
    twoNodes.2.graph.Genuine firstOfTwo o2 ⟨0, 0, 4⟩ := by
  have hlinks : (twoNodes.2.graph.linkedPairs firstOfTwo).head? =
      some (PtEdge.handle 3 2, secondOfTwo, (PtEdge.handle 1 1).withSource 4) := rfl
  refine (candidate_genuine_iff twoNodes_run (c := firstOfTwo) rfl).2 ?_ ⟨0, 0, 4⟩ 2 rfl
  intro nf o2 pf h
  rw [hlinks] at h
  cases h
  exact ⟨by decide, by decide, by decide, ⟨rfl, rfl⟩, ⟨rfl, rfl⟩⟩

/-- The region that points to itself is a candidate, linked to itself through its only field. -/
theorem selfNode_not_genuine : FoldRun selfNode.1 selfNode.2 ∧
    selfNode.2.graph.objects[selfObject.id]? = some selfObject ∧
    selfNode.2.graph.isCandidateObject selfObject = .ok (some (⟨0, 0, 0⟩, 1)) ∧
    ¬ ∃ o2, selfNode.2.graph.objects[(1 : ObjectId)]? = some o2 ∧
      selfNode.2.graph.Genuine selfObject o2 ⟨0, 0, 0⟩ := by
  refine ⟨selfNode_run, selfObject_stored, selfObject_candidate, ?_⟩
  rintro ⟨o2, -, hg⟩
  exact hg.fields.1 rfl

end Example

end Angie
