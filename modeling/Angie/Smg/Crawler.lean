import Angie.Lib.Traversal
import Angie.Smg.Joining

/-!
# Walks through the graph

`SmgCrawler.cpp` goes through a graph depth first and shows what it meets to another visitor; `SubGraph` of
`Smg/Abstraction.hpp` collects objects with a queue. Both may start at `handles`, which no edge leads to.

- The walks end in every closed graph, and their sets are the objects reached by one or more edges: they follow the
  traversals of `Angie.Lib.Traversal` (`visitObject_walked`, `initLoop_collect`).
- A crawl shows the object it starts at without marking it. So it shows every object once if and only if this object is
  not on a cycle (`crawl_once_iff`).
-/

namespace Angie

open Relation FlowGraph Traversal

/-! ## Objects by reference -/

/-- An object as the wrappers hold it: by reference, not by its id, which `handles` shares with the null object. -/
inductive ObjectRef where
  | handles
  | stored (id : ObjectId)
  deriving DecidableEq, Repr

/-- `handles` is a region with the default id. -/
def Graph.deref (g : Graph) : ObjectRef → Except Exn Object
  | .handles => .ok { Object.region 0 with ptEdges := g.handles }
  | .stored id => g.targetObject id

/-- `GetPtOutEdges`, by the ids of the targets. -/
def Graph.targetsOf (g : Graph) (ref : ObjectRef) : List ObjectId :=
  match g.deref ref with
  | .ok o => o.ptEdges.map (·.targetObjectId)
  | .error _ => []

/-- A points-to edge leads from one object to another. -/
def Graph.PointsTo (g : Graph) (a b : ObjectRef) : Prop := ∃ id ∈ g.targetsOf a, b = .stored id

/-- Every edge leads to an object, and objects are stored under their own ids. -/
structure Graph.Closed (g : Graph) : Prop where
  edge : ∀ ref o, g.deref ref = .ok o → ∀ e ∈ o.ptEdges, e.targetObjectId ∈ g.objects
  own : ∀ (id : ObjectId) o, g.objects[id]? = some o → o.id = id

theorem deref_stored {g : Graph} {id : ObjectId} {o : Object} (h : g.objects[id]? = some o) :
    g.deref (.stored id) = .ok o := by
  simp only [Graph.deref, Graph.targetObject, h]

theorem targetsOf_eq {g : Graph} {ref : ObjectRef} {o : Object} (h : g.deref ref = .ok o) :
    g.targetsOf ref = o.ptEdges.map (·.targetObjectId) := by
  simp only [Graph.targetsOf, h]

/-- The graphs of all runs are closed. -/
theorem MemState.Closed.graph {s : MemState} (h : s.Closed) : s.graph.Closed where
  edge := by
    intro ref o ho e he
    cases ref with
    | handles =>
      cases ho
      exact h.edge e (Or.inl he)
    | stored id => exact h.edge e (Or.inr ⟨id, o, targetObject_ok ho, he⟩)
  own := h.own

variable {g : Graph}

/-- What is reached by one or more edges is a stored object, reached from the targets of the start. -/
theorem pointsTo_trans {a x : ObjectRef} : TransGen g.PointsTo a x ↔
    ∃ id, x = .stored id ∧ ∃ t ∈ g.targetsOf a, Reach (fun id => g.targetsOf (.stored id)) t id := by
  constructor
  · intro h
    induction h with
    | single h =>
      obtain ⟨id, hid, rfl⟩ := h
      exact ⟨id, rfl, id, hid, .refl⟩
    | tail _ hstep ih =>
      obtain ⟨b, rfl, t, ht, hr⟩ := ih
      obtain ⟨id, hid, rfl⟩ := hstep
      exact ⟨id, rfl, t, ht, hr.tail hid⟩
  · rintro ⟨id, rfl, t, ht, hr⟩
    induction hr with
    | refl => exact .single ⟨t, ht, rfl⟩
    | tail _ hb ih => exact ih.tail ⟨_, hb, rfl⟩

theorem Graph.Closed.targets (hg : g.Closed) {ref : ObjectRef} {id : ObjectId} (h : id ∈ g.targetsOf ref) :
    id ∈ g.objects := by
  unfold Graph.targetsOf at h
  split at h
  · rename_i o ho
    obtain ⟨e, he, rfl⟩ := List.mem_map.1 h
    exact hg.edge ref o ho e he
  · cases h

theorem Graph.Closed.target (hg : g.Closed) {id : ObjectId} (h : id ∈ g.objects) :
    ∃ o, g.targetObject id = .ok o ∧ o.id = id := by
  obtain ⟨o, ho⟩ := mem_objects_iff.1 h
  exact ⟨o, deref_stored ho, hg.own id o ho⟩

/-- The ids of the objects, which bound both walks. -/
def Graph.ids (g : Graph) : Finset ObjectId := g.objects.keys.toFinset

theorem mem_ids {id : ObjectId} : id ∈ g.ids ↔ id ∈ g.objects := by
  rw [Graph.ids, List.mem_toFinset, Std.TreeMap.mem_keys]

theorem card_ids : (unseen g.ids []).card ≤ g.objects.size := by
  refine Nat.le_trans (Finset.card_filter_le _ _) ?_
  rw [← Std.TreeMap.length_keys]
  exact List.toFinset_card_le _

/-! ## The crawler -/

/-- What the inner visitor is shown. The overloads for the kinds of objects do the same. -/
inductive SmgVisit where
  | hvEdge (e : HvEdge)
  | ptEdge (e : PtEdge)
  | object (ref : ObjectRef)
  | graph
  deriving DecidableEq, Repr

/-- The crawler with what the inner visitor received, latest first. -/
structure SmgCrawler where
  alreadyVisited : List ObjectId
  received : List SmgVisit
  deriving DecidableEq, Repr

namespace SmgCrawler

def new : SmgCrawler := ⟨[], []⟩

def receive (c : SmgCrawler) (v : SmgVisit) : SmgCrawler := { c with received := v :: c.received }

end SmgCrawler

/-- A walk gives up when its fuel is used up. -/
abbrev WalkM := OptionT (Except Exn)

def visitHvEdge (c : SmgCrawler) (hve : HvEdge) : SmgCrawler := c.receive (.hvEdge hve)

/-- `Visit(PtEdge)`: the target is marked before it is visited. -/
def Graph.visitPtEdge (g : Graph) (visitObject : ObjectRef → SmgCrawler → WalkM SmgCrawler) (c : SmgCrawler)
    (pte : PtEdge) : WalkM SmgCrawler := do
  let c := c.receive (.ptEdge pte)
  let object ← g.targetObject pte.targetObjectId
  if object.id ∈ c.alreadyVisited then return c
  else visitObject (.stored pte.targetObjectId) { c with alreadyVisited := object.id :: c.alreadyVisited }

/-- `Visit(Object)`: the object is shown, then its edges, the plain ones first. -/
def Graph.visitObject (g : Graph) : ℕ → ObjectRef → SmgCrawler → WalkM SmgCrawler
  | 0, _, _ => failure
  | fuel + 1, ref, c => do
    let o ← g.deref ref
    o.ptEdges.foldlM (g.visitPtEdge (g.visitObject fuel)) (o.hvEdges.foldl visitHvEdge (c.receive (.object ref)))

def Graph.crawlSmg (g : Graph) (fuel : ℕ) (ref : ObjectRef) (c : SmgCrawler) : WalkM SmgCrawler :=
  g.visitObject fuel ref { c with alreadyVisited := [] }

/-- `Visit(Graph)`. -/
def Graph.visitGraph (g : Graph) (fuel : ℕ) (c : SmgCrawler) : WalkM SmgCrawler :=
  g.handles.foldlM (g.visitPtEdge (g.visitObject fuel)) (c.receive .graph)

/-! ## What is shown -/

/-- The objects that were shown. -/
def objectVisits : List SmgVisit → List ObjectRef
  | [] => []
  | .object ref :: vs => ref :: objectVisits vs
  | _ :: vs => objectVisits vs

theorem objectVisits_append : ∀ vs ws : List SmgVisit, objectVisits (vs ++ ws) = objectVisits vs ++ objectVisits ws
  | [], _ => rfl
  | .object ref :: vs, ws => congrArg (ref :: ·) (objectVisits_append vs ws)
  | .hvEdge _ :: vs, ws => objectVisits_append vs ws
  | .ptEdge _ :: vs, ws => objectVisits_append vs ws
  | .graph :: vs, ws => objectVisits_append vs ws

/-- A walk marked the objects `l`, showed them after `first`, and left the rest as it was. -/
structure Walked (c : SmgCrawler) (first : List ObjectRef) (l : List ObjectId) (c' : SmgCrawler) : Prop where
  marked : c'.alreadyVisited = l ++ c.alreadyVisited
  shown : ∃ vs, c'.received = vs ++ c.received ∧ objectVisits vs = l.map .stored ++ first

theorem Walked.append {c c' c'' : SmgCrawler} {first : List ObjectRef} {l l' : List ObjectId}
    (h : Walked c first l c') (h' : Walked c' [] l' c'') : Walked c first (l' ++ l) c'' where
  marked := by rw [h'.marked, h.marked, List.append_assoc]
  shown := by
    obtain ⟨vs, hvs, hobj⟩ := h.shown
    obtain ⟨vs', hvs', hobj'⟩ := h'.shown
    refine ⟨vs' ++ vs, by rw [hvs', hvs, List.append_assoc], ?_⟩
    rw [objectVisits_append, hobj, hobj', List.append_nil, List.map_append, List.append_assoc]

theorem walked_hvEdges (ref : ObjectRef) (c : SmgCrawler) (hvEdges : List HvEdge) :
    Walked c [ref] [] (hvEdges.foldl visitHvEdge (c.receive (.object ref))) := by
  suffices h : ∀ (edges : List HvEdge) (d : SmgCrawler), Walked c [ref] [] d →
      Walked c [ref] [] (edges.foldl visitHvEdge d) from
    h hvEdges _ ⟨rfl, [.object ref], rfl, rfl⟩
  intro edges
  induction edges with
  | nil => exact fun _ h => h
  | cons e edges ih =>
    intro d hd
    refine ih _ ⟨hd.marked, ?_⟩
    obtain ⟨vs, hvs, hobj⟩ := hd.shown
    exact ⟨.hvEdge e :: vs, congrArg (_ :: ·) hvs, hobj⟩

/-- An edge of a closed graph is shown, and its target is visited when it is not marked. -/
theorem visitPtEdge_eq (hg : g.Closed) (visitObject : ObjectRef → SmgCrawler → WalkM SmgCrawler) (c : SmgCrawler)
    {e : PtEdge} (he : e.targetObjectId ∈ g.objects) :
    g.visitPtEdge visitObject c e =
      if e.targetObjectId ∈ c.alreadyVisited then pure (c.receive (.ptEdge e))
      else visitObject (.stored e.targetObjectId)
        { c.receive (.ptEdge e) with alreadyVisited := e.targetObjectId :: c.alreadyVisited } := by
  obtain ⟨o, htarget, hid⟩ := hg.target he
  unfold Graph.visitPtEdge
  rw [htarget, ← hid]
  rfl

/-- The successors of a stored object. -/
abbrev Graph.next (g : Graph) (id : ObjectId) : List ObjectId := g.targetsOf (.stored id)

/-- The target of a visited edge is marked before the walk and shown in it. -/
theorem Walked.of_target {c c' : SmgCrawler} {l : List ObjectId} {e : PtEdge}
    (h : Walked { c.receive (.ptEdge e) with alreadyVisited := e.targetObjectId :: c.alreadyVisited }
      [.stored e.targetObjectId] l c') : Walked c [] (l ++ [e.targetObjectId]) c' where
  marked := by
    rw [h.marked, List.append_assoc]
    rfl
  shown := by
    obtain ⟨vs, hvs, hobj⟩ := h.shown
    refine ⟨vs ++ [.ptEdge e], ?_, ?_⟩
    · rw [hvs, List.append_assoc]
      rfl
    · rw [objectVisits_append, hobj, List.map_append, List.append_nil]
      exact List.append_nil _

section Edges

variable {fuel : ℕ} (hg : g.Closed)
  (hobject : ∀ id o (c : SmgCrawler) seen, g.deref (.stored id) = .ok o →
    visit g.next fuel (g.next id) c.alreadyVisited = some seen →
      ∃ c' l, g.visitObject fuel (.stored id) c = pure c' ∧ Walked c [.stored id] l c' ∧ c'.alreadyVisited = seen)

include hg hobject

/-- The walk through one edge follows the traversal of its target, when the visits of objects do. -/
theorem visitPtEdge_walked {e : PtEdge} (he : e.targetObjectId ∈ g.objects) {c : SmgCrawler} {seen : List ObjectId}
    (h : (if e.targetObjectId ∈ c.alreadyVisited then some c.alreadyVisited
      else visit g.next fuel (g.next e.targetObjectId) (e.targetObjectId :: c.alreadyVisited)) = some seen) :
    ∃ c' l, g.visitPtEdge (g.visitObject fuel) c e = pure c' ∧ Walked c [] l c' ∧ c'.alreadyVisited = seen := by
  rw [visitPtEdge_eq hg _ c he]
  split at h
  · rename_i hmem
    cases h
    rw [if_pos hmem]
    exact ⟨c.receive (.ptEdge e), [], rfl, ⟨rfl, [.ptEdge e], rfl, rfl⟩, rfl⟩
  · rename_i hmem
    rw [if_neg hmem]
    obtain ⟨o, ho, -⟩ := hg.target he
    obtain ⟨c', l, hc', hw, hseen⟩ := hobject e.targetObjectId o
      { c.receive (.ptEdge e) with alreadyVisited := e.targetObjectId :: c.alreadyVisited } seen ho h
    exact ⟨c', l ++ [e.targetObjectId], hc', hw.of_target, hseen⟩

/-- The walk through the edges of an object follows the traversal of their targets. -/
theorem visitPtEdges_walked :
    ∀ (edges : List PtEdge), (∀ e ∈ edges, e.targetObjectId ∈ g.objects) → ∀ (c : SmgCrawler) (seen : List ObjectId),
      visit g.next (fuel + 1) (edges.map (·.targetObjectId)) c.alreadyVisited = some seen →
        ∃ c' l, edges.foldlM (g.visitPtEdge (g.visitObject fuel)) c = pure c' ∧ Walked c [] l c' ∧
          c'.alreadyVisited = seen := by
  intro edges
  induction edges with
  | nil =>
    intro _ c seen h
    cases h
    exact ⟨c, [], rfl, ⟨rfl, [], rfl, rfl⟩, rfl⟩
  | cons e edges ih =>
    intro hedges c seen h
    obtain ⟨he, hedges⟩ := List.forall_mem_cons.1 hedges
    rw [List.map_cons, visit, List.foldlM_cons] at h
    obtain ⟨mid, hmid, hrest⟩ := Option.bind_eq_some_iff.1 h
    obtain ⟨c', l, hc', hw, rfl⟩ := visitPtEdge_walked hg hobject he hmid
    obtain ⟨c'', l', hc'', hw', hseen⟩ := ih hedges c' seen hrest
    refine ⟨c'', l' ++ l, ?_, hw.append hw', hseen⟩
    rw [List.foldlM_cons, hc', pure_bind]
    exact hc''

end Edges

/-- The visit of an object follows the traversal of its targets. -/
theorem visitObject_walked (hg : g.Closed) : ∀ (fuel : ℕ) (ref : ObjectRef) (o : Object) (c : SmgCrawler)
    (seen : List ObjectId), g.deref ref = .ok o → visit g.next fuel (g.targetsOf ref) c.alreadyVisited = some seen →
      ∃ c' l, g.visitObject fuel ref c = pure c' ∧ Walked c [ref] l c' ∧ c'.alreadyVisited = seen := by
  intro fuel
  induction fuel with
  | zero => intro ref o c seen _ h; cases h
  | succ fuel ih =>
    intro ref o c seen ho h
    have hplain := walked_hvEdges ref c o.hvEdges
    rw [targetsOf_eq ho, ← show (o.hvEdges.foldl visitHvEdge (c.receive (.object ref))).alreadyVisited =
      c.alreadyVisited from hplain.marked] at h
    obtain ⟨c', l, hc', hw, hseen⟩ :=
      visitPtEdges_walked hg (fun id => ih (.stored id)) o.ptEdges (hg.edge ref o ho) _ seen h
    refine ⟨c', l ++ [], ?_, hplain.append hw, hseen⟩
    rw [Graph.visitObject, ho]
    exact hc'

theorem visit_targets (hg : g.Closed) (ref : ObjectRef) {fuel : ℕ} (hfuel : g.objects.size < fuel) :
    ∃ seen, visit g.next fuel (g.targetsOf ref) [] = some seen :=
  visit_isSome (U := g.ids) (fun _ _ _ hb => mem_ids.2 (hg.targets hb)) (fun _ ha => mem_ids.2 (hg.targets ha))
    (Nat.lt_of_le_of_lt card_ids hfuel)

/-- The objects whose ids the traversal has seen are those reached. -/
theorem stored_reached {ref : ObjectRef} {seen : List ObjectId}
    (h : ∀ id, id ∈ seen ↔ ∃ t ∈ g.targetsOf ref, Reach g.next t id) (x : ObjectRef) :
    x ∈ seen.map .stored ↔ TransGen g.PointsTo ref x := by
  rw [pointsTo_trans, List.mem_map]
  constructor
  · rintro ⟨id, hid, rfl⟩
    exact ⟨id, rfl, (h id).1 hid⟩
  · rintro ⟨id, rfl, hr⟩
    exact ⟨id, (h id).2 hr, rfl⟩

/-- A crawl ends. It shows its start, and every object reached from it by one or more edges once, after the start. -/
theorem crawlSmg_shown (hg : g.Closed) {ref : ObjectRef} {o : Object} (ho : g.deref ref = .ok o) {fuel : ℕ}
    (hfuel : g.objects.size < fuel) (c : SmgCrawler) :
    ∃ c' vs l, g.crawlSmg fuel ref c = pure c' ∧ c'.received = vs ++ c.received ∧ objectVisits vs = l ++ [ref] ∧
      l.Nodup ∧ ∀ x, x ∈ l ↔ TransGen g.PointsTo ref x := by
  obtain ⟨seen, hseen⟩ := visit_targets hg ref hfuel
  obtain ⟨c', l, hc', hw, rfl⟩ := visitObject_walked hg fuel ref o { c with alreadyVisited := [] } seen ho hseen
  obtain ⟨vs, hvs, hobj⟩ := hw.shown
  obtain ⟨hnd, hmem⟩ := visit_iff hseen
  rw [hw.marked] at hnd hmem
  simp only [List.append_nil] at hnd hmem
  exact ⟨c', vs, l.map .stored, hc', hvs, hobj, hnd.map fun a b h => ObjectRef.stored.inj h, stored_reached hmem⟩

/-- The walk through the whole graph ends, and shows every object that a handle leads to once. -/
theorem visitGraph_shown (hg : g.Closed) {fuel : ℕ} (hfuel : g.objects.size < fuel) :
    ∃ c', g.visitGraph fuel .new = pure c' ∧ (objectVisits c'.received).Nodup ∧
      ∀ x, x ∈ objectVisits c'.received ↔ TransGen g.PointsTo .handles x := by
  obtain ⟨seen, hseen⟩ := visit_targets hg .handles (Nat.lt_succ_of_lt hfuel)
  obtain ⟨c', l, hc', hw, rfl⟩ := visitPtEdges_walked hg (fun id => visitObject_walked hg fuel (.stored id)) g.handles
    (hg.edge .handles _ rfl) (SmgCrawler.new.receive .graph) seen hseen
  obtain ⟨vs, hvs, hobj⟩ := hw.shown
  obtain ⟨hnd, hmem⟩ := visit_iff hseen
  have hmarked : c'.alreadyVisited = l := hw.marked.trans (List.append_nil l)
  have hshown : objectVisits c'.received = l.map .stored := by
    rw [hvs, objectVisits_append, hobj, List.append_nil]
    exact List.append_nil _
  rw [hmarked] at hnd hmem
  refine ⟨c', hc', ?_⟩
  rw [hshown]
  exact ⟨hnd.map fun a b h => ObjectRef.stored.inj h, stored_reached hmem⟩

/-! ## Every object once -/

/-- A crawl ends, and shows every object that is reached from its start once, the start among them, and no other. -/
def Graph.CrawlsOnce (g : Graph) (ref : ObjectRef) : Prop :=
  ∀ fuel c, g.objects.size < fuel → ∃ c' vs, g.crawlSmg fuel ref c = pure c' ∧ c'.received = vs ++ c.received ∧
    (objectVisits vs).Nodup ∧ ∀ x, x ∈ objectVisits vs ↔ ReflTransGen g.PointsTo ref x

/-- The walk of a fresh crawler through the whole graph ends, and shows every object that a handle leads to, directly or
through others, once, and no other. -/
def Graph.WalksOnce (g : Graph) : Prop :=
  ∀ fuel, g.objects.size < fuel → ∃ c', g.visitGraph fuel .new = pure c' ∧ (objectVisits c'.received).Nodup ∧
    ∀ x, x ∈ objectVisits c'.received ↔ TransGen g.PointsTo .handles x

/-- A crawl shows an object on a cycle again when it comes back to it, and goes wrong nowhere else. -/
theorem crawl_once_iff (hg : g.Closed) {ref : ObjectRef} {o : Object} (ho : g.deref ref = .ok o) :
    (g.CrawlsOnce ref ∧ g.WalksOnce) ↔ ¬ TransGen g.PointsTo ref ref := by
  constructor
  · rintro ⟨hcrawl, -⟩ hcycle
    obtain ⟨c', vs, hc', hvs, hnd, -⟩ := hcrawl (g.objects.size + 1) .new (Nat.lt_succ_self _)
    obtain ⟨d, ws, l, hd, hws, hobj, -, hmem⟩ := crawlSmg_shown hg ho (Nat.lt_succ_self _) .new
    rw [hc'] at hd
    cases hd
    obtain rfl : vs = ws := List.append_cancel_right (hvs.symm.trans hws)
    rw [hobj] at hnd
    exact (List.nodup_append.1 hnd).2.2 ref ((hmem ref).2 hcycle) ref (List.mem_singleton_self ref) rfl
  · intro hcycle
    refine ⟨fun fuel c hfuel => ?_, fun fuel hfuel => visitGraph_shown hg hfuel⟩
    obtain ⟨c', vs, l, hc', hvs, hobj, hnd, hmem⟩ := crawlSmg_shown hg ho hfuel c
    refine ⟨c', vs, hc', hvs, ?_, fun x => ?_⟩
    · rw [hobj]
      refine List.nodup_append.2 ⟨hnd, List.nodup_singleton ref, ?_⟩
      rintro x hx y hy rfl
      rw [List.mem_singleton.1 hy] at hx
      exact hcycle ((hmem ref).1 hx)
    · rw [hobj, List.mem_append, List.mem_singleton, hmem, reflTransGen_iff_eq_or_transGen]
      exact or_comm

/-! ## The sub-graph -/

/-- One edge of the round: its target is queued when it is newly inserted. -/
def Graph.insertTarget (g : Graph) (wo : List ObjectRef × List ObjectId) (edge : PtEdge) :
    WalkM (List ObjectRef × List ObjectId) := do
  let objRef ← g.targetObject edge.targetObjectId
  if objRef.id ∈ wo.2 then return wo
  else return (wo.1 ++ [.stored edge.targetObjectId], objRef.id :: wo.2)

/-- The loop of `SubGraph::Init`. The front of the worklist leaves it at the end of the round. -/
def Graph.initLoop (g : Graph) : ℕ → List ObjectRef → List ObjectId → WalkM (List ObjectId)
  | 0, _, _ => failure
  | _ + 1, [], objects => return objects
  | fuel + 1, front :: worklist, objects => do
    let o ← g.deref front
    let wo ← o.ptEdges.foldlM g.insertTarget (front :: worklist, objects)
    g.initLoop fuel wo.1.tail wo.2

/-- `SubGraph::Init`: the set of the collected objects, which is a set by their ids, latest first. -/
def Graph.initSubGraph (g : Graph) (fuel : ℕ) (root : ObjectRef) : WalkM (List ObjectId) := g.initLoop fuel [root] []

theorem insertTarget_eq (hg : g.Closed) (wo : List ObjectRef × List ObjectId) {e : PtEdge}
    (he : e.targetObjectId ∈ g.objects) :
    g.insertTarget wo e =
      if e.targetObjectId ∈ wo.2 then pure wo
      else pure (wo.1 ++ [.stored e.targetObjectId], e.targetObjectId :: wo.2) := by
  obtain ⟨o, htarget, hid⟩ := hg.target he
  unfold Graph.insertTarget
  rw [htarget, ← hid]
  rfl

/-- A round meets the targets of its object. -/
theorem insertTargets_eq (hg : g.Closed) (front : ObjectRef) : ∀ (edges : List PtEdge),
    (∀ e ∈ edges, e.targetObjectId ∈ g.objects) → ∀ queue seen : List ObjectId,
      edges.foldlM g.insertTarget (front :: queue.map .stored, seen) =
        pure (front :: (enqueue (edges.map (·.targetObjectId)) queue seen).1.map .stored,
          (enqueue (edges.map (·.targetObjectId)) queue seen).2) := by
  intro edges
  induction edges with
  | nil => exact fun _ _ _ => rfl
  | cons e edges ih =>
    intro hedges queue seen
    obtain ⟨he, hedges⟩ := List.forall_mem_cons.1 hedges
    rw [List.foldlM_cons, insertTarget_eq hg _ he, List.map_cons]
    by_cases hmem : e.targetObjectId ∈ seen
    · rw [if_pos hmem, pure_bind, ih hedges, enqueue_seen hmem]
    · have hqueue : (front :: queue.map ObjectRef.stored) ++ [.stored e.targetObjectId] =
          front :: (queue ++ [e.targetObjectId]).map .stored := by simp
      rw [if_neg hmem, pure_bind, hqueue, ih hedges, enqueue_new hmem]

theorem initLoop_round (hg : g.Closed) {front : ObjectRef} {o : Object} (ho : g.deref front = .ok o) (fuel : ℕ)
    (queue seen : List ObjectId) :
    g.initLoop (fuel + 1) (front :: queue.map .stored) seen =
      g.initLoop fuel ((enqueue (g.targetsOf front) queue seen).1.map .stored)
        (enqueue (g.targetsOf front) queue seen).2 := by
  have hround := insertTargets_eq hg front o.ptEdges (hg.edge front o ho) queue seen
  rw [targetsOf_eq ho, Graph.initLoop, ho]
  change (o.ptEdges.foldlM g.insertTarget _ >>= _) = _
  rw [hround, pure_bind]
  rfl

/-- The loop follows the collection of the targets. -/
theorem initLoop_collect (hg : g.Closed) : ∀ (fuel : ℕ) (queue seen seen' : List ObjectId),
    (∀ id ∈ queue, id ∈ g.objects) → collect g.next fuel queue seen = some seen' →
      g.initLoop fuel (queue.map .stored) seen = pure seen' := by
  intro fuel
  induction fuel with
  | zero => intro queue seen seen' _ h; cases h
  | succ fuel ih =>
    intro queue seen seen' hqueue h
    cases queue with
    | nil =>
      cases h
      rfl
    | cons id queue =>
      obtain ⟨hid, hqueue⟩ := List.forall_mem_cons.1 hqueue
      obtain ⟨o, ho⟩ := mem_objects_iff.1 hid
      rw [List.map_cons, initLoop_round hg (deref_stored ho)]
      refine ih _ _ seen' (fun x hx => ?_) h
      rcases ((enqueues (g.next id) queue seen).queue x).1 hx with hx | ⟨hx, -⟩
      · exact hqueue x hx
      · exact hg.targets hx

/-- The collection ends, and finds what is reached from its root by one or more edges, which may be the root. -/
theorem subGraph_reached (hg : g.Closed) {root : ObjectRef} {o : Object} (ho : g.deref root = .ok o) {fuel : ℕ}
    (hfuel : g.objects.size + 1 < fuel) :
    ∃ objects, g.initSubGraph fuel root = pure objects ∧ objects.Nodup ∧
      ∀ id, id ∈ objects ↔ TransGen g.PointsTo root (.stored id) := by
  obtain ⟨fuel, rfl⟩ : ∃ n, fuel = n + 1 := ⟨fuel - 1, by omega⟩
  have htargets : ∀ id ∈ (enqueue (g.targetsOf root) [] []).1, id ∈ g.objects := by
    intro id hid
    rcases ((enqueues (g.targetsOf root) [] []).queue id).1 hid with hid | ⟨hid, -⟩
    · cases hid
    · exact hg.targets hid
  have hcard := enqueue_card [] [] fun id (hid : id ∈ g.targetsOf root) => mem_ids.2 (hg.targets hid)
  have hsize := card_ids (g := g)
  have hclosed : ∀ a ∈ g.ids, ∀ b ∈ g.next a, b ∈ g.ids := fun _ _ _ hb => mem_ids.2 (hg.targets hb)
  have hbound : (enqueue (g.targetsOf root) [] []).1.length + (unseen g.ids (enqueue (g.targetsOf root) [] []).2).card <
      fuel := by
    rw [hcard, List.length_nil]
    omega
  obtain ⟨objects, hobjects⟩ := collect_isSome hclosed (fun id hid => mem_ids.2 (htargets id hid)) hbound
  obtain ⟨hnd, hmem⟩ := collect_iff hobjects
  refine ⟨objects, ?_, hnd, fun id => ?_⟩
  · exact (initLoop_round hg ho fuel [] []).trans (initLoop_collect hg fuel _ _ objects htargets hobjects)
  · rw [← stored_reached hmem, List.mem_map_of_injective fun _ _ h => ObjectRef.stored.inj h]

section Example

attribute [local instance] Ty.x86

theorem selfNode_closed : selfNode.2.graph.Closed := (run_joinable selfNode_run).toClosed.graph

/-- A region that points to itself is shown twice by a crawl that starts at it. -/
theorem crawl_selfNode_twice : selfNode.2.graph.Closed ∧ selfNode.2.graph.deref (.stored 1) = .ok selfObject ∧
    (∃ c, selfNode.2.graph.crawlSmg 5 (.stored 1) .new = pure c ∧
      objectVisits c.received = [.stored 1, .stored 1]) ∧
    ¬ selfNode.2.graph.CrawlsOnce (.stored 1) := by
  refine ⟨selfNode_closed, rfl, ⟨_, rfl, rfl⟩, ?_⟩
  intro hcrawl
  obtain ⟨c', vs, hc', hvs, hnd, -⟩ := hcrawl 5 .new (by decide +kernel)
  cases hc'
  obtain rfl := hvs.trans (List.append_nil vs)
  exact absurd hnd (by decide +kernel)

theorem crawl_once_handles : selfNode.2.graph.CrawlsOnce .handles ∧ selfNode.2.graph.WalksOnce := by
  have hhandles : selfNode.2.graph.deref .handles = .ok _ := rfl
  refine (crawl_once_iff selfNode_closed hhandles).2 ?_
  intro h
  obtain ⟨id, hid, -⟩ := pointsTo_trans.1 h
  cases hid

theorem subGraph_reached_self : ∃ objects, selfNode.2.graph.initSubGraph 6 (.stored 1) = pure objects ∧
    objects.Nodup ∧ ∀ id, id ∈ objects ↔ TransGen selfNode.2.graph.PointsTo (.stored 1) (.stored id) :=
  subGraph_reached selfNode_closed (deref_stored selfObject_stored) (by decide +kernel)

end Example

end Angie
