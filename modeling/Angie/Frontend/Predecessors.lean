import Angie.Frontend.Parser

/-!
# Predecessors

`GetPrevs` over the calls of `CreateEmpty`, `InsertNewAfter`, `InsertNewBranchAfter` and `LinkTogether`. An insertion
takes the link of a start node away from its terminal node, which keeps the start node among its predecessors for ever:
the lists invert the links exactly as long as no node was inserted (`prevs_invert_iff`). The nodes of the parser come
from such calls (`parseModule_built`).
-/

namespace Angie

open Exec Llvm

/-! ## The calls -/

/-- `GetPrevs`, which start nodes do not support. -/
def getPrevs (n : NodeId) : CfgM (List NodeId) := do
  let x ← nodeAt n
  if x.kind = .start then throw (.notSupported "") else return x.prevs

inductive CfgOp where
  | createEmpty
  | insertNewAfter (this : NodeId) (op : Operation) (args : OperationArgs) (inner : Instruction) (bp : Bool)
  | insertNewBranchAfter (this : NodeId) (op : Operation) (args : OperationArgs) (inner : Instruction) (bp : Bool)
  | linkTogether (prev next : NodeId) (targetIndex : ℕ)

namespace Cfg

variable (s : Cfg)

/-- A node that was inserted. -/
def IsInner (n : NodeId) : Prop := ∃ op args inner bp, s.kindAt n = some (.inner op args inner bp)

def prevsAt (n : NodeId) : Option (List NodeId) := (s[n]?).map Node.prevs

/-- `m` occurs in `n.GetPrevs()`. -/
def InPrevs (m n : NodeId) : Prop := ∃ ps, getPrevs n s = .ok ps s ∧ m ∈ ps

/-- A node is among the predecessors of another one if and only if it leads there. -/
def PrevsInvert : Prop :=
  ∀ m n, m < s.length → n < s.length → (s.InPrevs m n ↔ s.target m 0 = some n ∨ s.target m 1 = some n)

end Cfg

namespace CfgOp

def exec : CfgOp → CfgM Unit
  | .createEmpty => do let _ ← Angie.createEmpty
  | .insertNewAfter this op args inner bp => do let _ ← Angie.insertNewAfter this op args inner bp
  | .insertNewBranchAfter this op args inner bp => do let _ ← Angie.insertNewBranchAfter this op args inner bp
  | .linkTogether prev next targetIndex => Angie.linkTogether prev next targetIndex

/-- As the parser makes it: only a node that was inserted is linked to another one. -/
def MadeIn (s : Cfg) : CfgOp → Prop
  | .linkTogether prev _ _ => s.IsInner prev
  | _ => True

end CfgOp

/-- The nodes after calls that returned, latest first. -/
inductive CfgRun : List CfgOp → Cfg → Prop
  | start : CfgRun [] []
  | call {ops : List CfgOp} {s t : Cfg} (op : CfgOp) : CfgRun ops s → op.MadeIn s → op.exec s = .ok () t →
      CfgRun (op :: ops) t

/-! ## What is on the heap -/

namespace Cfg

variable {s : Cfg}

theorem prevsAt_append (x : Node) (n : NodeId) :
    Cfg.prevsAt (s ++ [x]) n = if n = s.length then some x.prevs else s.prevsAt n := by
  unfold prevsAt
  rw [getElem?_push]
  split <;> rfl

theorem prevsAt_setTarget (n t : NodeId) (i : ℕ) (k : NodeId) : (s.setTarget n t i).prevsAt k = s.prevsAt k := by
  unfold prevsAt setTarget
  rw [getElem?_modify, Option.map_map]
  congr 1
  funext x
  simp only [Function.comp]
  split
  · unfold Node.setTarget
    split <;> rfl
  · rfl

theorem prevsAt_addPrev (n p k : NodeId) :
    (s.addPrev n p).prevsAt k = (s.prevsAt k).map fun ps => if n = k then ps ++ [p] else ps := by
  unfold prevsAt addPrev
  rw [getElem?_modify, Option.map_map, Option.map_map]
  congr 1
  funext x
  simp only [Function.comp]
  split <;> rfl

theorem inPrevs_iff {m n : NodeId} :
    s.InPrevs m n ↔ ∃ x, s[n]? = some x ∧ x.kind ≠ .start ∧ m ∈ x.prevs := by
  unfold InPrevs getPrevs
  cases hx : s[n]? with
  | none =>
    have hnode : nodeAt n s = .error (.undefinedBehaviour "dangling node") s := by
      unfold nodeAt
      rw [hx]
    rw [bind_of_error hnode]
    simp
  | some x =>
    rw [bind_of_ok (nodeAt_ok hx)]
    by_cases hk : x.kind = .start
    · simp [hk]
    · simp [hk]

theorem IsInner.not_start {n : NodeId} (h : s.IsInner n) : s.kindAt n ≠ some .start := by
  obtain ⟨op, args, inner, bp, h⟩ := h
  rw [h]
  simp

end Cfg

/-! ## What a call does -/

/-- The node `new` was inserted behind `this`: nothing else changes on the nodes that were there. -/
structure Cfg.Inserted (s : Cfg) (this new : NodeId) (t : Cfg) : Prop where
  old : this < s.length
  kind : ∀ n < s.length, t.kindAt n = s.kindAt n
  prevs : ∀ n < s.length, t.prevsAt n = s.prevsAt n
  target : ∀ n < s.length, ∀ i, t.target n i = if n = this ∧ i = 0 then some new else s.target n i
  inner : t.IsInner new

section Calls

variable {s t : Cfg}

theorem nodeAt_inv {n : NodeId} {x : Node} (h : nodeAt n s = .ok x t) : s[n]? = some x ∧ t = s := by
  unfold nodeAt at h
  cases hs : s[n]? with
  | none =>
    rw [hs] at h
    cases h
  | some y =>
    rw [hs] at h
    cases h
    exact ⟨rfl, rfl⟩

theorem deref_inv {p : Option NodeId} {n : NodeId} (h : deref p s = .ok n t) : p = some n ∧ t = s := by
  cases p with
  | none => cases h
  | some k =>
    cases h
    exact ⟨rfl, rfl⟩

theorem updateNode_inv {n : NodeId} {f : Node → Node} (h : updateNode n f s = .ok () t) :
    n < s.length ∧ t = s.modify n f := by
  obtain ⟨x, t', hx, -⟩ := bind_ok h
  obtain ⟨hn, -⟩ := nodeAt_inv hx
  have hlt := (List.getElem?_eq_some_iff.1 hn).1
  rw [updateNode_ok hlt] at h
  cases h
  exact ⟨hlt, rfl⟩

/-- An insertion reads through `next`. -/
theorem next_of_insert {α : Type} {this : NodeId} {f : NodeId → CfgM α} {a : α}
    (h : (do f (← deref (← nodeAt this).next)) s = .ok a t) : ∃ last, s.target this 0 = some last := by
  obtain ⟨x, t', hx, hrest⟩ := bind_ok h
  obtain ⟨last, t'', hlast, -⟩ := bind_ok hrest
  obtain ⟨hs, rfl⟩ := nodeAt_inv hx
  obtain ⟨hnext, -⟩ := deref_inv hlast
  refine ⟨last, ?_⟩
  rw [Cfg.target, hs]
  exact hnext

theorem insertNewAfter_inserted {this n : NodeId} {op : Operation} {args : OperationArgs} {inner : Instruction}
    {bp : Bool} (h : insertNewAfter this op args inner bp s = .ok n t) : s.Inserted this n t := by
  obtain ⟨last, hlast⟩ := next_of_insert h
  have hlt := Cfg.target_lt hlast
  obtain ⟨t', hrun, -, hkind, htarget⟩ := insertNewAfter_ok hlast op args inner bp
  rw [insertNewAfter_eq hlast] at hrun h
  cases hrun
  cases h
  refine ⟨hlt, fun k hk => ?_, fun k hk => ?_, fun k hk i => ?_, op, args, inner, bp, ?_⟩
  · rw [hkind, if_neg (Nat.ne_of_lt hk)]
  · rw [Cfg.prevsAt_setTarget, Cfg.prevsAt_append, if_neg (Nat.ne_of_lt hk)]
  · rw [htarget, if_neg (Nat.ne_of_lt hk)]
  · rw [hkind, if_pos rfl]

theorem insertNewBranchAfter_inserted {this n : NodeId} {op : Operation} {args : OperationArgs} {inner : Instruction}
    {bp : Bool} (h : insertNewBranchAfter this op args inner bp s = .ok n t) : s.Inserted this n t := by
  obtain ⟨last, hlast⟩ := next_of_insert h
  have hlt := Cfg.target_lt hlast
  rw [insertNewBranchAfter_eq hlast] at h
  cases h
  refine ⟨hlt, fun k hk => ?_, fun k hk => ?_, fun k hk i => ?_, op, args, inner, bp, ?_⟩
  · rw [Cfg.kindAt_setTarget, Cfg.kindAt_setTarget, Cfg.kindAt_append, if_neg (by simp; lia), Cfg.kindAt_append,
      if_neg (Nat.ne_of_lt hk)]
  · rw [Cfg.prevsAt_setTarget, Cfg.prevsAt_setTarget, Cfg.prevsAt_append, if_neg (by simp; lia), Cfg.prevsAt_append,
      if_neg (Nat.ne_of_lt hk)]
  · rw [Cfg.target_setTarget (by simp; lia) _ (by lia), Cfg.target_setTarget (by simp) _ (by lia), Cfg.target_append]
    split
    · rfl
    · rw [if_neg fun hk' => Nat.ne_of_lt hk hk'.1, if_neg (by simp; lia), Cfg.target_append,
        if_neg (Nat.ne_of_lt hk)]
  · rw [Cfg.kindAt_setTarget, Cfg.kindAt_setTarget, Cfg.kindAt_append, if_neg (by simp), Cfg.kindAt_append, if_pos rfl]

/-- What a link does that is made: the first node has another target, the second itself as a predecessor. -/
theorem linkTogether_inv {prev next : NodeId} {i : ℕ} (h : linkTogether prev next i s = .ok () t) :
    i < 2 ∧ prev < s.length ∧ next < s.length ∧ t = (s.setTarget prev next i).addPrev next next := by
  have hlink : ∀ index, linkThrough index prev next s = .ok () t →
      prev < s.length ∧ next < s.length ∧ t = (s.setTarget prev next index).addPrev next next := by
    intro index hrun
    obtain ⟨x, t₁, hx, hderef⟩ := bind_ok hrun
    obtain ⟨-, rfl⟩ := nodeAt_inv hx
    obtain ⟨last, t₂, hlast, hread⟩ := bind_ok hderef
    obtain ⟨-, rfl⟩ := deref_inv hlast
    obtain ⟨y, t₃, hy, htest⟩ := bind_ok hread
    obtain ⟨-, rfl⟩ := nodeAt_inv hy
    split at htest
    · cases htest
    · obtain ⟨_, t₄, hprev, hnext⟩ := bind_ok htest
      obtain ⟨hlt, rfl⟩ := updateNode_inv hprev
      obtain ⟨hlt', rfl⟩ := updateNode_inv hnext
      rw [List.length_modify] at hlt'
      exact ⟨hlt, hlt', rfl⟩
  unfold linkTogether at h
  split at h
  · rename_i hi
    subst hi
    exact ⟨Nat.zero_lt_two, hlink 0 h⟩
  · split at h
    · rename_i hi
      subst hi
      exact ⟨Nat.one_lt_two, hlink 1 h⟩
    · cases h

/-- The kind and the predecessors of a node are there for ever, and a start node is taken from its successor by an
insertion only, which puts an inner node behind it. -/
structure Cfg.Grown (s t : Cfg) : Prop where
  kind : ∀ n k, s.kindAt n = some k → t.kindAt n = some k
  prevs : ∀ n ps, s.prevsAt n = some ps → ∃ ps', t.prevsAt n = some ps' ∧ ps ⊆ ps'
  start : ∀ n, s.kindAt n = some .start → t.target n 1 = s.target n 1 ∧
    (t.target n 0 = s.target n 0 ∨ ∃ x, t.target n 0 = some x ∧ t.IsInner x)

theorem Cfg.IsInner.grown {n : NodeId} (h : s.IsInner n) (hg : s.Grown t) : t.IsInner n := by
  obtain ⟨op, args, inner, bp, h⟩ := h
  exact ⟨op, args, inner, bp, hg.kind n _ h⟩

theorem Cfg.prevsAt_lt {n : NodeId} {ps : List NodeId} (h : s.prevsAt n = some ps) : n < s.length := by
  obtain ⟨x, hx, -⟩ := Option.map_eq_some_iff.1 h
  exact (List.getElem?_eq_some_iff.1 hx).1

theorem Cfg.Inserted.grown {this new : NodeId} (h : s.Inserted this new t) : s.Grown t where
  kind n k hk := (h.kind n (Cfg.kindAt_lt hk)).trans hk
  prevs n ps hps := ⟨ps, (h.prevs n (Cfg.prevsAt_lt hps)).trans hps, List.Subset.refl ps⟩
  start := by
    intro n hn
    rw [h.target n (Cfg.kindAt_lt hn), h.target n (Cfg.kindAt_lt hn), if_neg (by simp)]
    refine ⟨rfl, ?_⟩
    split
    · exact Or.inr ⟨new, rfl, h.inner⟩
    · exact Or.inl rfl

/-- A start node and the terminal one behind it, as `CreateEmpty` makes them at `n`. -/
def startAt (n : NodeId) : Node := ⟨.start, some (n + 1), none, []⟩

def endAt (n : NodeId) : Node := ⟨.terminal, none, none, [n]⟩

theorem modify_behind (l : List Node) (i : ℕ) (f : Node → Node) : ∀ s : Cfg,
    (s ++ l).modify (s.length + i) f = s ++ l.modify i f
  | [] => by simp
  | x :: s => by
    have hlen : (x :: s).length + i = (s.length + i) + 1 := by simp; omega
    rw [hlen, List.cons_append, List.modify_succ_cons, modify_behind l i f s, List.cons_append]

theorem createEmpty_apply (s : Cfg) :
    createEmpty s = .ok s.length (s ++ [startAt s.length, endAt s.length]) := by
  rw [createEmpty_eq, List.append_assoc]
  congr 1
  have hfirst := modify_behind ([⟨.start, none, none, []⟩] ++ [⟨.terminal, none, none, []⟩]) 0
    (·.setTarget (s.length + 1) 0) s
  have hlast := modify_behind [startAt s.length, ⟨.terminal, none, none, []⟩] 1 (·.addPrev s.length) s
  exact (congrArg (fun t => Cfg.addPrev t (s.length + 1) s.length) hfirst).trans hlast

/-- New nodes change nothing on those that were there. -/
theorem grown_append (s l : Cfg) : s.Grown (s ++ l) := by
  have hold : ∀ n < s.length, (s ++ l)[n]? = s[n]? := fun n hn => List.getElem?_append_left hn
  have htarget : ∀ n, s.kindAt n = some .start → ∀ i, Cfg.target (s ++ l) n i = s.target n i := by
    intro n hn i
    rw [Cfg.target, hold n (Cfg.kindAt_lt hn)]
    rfl
  refine ⟨fun n k hk => ?_, fun n ps hps => ⟨ps, ?_, List.Subset.refl ps⟩, fun n hn => ⟨htarget n hn 1, ?_⟩⟩
  · rw [Cfg.kindAt, hold n (Cfg.kindAt_lt hk)]
    exact hk
  · rw [Cfg.prevsAt, hold n (Cfg.prevsAt_lt hps)]
    exact hps
  · exact Or.inl (htarget n hn 0)

/-- A link from an inner node leaves the start nodes alone. -/
theorem grown_link {prev : NodeId} (hinner : s.IsInner prev) (hprev : prev < s.length) (next : NodeId) {i : ℕ}
    (hi : i < 2) : s.Grown ((s.setTarget prev next i).addPrev next next) := by
  refine ⟨fun n k hk => ?_, fun n ps hps => ?_, fun n hn => ?_⟩
  · rw [Cfg.kindAt_addPrev, Cfg.kindAt_setTarget]
    exact hk
  · rw [Cfg.prevsAt_addPrev, Cfg.prevsAt_setTarget, hps]
    refine ⟨_, rfl, ?_⟩
    split
    · exact List.subset_append_left ps [next]
    · exact List.Subset.refl ps
  · have hne : n ≠ prev := by
      rintro rfl
      exact hinner.not_start hn
    rw [Cfg.target_addPrev, Cfg.target_addPrev, Cfg.target_setTarget hprev next hi,
      Cfg.target_setTarget hprev next hi, if_neg fun h => hne h.1, if_neg fun h => hne h.1]
    exact ⟨rfl, Or.inl rfl⟩

theorem CfgOp.grown {op : CfgOp} (hm : op.MadeIn s) (h : op.exec s = .ok () t) : s.Grown t := by
  cases op with
  | createEmpty =>
    obtain ⟨n, t', hrun, hret⟩ := bind_ok h
    rw [createEmpty_apply] at hrun
    cases hrun
    cases hret
    exact grown_append s _
  | insertNewAfter this op args inner bp =>
    obtain ⟨n, t', hrun, hret⟩ := bind_ok h
    cases hret
    exact (insertNewAfter_inserted hrun).grown
  | insertNewBranchAfter this op args inner bp =>
    obtain ⟨n, t', hrun, hret⟩ := bind_ok h
    cases hret
    exact (insertNewBranchAfter_inserted hrun).grown
  | linkTogether prev next i =>
    obtain ⟨hi, hprev, hnext, rfl⟩ := linkTogether_inv h
    exact grown_link hm hprev next hi

end Calls

/-! ## Runs -/

section Runs

variable {s t : Cfg}

/-- Start nodes with their terminal ones, and nothing else. -/
def Cfg.Paired (s : Cfg) : Prop :=
  ∀ n x, s[n]? = some x → (x = startAt n ∧ s[n + 1]? = some (endAt n)) ∨
    ∃ k, n = k + 1 ∧ x = endAt k ∧ s[k]? = some (startAt k)

/-- A terminal node has a start node among its predecessors that leads to an inner one instead. -/
def Cfg.Parted (s : Cfg) : Prop :=
  ∃ a b, s.kindAt a = some .start ∧ s.target a 1 = none ∧ (∃ x, s.target a 0 = some x ∧ s.IsInner x) ∧
    s.kindAt b = some .terminal ∧ ∃ ps, s.prevsAt b = some ps ∧ a ∈ ps

theorem Cfg.Paired.createEmpty (h : s.Paired) : Cfg.Paired (s ++ [startAt s.length, endAt s.length]) := by
  intro n x hx
  rcases Nat.lt_trichotomy n s.length with hn | rfl | hn
  · rw [List.getElem?_append_left hn] at hx
    rcases h n x hx with ⟨rfl, hend⟩ | ⟨k, rfl, rfl, hstart⟩
    · have hlt := (List.getElem?_eq_some_iff.1 hend).1
      exact Or.inl ⟨rfl, (List.getElem?_append_left hlt).trans hend⟩
    · exact Or.inr ⟨k, rfl, rfl, (List.getElem?_append_left (Nat.lt_of_succ_lt hn)).trans hstart⟩
  · left
    simp at hx
    exact ⟨hx.symm, by simp⟩
  · right
    obtain ⟨i, rfl⟩ := Nat.exists_eq_add_of_lt hn
    cases i with
    | zero =>
      simp at hx
      exact ⟨s.length, rfl, hx.symm, by simp⟩
    | succ i =>
      rw [List.getElem?_eq_none (by simp)] at hx
      cases hx

theorem Cfg.Paired.not_inner (h : s.Paired) (n : NodeId) : ¬ s.IsInner n := by
  rintro ⟨op, args, inner, bp, hk⟩
  obtain ⟨x, hx, hkind⟩ := Option.map_eq_some_iff.1 hk
  rcases h n x hx with ⟨rfl, -⟩ | ⟨k, -, rfl, -⟩
  · cases hkind
  · cases hkind

/-- While the nodes are pairs the lists of predecessors invert the links. -/
theorem Cfg.Paired.invert (h : s.Paired) : s.PrevsInvert := by
  intro m n hm hn
  rw [Cfg.inPrevs_iff]
  obtain ⟨y, hy⟩ : ∃ y, s[m]? = some y := ⟨_, List.getElem?_eq_getElem hm⟩
  obtain ⟨x, hx⟩ : ∃ x, s[n]? = some x := ⟨_, List.getElem?_eq_getElem hn⟩
  rw [Cfg.target, Cfg.target, hy]
  constructor
  · rintro ⟨x', hx', hkind, hmem⟩
    rw [hx] at hx'
    cases hx'
    rcases h n x hx with ⟨rfl, -⟩ | ⟨k, rfl, rfl, hstart⟩
    · exact absurd rfl hkind
    · obtain rfl := List.mem_singleton.1 hmem
      rw [hy] at hstart
      cases hstart
      exact Or.inl rfl
  · intro htarget
    rcases h m y hy with ⟨rfl, hend⟩ | ⟨k, -, rfl, -⟩
    · rcases htarget with htarget | htarget
      · cases htarget
        exact ⟨endAt m, hend, by simp [endAt], List.mem_singleton_self m⟩
      · cases htarget
    · rcases htarget with htarget | htarget
      · cases htarget
      · cases htarget

/-- The first insertion is behind a start node, and its terminal node keeps it. -/
theorem Cfg.Paired.inserted (h : s.Paired) {this new last : NodeId} (hlast : s.target this 0 = some last)
    (hi : s.Inserted this new t) : t.Parted := by
  obtain ⟨x, hx⟩ : ∃ x, s[this]? = some x := ⟨_, List.getElem?_eq_getElem hi.old⟩
  rw [Cfg.target, hx] at hlast
  rcases h this x hx with ⟨rfl, hend⟩ | ⟨k, -, rfl, -⟩
  · have hlt := (List.getElem?_eq_some_iff.1 hend).1
    refine ⟨this, this + 1, ?_, ?_, ⟨new, ?_, hi.inner⟩, ?_, [this], ?_, List.mem_singleton_self this⟩
    · rw [hi.kind this hi.old, Cfg.kindAt, hx]
      rfl
    · rw [hi.target this hi.old, if_neg (by simp), Cfg.target, hx]
      rfl
    · rw [hi.target this hi.old, if_pos ⟨rfl, rfl⟩]
    · rw [hi.kind _ hlt, Cfg.kindAt, hend]
      rfl
    · rw [hi.prevs _ hlt, Cfg.prevsAt, hend]
      rfl
  · cases hlast

theorem Cfg.Parted.grown (h : s.Parted) (hg : s.Grown t) : t.Parted := by
  obtain ⟨a, b, ha, hfalse, ⟨x, hx, hinner⟩, hb, ps, hps, hmem⟩ := h
  obtain ⟨hfalse', hnext⟩ := hg.start a ha
  obtain ⟨ps', hps', hsub⟩ := hg.prevs b ps hps
  refine ⟨a, b, hg.kind a _ ha, hfalse'.trans hfalse, ?_, hg.kind b _ hb, ps', hps', hsub hmem⟩
  rcases hnext with hnext | hnext
  · exact ⟨x, hnext.trans hx, hinner.grown hg⟩
  · exact hnext

theorem Cfg.Parted.not_invert (h : s.Parted) : ¬ s.PrevsInvert := by
  obtain ⟨a, b, ha, hfalse, ⟨x, hx, hinner⟩, hb, ps, hps, hmem⟩ := h
  intro hinv
  obtain ⟨y, hy, rfl⟩ := Option.map_eq_some_iff.1 hps
  have hkind : y.kind = .terminal := by
    rw [Cfg.kindAt, hy] at hb
    exact Option.some.inj hb
  have hin : s.InPrevs a b := Cfg.inPrevs_iff.2 ⟨y, hy, by rw [hkind]; simp, hmem⟩
  rcases (hinv a b (Cfg.kindAt_lt ha) (Cfg.kindAt_lt hb)).1 hin with hnext | hnext
  · -- the start node leads to an inner node, not to the terminal one
    rw [hx] at hnext
    cases hnext
    obtain ⟨op, args, inner, bp, hinner⟩ := hinner
    rw [hb] at hinner
    cases hinner
  · rw [hfalse] at hnext
    cases hnext

/-- Pairs as long as nothing but empty graphs was made, parted ever after. -/
theorem CfgRun.cases {ops : List CfgOp} (h : CfgRun ops s) :
    ((∀ op ∈ ops, op = .createEmpty) ∧ s.Paired) ∨ ((∃ op ∈ ops, op ≠ .createEmpty) ∧ s.Parted) := by
  induction h with
  | start => exact Or.inl ⟨by simp, fun n x hx => by simp at hx⟩
  | @call ops s t op hr hm hrun ih =>
    rcases ih with ⟨hall, hpaired⟩ | ⟨⟨op', hop', hne⟩, hparted⟩
    · cases op with
      | createEmpty =>
        obtain ⟨n, t', hcreate, hret⟩ := bind_ok hrun
        rw [createEmpty_apply] at hcreate
        cases hcreate
        cases hret
        exact Or.inl ⟨List.forall_mem_cons.2 ⟨rfl, hall⟩, hpaired.createEmpty⟩
      | insertNewAfter this op args inner bp =>
        obtain ⟨n, t', hinsert, hret⟩ := bind_ok hrun
        cases hret
        obtain ⟨last, hlast⟩ := next_of_insert hinsert
        exact Or.inr ⟨⟨_, List.mem_cons_self, by simp⟩, hpaired.inserted hlast (insertNewAfter_inserted hinsert)⟩
      | insertNewBranchAfter this op args inner bp =>
        obtain ⟨n, t', hinsert, hret⟩ := bind_ok hrun
        cases hret
        obtain ⟨last, hlast⟩ := next_of_insert hinsert
        exact Or.inr ⟨⟨_, List.mem_cons_self, by simp⟩, hpaired.inserted hlast (insertNewBranchAfter_inserted hinsert)⟩
      | linkTogether prev next i => exact absurd hm (hpaired.not_inner prev)
    · exact Or.inr ⟨⟨op', List.mem_cons_of_mem op hop', hne⟩, hparted.grown (CfgOp.grown hm hrun)⟩

theorem prevs_invert_iff {ops : List CfgOp} (h : CfgRun ops s) : s.PrevsInvert ↔ ∀ op ∈ ops, op = .createEmpty := by
  rcases h.cases with ⟨hall, hpaired⟩ | ⟨⟨op, hop, hne⟩, hparted⟩
  · exact iff_of_true hpaired.invert hall
  · exact iff_of_false hparted.not_invert fun hall => hne (hall op hop)

end Runs

section Example

def retInstruction : Instruction := ⟨14, .void, .ret, [], false⟩

/-- A block that only returns. -/
def retNodes : Cfg :=
  [⟨.start, some 2, none, []⟩, ⟨.terminal, none, none, [0]⟩,
    ⟨.inner .ret [] retInstruction false, some 1, none, [0]⟩]

theorem retNodes_run : CfgRun [.insertNewAfter 0 .ret [] retInstruction false, .createEmpty] retNodes :=
  .call _ (.call .createEmpty .start trivial rfl) trivial rfl

/-- The terminal node knows the start node instead of the one that leads to it. -/
theorem retNodes_not_inverted : CfgRun [.insertNewAfter 0 .ret [] retInstruction false, .createEmpty] retNodes ∧
    retNodes.InPrevs 0 1 ∧ retNodes.target 0 0 = some 2 ∧ retNodes.target 0 1 = none ∧
    ¬ retNodes.InPrevs 2 1 ∧ retNodes.target 2 0 = some 1 ∧ ¬ retNodes.PrevsInvert := by
  have hmiss : ¬ retNodes.InPrevs 2 1 := by
    rw [Cfg.inPrevs_iff]
    rintro ⟨x, hx, -, hmem⟩
    cases hx
    cases List.mem_singleton.1 hmem
  refine ⟨retNodes_run, ⟨[0], rfl, List.mem_singleton_self 0⟩, rfl, rfl, hmiss, rfl, fun hinv => ?_⟩
  exact hmiss ((hinv 2 1 (by decide) (by decide)).2 (Or.inl rfl))

theorem prevs_invert_pairs : Cfg.PrevsInvert [startAt 0, endAt 0, startAt 2, endAt 2] :=
  (prevs_invert_iff (.call .createEmpty (.call .createEmpty .start trivial rfl) trivial rfl)).2 (by simp)

end Example

/-! ## The parser -/

/-- The nodes after come from those before by such calls, and the links that were planned are of inserted nodes. -/
structure ParserState.Built (s t : ParserState) : Prop where
  run : ∀ ops, CfgRun ops s.nodes → ∃ ops', CfgRun ops' t.nodes
  inner : ∀ n, s.nodes.IsInner n → t.nodes.IsInner n
  planned : ∀ l ∈ t.parseAndLinkTogether, l ∈ s.parseAndLinkTogether ∨ t.nodes.IsInner l.node

section Parser

variable {s t u : ParserState}

namespace ParserState.Built

theorem of_eq (hn : t.nodes = s.nodes) (hp : t.parseAndLinkTogether = s.parseAndLinkTogether) : s.Built t where
  run ops h := ⟨ops, hn ▸ h⟩
  inner _ h := hn ▸ h
  planned _ hl := Or.inl (hp ▸ hl)

theorem refl (s : ParserState) : s.Built s := of_eq rfl rfl

theorem trans (h : s.Built t) (h' : t.Built u) : s.Built u where
  run ops hr := by
    obtain ⟨ops', hr'⟩ := h.run ops hr
    exact h'.run ops' hr'
  inner n hn := h'.inner n (h.inner n hn)
  planned l hl := by
    rcases h'.planned l hl with hl | hl
    · exact (h.planned l hl).imp_right (h'.inner l.node)
    · exact Or.inr hl

end ParserState.Built

theorem callCfg_inv {α : Type} {m : CfgM α} {a : α} (h : ParserM.callCfg m s = .ok a t) :
    ∃ nodes, m s.nodes = .ok a nodes ∧ t = { s with nodes := nodes } := by
  unfold ParserM.callCfg zoom at h
  cases hm : m s.nodes with
  | error e nodes =>
    rw [hm] at h
    cases h
  | ok b nodes =>
    rw [hm] at h
    cases h
    exact ⟨nodes, rfl, rfl⟩

/-- A call on the nodes, as an operation of the runs. -/
theorem built_call {nodes : Cfg} (op : CfgOp) (hm : op.MadeIn s.nodes) (h : op.exec s.nodes = .ok () nodes) :
    s.Built { s with nodes := nodes } where
  run ops hr := ⟨op :: ops, .call op hr hm h⟩
  inner _ hn := hn.grown (CfgOp.grown hm h)
  planned _ hl := Or.inl hl

theorem callCreateEmpty_built {n : NodeId} (h : ParserM.callCfg createEmpty s = .ok n t) : s.Built t := by
  obtain ⟨nodes, hrun, rfl⟩ := callCfg_inv h
  exact built_call .createEmpty trivial (bind_of_ok hrun)

section Insert

variable {this n : NodeId} {op : Operation} {args : OperationArgs} {inner : Instruction} {bp : Bool}

theorem callInsert_built (h : ParserM.callCfg (insertNewAfter this op args inner bp) s = .ok n t) :
    s.Built t ∧ t.nodes.IsInner n := by
  obtain ⟨nodes, hrun, rfl⟩ := callCfg_inv h
  exact ⟨built_call (.insertNewAfter this op args inner bp) trivial (bind_of_ok hrun),
    (insertNewAfter_inserted hrun).inner⟩

theorem callInsertBranch_built (h : ParserM.callCfg (insertNewBranchAfter this op args inner bp) s = .ok n t) :
    s.Built t ∧ t.nodes.IsInner n := by
  obtain ⟨nodes, hrun, rfl⟩ := callCfg_inv h
  exact ⟨built_call (.insertNewBranchAfter this op args inner bp) trivial (bind_of_ok hrun),
    (insertNewBranchAfter_inserted hrun).inner⟩

end Insert

theorem callLink_built {prev next : NodeId} {i : ℕ} (hprev : s.nodes.IsInner prev)
    (h : ParserM.callCfg (linkTogether prev next i) s = .ok () t) : s.Built t := by
  obtain ⟨nodes, hrun, rfl⟩ := callCfg_inv h
  exact built_call (.linkTogether prev next i) hprev hrun

theorem linkWithOrPlanProcessing_built {n : NodeId} {block : BlockId} {i : ℕ} (hn : s.nodes.IsInner n)
    (h : linkWithOrPlanProcessing n block i s = .ok () t) : s.Built t := by
  obtain ⟨s', t', hs, hrest⟩ := bind_ok h
  cases hs
  cases hb : s.copyMapping[block]? with
  | some first =>
    rw [hb] at hrest
    exact callLink_built hn hrest
  | none =>
    rw [hb] at hrest
    cases hrest
    refine ⟨fun ops hr => ⟨ops, hr⟩, fun _ h => h, fun l hl => ?_⟩
    rcases List.mem_append.1 hl with hl | hl
    · exact Or.inl hl
    · rw [List.mem_singleton.1 hl]
      exact Or.inr hn

theorem modify_built {f : ParserState → ParserState} (h : (modify f : ParserM PUnit) s = .ok ⟨⟩ t)
    (hn : ∀ s, (f s).nodes = s.nodes) (hp : ∀ s, (f s).parseAndLinkTogether = s.parseAndLinkTogether) : s.Built t := by
  cases h
  exact .of_eq (hn s) (hp s)

theorem getOperArgsForInstr_built {instr : Instruction} {args : OperationArgs}
    (h : getOperArgsForInstr instr s = .ok args t) : s.Built t := by
  obtain ⟨a, s', hargs, hrest⟩ := bind_ok h
  cases hop : operArgsFor instr with
  | error e =>
    rw [hop] at hargs
    cases hargs
  | ok b =>
    rw [hop] at hargs
    cases hargs
    cases hrest
    exact .of_eq rfl rfl

theorem ofExcept_inv {α : Type} {x : Except Exn α} {a : α} (h : (ofExcept x : ParserM α) s = .ok a t) : t = s := by
  cases x with
  | error e => cases h
  | ok b =>
    cases h
    rfl

theorem parseBody_built : ∀ {instrs : List Instruction} {cur n : NodeId} {s t : ParserState},
    parseBody instrs cur s = .ok n t → s.Built t := by
  intro instrs
  induction instrs with
  | nil =>
    intro cur n s t h
    cases h
    exact .refl s
  | cons instr instrs ih =>
    intro cur n s t h
    obtain ⟨op, s₁, hop, h₁⟩ := bind_ok h
    cases ofExcept_inv hop
    obtain ⟨args, s₂, hargs, h₂⟩ := bind_ok h₁
    obtain ⟨cur', s₃, hinsert, h₃⟩ := bind_ok h₂
    exact ((getOperArgsForInstr_built hargs).trans (callInsert_built hinsert).1).trans (ih h₃)

theorem parseTerminator_built {instr : Instruction} {cur : NodeId} (h : parseTerminator instr cur s = .ok () t) :
    s.Built t := by
  obtain ⟨op, s₁, hop, h₁⟩ := bind_ok h
  cases ofExcept_inv hop
  obtain ⟨args, s₂, hargs, h₂⟩ := bind_ok h₁
  refine (getOperArgsForInstr_built hargs).trans ?_
  cases hopc : instr.opcode with
  | br target =>
    rw [hopc] at h₂
    obtain ⟨n, s₃, hinsert, h₃⟩ := bind_ok h₂
    obtain ⟨hbuilt, hn⟩ := callInsert_built hinsert
    exact hbuilt.trans (linkWithOrPlanProcessing_built hn h₃)
  | condBr ifTrue ifFalse =>
    rw [hopc] at h₂
    obtain ⟨n, s₃, hinsert, h₃⟩ := bind_ok h₂
    obtain ⟨_, s₄, htrue, hfalse⟩ := bind_ok h₃
    obtain ⟨hbuilt, hn⟩ := callInsertBranch_built hinsert
    have hlinked := linkWithOrPlanProcessing_built hn htrue
    exact (hbuilt.trans hlinked).trans (linkWithOrPlanProcessing_built (hlinked.inner n hn) hfalse)
  | ret =>
    rw [hopc] at h₂
    obtain ⟨n, s₃, hinsert, h₃⟩ := bind_ok h₂
    cases h₃
    exact (callInsert_built hinsert).1
  | _ =>
    rw [hopc] at h₂
    cases h₂
    exact .refl _

theorem callGetNext_built {n first : NodeId} (h : ParserM.callCfg (getNext n) s = .ok first t) : t = s := by
  obtain ⟨nodes, hrun, rfl⟩ := callCfg_inv h
  obtain ⟨x, s', hx, hderef⟩ := bind_ok hrun
  obtain ⟨-, rfl⟩ := nodeAt_inv hx
  obtain ⟨-, rfl⟩ := deref_inv hderef
  rfl

theorem parseNewBlock_built {b : BasicBlock} {first : NodeId} (h : parseNewBlock b s = .ok first t) : s.Built t := by
  obtain ⟨zeroNode, s₁, hcreate, h₁⟩ := bind_ok h
  obtain ⟨cur, s₂, hbody, h₂⟩ := bind_ok h₁
  obtain ⟨_, s₃, hterm, h₃⟩ := bind_ok h₂
  obtain ⟨n, s₄, hnext, h₄⟩ := bind_ok h₃
  cases callGetNext_built hnext
  cases h₄
  have hbuilt := ((callCreateEmpty_built hcreate).trans (parseBody_built hbody)).trans (parseTerminator_built hterm)
  exact hbuilt.trans (.of_eq rfl rfl)

variable {m : Module}

theorem parseBasicBlock_built {id : BlockId} {first : NodeId} (h : parseBasicBlock m id s = .ok first t) :
    s.Built t := by
  obtain ⟨s', t', hs, hrest⟩ := bind_ok h
  cases hs
  cases hmap : s.copyMapping[id]? with
  | some n =>
    rw [hmap] at hrest
    cases hrest
    exact .refl s
  | none =>
    rw [hmap] at hrest
    cases hb : m.block? id with
    | none =>
      rw [hb] at hrest
      cases hrest
    | some b =>
      rw [hb] at hrest
      exact parseNewBlock_built hrest

theorem createOrGetValueId_built {arg : FrontendIdTypePair} {v : ValueId} (h : createOrGetValueId arg s = .ok v t) :
    s.Built t := by
  obtain ⟨s', t', hs, hrest⟩ := bind_ok h
  cases hs
  cases hmap : s.mapper[arg.id]? with
  | some value =>
    rw [hmap] at hrest
    cases hrest
    exact .refl s
  | none =>
    rw [hmap] at hrest
    obtain ⟨value, s₁, hval, h₁⟩ := bind_ok hrest
    cases h₁
    unfold ParserM.callVc zoom at hval
    split at hval
    · cases hval
      exact .of_eq rfl rfl
    · cases hval

theorem parseFunctions_built : ∀ {funcs : List Function} {s t : ParserState}, parseFunctions m funcs s = .ok () t →
    s.Built t := by
  intro funcs
  induction funcs with
  | nil =>
    intro s t h
    cases h
    exact .refl s
  | cons func funcs ih =>
    intro s t h
    rw [parseFunctions] at h
    split at h
    · exact ih h
    · obtain ⟨cfg, s₁, hcfg, h₁⟩ := bind_ok h
      obtain ⟨vid, s₂, hvid, h₂⟩ := bind_ok h₁
      obtain ⟨_, s₃, hset, h₃⟩ := bind_ok h₂
      have hfunc : s.Built s₁ := by
        unfold parseFunction at hcfg
        cases hhead : func.blocks.head? with
        | some entryBlock =>
          rw [hhead] at hcfg
          exact parseBasicBlock_built hcfg
        | none =>
          rw [hhead] at hcfg
          cases hcfg
      have hmapped := modify_built hset (fun _ => rfl) (fun _ => rfl)
      exact ((hfunc.trans (createOrGetValueId_built hvid)).trans hmapped).trans (ih h₃)

theorem mainArgs_built : ∀ {params : List Param} {args : List FrontendIdTypePair} {r : OperationArgs}
    {s t : ParserState}, mainArgs params args s = .ok r t → s.Built t := by
  intro params
  induction params with
  | nil =>
    intro args r s t h
    cases h
    exact .refl s
  | cons param params ih =>
    intro args r s t h
    cases args with
    | nil => cases h
    | cons arg args =>
      obtain ⟨v, s₁, hv, h₁⟩ := bind_ok h
      obtain ⟨rest, s₂, hrest, h₂⟩ := bind_ok h₁
      cases h₂
      exact (createOrGetValueId_built hv).trans (ih hrest)

/-- The call of `main` is an inserted node. -/
theorem prependEntry_built {e : EntryFunction} {f : Function} (h : prependEntry e f s = .ok () t) :
    s.Built t ∧ ∃ n, t.nodes.IsInner n := by
  obtain ⟨args, s₁, hargs, h₁⟩ := bind_ok h
  obtain ⟨start, s₂, hcreate, h₂⟩ := bind_ok h₁
  obtain ⟨call, s₃, hcall, h₃⟩ := bind_ok h₂
  obtain ⟨_, s₄, hset, h₄⟩ := bind_ok h₃
  obtain ⟨fin, s₅, hfin, h₅⟩ := bind_ok h₄
  cases h₅
  obtain ⟨hbuilt, hinner⟩ := callInsert_built hcall
  have hentry := modify_built hset (fun _ => rfl) (fun _ => rfl)
  have hrest : s₃.Built t := hentry.trans (callInsert_built hfin).1
  exact ⟨(((mainArgs_built hargs).trans (callCreateEmpty_built hcreate)).trans hbuilt).trans hrest, call,
    hrest.inner call hinner⟩

theorem findMain_built {r : Function × FunctionHandle} (h : findMain m s = .ok r t) : t = s := by
  unfold findMain at h
  cases hf : m.getFunction "main" with
  | none =>
    rw [hf] at h
    cases h
  | some f =>
    rw [hf] at h
    obtain ⟨s₁, s₂, hs, hrest⟩ := bind_ok h
    cases hs
    cases hvid : s.mapper[f.id]? with
    | none =>
      rw [hvid] at hrest
      cases hrest
    | some vid =>
      rw [hvid] at hrest
      obtain ⟨s₃, s₄, hs', hrest'⟩ := bind_ok hrest
      cases hs'
      cases hhandle : s.fmap[vid]? with
      | none =>
        rw [hhandle] at hrest'
        cases hrest'
      | some handle =>
        rw [hhandle] at hrest'
        cases hrest'
        rfl

theorem parsePrologue_built {e : EntryFunction} (h : parsePrologue m e s = .ok () t) :
    s.Built t ∧ ∃ n, t.nodes.IsInner n := by
  unfold parsePrologue at h
  split at h
  · cases h
  · obtain ⟨_, s₁, hfuncs, h₁⟩ := bind_ok h
    obtain ⟨⟨f, handle⟩, s₂, hmain, h₂⟩ := bind_ok h₁
    cases findMain_built hmain
    obtain ⟨_, s₃, hset, h₃⟩ := bind_ok h₂
    obtain ⟨hbuilt, hinner⟩ := prependEntry_built h₃
    have hfound := modify_built hset (fun _ => rfl) (fun _ => rfl)
    exact ⟨((parseFunctions_built hfuncs).trans hfound).trans hbuilt, hinner⟩

/-- The links of the queue are of inserted nodes, so that every round is made of such calls. -/
theorem queueLoop_built : ∀ {n : ℕ} {s t : ParserState}, (∀ l ∈ s.parseAndLinkTogether, s.nodes.IsInner l.node) →
    queueLoop m n s = .ok () t → s.Built t := by
  intro n
  induction n with
  | zero =>
    intro s t _ h
    cases h
    exact .refl s
  | succ n ih =>
    intro s t hplanned h
    obtain ⟨s', t', hs, hrest⟩ := bind_ok h
    cases hs
    cases hq : s.parseAndLinkTogether with
    | nil =>
      rw [hq] at hrest
      cases hrest
      exact .refl s
    | cons link rest =>
      rw [hq] at hrest hplanned
      obtain ⟨_, s₁, hpop, h₁⟩ := bind_ok hrest
      cases hpop
      obtain ⟨first, s₂, hparse, h₂⟩ := bind_ok h₁
      obtain ⟨_, s₃, hlink, h₃⟩ := bind_ok h₂
      have hpopped : s.Built { s with parseAndLinkTogether := rest } :=
        ⟨fun ops hr => ⟨ops, hr⟩, fun _ hn => hn, fun l hl => Or.inl (hq ▸ List.mem_cons_of_mem link hl)⟩
      have hparsed := parseBasicBlock_built hparse
      have hnode := hparsed.inner link.node (hplanned link List.mem_cons_self)
      have hlinked := callLink_built hnode hlink
      refine ((hpopped.trans hparsed).trans hlinked).trans (ih (fun l hl => ?_) h₃)
      rcases (hparsed.trans hlinked).planned l hl with hl | hl
      · exact (hparsed.trans hlinked).inner l.node (hplanned l (List.mem_cons_of_mem link hl))
      · exact hl

/-- The nodes of a parsed module come from such calls, an insertion among them. -/
theorem parseModule_built {e : EntryFunction} {vc : VcState} {n : ℕ}
    (h : parseModule m e n (ParserState.new vc) = .ok () t) :
    ∃ ops, CfgRun ops t.nodes ∧ ∃ op ∈ ops, op ≠ .createEmpty := by
  obtain ⟨_, s₁, hprologue, hloop⟩ := bind_ok h
  obtain ⟨hbegun, k, hk⟩ := parsePrologue_built hprologue
  have hrest : s₁.Built t := by
    refine queueLoop_built (fun l hl => ?_) hloop
    rcases hbegun.planned l hl with hl | hl
    · cases hl
    · exact hl
  obtain ⟨ops, hrun⟩ := (hbegun.trans hrest).run [] .start
  rcases hrun.cases with ⟨-, hpaired⟩ | ⟨hop, -⟩
  · exact absurd (hrest.inner k hk) (hpaired.not_inner k)
  · exact ⟨ops, hrun, hop⟩

end Parser

end Angie
