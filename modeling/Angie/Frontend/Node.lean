import Angie.Lib.Exec
import Angie.Frontend.Instructions

/-!
# Nodes of the control flow graph

`CfgNodeBase.hpp` and `LlvmCfgNode`: nodes on a heap, addressed by their index, none of them ever deleted by the
parser. A node leads through `next` and, when it branches, through `nextFalse` (`Node.target`, by the index of
`getSuccessor`).

Each operation of `CfgM` is one equation (`createEmpty_eq`, `insertNewAfter_eq`, `insertNewBranchAfter_eq`,
`linkTogether_eq`); what it changes is read off `kindAt` and `target`.
-/

namespace Angie

open Exec Llvm

abbrev NodeId := ℕ

/-- The classes derived from `ICfgNode`, with the members of `LlvmCfgNode`. -/
inductive NodeKind where
  | start
  | terminal
  | inner (op : Operation) (args : OperationArgs) (innerInstruction : Instruction) (hasBreakpoint : Bool)
  deriving DecidableEq, Repr

structure Node where
  kind : NodeKind
  next : Option NodeId
  nextFalse : Option NodeId
  prevs : List NodeId
  deriving DecidableEq, Repr

namespace Node

/-- `next` and `nextFalse` by index. -/
def target (x : Node) : ℕ → Option NodeId
  | 0 => x.next
  | 1 => x.nextFalse
  | _ => none

def setTarget (x : Node) (n : NodeId) : ℕ → Node
  | 0 => { x with next := some n }
  | 1 => { x with nextFalse := some n }
  | _ => x

def addPrev (x : Node) (n : NodeId) : Node := { x with prevs := x.prevs ++ [n] }

/-- The nodes it leads to, `next` first. -/
def succs (x : Node) : List NodeId := x.next.toList ++ x.nextFalse.toList

end Node

/-- The nodes allocated so far. -/
abbrev Cfg := List Node

abbrev CfgM := EStateM Exn Cfg

/-! ## Access to the heap -/

/-- `new`. -/
def newNode (x : Node) : CfgM NodeId := fun s => .ok s.length (s ++ [x])

def nodeAt (n : NodeId) : CfgM Node := fun s =>
  match s[n]? with
  | some x => .ok x s
  | none => .error (.undefinedBehaviour "dangling node") s

/-- Reading through a pointer. -/
def deref (p : Option NodeId) : CfgM NodeId :=
  match p with
  | some n => pure n
  | none => throw (.undefinedBehaviour "null node")

def updateNode (n : NodeId) (f : Node → Node) : CfgM Unit := do
  let x ← nodeAt n
  modify fun s => s.set n (f x)

/-! ## Operations -/

/-- `CreateEmpty`: a start node before a terminal one. -/
def createEmpty : CfgM NodeId := do
  let first ← newNode ⟨.start, none, none, []⟩
  let last ← newNode ⟨.terminal, none, none, []⟩
  updateNode first (·.setTarget last 0)
  updateNode last (·.addPrev first)
  return first

def insertNewAfter (this : NodeId) (op : Operation) (args : OperationArgs) (inner : Instruction) (bp : Bool) :
    CfgM NodeId := do
  let next ← deref (← nodeAt this).next
  let node ← newNode ⟨.inner op args inner bp, some next, none, [this]⟩
  updateNode this (·.setTarget node 0)
  return node

def insertNewBranchAfter (this : NodeId) (op : Operation) (args : OperationArgs) (inner : Instruction) (bp : Bool) :
    CfgM NodeId := do
  let next ← deref (← nodeAt this).next
  let node ← newNode ⟨.inner op args inner bp, some next, none, [this]⟩
  let last ← newNode ⟨.terminal, none, none, []⟩
  updateNode node (·.setTarget last 1)
  updateNode this (·.setTarget node 0)
  return node

/-- Link to a node in place of the terminal one. -/
def linkThrough (index : ℕ) (prev next : NodeId) : CfgM Unit := do
  let last ← deref ((← nodeAt prev).target index)
  if (← nodeAt last).next ≠ none then
    throw (.runtimeError "prev Node has a successor other then terminal node")
  else
    updateNode prev (·.setTarget next index)
    -- the node is put into its own list of predecessors
    updateNode next (·.addPrev next)

def linkTogetherTrue : NodeId → NodeId → CfgM Unit := linkThrough 0

def linkTogetherFalse : NodeId → NodeId → CfgM Unit := linkThrough 1

/-- `LinkTogether` by the index of the successor. -/
def linkTogether (prev next : NodeId) (targetIndex : ℕ) : CfgM Unit :=
  if targetIndex = 0 then linkTogetherTrue prev next
  else if targetIndex = 1 then linkTogetherFalse prev next
  else throw .outOfRange

/-! ## What is on the heap -/

namespace Cfg

variable (s : Cfg)

def kindAt (n : NodeId) : Option NodeKind := (s[n]?).map Node.kind

def target (n : NodeId) (i : ℕ) : Option NodeId := (s[n]?).bind (·.target i)

def setTarget (n : NodeId) (t : NodeId) (i : ℕ) : Cfg := s.modify n (·.setTarget t i)

def addPrev (n p : NodeId) : Cfg := s.modify n (·.addPrev p)

/-- A terminal node, which leads nowhere. -/
structure Terminal (n : NodeId) : Prop where
  kind : s.kindAt n = some .terminal
  next : ∀ i, s.target n i = none

variable {s}

theorem kindAt_lt {n : NodeId} {k : NodeKind} (h : s.kindAt n = some k) : n < s.length := by
  obtain ⟨x, hx, -⟩ := Option.map_eq_some_iff.1 h
  exact (List.getElem?_eq_some_iff.1 hx).1

theorem target_lt {n t : NodeId} {i : ℕ} (h : s.target n i = some t) : n < s.length := by
  obtain ⟨x, hx, -⟩ := Option.bind_eq_some_iff.1 h
  exact (List.getElem?_eq_some_iff.1 hx).1

theorem kindAt_of_le {n : NodeId} (h : s.length ≤ n) : s.kindAt n = none := by
  simp [kindAt, List.getElem?_eq_none h]

theorem target_of_le {n : NodeId} (h : s.length ≤ n) (i : ℕ) : s.target n i = none := by
  simp [target, List.getElem?_eq_none h]

theorem getElem?_push (x : Node) (n : NodeId) : (s ++ [x])[n]? = if n = s.length then some x else s[n]? := by
  rcases Nat.lt_trichotomy n s.length with h | rfl | h
  · rw [List.getElem?_append_left h, if_neg (Nat.ne_of_lt h)]
  · simp
  · rw [if_neg (Nat.ne_of_gt h), List.getElem?_eq_none (Nat.le_of_lt h), List.getElem?_eq_none (by simpa using Nat.succ_le_of_lt h)]

theorem kindAt_append (x : Node) (n : NodeId) :
    Cfg.kindAt (s ++ [x]) n = if n = s.length then some x.kind else s.kindAt n := by
  unfold kindAt
  rw [getElem?_push]
  split <;> rfl

theorem target_append (x : Node) (n : NodeId) (i : ℕ) :
    Cfg.target (s ++ [x]) n i = if n = s.length then x.target i else s.target n i := by
  unfold target
  rw [getElem?_push]
  split <;> rfl

@[simp] theorem length_setTarget (n t : NodeId) (i : ℕ) : (s.setTarget n t i).length = s.length :=
  List.length_modify ..

@[simp] theorem length_addPrev (n p : NodeId) : (s.addPrev n p).length = s.length := List.length_modify ..

theorem getElem?_modify (n : NodeId) (f : Node → Node) (k : NodeId) :
    (s.modify n f)[k]? = (s[k]?).map fun x => if n = k then f x else x := List.getElem?_modify ..

theorem kindAt_modify {f : Node → Node} (hf : ∀ x, (f x).kind = x.kind) (n k : NodeId) :
    Cfg.kindAt (s.modify n f) k = s.kindAt k := by
  unfold kindAt
  rw [getElem?_modify, Option.map_map]
  congr 1
  funext x
  simp only [Function.comp]
  split
  · exact hf x
  · rfl

@[simp] theorem kindAt_setTarget (n t : NodeId) (i : ℕ) (k : NodeId) : (s.setTarget n t i).kindAt k = s.kindAt k :=
  kindAt_modify (fun x => by unfold Node.setTarget; split <;> rfl) n k

@[simp] theorem kindAt_addPrev (n p k : NodeId) : (s.addPrev n p).kindAt k = s.kindAt k :=
  kindAt_modify (f := (·.addPrev p)) (fun _ => rfl) n k

@[simp] theorem target_addPrev (n p k : NodeId) (i : ℕ) : (s.addPrev n p).target k i = s.target k i := by
  unfold target addPrev
  rw [getElem?_modify, Option.bind_map]
  congr 1
  funext x
  simp only [Function.comp]
  split
  · unfold Node.target Node.addPrev; split <;> rfl
  · rfl

theorem target_setTarget {n : NodeId} (hn : n < s.length) (t : NodeId) {i : ℕ} (hi : i < 2) (k : NodeId) (j : ℕ) :
    (s.setTarget n t i).target k j = if k = n ∧ j = i then some t else s.target k j := by
  have hx : ∀ x : Node, (x.setTarget t i).target j = if j = i then some t else x.target j := fun x => by
    obtain rfl | rfl : i = 0 ∨ i = 1 := by omega
    all_goals match j with
      | 0 => rfl
      | 1 => rfl
      | j + 2 => simp [Node.target]
  unfold target setTarget
  rw [getElem?_modify]
  by_cases hk : n = k
  · subst hk
    rw [List.getElem?_eq_getElem hn]
    simp [hx]
  · simp [hk, Ne.symm hk]

end Cfg

/-! ## The operations as equations -/

section Equations

variable {s : Cfg}

theorem nodeAt_ok {n : NodeId} {x : Node} (h : s[n]? = some x) : nodeAt n s = .ok x s := by
  unfold nodeAt
  rw [h]

theorem updateNode_ok {n : NodeId} (h : n < s.length) (f : Node → Node) : updateNode n f s = .ok () (s.modify n f) := by
  unfold updateNode
  rw [bind_of_ok (nodeAt_ok (List.getElem?_eq_getElem h)), modify_apply, List.modify_eq_set_getElem?]
  simp [h]

theorem exists_of_target {n t : NodeId} {i : ℕ} (h : s.target n i = some t) :
    ∃ x, s[n]? = some x ∧ x.target i = some t := Option.bind_eq_some_iff.1 h

theorem createEmpty_eq (s : Cfg) :
    createEmpty s = .ok s.length
      ((Cfg.setTarget (s ++ [⟨.start, none, none, []⟩] ++ [⟨.terminal, none, none, []⟩]) s.length
        (s.length + 1) 0).addPrev (s.length + 1) s.length) := by
  unfold createEmpty
  rw [bind_of_ok (show newNode ⟨.start, none, none, []⟩ s = .ok s.length _ from rfl),
    bind_of_ok (show newNode _ _ = .ok _ _ from rfl), bind_of_ok (updateNode_ok (by simp) _),
    bind_of_ok (updateNode_ok (by simp) _), pure_apply]
  simp [Cfg.setTarget, Cfg.addPrev]

theorem insertNewAfter_eq {this last : NodeId} (h : s.target this 0 = some last) (op : Operation)
    (args : OperationArgs) (inner : Instruction) (bp : Bool) :
    insertNewAfter this op args inner bp s =
      .ok s.length (Cfg.setTarget (s ++ [⟨.inner op args inner bp, some last, none, [this]⟩]) this s.length 0) := by
  obtain ⟨x, hx, hn⟩ := exists_of_target h
  have hlt := Cfg.target_lt h
  unfold insertNewAfter
  rw [bind_of_ok (nodeAt_ok hx), show x.next = some last from hn,
    bind_of_ok (show deref (some last) s = .ok last s from rfl), bind_of_ok (show newNode _ s = .ok _ _ from rfl),
    bind_of_ok (updateNode_ok (by simp; lia) _), pure_apply]
  rfl

/-- What `InsertNewAfter` changes: there is one more node, behind `this` and before the one that was there. -/
theorem insertNewAfter_ok {this last : NodeId} (h : s.target this 0 = some last) (op : Operation)
    (args : OperationArgs) (inner : Instruction) (bp : Bool) :
    ∃ t : Cfg, insertNewAfter this op args inner bp s = .ok s.length t ∧ t.length = s.length + 1 ∧
      (∀ n, t.kindAt n = if n = s.length then some (.inner op args inner bp) else s.kindAt n) ∧
      ∀ n i, t.target n i =
        if n = this ∧ i = 0 then some s.length
        else if n = s.length then if i = 0 then some last else none
        else s.target n i := by
  have hlt := Cfg.target_lt h
  refine ⟨_, insertNewAfter_eq h op args inner bp, by simp, fun n => by simp [Cfg.kindAt_append], fun n i => ?_⟩
  rw [Cfg.target_setTarget (by simp; lia) _ (by lia), Cfg.target_append]
  congr 1
  refine if_congr Iff.rfl ?_ rfl
  match i with
  | 0 => rfl
  | 1 => rfl
  | i + 2 => rfl

theorem insertNewBranchAfter_eq {this last : NodeId} (h : s.target this 0 = some last) (op : Operation)
    (args : OperationArgs) (inner : Instruction) (bp : Bool) :
    insertNewBranchAfter this op args inner bp s =
      .ok s.length ((Cfg.setTarget
        (s ++ [⟨.inner op args inner bp, some last, none, [this]⟩] ++ [⟨.terminal, none, none, []⟩])
        s.length (s.length + 1) 1).setTarget this s.length 0) := by
  obtain ⟨x, hx, hn⟩ := exists_of_target h
  have hlt := Cfg.target_lt h
  unfold insertNewBranchAfter
  rw [bind_of_ok (nodeAt_ok hx), show x.next = some last from hn,
    bind_of_ok (show deref (some last) s = .ok last s from rfl),
    bind_of_ok (show newNode _ s = .ok _ _ from rfl), bind_of_ok (show newNode _ _ = .ok _ _ from rfl),
    bind_of_ok (updateNode_ok (by simp) _), bind_of_ok (updateNode_ok (by simp; lia) _), pure_apply]
  simp [Cfg.setTarget]

/-- Linking succeeds when the link leads to a terminal node so far. -/
theorem linkTogether_eq {prev next last : NodeId} {i : ℕ} (h : s.target prev i = some last) (hi : i < 2)
    (hl : s.Terminal last) (hn : next < s.length) :
    linkTogether prev next i s = .ok () ((s.setTarget prev next i).addPrev next next) := by
  obtain ⟨x, hx, hxt⟩ := exists_of_target h
  obtain ⟨y, hy, -⟩ := Option.map_eq_some_iff.1 hl.kind
  have hyn : y.next = none := by
    have := hl.next 0
    rwa [Cfg.target, hy] at this
  have hlink : linkThrough i prev next s = .ok () ((s.setTarget prev next i).addPrev next next) := by
    unfold linkThrough
    rw [bind_of_ok (nodeAt_ok hx), hxt, bind_of_ok (show deref (some last) s = .ok last s from rfl),
      bind_of_ok (nodeAt_ok hy), if_neg (by simp [hyn]), bind_of_ok (updateNode_ok (Cfg.target_lt h) _),
      updateNode_ok (by simpa using hn)]
    rfl
  unfold linkTogether
  obtain rfl | rfl : i = 0 ∨ i = 1 := by omega
  · exact hlink
  · exact hlink

end Equations

end Angie
