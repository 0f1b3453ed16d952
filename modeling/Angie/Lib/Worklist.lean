import Mathlib.Algebra.BigOperators.Group.List.Basic
import Mathlib.Algebra.Ring.Nat
import Mathlib.Data.List.Chain

/-!
# Searches with a worklist

Items are put into a pool and their places into a worklist. A visit takes any place from the worklist and puts the
children of the item there into the pool, the last of them first in the worklist. Whatever order the places are taken
in, no place is lost or taken twice:

- `Explores.places`: the visited places and the pending ones are the places of the pool, each once;
- `Explores.pool_eq`: the pool holds the root and the children of the visits, in the order of the visits.

Hence a search that runs out of places visited every item exactly once (`Explores.complete`), what items hand on to
their children is everywhere (`Explores.forall_pool`), and a search in which every visited item outweighs its children
together has no more visits than the root weighs (`Explores.length_le`).

A search may stand for another one, over a relation between what its items cover. If whatever follows what is done is
waiting or done, or what it follows is excused (`Frontier`), then a search that has nothing waiting has done every run
up to the first excuse, or to the first step that is none of the relation (`Frontier.complete`).
-/

namespace Worklist

structure Search (α : Type) where
  pool : List α
  pending : List ℕ

/-- A visited place, with the children that were put into the pool. -/
abbrev Visit (α : Type) := ℕ × List α

namespace Search

variable {α : Type}

def start (root : α) : Search α := ⟨[root], [0]⟩

def push (w : Search α) (a : α) : Search α := ⟨w.pool ++ [a], w.pool.length :: w.pending⟩

/-- The search without the place at a position of the worklist. -/
def take (w : Search α) (p : ℕ) : Search α := { w with pending := w.pending.eraseIdx p }

@[simp] theorem take_pool (w : Search α) (p : ℕ) : (w.take p).pool = w.pool := rfl

def visit (w : Search α) (p : ℕ) (children : List α) : Search α := children.foldl push (w.take p)

end Search

/-- The searches from a root, with their visits, latest first. -/
inductive Explores {α : Type} (root : α) : List (Visit α) → Search α → Prop
  | start : Explores root [] (Search.start root)
  | visit {vs : List (Visit α)} {w : Search α} {p i : ℕ} (children : List α) : Explores root vs w →
      w.pending[p]? = some i → Explores root ((i, children) :: vs) (w.visit p children)

variable {α : Type} {root : α} {vs : List (Visit α)} {w : Search α}

/-- Pushing appends to the pool, and its new places come before the pending ones. -/
theorem foldl_push (children : List α) : ∀ w : Search α,
    (children.foldl Search.push w).pool = w.pool ++ children ∧
    (children.foldl Search.push w).pending.Perm (w.pending ++ List.range' w.pool.length children.length) := by
  induction children with
  | nil =>
    intro w
    simp
  | cons a children ih =>
    intro w
    obtain ⟨hpool, hpending⟩ := ih (w.push a)
    constructor
    · rw [List.foldl_cons, hpool]
      simp [Search.push]
    · have hlen : (w.push a).pool.length = w.pool.length + 1 := by simp [Search.push]
      rw [hlen] at hpending
      rw [List.foldl_cons, List.length_cons, List.range'_succ]
      exact hpending.trans List.perm_middle.symm

open List in
/-- The visited and the pending places are the places of the pool. -/
theorem Explores.places (h : Explores root vs w) :
    (vs.map Prod.fst ++ w.pending).Perm (List.range w.pool.length) := by
  induction h with
  | start => simp [Search.start]
  | @visit vs w p i children h hp ih =>
    obtain ⟨hlt, rfl⟩ := List.getElem?_eq_some_iff.1 hp
    obtain ⟨hpool, hpending⟩ := foldl_push children (w.take p)
    rw [Search.take_pool] at hpool hpending
    have htake : (w.pending[p] :: (w.take p).pending).Perm w.pending := List.getElem_cons_eraseIdx_perm hlt
    have hrange : List.range (w.pool ++ children).length =
        List.range w.pool.length ++ List.range' w.pool.length children.length := by
      have := List.range'_append_1 (s := 0) (m := w.pool.length) (n := children.length)
      simpa [List.range_eq_range'] using this.symm
    rw [Search.visit, hpool, hrange]
    -- the visited place comes out of the worklist, the new places come in
    calc List.map Prod.fst ((w.pending[p], children) :: vs) ++ (children.foldl Search.push (w.take p)).pending
        _ ~ w.pending[p] :: (vs.map Prod.fst ++
            ((w.take p).pending ++ List.range' w.pool.length children.length)) :=
          (hpending.append_left _).cons _
        _ ~ vs.map Prod.fst ++ (w.pending[p] :: (w.take p).pending) ++ List.range' w.pool.length children.length := by
          rw [← List.append_assoc, ← List.cons_append]
          exact List.perm_middle.symm.append_right _
        _ ~ List.range w.pool.length ++ List.range' w.pool.length children.length :=
          ((htake.append_left _).trans ih).append_right _

/-- The pool holds the root and what the visits put into it. -/
theorem Explores.pool_eq (h : Explores root vs w) : w.pool = root :: vs.reverse.flatMap Prod.snd := by
  induction h with
  | start => rfl
  | visit children h hp ih =>
    rw [Search.visit, (foldl_push _ _).1, Search.take_pool, ih]
    simp

/-- A pending place is in the pool, and was not visited. -/
theorem Explores.pending (h : Explores root vs w) {i : ℕ} (hi : i ∈ w.pending) :
    i < w.pool.length ∧ i ∉ vs.map Prod.fst := by
  have hplaces := h.places
  constructor
  · exact List.mem_range.1 (hplaces.mem_iff.1 (List.mem_append_right _ hi))
  · intro hv
    exact (List.nodup_append.1 (hplaces.nodup_iff.2 List.nodup_range)).2.2 i hv i hi rfl

/-- A place that is taken is not pending any more. -/
theorem Explores.taken (h : Explores root vs w) {p i : ℕ} (hp : w.pending[p]? = some i) : i ∉ (w.take p).pending := by
  obtain ⟨hlt, rfl⟩ := List.getElem?_eq_some_iff.1 hp
  have hnd := (List.nodup_append.1 (h.places.nodup_iff.2 List.nodup_range)).2.1
  exact (List.nodup_cons.1 ((List.getElem_cons_eraseIdx_perm hlt).nodup_iff.2 hnd)).1

/-- A search that ran out of places visited every item, each once. -/
theorem Explores.complete (h : Explores root vs w) (hend : w.pending = []) :
    (vs.map Prod.fst).Perm (List.range w.pool.length) := by
  have hplaces := h.places
  rwa [hend, List.append_nil] at hplaces

/-- What the root has and every visited item hands on to its children, the whole pool has. -/
theorem Explores.forall_pool {P : α → Prop} (h : Explores root vs w) (hroot : P root)
    (hf : ∀ v ∈ vs, ∀ a, w.pool[v.1]? = some a → P a → ∀ b ∈ v.2, P b) : ∀ a ∈ w.pool, P a := by
  induction h with
  | start =>
    intro a ha
    rwa [List.mem_singleton.1 ha]
  | @visit vs w p i children h hp ih =>
    have hpool : (w.visit p children).pool = w.pool ++ children := (foldl_push children (w.take p)).1
    have hi : i < w.pool.length := (h.pending (List.mem_of_getElem? hp)).1
    rw [hpool] at hf ⊢
    have hold := ih fun v hv a ha => hf v (List.mem_cons_of_mem _ hv) a
      (by rw [List.getElem?_append_left (List.getElem?_eq_some_iff.1 ha).1, ha])
    intro b hb
    rcases List.mem_append.1 hb with hb | hb
    · exact hold b hb
    · exact hf (i, children) List.mem_cons_self w.pool[i]
        (by rw [List.getElem?_append_left hi, List.getElem?_eq_getElem hi]) (hold _ (List.getElem_mem hi)) b hb

/-! ## The length of a search -/

/-- The weight of what is at a place. -/
def Search.weightAt (f : α → ℕ) (w : Search α) (i : ℕ) : ℕ := (w.pool[i]?).elim 0 f

/-- The weight of what is pending. -/
def Search.weight (f : α → ℕ) (w : Search α) : ℕ := (w.pending.map (w.weightAt f)).sum

/-- A visit takes the weight of its item away and adds those of the children. -/
theorem Explores.weight_visit (f : α → ℕ) (h : Explores root vs w) {p i : ℕ} (hp : w.pending[p]? = some i)
    (children : List α) :
    (w.visit p children).weight f + w.weightAt f i = w.weight f + (children.map f).sum := by
  obtain ⟨hlt, rfl⟩ := List.getElem?_eq_some_iff.1 hp
  obtain ⟨hpool, hpending⟩ := foldl_push children (w.take p)
  rw [Search.take_pool] at hpool hpending
  have htake : (w.pending[p] :: (w.take p).pending).Perm w.pending := List.getElem_cons_eraseIdx_perm hlt
  have hold : ∀ j ∈ (w.take p).pending, (w.visit p children).weightAt f j = w.weightAt f j := by
    intro j hj
    have hjlt := (h.pending (htake.mem_iff.1 (List.mem_cons_of_mem _ hj))).1
    rw [Search.weightAt, Search.weightAt, Search.visit, hpool, List.getElem?_append_left hjlt]
  have hnew : (List.range' w.pool.length children.length).map ((w.visit p children).weightAt f) = children.map f := by
    refine List.ext_getElem (by simp) fun j hj hj' => ?_
    have hjlt : j < children.length := by simpa using hj'
    simp [Search.weightAt, Search.visit, hpool, hjlt]
  have hvisit : (w.visit p children).weight f = _ := (hpending.map ((w.visit p children).weightAt f)).sum_nat
  calc (w.visit p children).weight f + w.weightAt f w.pending[p]
      = (((w.take p).pending ++ List.range' w.pool.length children.length).map
          ((w.visit p children).weightAt f)).sum + w.weightAt f w.pending[p] := by
        rw [hvisit]
    _ = ((w.pending[p] :: (w.take p).pending).map (w.weightAt f)).sum + (children.map f).sum := by
        rw [List.map_append, List.sum_append, hnew, List.map_congr_left hold, List.map_cons, List.sum_cons]
        lia
    _ = w.weight f + (children.map f).sum := by rw [Search.weight, (htake.map (w.weightAt f)).sum_nat]

/-- If every visited item outweighs its children together, then the visits and what is pending weigh no more than the
root, whatever order the places are taken in. -/
theorem Explores.length_le (f : α → ℕ) (h : Explores root vs w)
    (hf : ∀ v ∈ vs, ∀ a, w.pool[v.1]? = some a → (v.2.map f).sum < f a) : vs.length + w.weight f ≤ f root := by
  induction h with
  | start => simp [Search.start, Search.weight, Search.weightAt]
  | @visit vs w p i children h hp ih =>
    have hpool : (w.visit p children).pool = w.pool ++ children := (foldl_push children (w.take p)).1
    have hi : i < w.pool.length := (h.pending (List.mem_of_getElem? hp)).1
    have hlt := hf (i, children) List.mem_cons_self w.pool[i]
      (by rw [hpool, List.getElem?_append_left hi, List.getElem?_eq_getElem hi])
    have hvisited := ih fun v hv a ha => hf v (List.mem_cons_of_mem _ hv) a (by
      rw [hpool, List.getElem?_append_left (List.getElem?_eq_some_iff.1 ha).1, ha])
    have hweight := h.weight_visit f hp children
    rw [Search.weightAt, List.getElem?_eq_getElem hi, Option.elim_some] at hweight
    rw [List.length_cons]
    dsimp only at hlt
    lia

/-! ## What a search covers -/

/-- Between what is done and the rest stands what is waiting. -/
structure Frontier (r : α → α → Prop) (root : α) (waiting done excused : α → Prop) : Prop where
  root : waiting root ∨ done root
  closed : ∀ x y, done x → r x y → excused x ∨ waiting y ∨ done y

section Frontier

variable {r other : α → α → Prop} {waiting done excused waiting' done' excused' : α → Prop}

/-- What was waiting still is, or is done, and what follows the newly done is taken care of. -/
theorem Frontier.step (h : Frontier r root waiting done excused) (hwaiting : ∀ x, waiting x → waiting' x ∨ done' x)
    (hdone : ∀ x, done x → done' x) (hexcused : ∀ x, excused x → excused' x)
    (hnew : ∀ x y, done' x → r x y → done x ∨ excused' x ∨ waiting' y) : Frontier r root waiting' done' excused' where
  root := h.root.elim (hwaiting root) fun hd => Or.inr (hdone root hd)
  closed := by
    intro x y hx hr
    rcases hnew x y hx hr with hx | hx | hy
    · rcases h.closed x y hx hr with he | hy | hy
      · exact Or.inl (hexcused x he)
      · exact Or.inr (hwaiting y hy)
      · exact Or.inr (Or.inr (hdone y hy))
    · exact Or.inl hx
    · exact Or.inr (Or.inl hy)

/-- What is behind a frontier that has nothing waiting: on a run from something done, all is done, or something is
excused, or a step from something done is none of the relation. -/
theorem Frontier.follow (h : Frontier r root waiting done excused) (hempty : ∀ x, ¬ waiting x) : ∀ (xs : List α) {x : α},
    done x → List.IsChain (fun x y => r x y ∨ other x y) (x :: xs) → (∀ y ∈ x :: xs, done y) ∨
      (∃ y ∈ x :: xs, excused y) ∨ ∃ y z, [y, z] <:+: x :: xs ∧ done y ∧ other y z ∧ ¬ r y z
  | [], _, hx, _ => Or.inl fun y hy => by rwa [List.mem_singleton.1 hy]
  | y :: ys, x, hx, hrun => by
    obtain ⟨hxy, hrun⟩ := List.isChain_cons_cons.1 hrun
    by_cases hr : r x y
    · rcases h.closed x y hx hr with he | hy | hy
      · exact Or.inr (Or.inl ⟨x, List.mem_cons_self, he⟩)
      · exact absurd hy (hempty y)
      · rcases h.follow hempty ys hy hrun with hall | ⟨z, hz, he⟩ | ⟨z, z', hz, hd, ho⟩
        · exact Or.inl (List.forall_mem_cons.2 ⟨hx, hall⟩)
        · exact Or.inr (Or.inl ⟨z, List.mem_cons_of_mem _ hz, he⟩)
        · exact Or.inr (Or.inr ⟨z, z', hz.trans (List.suffix_cons x _).isInfix, hd, ho⟩)
    · exact Or.inr (Or.inr ⟨x, y, ⟨[], ys, rfl⟩, hx, hxy.resolve_left hr, hr⟩)

theorem Frontier.complete (h : Frontier r root waiting done excused) (hempty : ∀ x, ¬ waiting x) {xs : List α}
    (hrun : List.IsChain (fun x y => r x y ∨ other x y) (root :: xs)) : (∀ x ∈ root :: xs, done x) ∨
      (∃ x ∈ root :: xs, excused x) ∨ ∃ x y, [x, y] <:+: root :: xs ∧ done x ∧ other x y ∧ ¬ r x y :=
  h.follow hempty xs (h.root.resolve_left (hempty root)) hrun

/-- A run keeps inside, up to a step that is none of the relation. -/
theorem stays_inside {inside : α → Prop} (hstep : ∀ x y, inside x → r x y → inside y) : ∀ (xs : List α) {x : α},
    inside x → List.IsChain (fun x y => r x y ∨ other x y) (x :: xs) →
      (List.IsChain r (x :: xs) ∧ ∀ y ∈ x :: xs, inside y) ∨ ∃ y z, [y, z] <:+: x :: xs ∧ other y z ∧ ¬ r y z
  | [], x, hx, _ => Or.inl ⟨.singleton x, fun y hy => by rwa [List.mem_singleton.1 hy]⟩
  | y :: ys, x, hx, hrun => by
    obtain ⟨hxy, hrun⟩ := List.isChain_cons_cons.1 hrun
    by_cases hr : r x y
    · rcases stays_inside hstep ys (hstep x y hx hr) hrun with ⟨hchain, hall⟩ | ⟨z, z', hz, ho⟩
      · exact Or.inl ⟨List.isChain_cons_cons.2 ⟨hr, hchain⟩, List.forall_mem_cons.2 ⟨hx, hall⟩⟩
      · exact Or.inr ⟨z, z', hz.trans (List.suffix_cons x _).isInfix, ho⟩
    · exact Or.inr ⟨x, y, ⟨[], ys, rfl⟩, hxy.resolve_left hr, hr⟩

/-- A run takes its steps by the relation. -/
theorem step_of_run {xs : List α} {x y : α} (h : List.IsChain r xs) (hxy : [x, y] <:+: xs) : r x y := by
  obtain ⟨before, behind, rfl⟩ := hxy
  exact List.isChain_iff_forall_rel_of_append_cons_cons.1 h (List.append_assoc before [x, y] behind)

end Frontier

end Worklist
