import Mathlib.Algebra.BigOperators.Group.List.Basic
import Mathlib.Algebra.Ring.Nat
import Mathlib.Logic.Relation

/-!
# Maps between flow graphs

A flow graph lists the successors of each of its nodes. A map carries one graph into another along what is reached from
a start (`Carries`): successors go to successors in their order, and where the first graph ends the second has nothing
left but leaves. Then walking the second graph from the image of the start visits the images of what the first visits,
and leaves behind its ends (`Carries.reach`).

From a node without loops every walk ends (`Loopless`). Such nodes have a rank, more than that of their successors
together (`rank_eq`), and a graph that goes nowhere else than another one has no loops where that one has
none (`Loopless.image`).
-/

namespace FlowGraph

open Relation

variable {α β : Type}

/-- Reached along successors. -/
def Reach (g : α → List α) : α → α → Prop := ReflTransGen fun a b => b ∈ g a

structure Carries (g : α → List α) (h : β → List β) (f : α → β) (start : α) : Prop where
  succ : ∀ a, Reach g start a → g a ≠ [] → h (f a) = (g a).map f
  stop : ∀ a, Reach g start a → g a = [] → ∀ b ∈ h (f a), h b = []

variable {g : α → List α} {h : β → List β} {f : α → β} {start : α}

/-- What is reached in the first graph is reached in the second. -/
theorem Carries.reach_image (hc : Carries g h f start) {a : α} (ha : Reach g start a) : Reach h (f start) (f a) := by
  induction ha with
  | refl => exact .refl
  | tail hr hb ih =>
    refine ih.tail ?_
    rw [hc.succ _ hr (List.ne_nil_of_mem hb)]
    exact List.mem_map_of_mem hb

/-- Nothing else is reached in the second graph but the leaves behind the ends. -/
theorem Carries.reach (hc : Carries g h f start) {b : β} :
    Reach h (f start) b ↔ (∃ a, Reach g start a ∧ b = f a) ∨ ∃ a, Reach g start a ∧ g a = [] ∧ b ∈ h (f a) := by
  constructor
  · intro hb
    induction hb with
    | refl => exact .inl ⟨start, .refl, rfl⟩
    | tail _ hstep ih =>
      rcases ih with ⟨a, ha, rfl⟩ | ⟨a, ha, hend, hleaf⟩
      · by_cases hend : g a = []
        · exact .inr ⟨a, ha, hend, hstep⟩
        · rw [hc.succ a ha hend] at hstep
          obtain ⟨a', ha', rfl⟩ := List.mem_map.1 hstep
          exact .inl ⟨a', ha.tail ha', rfl⟩
      · rw [hc.stop a ha hend _ hleaf] at hstep
        cases hstep
  · rintro (⟨a, ha, rfl⟩ | ⟨a, ha, -, hleaf⟩)
    · exact hc.reach_image ha
    · exact (hc.reach_image ha).tail hleaf

/-! ## Walks that end -/

/-- Every walk from the node ends. -/
def Loopless (g : α → List α) (a : α) : Prop := Acc (fun b a => b ∈ g a) a

theorem Loopless.succ {a b : α} (ha : Loopless g a) (hb : b ∈ g a) : Loopless g b := ha.inv hb

/-- Where the nodes go down, walks end. -/
theorem loopless_of_rank {inside : α → Prop} (rank : α → ℕ)
    (hrank : ∀ a, inside a → ∀ b ∈ g a, inside b ∧ rank b < rank a) {a : α} (ha : inside a) : Loopless g a := by
  induction h : rank a using Nat.strong_induction_on generalizing a with
  | _ n ih =>
    refine ⟨a, fun b hb => ?_⟩
    obtain ⟨hin, hlt⟩ := hrank a ha b hb
    exact ih (rank b) (h ▸ hlt) hin rfl

theorem wellFounded_loopless (g : α → List α) : WellFounded fun b a : {a // Loopless g a} => b.1 ∈ g a.1 :=
  ⟨fun a => InvImage.accessible Subtype.val a.2⟩

/-- One more than the successors together, by recursion along the walks. -/
noncomputable def looplessRank (g : α → List α) : {a // Loopless g a} → ℕ :=
  (wellFounded_loopless g).fix fun a ih => 1 + ((g a.1).attach.map fun b => ih ⟨b.1, a.2.succ b.2⟩ b.2).sum

open Classical in
/-- The rank of a node, which says something where there are no loops behind it. -/
noncomputable def rank (g : α → List α) (a : α) : ℕ := if h : Loopless g a then looplessRank g ⟨a, h⟩ else 0

theorem rank_of_loopless {a : α} (ha : Loopless g a) : rank g a = looplessRank g ⟨a, ha⟩ := dif_pos ha

theorem rank_eq {a : α} (ha : Loopless g a) : rank g a = 1 + ((g a).map (rank g)).sum := by
  have hsucc : ((g a).attach.map fun b => looplessRank g ⟨b.1, ha.succ b.2⟩) = (g a).map (rank g) :=
    calc ((g a).attach.map fun b => looplessRank g ⟨b.1, ha.succ b.2⟩)
        _ = (g a).attach.map fun b => rank g b.1 :=
          List.map_congr_left fun b _ => (rank_of_loopless (ha.succ b.2)).symm
        _ = (g a).map (rank g) := List.attach_map_val
  rw [rank_of_loopless ha, ← hsucc]
  exact (wellFounded_loopless g).fix_eq _ _

/-- A graph has no loops behind the image of a node without loops, when images lead to images of successors only. -/
theorem Loopless.image {f : α → β} {inside : α → Prop}
    (hf : ∀ a, inside a → ∀ b ∈ h (f a), ∃ a' ∈ g a, inside a' ∧ b = f a') {a : α} (ha : Loopless g a)
    (hin : inside a) : Loopless h (f a) := by
  induction ha with
  | intro a _ ih =>
    refine ⟨f a, fun b hb => ?_⟩
    obtain ⟨a', ha', hin', rfl⟩ := hf a hin b hb
    exact ih a' ha' hin'

end FlowGraph
