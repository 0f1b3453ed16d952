import Mathlib.Data.Countable.Defs
import Mathlib.Data.Set.Defs
import Mathlib.Tactic.Linarith

/-!
# Layouts of blocks

Blocks of given sizes laid out without overlap at positive integer addresses. When the sizes are bounded there is room
for everything:

- `exists_at`: a layout with one block at any positive address;
- `exists_gap`: a layout with two blocks at any distance that the size of the first allows.
-/

variable {ι : Type} {live : Set ι} {size : ι → ℕ}

/-- Addresses of the blocks that are live. -/
structure Layout (live : Set ι) (size : ι → ℕ) where
  base : ι → ℤ
  pos : ∀ i ∈ live, 0 < base i
  apart : ∀ i ∈ live, ∀ j ∈ live, i ≠ j → base i + size i ≤ base j ∨ base j + size j ≤ base i

namespace Layout

/-- Blocks behind each other in slots of the width `M`. -/
theorem slots_apart {M m a b : ℕ} (h : a < b) (hm : m ≤ M) (s : ℤ) :
    s + M * (a + 1 : ℕ) + m ≤ s + M * (b + 1 : ℕ) := by
  have hle : M * (a + 1) + M ≤ M * (b + 1) := by
    calc M * (a + 1) + M = M * (a + 1 + 1) := (Nat.mul_succ M (a + 1)).symm
      _ ≤ M * (b + 1) := Nat.mul_le_mul_left M (by omega)
  push_cast at *
  linarith

/-- A block that begins before the slots ends before them. -/
theorem before_slots {M m : ℕ} (hm : m ≤ M) {s e : ℤ} (h : e ≤ s) (a : ℕ) : e + m ≤ s + M * (a + 1 : ℕ) := by
  have hle : M ≤ M * (a + 1) := Nat.le_mul_of_pos_right M (Nat.succ_pos a)
  push_cast at *
  linarith

variable [Countable ι] {M : ℕ}

/-- Blocks that are placed already leave room for the others behind them. -/
theorem exists_extending (hM : ∀ i, size i ≤ M) (front : ι → Option ℤ) {s : ℤ} (hs : 0 < s)
    (hpos : ∀ i a, front i = some a → 0 < a ∧ a ≤ s)
    (hapart : ∀ i j a b, i ≠ j → front i = some a → front j = some b → a + size i ≤ b ∨ b + size j ≤ a) :
    ∃ L : Layout live size, ∀ i a, front i = some a → L.base i = a := by
  obtain ⟨rank, hrank⟩ := exists_injective_nat ι
  refine ⟨⟨fun i => (front i).getD (s + M * (rank i + 1 : ℕ)), ?_, ?_⟩, fun i a h => by simp only [h, Option.getD_some]⟩
  · intro i _
    cases hi : front i with
    | some a => exact (hpos i a hi).1
    | none =>
      have : (0 : ℤ) ≤ M * (rank i + 1 : ℕ) := Int.natCast_nonneg _
      rw [Option.getD_none]
      linarith
  · intro i _ j _ hij
    cases hi : front i with
    | some a =>
      cases hj : front j with
      | some b => exact hapart i j a b hij hi hj
      | none => exact Or.inl (before_slots (hM i) (hpos i a hi).2 _)
    | none =>
      cases hj : front j with
      | some b => exact Or.inr (before_slots (hM j) (hpos j b hj).2 _)
      | none =>
        rcases Nat.lt_or_gt_of_ne (hrank.ne hij) with h | h
        · exact Or.inl (slots_apart h (hM i) s)
        · exact Or.inr (slots_apart h (hM j) s)

open Classical in
/-- A block at any positive address. -/
theorem exists_at (hM : ∀ i, size i ≤ M) (j : ι) {b : ℤ} (hb : 0 < b) : ∃ L : Layout live size, L.base j = b := by
  have hfront : ∀ i a, (if i = j then some b else none) = some a → i = j ∧ a = b := by
    intro i a h
    split at h
    · cases h; exact ⟨‹_›, rfl⟩
    · cases h
  obtain ⟨L, hL⟩ : ∃ L : Layout live size, ∀ i a, (if i = j then some b else none) = some a → L.base i = a := by
    refine exists_extending hM _ hb (fun i a h => ?_) (fun i k a c hik hi hk => ?_)
    · rw [(hfront i a h).2]; exact ⟨hb, Int.le_refl _⟩
    · exact absurd ((hfront i a hi).1.trans (hfront k c hk).1.symm) hik
  exact ⟨L, hL j b (if_pos rfl)⟩

open Classical in
/-- Two blocks at a distance that the size of the first allows. -/
theorem exists_gap (hM : ∀ i, size i ≤ M) {i j : ι} (hij : i ≠ j) {gap : ℤ} (h : size i ≤ gap) :
    ∃ L : Layout live size, L.base j = L.base i + gap := by
  have hgap : 0 ≤ gap := le_trans (Int.natCast_nonneg _) h
  have hfront : ∀ k a, (if k = i then some 1 else if k = j then some (1 + gap) else none) = some a →
      (k = i ∧ a = 1) ∨ (k = j ∧ a = 1 + gap) := by
    intro k a hk
    split at hk
    · cases hk; exact Or.inl ⟨‹_›, rfl⟩
    · split at hk
      · cases hk; exact Or.inr ⟨‹_›, rfl⟩
      · cases hk
  obtain ⟨L, hL⟩ : ∃ L : Layout live size, ∀ k a,
      (if k = i then some 1 else if k = j then some (1 + gap) else none) = some a → L.base k = a := by
    refine exists_extending (s := 1 + gap) hM _ (by omega) (fun k a hk => ?_) (fun k l a b hkl hk hl => ?_)
    · rcases hfront k a hk with ⟨_, rfl⟩ | ⟨_, rfl⟩ <;> omega
    · rcases hfront k a hk with ⟨rfl, rfl⟩ | ⟨rfl, rfl⟩ <;> rcases hfront l b hl with ⟨rfl, rfl⟩ | ⟨rfl, rfl⟩
      · exact absurd rfl hkl
      · exact Or.inl (by omega)
      · exact Or.inr (by omega)
      · exact absurd rfl hkl
  refine ⟨L, ?_⟩
  rw [hL i 1 (if_pos rfl), hL j (1 + gap) ((if_neg (Ne.symm hij)).trans (if_pos rfl))]

end Layout
