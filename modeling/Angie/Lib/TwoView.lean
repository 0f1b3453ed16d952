import Mathlib.Logic.Function.Basic

/-!
# Memories with two views

A memory of regions whose cells have two views: a plain one and one for pointers. A read for a pointer looks at the
pointer view first and falls back to the plain one; a plain read looks at the plain view only. The views are written
separately: an `Effect` creates or destroys a region, or writes one view of one cell, where a `hide` write to the
plain view empties the pointer view of the same cell.

- `apply_of_region`, `apply_isSome`: what an effect does to the other regions and to the set of regions;
- `apply_cells`: what an effect that neither creates nor destroys a region does to its cells;
- `read_apply`, `read_fill`: a cell that an effect does not write reads as before, also when a read fills it.
-/

namespace TwoView

variable {ι κ ν : Type} [DecidableEq ι] [DecidableEq κ]

/-- The two views of the cells of a region. -/
@[ext]
structure Slots (κ ν : Type) where
  plain : κ → Option ν
  pointer : κ → Option ν

abbrev Memory (ι κ ν : Type) := ι → Option (Slots κ ν)

namespace Slots

def empty : Slots κ ν := ⟨fun _ => none, fun _ => none⟩

/-- What a read finds, for a pointer or plain. -/
def read (l : Slots κ ν) (forPointer : Bool) (k : κ) : Option ν :=
  if forPointer then (l.pointer k).or (l.plain k) else l.plain k

omit [DecidableEq κ] in
theorem read_eq_none {l : Slots κ ν} {forPointer : Bool} {k : κ} (h : l.read forPointer k = none) :
    l.plain k = none ∧ (forPointer = true → l.pointer k = none) := by
  unfold read at h
  cases forPointer with
  | true =>
    rw [if_pos rfl, Option.or_eq_none_iff] at h
    exact ⟨h.2, fun _ => h.1⟩
  | false => exact ⟨h, fun hf => by cases hf⟩

def setPlain (l : Slots κ ν) (k : κ) (v : ν) : Slots κ ν := { l with plain := Function.update l.plain k (some v) }

def setPointer (l : Slots κ ν) (k : κ) (v : ν) : Slots κ ν :=
  { l with pointer := Function.update l.pointer k (some v) }

def hide (l : Slots κ ν) (k : κ) : Slots κ ν := { l with pointer := Function.update l.pointer k none }

omit [DecidableEq κ] in
theorem slot_of_read {l : Slots κ ν} {forPointer : Bool} {k : κ} {v : ν} (h : l.read forPointer k = some v) :
    l.plain k = some v ∨ l.pointer k = some v := by
  unfold read at h
  split at h
  · rcases Option.or_eq_some_iff.1 h with h | ⟨-, h⟩
    · exact Or.inr h
    · exact Or.inl h
  · exact Or.inl h

omit [DecidableEq κ] in
/-- A read for a pointer finds the pointer first. -/
theorem read_pointer {l : Slots κ ν} {k : κ} {w : ν} (h : l.pointer k = some w) : l.read true k = some w := by
  rw [read, if_pos rfl, h, Option.some_or]

/-- What is written plain is read, where no pointer is found first. -/
theorem read_setPlain_self {l : Slots κ ν} {forPointer : Bool} {k : κ} (h : forPointer = true → l.pointer k = none)
    (v : ν) : (l.setPlain k v).read forPointer k = some v := by
  have hplain : (l.setPlain k v).plain k = some v := Function.update_self ..
  rw [read, hplain]
  split
  · rename_i hf
    have hnone : (l.setPlain k v).pointer k = none := h hf
    rw [hnone, Option.none_or]
  · rfl

theorem read_setPlain_of_ne {l : Slots κ ν} {k k' : κ} (hk : k' ≠ k) (forPointer : Bool) (v : ν) :
    (l.setPlain k v).read forPointer k' = l.read forPointer k' := by
  simp only [read, setPlain, Function.update_of_ne hk]

end Slots

/-! ## Effects -/

inductive Effect (ι κ ν : Type) where
  | quiet
  | create (i : ι)
  | plain (i : ι) (k : κ) (v : ν)
  | pointer (i : ι) (k : κ) (v : ν)
  /-- A write to the plain view that empties the pointer view. -/
  | hide (i : ι) (k : κ) (v : ν)
  | destroy (i : ι)

namespace Effect

def apply : Effect ι κ ν → Memory ι κ ν → Memory ι κ ν
  | quiet, m => m
  | create i, m => Function.update m i (some Slots.empty)
  | plain i k v, m => Function.update m i ((m i).map (·.setPlain k v))
  | pointer i k v, m => Function.update m i ((m i).map (·.setPointer k v))
  | hide i k v, m => Function.update m i ((m i).map fun l => (l.hide k).setPlain k v)
  | destroy i, m => Function.update m i none

/-- The region that the effect concerns. -/
def region : Effect ι κ ν → Option ι
  | quiet => none
  | create i | plain i _ _ | pointer i _ _ | hide i _ _ | destroy i => some i

/-- The effect creates or destroys a region. -/
def isLifetime : Effect ι κ ν → Bool
  | create _ | destroy _ => true
  | _ => false

/-- What the effect puts in the plain view of a cell. -/
def plainAt (i : ι) (k : κ) : Effect ι κ ν → Option ν
  | plain j l v | hide j l v => if j = i ∧ l = k then some v else none
  | _ => none

/-- What the effect puts in the pointer view of a cell, which it may also empty. -/
def pointerAt (i : ι) (k : κ) : Effect ι κ ν → Option (Option ν)
  | pointer j l v => if j = i ∧ l = k then some (some v) else none
  | hide j l _ => if j = i ∧ l = k then some none else none
  | _ => none

variable {m : Memory ι κ ν} {e : Effect ι κ ν} {i : ι}

/-- Other regions are untouched. -/
theorem apply_of_region (h : e.region ≠ some i) : e.apply m i = m i := by
  cases e with
  | quiet => rfl
  | create j | plain j | pointer j | hide j | destroy j =>
    have hij : i ≠ j := fun hij => h (by rw [hij]; rfl)
    exact Function.update_of_ne hij _ _

theorem at_of_region (h : e.region ≠ some i) (k : κ) : e.plainAt i k = none ∧ e.pointerAt i k = none := by
  cases e with
  | quiet | create | destroy => exact ⟨rfl, rfl⟩
  | plain j | pointer j | hide j =>
    have hij : ¬ j = i := fun hij => h (by rw [hij]; rfl)
    simp [plainAt, pointerAt, hij]

/-- The cells of a region that is neither created nor destroyed. -/
theorem apply_cells (h : e.isLifetime = false ∨ e.region ≠ some i) :
    e.apply m i = (m i).map fun l =>
      ⟨fun k => (e.plainAt i k).or (l.plain k), fun k => (e.pointerAt i k).getD (l.pointer k)⟩ := by
  by_cases hr : e.region = some i
  · have hl := h.resolve_right (not_not.2 hr)
    cases e with
    | quiet => cases hr
    | create | destroy => cases hl
    | plain j k v | pointer j k v | hide j k v =>
      cases hr
      simp only [apply, Function.update_self]
      congr 1
      funext l
      ext1 <;> funext k' <;> by_cases hk : k = k' <;>
        simp [plainAt, pointerAt, Slots.setPlain, Slots.setPointer, Slots.hide, hk, eq_comm]
  · rw [apply_of_region hr]
    simp only [at_of_region hr, Option.none_or, Option.getD_none]
    exact Option.map_id'.symm

/-- A region exists after an effect that neither creates nor destroys it when it existed before. -/
theorem apply_isSome (h : e.isLifetime = false ∨ e.region ≠ some i) : (e.apply m i).isSome = (m i).isSome := by
  rw [apply_cells h, Option.isSome_map]

/-- The effect writes no view of the cell. -/
def Spares (e : Effect ι κ ν) (i : ι) (k : κ) : Prop := e.plainAt i k = none ∧ e.pointerAt i k = none

/-- The cells of an existing region. -/
theorem apply_some {l : Slots κ ν} (hl : m i = some l) (h : e.isLifetime = false ∨ e.region ≠ some i) :
    e.apply m i = some ⟨fun k => (e.plainAt i k).or (l.plain k), fun k => (e.pointerAt i k).getD (l.pointer k)⟩ := by
  rw [apply_cells h, hl, Option.map_some]

/-- A cell that is not written reads as before. -/
theorem read_apply {k : κ} {l : Slots κ ν} (hl : m i = some l) (h : e.isLifetime = false ∨ e.region ≠ some i)
    (he : e.Spares i k) (forPointer : Bool) :
    ∃ l', e.apply m i = some l' ∧ l'.read forPointer k = l.read forPointer k := by
  refine ⟨_, apply_some hl h, ?_⟩
  simp only [Slots.read, he.1, he.2, Option.none_or, Option.getD_none]

/-- Nor does the reading of a cell change when an empty plain view is filled. -/
theorem read_fill {j : ι} {k k' : κ} {l : Slots κ ν} {v w : ν} (hk : ∀ l, m j = some l → l.plain k = none)
    (hl : m i = some l) {forPointer : Bool} (hr : l.read forPointer k' = some v) :
    ∃ l', (plain j k w).apply m i = some l' ∧ l'.read forPointer k' = some v := by
  refine ⟨_, apply_some hl (Or.inl rfl), ?_⟩
  simp only [Slots.read, plainAt, pointerAt, Option.getD_none] at hr ⊢
  by_cases hjk : j = i ∧ k = k'
  · obtain ⟨rfl, rfl⟩ := hjk
    -- the plain view was empty, so that it was read for a pointer
    rw [hk l hl, Option.or_none] at hr
    cases forPointer with
    | true => rw [if_pos rfl] at hr ⊢; rw [hr, Option.some_or]
    | false => cases hr
  · rw [if_neg hjk, Option.none_or]
    exact hr

end Effect

end TwoView
