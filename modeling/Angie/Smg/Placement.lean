import Mathlib.Data.Countable.Basic
import Angie.Lib.Layout
import Angie.Smg.Calls

/-!
# Comparing pointers

A placement gives every pointer of a graph an address: the live regions are laid out without overlap, an offset that is
not a constant is any number, and a pointer to the unknown or the freed object may be anywhere. `SmgIsCmp` compares value
ids, so it answers that two different pointers differ also where they denote one address.

- `address_ne_iff`: when two pointers differ in every placement;
- `smgIsCmp_sound_iff`: hence when the answer is right in every placement;
- `smgIsCmp_copy_unsound`: a pointer and a copy of it are reported to differ.
-/

namespace Angie

open Exec KeyedList Trace

/-! ## Placements -/

namespace MemState

variable (s : MemState)

/-- The size of a region in bytes. -/
def sizeOf (id : ObjectId) : ℕ :=
  match s.graph.objects[id]? with
  | none => 0
  | some o =>
    match s.vc.constantContainer[o.size]? with
    | none => 0
    | some n => n.toNat

def liveRegions : Set ObjectId := {id | 0 < id ∧ s.Exists id}

theorem sizeOf_le (id : ObjectId) : s.sizeOf id ≤ 2 ^ 64 := by
  unfold sizeOf
  split
  · exact Nat.zero_le _
  · split
    · exact Nat.zero_le _
    · exact Nat.le_of_lt (BitVec.isLt _)

/-- The constant difference of two offsets. -/
def difference (first second : ValueId) : Option ℤ :=
  if first = second then some 0
  else
    match s.vc.constantContainer[first]?, s.vc.constantContainer[second]? with
    | some a, some b => some (a.toInt - b.toInt)
    | _, _ => none

end MemState

/-- Addresses for a graph. -/
structure Placement (s : MemState) where
  layout : Layout s.liveRegions s.sizeOf
  offset : ValueId → ℤ
  unknown : ValueId → ℤ
  constant : ∀ (v : ValueId) c, s.vc.constantContainer[v]? = some c → offset v = c.toInt

namespace Placement

variable {s : MemState} (P : Placement s)

/-- The null object is at the address `0`. -/
def base (id : ObjectId) : ℤ := if id = 0 then 0 else P.layout.base id

/-- The address of a pointer: base and offset, or anything for the unknown and the freed object. -/
def address (ptr : ValueId) : ℤ :=
  let edge := s.resolve ptr
  if 0 ≤ edge.targetObjectId then P.base edge.targetObjectId + P.offset edge.targetOffset else P.unknown ptr

theorem offset_difference {a b : ValueId} {d : ℤ} (h : s.difference a b = some d) : P.offset a - P.offset b = d := by
  unfold MemState.difference at h
  split at h
  · rename_i hab
    cases h
    rw [hab]; exact Int.sub_self _
  · split at h
    · rename_i x y hx hy
      cases h
      rw [P.constant a x hx, P.constant b y hy]
    · cases h

end Placement

section Offsets

variable {s : MemState}

/-- The offsets that are not constants may be chosen. -/
theorem exists_offset (s : MemState) : ∃ f : ValueId → ℤ, ∀ v c, s.vc.constantContainer[v]? = some c →
    f v = BitVec.toInt c :=
  ⟨fun v => ((s.vc.constantContainer[v]?).map BitVec.toInt).getD 0, fun v c h => by simp [h]⟩

theorem exists_offset_difference {a b : ValueId} (h : s.difference a b = none) (d : ℤ) :
    ∃ f : ValueId → ℤ, (∀ v c, s.vc.constantContainer[v]? = some c → f v = BitVec.toInt c) ∧ f a - f b = d := by
  obtain ⟨f, hf⟩ := exists_offset s
  unfold MemState.difference at h
  split at h
  · cases h
  · rename_i hab
    cases ha : s.vc.constantContainer[a]? with
    | none =>
      refine ⟨Function.update f a (f b + d), fun v c hv => ?_, ?_⟩
      · by_cases hva : v = a
        · rw [hva, ha] at hv; cases hv
        · rw [Function.update_of_ne hva]; exact hf v c hv
      · rw [Function.update_self, Function.update_of_ne (Ne.symm hab)]; omega
    | some x =>
      cases hb : s.vc.constantContainer[b]? with
      | none =>
        refine ⟨Function.update f b (f a - d), fun v c hv => ?_, ?_⟩
        · by_cases hvb : v = b
          · rw [hvb, hb] at hv; cases hv
          · rw [Function.update_of_ne hvb]; exact hf v c hv
        · rw [Function.update_self, Function.update_of_ne hab]; omega
      | some y => rw [ha, hb] at h; cases h

end Offsets

/-! ## When two pointers differ -/

/-- How far the object reaches behind its address: nothing is at the address `0`. -/
def MemState.extent (s : MemState) (id : ObjectId) : ℤ := if id = 0 then 1 else s.sizeOf id

/-- The edges lead to different addresses in every placement: both targets have an address, the offsets have a constant
difference, and this keeps the pointers into one object or two objects apart. -/
def Separated (s : MemState) (e f : PtEdge) : Prop :=
  0 ≤ e.targetObjectId ∧ 0 ≤ f.targetObjectId ∧
  ∃ d, s.difference e.targetOffset f.targetOffset = some d ∧
    if e.targetObjectId = f.targetObjectId then d ≠ 0
    else (f.targetObjectId = 0 ∨ d < s.extent e.targetObjectId) ∧
      (e.targetObjectId = 0 ∨ -d < s.extent f.targetObjectId)

section Address

variable {s : MemState} {p q : ValueId}

theorem mem_liveRegions (hs : GraphOk s) (ptr : ValueId) (h : 0 ≤ (s.resolve ptr).targetObjectId)
    (h0 : (s.resolve ptr).targetObjectId ≠ 0) : (s.resolve ptr).targetObjectId ∈ s.liveRegions :=
  ⟨by lia, resolve_exists hs ptr⟩

theorem Placement.base_zero (P : Placement s) : P.base 0 = 0 := if_pos rfl

theorem Placement.base_of_ne (P : Placement s) {id : ObjectId} (h : id ≠ 0) : P.base id = P.layout.base id := if_neg h

theorem extent_zero (s : MemState) : s.extent 0 = 1 := if_pos rfl

theorem extent_of_ne {id : ObjectId} (h : id ≠ 0) : s.extent id = s.sizeOf id := if_neg h

theorem address_ne_of_separated (hs : GraphOk s) (h : Separated s (s.resolve p) (s.resolve q)) (P : Placement s) :
    P.address p ≠ P.address q := by
  obtain ⟨he, hf, d, hd, hsep⟩ := h
  have hoff := P.offset_difference hd
  intro heq
  simp only [Placement.address, if_pos he, if_pos hf] at heq
  have hbase : P.base (s.resolve q).targetObjectId - P.base (s.resolve p).targetObjectId = d := by omega
  split at hsep
  · rename_i hsame
    rw [hsame] at hbase
    omega
  · rename_i hne
    obtain ⟨h1, h2⟩ := hsep
    by_cases he0 : (s.resolve p).targetObjectId = 0
    · have hf0 : (s.resolve q).targetObjectId ≠ 0 := fun hf0 => hne (he0.trans hf0.symm)
      have hpos := P.layout.pos _ (mem_liveRegions hs q hf hf0)
      rw [he0, P.base_zero, P.base_of_ne hf0] at hbase
      rw [he0, extent_zero] at h1
      have := h1.resolve_left hf0
      omega
    · have hp := mem_liveRegions hs p he he0
      rw [P.base_of_ne he0] at hbase
      have h2 := h2.resolve_left he0
      by_cases hf0 : (s.resolve q).targetObjectId = 0
      · have hpos := P.layout.pos _ hp
        rw [hf0, P.base_zero] at hbase
        rw [hf0, extent_zero] at h2
        omega
      · have hap := P.layout.apart _ hp _ (mem_liveRegions hs q hf hf0) hne
        have h1 := h1.resolve_left hf0
        rw [P.base_of_ne hf0] at hbase
        rw [extent_of_ne he0] at h1
        rw [extent_of_ne hf0] at h2
        omega

/-- There is room for one object at the distance `d` behind another one when it is not within the reach of this one. -/
theorem exists_layout {a b : ObjectId} (ha : 0 ≤ a) (hb : 0 < b) (hab : a ≠ b) {d : ℤ} (h : s.extent a ≤ d) :
    ∃ L : Layout s.liveRegions s.sizeOf,
      (if b = 0 then 0 else L.base b) - (if a = 0 then 0 else L.base a) = d := by
  have hb0 : b ≠ 0 := by lia
  by_cases ha0 : a = 0
  · subst ha0
    rw [extent_zero] at h
    obtain ⟨L, hL⟩ := Layout.exists_at s.sizeOf_le b (show 0 < d by omega)
    exact ⟨L, by rw [if_neg hb0, if_pos rfl, hL]; omega⟩
  · rw [extent_of_ne ha0] at h
    obtain ⟨L, hL⟩ := Layout.exists_gap s.sizeOf_le hab h
    exact ⟨L, by rw [if_neg hb0, if_neg ha0, hL]; omega⟩

theorem exists_placement (s : MemState) : Nonempty (Placement s) := by
  obtain ⟨L, _⟩ := Layout.exists_at s.sizeOf_le 0 Int.one_pos
  obtain ⟨f, hf⟩ := exists_offset s
  exact ⟨⟨L, f, fun _ => 0, hf⟩⟩

/-- Two objects may lie at a distance that keeps neither of them behind the other. -/
theorem exists_layout_at {a b : ObjectId} (ha : 0 ≤ a) (hb : 0 ≤ b) (hab : a ≠ b) {d : ℤ}
    (h : ¬ ((b = 0 ∨ d < s.extent a) ∧ (a = 0 ∨ -d < s.extent b))) :
    ∃ L : Layout s.liveRegions s.sizeOf,
      (if b = 0 then 0 else L.base b) - (if a = 0 then 0 else L.base a) = d := by
  rcases not_and_or.1 h with h | h
  · rw [not_or, not_lt] at h
    exact exists_layout ha (by lia) hab h.2
  · rw [not_or, not_lt] at h
    obtain ⟨L, hL⟩ := exists_layout hb (by lia) (Ne.symm hab) h.2
    exact ⟨L, by omega⟩

/-- Pointers that are not kept apart have one address in some placement. -/
theorem exists_address_eq (hpq : p ≠ q) (h : ¬ Separated s (s.resolve p) (s.resolve q)) :
    ∃ P : Placement s, P.address p = P.address q := by
  obtain ⟨⟨L, f, u, hf⟩⟩ := exists_placement s
  by_cases hp : 0 ≤ (s.resolve p).targetObjectId
  · by_cases hq : 0 ≤ (s.resolve q).targetObjectId
    · cases hd : s.difference (s.resolve p).targetOffset (s.resolve q).targetOffset with
      | none =>
        -- the offsets make up for the distance of the objects
        obtain ⟨g, hg, hdiff⟩ := exists_offset_difference hd
          (Placement.base ⟨L, f, u, hf⟩ (s.resolve q).targetObjectId -
            Placement.base ⟨L, f, u, hf⟩ (s.resolve p).targetObjectId)
        refine ⟨⟨L, g, u, hg⟩, ?_⟩
        simp only [Placement.address, if_pos hp, if_pos hq]
        simp only [Placement.base] at hdiff ⊢
        omega
      | some d =>
        have hoff : f (s.resolve p).targetOffset - f (s.resolve q).targetOffset = d :=
          Placement.offset_difference ⟨L, f, u, hf⟩ hd
        by_cases hsame : (s.resolve p).targetObjectId = (s.resolve q).targetObjectId
        · have hd0 : d = 0 := by
            by_contra hd0
            exact h ⟨hp, hq, d, hd, by rw [if_pos hsame]; exact hd0⟩
          refine ⟨⟨L, f, u, hf⟩, ?_⟩
          simp only [Placement.address, if_pos hq, hsame]
          omega
        · -- the objects may lie at the distance of the offsets
          obtain ⟨L', hL'⟩ := exists_layout_at hp hq hsame fun hn => h ⟨hp, hq, d, hd, by rwa [if_neg hsame]⟩
          refine ⟨⟨L', f, u, hf⟩, ?_⟩
          simp only [Placement.address, if_pos hp, if_pos hq, Placement.base]
          omega
    · let P : Placement s := ⟨L, f, Function.update u q (Placement.address ⟨L, f, u, hf⟩ p), hf⟩
      refine ⟨P, ?_⟩
      have haq : P.address q = Placement.address ⟨L, f, u, hf⟩ p :=
        (if_neg hq).trans (Function.update_self _ _ _)
      rw [haq]
      simp only [Placement.address, if_pos hp]
      rfl
  · let P : Placement s := ⟨L, f, Function.update u p (Placement.address ⟨L, f, u, hf⟩ q), hf⟩
    refine ⟨P, ?_⟩
    have hap : P.address p = Placement.address ⟨L, f, u, hf⟩ q :=
      (if_neg hp).trans (Function.update_self _ _ _)
    rw [hap]
    simp only [Placement.address, P, Placement.base, Function.update_of_ne (Ne.symm hpq)]

/-- When two pointers differ in every placement. -/
theorem address_ne_iff (hs : GraphOk s) (hpq : p ≠ q) :
    (∀ P : Placement s, P.address p ≠ P.address q) ↔ Separated s (s.resolve p) (s.resolve q) := by
  constructor
  · intro h
    by_contra hn
    obtain ⟨P, hP⟩ := exists_address_eq hpq hn
    exact h P hP
  · exact fun h P => address_ne_of_separated hs h P

end Address

/-! ## The comparison -/

/-- The answers for two pointers are right in every placement. -/
def SmgIsCmpSound (s : MemState) (p q : ValueId) : Prop :=
  (∀ b, s.graph.smgIsCmp p q .eq = .ok (some b) → ∀ P : Placement s, b = true ↔ P.address p = P.address q) ∧
  s.graph.smgIsCmp p q .neq = (s.graph.smgIsCmp p q .eq).map (Option.map not)

section Compare

variable {s : MemState} {p q : ValueId}

theorem smgIsCmp_known (hp : s.graph.existsPtEdge p = true) (hq : s.graph.existsPtEdge q = true) :
    s.graph.smgIsCmp p q .eq = .ok (some (p == q)) ∧ s.graph.smgIsCmp p q .neq = .ok (some (p != q)) := by
  unfold Graph.smgIsCmp
  rw [if_neg (not_not.2 ⟨hp, hq⟩), if_neg (not_not.2 ⟨hp, hq⟩)]
  exact ⟨rfl, rfl⟩

theorem smgIsCmp_unknown (h : s.graph.existsPtEdge p = false ∨ s.graph.existsPtEdge q = false) (r : CmpFlags) :
    s.graph.smgIsCmp p q r = .ok none := by
  unfold Graph.smgIsCmp
  rw [if_pos]
  rintro ⟨hp, hq⟩
  rcases h with h | h
  · rw [hp] at h; cases h
  · rw [hq] at h; cases h

theorem sound_iff_separated (hs : GraphOk s) : SmgIsCmpSound s p q ↔
    s.graph.existsPtEdge p = false ∨ s.graph.existsPtEdge q = false ∨ p = q ∨
      Separated s (s.resolve p) (s.resolve q) := by
  rw [← or_assoc]
  by_cases hun : s.graph.existsPtEdge p = false ∨ s.graph.existsPtEdge q = false
  · refine iff_of_true ⟨fun b hb => ?_, ?_⟩ (Or.inl hun)
    · rw [smgIsCmp_unknown hun] at hb; cases hb
    · rw [smgIsCmp_unknown hun, smgIsCmp_unknown hun]; rfl
  · rw [or_iff_right hun]
    rw [not_or, Bool.not_eq_false, Bool.not_eq_false] at hun
    obtain ⟨heq, hneq⟩ := smgIsCmp_known hun.1 hun.2
    unfold SmgIsCmpSound
    rw [heq, hneq]
    by_cases hpq : p = q
    · subst hpq
      refine iff_of_true ⟨fun b hb P => ?_, rfl⟩ (Or.inl rfl)
      simp only [beq_self_eq_true, Except.ok.injEq, Option.some.injEq] at hb
      exact iff_of_true hb.symm rfl
    · rw [or_iff_right hpq, ← address_ne_iff hs hpq]
      have hbeq : (p == q) = false := beq_eq_false_iff_ne.2 hpq
      constructor
      · rintro ⟨h, _⟩ P hP
        have := (h false (by rw [hbeq]) P).2 hP
        cases this
      · refine fun h => ⟨fun b hb P => ?_, rfl⟩
        rw [hbeq] at hb
        cases hb
        exact iff_of_false Bool.false_ne_true (h P)

variable [DataLayout] {es : GraphHistory}

/-- The answers are right exactly when one of the pointers is unknown, both are the same value, or their edges lead to
different addresses in every placement. -/
theorem smgIsCmp_sound_iff (h : GraphRun es s) (p q : ValueId) : SmgIsCmpSound s p q ↔
    s.graph.existsPtEdge p = false ∨ s.graph.existsPtEdge q = false ∨ p = q ∨
      Separated s (s.resolve p) (s.resolve q) :=
  sound_iff_separated (run_graphOk h)

end Compare

section Example

attribute [local instance] Ty.x86

/-- A word, a copy of the pointer to it and a pointer four bytes further. -/
def copiedPointer : GraphHistory × MemState :=
  play GraphOp.exec [] MemState.new
    [.allocateRegion (.int 64) .heap, .createDerivedPointer 1 0, .container (.createConstIntVal 4),
      .createDerivedPointer 1 4]

theorem copiedPointer_run : GraphRun copiedPointer.1 copiedPointer.2 := Run.play (Run.start rfl) (by decide +kernel)

theorem smgIsCmp_copy_unsound : ¬ SmgIsCmpSound copiedPointer.2 1 3 := by
  rw [sound_iff_separated (run_graphOk copiedPointer_run)]
  rintro (h | h | h | ⟨_, _, d, hd, h⟩)
  · exact absurd h (by decide +kernel)
  · exact absurd h (by decide +kernel)
  · exact absurd h (by decide)
  · have hd0 : copiedPointer.2.difference (copiedPointer.2.resolve 1).targetOffset
      (copiedPointer.2.resolve 3).targetOffset = some 0 := rfl
    rw [hd0] at hd
    cases hd
    exact h rfl

theorem smgIsCmp_field_sound : SmgIsCmpSound copiedPointer.2 1 5 :=
  (smgIsCmp_sound_iff copiedPointer_run 1 5).2
    (Or.inr (Or.inr (Or.inr ⟨by decide +kernel, by decide +kernel, -4, rfl, by decide +kernel⟩)))

end Example

end Angie
