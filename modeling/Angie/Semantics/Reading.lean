import Angie.Interp.Reached
import Angie.Semantics.Machine
import Angie.Smg.Derivations

/-!
# Reading a memory graph

A state of the analysis stands for many stores. A reading picks one of them: it says what each value id is
(`Reading.value`), a constant as the container has it, the number that an unknown is, or a pointer, and which region is
a block (`Reading.region`). `Mirrors` relates a graph and its container to the blocks of the store under a reading: the
decisions hold of the numbers, all edges of a pointer lead to its offset in its block, or to the freed object, a region
shows the fields of its block as far as it has them, and nothing else leads to a region.

The elementary changes of the graph keep it, with new ids read as the caller likes (`Mirrors.grow`, `addHandle`,
`addPointer`, `setObject`, `free`, `newRegion`).
-/

namespace Angie

open Exec KeyedList TwoView

/-! ## Readings -/

/-- What an id is. -/
inductive Meaning where
  | constant (u : Word)
  | number (u : Word)
  /-- A pointer; the ones that no register has seen have no `birth`. -/
  | pointer (block : ℕ) (offset : Word) (birth : Option ℕ)
  | other

namespace Meaning

/-- The bits of a constant or a number. -/
def word : Meaning → Option Word
  | constant u | number u => some u
  | _ => none

/-- The datum is what the id is. Of an integer the low bits count, but a bit stands for itself. -/
inductive Stands : Meaning → Datum → Prop
  | int {δ : Meaning} {u : Word} {w : Width} {x : BitVec w.bits} : δ.word = some u → u.setWidth w.bits = x →
      (w.bits = 1 → u = x.setWidth 64) → Stands δ (.int w x)
  | null : Stands (constant 0) .null
  | wild {u : Word} : Stands (constant u) .wild
  | junk : Stands other .junk
  | ptr {b : ℕ} {o : Word} {k : ℕ} : Stands (pointer b o (some k)) (.ptr b o k)

/-- What an unknown may be read as. -/
def IsUnknown : Meaning → Prop
  | number _ | other => True
  | _ => False

/-- The number with the bits of an integer. -/
theorem stands_number {w : Width} (x : BitVec w.bits) : Stands (number (x.setWidth 64)) (.int w x) := by
  refine .int rfl ?_ fun _ => rfl
  rw [BitVec.setWidth_setWidth_of_le _ w.le, BitVec.setWidth_eq]

end Meaning

structure Reading where
  value : ValueId → Meaning
  region : ℕ → ObjectId

namespace Reading

variable (ρ : Reading)

/-- The edge is one that an id of this kind may have. -/
def Fits (e : PtEdge) : Prop :=
  match ρ.value e.value with
  | .constant _ => (e.targetObjectId = 0 ∨ e.targetObjectId = -1) ∧ ∃ u, ρ.value e.targetOffset = .constant u
  | .number _ => False
  | .other => e.targetObjectId = -1
  | .pointer _ _ _ => True

/-- The readings of the ids that are given keep, new constants are read as the container has them, and new unknowns as
`δ`. -/
def extend (s t : VcState) (δ : Meaning) : Reading where
  value v :=
    if s.Given v then ρ.value v
    else
      match t.vc.constantContainer[v]? with
      | some u => .constant u
      | none => δ
  region := ρ.region

/-- One id is read otherwise. -/
def name (v : ValueId) (δ : Meaning) : Reading := { ρ with value := Function.update ρ.value v δ }

variable {ρ}

/-- Fitting is about the value and the target of the edge. -/
theorem Fits.congr {e e' : PtEdge} (h : ρ.Fits e) (hv : e'.value = e.value)
    (ht : e'.targetObjectId = e.targetObjectId) (ho : e'.targetOffset = e.targetOffset) : ρ.Fits e' := by
  unfold Fits
  rw [hv, ht, ho]
  exact h

/-- Only pointers lead to a region. -/
theorem Fits.retarget {e : PtEdge} (h : ρ.Fits e) {id : ObjectId} (hid : 0 < id) : ρ.Fits (e.retarget id) := by
  by_cases ht : e.targetObjectId = id
  · unfold Fits at h ⊢
    rw [PtEdge.retarget_value]
    cases hv : ρ.value e.value with
    | pointer b o k => trivial
    | constant u =>
      rw [hv] at h
      have := h.1
      lia
    | number u =>
      rw [hv] at h
      exact h.elim
    | other =>
      rw [hv] at h
      have : e.targetObjectId = -1 := h
      lia
  · refine h.congr (e.retarget_value id) ?_ (e.retarget_targetOffset id)
    rw [PtEdge.retarget_target, if_neg ht]

theorem fits_constant {e : PtEdge} {u c : Word} (hv : ρ.value e.value = .constant u)
    (ht : e.targetObjectId = 0 ∨ e.targetObjectId = -1) (ho : ρ.value e.targetOffset = .constant c) : ρ.Fits e := by
  unfold Fits
  rw [hv]
  exact ⟨ht, c, ho⟩

theorem fits_other {e : PtEdge} (hv : ρ.value e.value = .other) (ht : e.targetObjectId = -1) : ρ.Fits e := by
  unfold Fits
  rw [hv]
  exact ht

theorem fits_pointer {e : PtEdge} {b : ℕ} {o : Word} {k : Option ℕ} (hv : ρ.value e.value = .pointer b o k) :
    ρ.Fits e := by
  unfold Fits
  rw [hv]
  trivial

section Extend

variable {s t : VcState} {δ : Meaning} {v : ValueId}

theorem extend_given (hv : s.Given v) : (ρ.extend s t δ).value v = ρ.value v := if_pos hv

theorem extend_constant (hv : ¬ s.Given v) {u : Word} (hu : t.vc.constantContainer[v]? = some u) :
    (ρ.extend s t δ).value v = .constant u := by
  simp only [extend, if_neg hv, hu]

theorem extend_unknown (hv : ¬ s.Given v) (hu : t.vc.constantContainer[v]? = none) :
    (ρ.extend s t δ).value v = δ := by
  simp only [extend, if_neg hv, hu]

end Extend

theorem name_self (v : ValueId) (δ : Meaning) : (ρ.name v δ).value v = δ := Function.update_self ..

theorem name_of_ne {v v' : ValueId} (h : v' ≠ v) (δ : Meaning) : (ρ.name v δ).value v' = ρ.value v' :=
  Function.update_of_ne h _ _

end Reading

/-! ## Mirrors -/

section Mirrors

variable [DataLayout]

/-- The region shows the block: the fields that it has hold what the block does, and a pointer that it lacks was never
set. -/
structure Shows (ρ : Reading) (o : Object) (blk : Block) : Prop where
  space : o.memSpace = blk.space
  stands : ∀ f k, blk.shape.field f = some k → ∀ key v, ρ.value key = .constant f →
    o.slots.read k.isPointer key = some v → (ρ.value v).Stands (blk.contents f)
  unset : ∀ f, blk.shape.field f = some .pointer →
    blk.contents f = .junk ∨ ∃ key v, ρ.value key = .constant f ∧ o.slots.read true key = some v

structure Mirrors (ρ : Reading) (s : MemState) (blocks : List Block) (births : ℕ) : Prop where
  constants : ∀ (v : ValueId) u, s.vc.constantContainer[v]? = some u ↔ ρ.value v = .constant u
  decided : ∀ (k : ConstraintId) c, s.vc.constrContainer[k]? = some c → s.Given c.second ∧
    ((∃ u, ρ.value c.second = .constant u) ∨
      ∃ br : Bool, c.relation = relationOf br ∧ ρ.value c.second = .number (if br then 1 else 0))
  edges : ∀ e, s.Edge e → ρ.Fits e
  null : lookup (·.value) 0 s.graph.handles = some (PtEdge.handle 0 0)
  pointers : ∀ v b o k, ρ.value v = .pointer b o k →
    b < blocks.length ∧ (∀ n, k = some n → n < births) ∧ Tracks s v (ρ.region b) ∧ s.LiesAt v o
  unique : ∀ v v' b o n, ρ.value v = .pointer b o (some n) → ρ.value v' = .pointer b o (some n) → v = v'
  regions : ∀ b, b < blocks.length → 0 < ρ.region b ∧ ρ.region b < s.statics.nextObjectIdToGive
  apart : ∀ b b', b < blocks.length → b' < blocks.length → ρ.region b = ρ.region b' → b = b'
  freed : ∀ (b : ℕ) blk, blocks[b]? = some blk → blk.freed = true → ¬ s.Exists (ρ.region b)
  live : ∀ (b : ℕ) blk, blocks[b]? = some blk → blk.freed = false →
    ∃ o, s.graph.objects[ρ.region b]? = some o ∧ Shows ρ o blk

variable {ρ : Reading} {s : MemState} {blocks : List Block} {births : ℕ}

/-- Where the pointers lead stays. -/
theorem Mirrors.pointers_edit (h : Mirrors ρ s blocks births) (hs : GraphOk s) {s' : MemState} (hedit : Edit s s')
    {v : ValueId} {b : ℕ} {o : Word} {k : Option ℕ} (hv : ρ.value v = .pointer b o k) :
    b < blocks.length ∧ (∀ n, k = some n → n < births) ∧ Tracks s' v (ρ.region b) ∧ s'.LiesAt v o := by
  obtain ⟨hb, hk, htracks, hlies⟩ := h.pointers v b o k hv
  exact ⟨hb, hk, hedit.tracks htracks, hedit.liesAt hs htracks hlies⟩

/-! ### A growing container -/

section Grow

variable {t : VcState} {δ : Meaning}

omit [DataLayout] in
/-- What is made up is no pointer. -/
theorem extend_pointer (hδ : δ.IsUnknown) {v : ValueId} {b : ℕ} {o : Word} {k : Option ℕ}
    (hv : (ρ.extend s.toVc t δ).value v = .pointer b o k) : ρ.value v = .pointer b o k := by
  by_cases hvg : s.toVc.Given v
  · rwa [Reading.extend_given hvg] at hv
  · cases hc : t.vc.constantContainer[v]? with
    | some u =>
      rw [Reading.extend_constant hvg hc] at hv
      cases hv
    | none =>
      rw [Reading.extend_unknown hvg hc] at hv
      subst hv
      exact hδ.elim

theorem Mirrors.constants_extend (h : Mirrors ρ s blocks births) (hext : Extends s.toVc t) (hδ : δ.IsUnknown)
    (v : ValueId) (u : Word) :
    t.vc.constantContainer[v]? = some u ↔ (ρ.extend s.toVc t δ).value v = .constant u := by
  by_cases hvg : s.toVc.Given v
  · rw [Reading.extend_given hvg, ← h.constants]
    exact constant_iff hext hvg
  · cases hc : t.vc.constantContainer[v]? with
    | some u' =>
      rw [Reading.extend_constant hvg hc]
      simp
    | none =>
      rw [Reading.extend_unknown hvg hc]
      cases δ with
      | number | other => simp
      | constant | pointer => exact hδ.elim

/-- A region whose ids are given shows what it did. -/
theorem Shows.extend {o : Object} {blk : Block} (h : Shows ρ o blk)
    (hgiven : ∀ {p : Bool} {key v : ValueId}, o.slots.read p key = some v → s.Given key ∧ s.Given v) :
    Shows (ρ.extend s.toVc t δ) o blk where
  space := h.space
  stands := by
    intro f k hf key v hkey hread
    obtain ⟨hk, hv⟩ := hgiven hread
    rw [Reading.extend_given hk] at hkey
    rw [Reading.extend_given hv]
    exact h.stands f k hf key v hkey hread
  unset := by
    intro f hf
    refine (h.unset f hf).imp_right fun ⟨key, v, hkey, hread⟩ => ⟨key, v, ?_, hread⟩
    rw [Reading.extend_given (hgiven hread).1]
    exact hkey

theorem Mirrors.decided_extend (h : Mirrors ρ s blocks births) (hg : Grows s.toVc t) (k : ConstraintId)
    (c : BinaryConstraint) (hc : t.vc.constrContainer[k]? = some c) : t.Given c.second ∧
      ((∃ u, (ρ.extend s.toVc t δ).value c.second = .constant u) ∨
        ∃ br : Bool, c.relation = relationOf br ∧
          (ρ.extend s.toVc t δ).value c.second = .number (if br then 1 else 0)) := by
  have hold : s.vc.constrContainer[k]? = some c := by
    rw [← show t.vc.constrContainer = s.vc.constrContainer from hg.constrs]
    exact hc
  obtain ⟨hgiven, hor⟩ := h.decided k c hold
  rw [Reading.extend_given hgiven]
  exact ⟨hg.toExtends.given hgiven, hor⟩

/-- New constants and unknowns, no decisions. -/
theorem Mirrors.grow (h : Mirrors ρ s blocks births) (hs : GraphOk s) (hg : Grows s.toVc t) (hδ : δ.IsUnknown) :
    Mirrors (ρ.extend s.toVc t δ) (s.withVc t) blocks births where
  constants := h.constants_extend hg.toExtends hδ
  decided := h.decided_extend hg
  edges := by
    intro e he
    have hok := hs.edge he
    have hfits := h.edges e he
    unfold Reading.Fits at hfits ⊢
    rwa [Reading.extend_given hok.value, Reading.extend_given hok.targetOffset]
  null := h.null
  pointers := by
    intro v b o k hv
    have hedit : Edit s (s.withVc t) := .container hg.toExtends
    exact h.pointers_edit hs hedit (extend_pointer hδ hv)
  unique v v' b o n hv hv' := h.unique v v' b o n (extend_pointer hδ hv) (extend_pointer hδ hv')
  regions b hb := ⟨(h.regions b hb).1, Int.lt_of_lt_of_le (h.regions b hb).2 hg.toExtends.nextObjectId⟩
  apart := h.apart
  freed := h.freed
  live := by
    intro b blk hblk hlive
    obtain ⟨o, ho, hshows⟩ := h.live b blk hblk hlive
    have hmem := memory_region (h.regions b (List.getElem?_eq_some_iff.1 hblk).1).1 ho
    exact ⟨o, ho, hshows.extend fun hread => slot_given hs hmem (Slots.slot_of_read hread)⟩

end Grow

/-! ### Changes of an object -/

/-- A handle of a kind that its id may have. -/
theorem Mirrors.addHandle (h : Mirrors ρ s blocks births) (hs : GraphOk s) {e : PtEdge}
    (hedit : Edit s (s.addHandle e)) (hfits : ρ.Fits e) : Mirrors ρ (s.addHandle e) blocks births where
  constants := h.constants
  decided := h.decided
  edges := by
    intro e' he'
    rcases MemState.edge_addHandle.1 he' with he' | rfl
    · exact h.edges e' he'
    · exact hfits
  null := by rw [MemState.handles_addHandle, lookup_append, h.null, Option.some_or]
  pointers _ _ _ _ hv := h.pointers_edit hs hedit hv
  unique := h.unique
  regions := h.regions
  apart := h.apart
  freed := h.freed
  live := h.live

/-- A block after one was replaced: the new one, or one whose region is another. -/
theorem Mirrors.set_cases (h : Mirrors ρ s blocks births) {b b' : ℕ} {blk blk' : Block} (hb : b < blocks.length)
    (hblk : (blocks.set b blk)[b']? = some blk') :
    b' = b ∧ blk' = blk ∨ blocks[b']? = some blk' ∧ ρ.region b ≠ ρ.region b' := by
  by_cases hne : b' = b
  · subst hne
    rw [List.getElem?_set_self hb] at hblk
    cases hblk
    exact Or.inl ⟨rfl, rfl⟩
  · rw [List.getElem?_set_ne (Ne.symm hne)] at hblk
    exact Or.inr ⟨hblk, fun heq => hne (h.apart b b' hb (List.getElem?_eq_some_iff.1 hblk).1 heq).symm⟩

/-- Another object in the place of the region of a block. -/
theorem Mirrors.setObject (h : Mirrors ρ s blocks births) (hs : GraphOk s) {b : ℕ} {blk blk' : Block} {o : Object}
    (hedit : Edit s (s.setObject (ρ.region b) o)) (hblk : blocks[b]? = some blk) (hlive' : blk'.freed = false)
    (hfits : ∀ e ∈ o.ptEdges, ρ.Fits e) (hshows : Shows ρ o blk') :
    Mirrors ρ (s.setObject (ρ.region b) o) (blocks.set b blk') births where
  constants := h.constants
  decided := h.decided
  edges e he := (MemState.edge_setObject he).elim (h.edges e) (hfits e)
  null := h.null
  pointers := by
    rw [List.length_set]
    exact fun _ _ _ _ hv => h.pointers_edit hs hedit hv
  unique := h.unique
  regions := by
    rw [List.length_set]
    exact h.regions
  apart := by
    rw [List.length_set]
    exact h.apart
  freed := by
    intro b' blk'' hblk'' hfreed
    rcases h.set_cases (List.getElem?_eq_some_iff.1 hblk).1 hblk'' with ⟨-, rfl⟩ | ⟨hold, hregion⟩
    · rw [hlive'] at hfreed
      cases hfreed
    · rintro ⟨o', ho'⟩
      rw [MemState.objects_setObject, if_neg hregion] at ho'
      exact h.freed b' blk'' hold hfreed ⟨o', ho'⟩
  live := by
    intro b' blk'' hblk'' hlive
    rcases h.set_cases (List.getElem?_eq_some_iff.1 hblk).1 hblk'' with ⟨rfl, rfl⟩ | ⟨hold, hregion⟩
    · exact ⟨o, by simp, hshows⟩
    · obtain ⟨o', ho', hshows'⟩ := h.live b' blk'' hold hlive
      exact ⟨o', by rw [MemState.objects_setObject, if_neg hregion, ho'], hshows'⟩

theorem Mirrors.freed_free (h : Mirrors ρ s blocks births) {b b' : ℕ} {blk blk' : Block} (hb : b < blocks.length)
    (hblk : (blocks.set b blk.free)[b']? = some blk') (hfreed : blk'.freed = true) :
    ¬ (s.freed (ρ.region b)).Exists (ρ.region b') := by
  rintro ⟨o, ho⟩
  rw [MemState.objects_freed] at ho
  rcases h.set_cases hb hblk with ⟨rfl, -⟩ | ⟨hold, hregion⟩
  · rw [if_pos rfl] at ho
    cases ho
  · rw [if_neg hregion] at ho
    obtain ⟨o', ho', -⟩ := Option.map_eq_some_iff.1 ho
    exact h.freed b' blk' hold hfreed ⟨o', ho'⟩

/-- The other regions show their blocks still, though edges into the freed one lead elsewhere. -/
theorem Mirrors.live_free (h : Mirrors ρ s blocks births) {b b' : ℕ} {blk blk' : Block} (hb : b < blocks.length)
    (hblk : (blocks.set b blk.free)[b']? = some blk') (hlive : blk'.freed = false) :
    ∃ o, (s.freed (ρ.region b)).graph.objects[ρ.region b']? = some o ∧ Shows ρ o blk' := by
  rcases h.set_cases hb hblk with ⟨-, rfl⟩ | ⟨hold, hregion⟩
  · cases hlive
  · obtain ⟨o, ho, hshows⟩ := h.live b' blk' hold hlive
    refine ⟨o.retargetEdges (ρ.region b), ?_, hshows.space, ?_, ?_⟩
    · rw [MemState.objects_freed, if_neg hregion, ho, Option.map_some]
    · rw [slots_retarget]
      exact hshows.stands
    · rw [slots_retarget]
      exact hshows.unset

/-- The region of a block is freed. -/
theorem Mirrors.free (h : Mirrors ρ s blocks births) (hs : GraphOk s) {b : ℕ} {blk : Block}
    (hblk : blocks[b]? = some blk) (hlive : blk.freed = false) :
    Mirrors ρ (s.freed (ρ.region b)) (blocks.set b blk.free) births := by
  have hb := (List.getElem?_eq_some_iff.1 hblk).1
  have h0 := (h.regions b hb).1
  obtain ⟨o, ho, -⟩ := h.live b blk hblk hlive
  have hedit : Edit s (s.freed (ρ.region b)) := .free h0 ⟨o, ho⟩
  exact {
    constants := h.constants
    decided := h.decided
    edges := by
      intro e he
      obtain ⟨a, ha, rfl⟩ := MemState.edge_freed he
      exact (h.edges a ha).retarget h0
    null := by
      rw [MemState.handles_freed, lookup_map fun e => e.retarget_value (ρ.region b), h.null, Option.map_some]
      have hne : (PtEdge.handle 0 0).targetObjectId ≠ ρ.region b := Int.ne_of_lt h0
      rw [PtEdge.retarget, if_neg hne]
    pointers := by
      rw [List.length_set]
      exact fun _ _ _ _ hv => h.pointers_edit hs hedit hv
    unique := h.unique
    regions := by
      rw [List.length_set]
      exact h.regions
    apart := by
      rw [List.length_set]
      exact h.apart
    freed := fun b' blk' hblk' hfreed => h.freed_free hb hblk' hfreed
    live := fun b' blk' hblk' hlive' => h.live_free hb hblk' hlive' }

/-! ### New pointers -/

section Names

variable {v : ValueId} {b : ℕ} {f : Word} {k : Option ℕ}

omit [DataLayout] in
theorem name_constant (hv : ρ.value v = .other) {v' : ValueId} {u : Word} :
    (ρ.name v (.pointer b f k)).value v' = .constant u ↔ ρ.value v' = .constant u := by
  by_cases hne : v' = v
  · subst hne
    rw [Reading.name_self, hv]
    simp
  · rw [Reading.name_of_ne hne]

omit [DataLayout] in
theorem Reading.Fits.name (hv : ρ.value v = .other) {e : PtEdge} (h : ρ.Fits e) :
    (ρ.name v (.pointer b f k)).Fits e := by
  by_cases hne : e.value = v
  · exact fits_pointer (by rw [hne, name_self])
  · unfold Fits at h ⊢
    rw [name_of_ne hne]
    cases hval : ρ.value e.value with
    | constant u =>
      rw [hval] at h
      exact ⟨h.1, h.2.imp fun u hu => (name_constant hv).2 hu⟩
    | number u | other | pointer =>
      rw [hval] at h
      exact h

/-- A pointer that the region does not hold makes no difference to what it shows. -/
theorem Shows.name {o : Object} {blk : Block} (h : Shows ρ o blk) (hv : ρ.value v = .other)
    (hstored : ∀ p key w, o.slots.read p key = some w → w ≠ v) : Shows (ρ.name v (.pointer b f k)) o blk where
  space := h.space
  stands := by
    intro g kind hg key w hkey hread
    rw [Reading.name_of_ne (hstored _ _ _ hread)]
    exact h.stands g kind hg key w ((name_constant hv).1 hkey) hread
  unset := by
    intro g hg
    exact (h.unset g hg).imp_right fun ⟨key, w, hkey, hread⟩ => ⟨key, w, (name_constant hv).2 hkey, hread⟩

theorem Mirrors.decided_name (h : Mirrors ρ s blocks births) (hv : ρ.value v = .other) (q : ConstraintId)
    (c : BinaryConstraint) (hc : s.vc.constrContainer[q]? = some c) : s.Given c.second ∧
      ((∃ u, (ρ.name v (.pointer b f k)).value c.second = .constant u) ∨
        ∃ br : Bool, c.relation = relationOf br ∧
          (ρ.name v (.pointer b f k)).value c.second = .number (if br then 1 else 0)) := by
  obtain ⟨hgiven, hor⟩ := h.decided q c hc
  have hne : c.second ≠ v := by
    rintro rfl
    rcases hor with ⟨u, hu⟩ | ⟨br, -, hu⟩ <;> rw [hv] at hu <;> cases hu
  rw [Reading.name_of_ne hne]
  exact ⟨hgiven, hor⟩

omit [DataLayout] in
theorem name_pointer {v' : ValueId} {b' : ℕ} {f' : Word} {k' : Option ℕ}
    (h : (ρ.name v (.pointer b f k)).value v' = .pointer b' f' k') :
    v' = v ∧ b' = b ∧ f' = f ∧ k' = k ∨ v' ≠ v ∧ ρ.value v' = .pointer b' f' k' := by
  by_cases hne : v' = v
  · subst hne
    rw [Reading.name_self] at h
    cases h
    exact Or.inl ⟨rfl, rfl, rfl, rfl⟩
  · rw [Reading.name_of_ne hne] at h
    exact Or.inr ⟨hne, h⟩

/-- Births are counted, so a new pointer is like no other. -/
theorem Mirrors.unique_name (h : Mirrors ρ s blocks births) (hk : ∀ n, k = some n → n = births) (v₁ v₂ : ValueId)
    (b' : ℕ) (f' : Word) (n : ℕ) (h₁ : (ρ.name v (.pointer b f k)).value v₁ = .pointer b' f' (some n))
    (h₂ : (ρ.name v (.pointer b f k)).value v₂ = .pointer b' f' (some n)) : v₁ = v₂ := by
  have hold : ∀ {v'}, ρ.value v' = .pointer b' f' (some n) → n < births := fun hv' => (h.pointers _ _ _ _ hv').2.1 n rfl
  rcases name_pointer h₁ with ⟨hv₁, -, -, hn⟩ | ⟨-, hold₁⟩ <;>
    rcases name_pointer h₂ with ⟨hv₂, -, -, hn'⟩ | ⟨-, hold₂⟩
  · exact hv₁.trans hv₂.symm
  · have := hold hold₂
    have := hk n hn.symm
    lia
  · have := hold hold₁
    have := hk n hn'.symm
    lia
  · exact h.unique v₁ v₂ b' f' n hold₁ hold₂

end Names

/-- A new pointer into a block, with its handle. -/
theorem Mirrors.addPointer (h : Mirrors ρ s blocks births) (hs : GraphOk s) {e : PtEdge}
    (hedit : Edit s (s.addHandle e)) (hv : ρ.value e.value = .other)
    (hstored : ∀ (id : ObjectId) o, s.graph.objects[id]? = some o →
      ∀ p key w, o.slots.read p key = some w → w ≠ e.value) {b : ℕ} (hb : b < blocks.length) {f : Word}
    (htracks : Tracks (s.addHandle e) e.value (ρ.region b)) (hlies : (s.addHandle e).LiesAt e.value f) {k : Option ℕ}
    {births' : ℕ} (hle : births ≤ births') (hk : ∀ n, k = some n → n = births ∧ births < births') :
    Mirrors (ρ.name e.value (.pointer b f k)) (s.addHandle e) blocks births' where
  constants := fun v u => (h.constants v u).trans (name_constant hv).symm
  decided := h.decided_name hv
  edges := by
    intro e' he'
    rcases MemState.edge_addHandle.1 he' with he' | rfl
    · exact (h.edges e' he').name hv
    · exact Reading.fits_pointer (Reading.name_self _ _)
  null := by rw [MemState.handles_addHandle, lookup_append, h.null, Option.some_or]
  pointers := by
    intro v' b' f' k' hv'
    rcases name_pointer hv' with ⟨rfl, rfl, rfl, rfl⟩ | ⟨-, hv'⟩
    · refine ⟨hb, fun n hn => ?_, htracks, hlies⟩
      rw [(hk n hn).1]
      exact (hk n hn).2
    · obtain ⟨hb', hk', hleads⟩ := h.pointers_edit hs hedit hv'
      exact ⟨hb', fun n hn => Nat.lt_of_lt_of_le (hk' n hn) hle, hleads⟩
  unique := h.unique_name fun n hn => (hk n hn).1
  regions := h.regions
  apart := h.apart
  freed := h.freed
  live := by
    intro b' blk hblk hlive
    obtain ⟨o, ho, hshows⟩ := h.live b' blk hblk hlive
    exact ⟨o, ho, hshows.name hv (hstored _ o ho)⟩

/-- The block that a new region is read as. -/
def Reading.allocate (ρ : Reading) (ptr : ValueId) (b : ℕ) (births : ℕ) (id : ObjectId) : Reading :=
  { ρ.name ptr (.pointer b 0 (some births)) with region := Function.update ρ.region b id }

/-! ### New regions -/

section NewRegion

variable {ptr size : ValueId} {ms : MemorySpace} {id : ObjectId}

omit [DataLayout] in
theorem allocate_region_of_lt {c b : ℕ} (hb : b < c) : (ρ.allocate ptr c births id).region b = ρ.region b :=
  Function.update_of_ne (Nat.ne_of_lt hb) _ _

omit [DataLayout] in
theorem allocate_region_self (c : ℕ) : (ρ.allocate ptr c births id).region c = id := Function.update_self ..

omit [DataLayout] in
theorem objects_newRegion (id : ObjectId) : (s.newRegion ptr size ms).graph.objects[id]? =
    if s.statics.nextObjectIdToGive = id then
      some { Object.region s.statics.nextObjectIdToGive with size := size, memSpace := ms }
    else s.graph.objects[id]? := MemState.objects_setObject _ _ _ _

/-- The regions of the blocks that were there stay as they are. -/
theorem Mirrors.objects_newRegion_old (h : Mirrors ρ s blocks births) {b : ℕ} (hb : b < blocks.length) :
    (s.newRegion ptr size ms).graph.objects[ρ.region b]? = s.graph.objects[ρ.region b]? := by
  rw [objects_newRegion, if_neg (Int.ne_of_gt (h.regions b hb).2)]

omit [DataLayout] in
/-- A new region holds nothing. -/
theorem read_new {p : Bool} {key v : ValueId} :
    Slots.read (Object.slots { Object.region id with size := size, memSpace := ms }) p key ≠ some v := by
  intro hread
  rcases Slots.slot_of_read hread with hread | hread
  · cases hread
  · simp only [Object.slots, Object.findPtEdgeByOffset, Object.region] at hread
    split at hread <;> cases hread

/-- A new region shows a new block. -/
theorem shows_new {blk : Block} {n : ℕ} (hnew : blk.IsNew n ms) :
    Shows ρ { Object.region id with size := size, memSpace := ms } blk where
  space := hnew.space.symm
  stands _ _ _ _ _ _ hread := absurd hread read_new
  unset f hf := Or.inl (hnew.unset f hf)

theorem block_append {blk blk' : Block} {b : ℕ} (hblk : (blocks ++ [blk])[b]? = some blk') :
    b < blocks.length ∧ blocks[b]? = some blk' ∨ b = blocks.length ∧ blk' = blk := by
  rcases Nat.lt_or_ge b blocks.length with hb | hb
  · exact Or.inl ⟨hb, (List.getElem?_append_left hb).symm.trans hblk⟩
  · have hlt := (List.getElem?_eq_some_iff.1 hblk).1
    rw [List.length_append, List.length_singleton] at hlt
    obtain rfl : b = blocks.length := by lia
    rw [List.getElem?_concat_length] at hblk
    exact Or.inr ⟨rfl, (Option.some.inj hblk).symm⟩

theorem length_append_cases {blk : Block} {b : ℕ} (hb : b < (blocks ++ [blk]).length) :
    b < blocks.length ∨ b = blocks.length := by
  rw [List.length_append, List.length_singleton] at hb
  lia

/-- The new region is no region of a block. -/
theorem Mirrors.apart_new (h : Mirrors ρ s blocks births) {blk : Block} {b b' : ℕ} (hb : b < (blocks ++ [blk]).length)
    (hb' : b' < (blocks ++ [blk]).length)
    (heq : (ρ.allocate ptr blocks.length births s.statics.nextObjectIdToGive).region b =
      (ρ.allocate ptr blocks.length births s.statics.nextObjectIdToGive).region b') : b = b' := by
  rcases length_append_cases hb with hb | rfl <;> rcases length_append_cases hb' with hb' | rfl
  · rw [allocate_region_of_lt hb, allocate_region_of_lt hb'] at heq
    exact h.apart b b' hb hb' heq
  · rw [allocate_region_of_lt hb, allocate_region_self] at heq
    exact absurd heq (Int.ne_of_lt (h.regions b hb).2)
  · rw [allocate_region_of_lt hb', allocate_region_self] at heq
    exact absurd heq.symm (Int.ne_of_lt (h.regions b' hb').2)
  · rfl

theorem Mirrors.regions_new (h : Mirrors ρ s blocks births) (hs : GraphOk s) {blk : Block} {b : ℕ}
    (hb : b < (blocks ++ [blk]).length) :
    0 < (ρ.allocate ptr blocks.length births s.statics.nextObjectIdToGive).region b ∧
      (ρ.allocate ptr blocks.length births s.statics.nextObjectIdToGive).region b <
        (s.newRegion ptr size ms).statics.nextObjectIdToGive := by
  rw [show (s.newRegion ptr size ms).statics.nextObjectIdToGive = s.statics.nextObjectIdToGive + 1 from rfl]
  rcases length_append_cases hb with hb | rfl
  · rw [allocate_region_of_lt hb]
    exact ⟨(h.regions b hb).1, Int.lt_add_one_of_le (Int.le_of_lt (h.regions b hb).2)⟩
  · rw [allocate_region_self]
    exact ⟨hs.counter, Int.lt_succ _⟩

/-- The old regions show what they did, the new one the new block. -/
theorem Mirrors.live_new (h : Mirrors ρ s blocks births) (hv : ρ.value ptr = .other)
    (hstored : ∀ (id : ObjectId) o, s.graph.objects[id]? = some o → ∀ p key w, o.slots.read p key = some w → w ≠ ptr)
    {blk blk' : Block} {n b : ℕ} (hnew : blk.IsNew n ms) (hblk : (blocks ++ [blk])[b]? = some blk')
    (hlive : blk'.freed = false) : ∃ o, (s.newRegion ptr size ms).graph.objects[
      (ρ.allocate ptr blocks.length births s.statics.nextObjectIdToGive).region b]? = some o ∧
        Shows (ρ.allocate ptr blocks.length births s.statics.nextObjectIdToGive) o blk' := by
  rcases block_append hblk with ⟨hb, hblk⟩ | ⟨rfl, rfl⟩
  · obtain ⟨o, ho, hshows⟩ := h.live b blk' hblk hlive
    have hnamed := hshows.name (b := blocks.length) (f := 0) (k := some births) hv (hstored _ o ho)
    rw [allocate_region_of_lt hb, h.objects_newRegion_old hb]
    exact ⟨o, ho, hnamed.space, hnamed.stands, hnamed.unset⟩
  · rw [allocate_region_self, objects_newRegion, if_pos rfl]
    exact ⟨_, rfl, shows_new hnew⟩

/-- A new region with the pointer to it. -/
theorem Mirrors.newRegion (h : Mirrors ρ s blocks births) (hs : GraphOk s)
    (hedit : Edit s (s.newRegion ptr size ms)) (hv : ρ.value ptr = .other)
    (hstored : ∀ (id : ObjectId) o, s.graph.objects[id]? = some o →
      ∀ p key w, o.slots.read p key = some w → w ≠ ptr)
    (htracks : Tracks (s.newRegion ptr size ms) ptr s.statics.nextObjectIdToGive)
    (hlies : (s.newRegion ptr size ms).LiesAt ptr 0) {blk : Block} {n : ℕ} (hnew : blk.IsNew n ms) :
    Mirrors (ρ.allocate ptr blocks.length births s.statics.nextObjectIdToGive) (s.newRegion ptr size ms)
      (blocks ++ [blk]) (births + 1) where
  constants v u := (h.constants v u).trans (name_constant hv).symm
  decided := h.decided_name hv
  edges := by
    intro e he
    rcases MemState.edge_addHandle.1 he with he | rfl
    · rcases MemState.edge_setObject he with he | he
      · exact (h.edges e he).name hv
      · cases he
    · exact Reading.fits_pointer (Reading.name_self _ _)
  null := by
    change lookup (·.value) 0 (s.graph.handles ++ _) = _
    rw [lookup_append, h.null, Option.some_or]
  pointers := by
    intro v' b' f' k' hv'
    rcases name_pointer hv' with ⟨rfl, rfl, rfl, rfl⟩ | ⟨-, hv'⟩
    · rw [allocate_region_self]
      refine ⟨by simp, fun n hn => ?_, htracks, hlies⟩
      cases hn
      exact Nat.lt_succ_self _
    · obtain ⟨hb', hk', hleads⟩ := h.pointers_edit hs hedit hv'
      rw [allocate_region_of_lt hb', List.length_append]
      exact ⟨Nat.lt_add_right _ hb', fun n hn => Nat.lt_succ_of_lt (hk' n hn), hleads⟩
  unique := by
    refine h.unique_name fun n hn => ?_
    cases hn
    rfl
  regions := fun b hb => h.regions_new hs hb
  apart b b' hb hb' heq := h.apart_new hb hb' heq
  freed := by
    intro b blk' hblk' hfreed
    rcases block_append hblk' with ⟨hb, hblk'⟩ | ⟨-, rfl⟩
    · rw [allocate_region_of_lt hb]
      rintro ⟨o, ho⟩
      rw [h.objects_newRegion_old hb] at ho
      exact h.freed b blk' hblk' hfreed ⟨o, ho⟩
    · rw [hnew.freed] at hfreed
      cases hfreed
  live := fun b blk' hblk' hlive => h.live_new hv hstored hnew hblk' hlive

end NewRegion

/-- A decision: only the constraints change. -/
theorem Mirrors.decide (h : Mirrors ρ s blocks births) (hs : GraphOk s) {t : VcState} (hext : Extends s.toVc t)
    (hconst : t.vc.constantContainer = s.vc.constantContainer)
    (hdecided : ∀ (k : ConstraintId) c, t.vc.constrContainer[k]? = some c → s.Given c.second ∧
      ((∃ u, ρ.value c.second = .constant u) ∨
        ∃ br : Bool, c.relation = relationOf br ∧ ρ.value c.second = .number (if br then 1 else 0))) :
    Mirrors ρ (s.withVc t) blocks births where
  constants := by
    intro v u
    rw [← h.constants]
    change t.vc.constantContainer[v]? = _ ↔ _
    rw [hconst]
  decided := fun k c hc => ⟨hext.given (hdecided k c hc).1, (hdecided k c hc).2⟩
  edges := h.edges
  null := h.null
  pointers := by
    intro v b o k hv
    have hedit : Edit s (s.withVc t) := .container hext
    exact h.pointers_edit hs hedit hv
  unique := h.unique
  regions := fun b hb => ⟨(h.regions b hb).1, Int.lt_of_lt_of_le (h.regions b hb).2 hext.nextObjectId⟩
  apart := h.apart
  freed := h.freed
  live := h.live

end Mirrors

end Angie
