import Angie.Smg.Access

/-!
# Reading back

What a cell of a region at a constant offset was written with, or first read as, is what every later read of it
returns, while other memory is read, written, allocated and freed.

- `holdsAt_step`: operations that spare a cell leave its value there;
- `holdsAt_gives`: a write of the cell or a read of it gives it its value;
- `readValue_stable`: hence the read after any number of operations that spare the cell.
-/

namespace Angie

open Exec TwoView Trace

/-! ## Operations that leave a cell alone -/

/-- Some byte is both among the `n` bytes at `f` and the `m` bytes at `g`. -/
def Overlap (f : Word) (n : ℕ) (g : Word) (m : ℕ) : Prop :=
  max f.toInt g.toInt < min (f.toInt + n) (g.toInt + m)

instance (f : Word) (n : ℕ) (g : Word) (m : ℕ) : Decidable (Overlap f n g m) := inferInstanceAs (Decidable (_ < _))

namespace MemState

variable (s : MemState)

/-- The pointer resolves to the constant offset `f` of the region. -/
def PointsTo (ptr : ValueId) (oid : ObjectId) (f : Word) : Prop :=
  (s.resolve ptr).targetObjectId = oid ∧ s.vc.constantContainer[(s.resolve ptr).targetOffset]? = some f

/-- The pointer leads to another object, or to a constant offset where `m` bytes are apart from the `n` bytes at `f`. -/
def PointsApart (ptr : ValueId) (m : ℕ) (oid : ObjectId) (f : Word) (n : ℕ) : Prop :=
  (s.resolve ptr).targetObjectId ≠ oid ∨
    ∃ g, s.vc.constantContainer[(s.resolve ptr).targetOffset]? = some g ∧ g ≠ f ∧ ¬ Overlap f n g m

/-- The cell at the constant offset holds the value for reads of the type. -/
def HoldsAt (oid : ObjectId) (f : Word) (type : Ty) (v : ValueId) : Prop :=
  ∃ k l, s.vc.constantContainer[(k : ValueId)]? = some f ∧ s.memory oid = some l ∧ l.read type.isPointer k = some v

end MemState

section Frame

variable [DataLayout]

/-- The operation frees no byte of the cell and writes none. -/
def GraphOp.Spares (oid : ObjectId) (f : Word) (type : Ty) (s : MemState) : GraphOp → Prop
  | .writeValue p _ t => s.PointsApart p t.getSizeOf oid f type.getSizeOf
  | .memclear p n => ∀ m, s.vc.constantContainer[n]? = some m → s.PointsApart p m.toNat oid f type.getSizeOf
  | .free p => (s.resolve p).targetObjectId ≠ oid
  | .allocateRegion _ _ | .createDerivedPointer _ _ | .readValue _ _ | .container _ => True

/-- The operation gives the cell its value: a write of it, or a read that returned it. -/
def GraphOp.Gives (oid : ObjectId) (f : Word) (type : Ty) (v : ValueId) (s : MemState) : GraphOp → Prop
  | .writeValue p w t => s.PointsTo p oid f ∧ t = type ∧ w = v
  | .readValue p t => s.PointsTo p oid f ∧ t = type ∧ ∃ u, Angie.readValue p t s = .ok v u
  | _ => False

variable {s : MemState} {oid : ObjectId} {f : Word} {type : Ty} {v : ValueId}

/-- Constants stay bound. -/
theorem exec_constant (hs : GraphOk s) {op : GraphOp} (ha : op.Adm s) {k : ValueId} {c : Word}
    (hk : s.vc.constantContainer[k]? = some c) : (op.exec s).2.vc.constantContainer[k]? = some c := by
  refine (exec_edits hs ha).induct (P := fun t => t.vc.constantContainer[k]? = some c) (fun h hs hk => ?_) hs hk
  cases h with
  | container h => exact h.bound hs.const hk
  | _ => exact hk

omit [DataLayout] in
/-- A write through another edge. -/
theorem writeEffect_spares {edge : PtEdge} {k : ValueId} (h : edge.targetObjectId ≠ oid ∨ edge.targetOffset ≠ k)
    (t : MemState) (value : ValueId) (ty : Ty) : (t.writeEffect edge value ty).Spares oid k := by
  have hne : ¬ (edge.targetObjectId = oid ∧ edge.targetOffset = k) := fun he => h.elim (· he.1) (· he.2)
  unfold MemState.writeEffect
  split
  · split <;> simp [Effect.Spares, Effect.plainAt, Effect.pointerAt, hne]
  · simp [Effect.Spares, Effect.plainAt, Effect.pointerAt, hne]

omit [DataLayout] in
/-- Different constant offsets have different ids. -/
theorem pointsApart_ne {p : ValueId} {m n : ℕ} (h : s.PointsApart p m oid f n) {k : ValueId}
    (hk : s.vc.constantContainer[k]? = some f) :
    (s.resolve p).targetObjectId ≠ oid ∨ (s.resolve p).targetOffset ≠ k := by
  refine h.imp_right ?_
  rintro ⟨g, hg, hgf, _⟩ rfl
  rw [hk] at hg
  exact hgf (Option.some.inj hg).symm

/-- A cleared range starts at the constant offset of the pointer. -/
theorem clearEffect_spares (hs : GraphOk s) {p size : ValueId} (hp : s.Given p) {n : ℕ}
    (h : ∀ m, s.vc.constantContainer[size]? = some m → s.PointsApart p m.toNat oid f n) {k : ValueId}
    (hk : s.vc.constantContainer[k]? = some f) :
    (s.clearEffect p size).isLifetime = false ∧ (s.clearEffect p size).Spares oid k := by
  unfold MemState.clearEffect
  cases hn : s.vc.constantContainer[size]? with
  | none => exact ⟨rfl, rfl, rfl⟩
  | some m =>
    obtain ⟨o, w, t, hd, heq⟩ := createDerivedPointer_spec hs hp 0
    rw [heq]
    refine ⟨writeEffect_lifetime _ _ _ _, writeEffect_spares ?_ _ _ _⟩
    refine (h m hn).imp_right ?_
    rintro ⟨g, hg, hgf, _⟩ ho
    have hc := hd.offset_constants g 0 hg hs.bound_zero
    have ho' : o = k := ho
    rw [ho', hd.grows.bound hs.const hk] at hc
    exact hgf ((Option.some.inj hc).trans (BitVec.add_zero g)).symm

/-- An operation that spares the cell leaves its value there. -/
theorem holdsAt_step (hs : GraphOk s) {op : GraphOp} (ha : op.Adm s) (hsp : op.Spares oid f type s)
    (h : s.HoldsAt oid f type v) : (op.exec s).2.HoldsAt oid f type v := by
  obtain ⟨k, l, hk, hl, hr⟩ := h
  suffices hcell : ∃ l', (op.effect s).apply s.memory oid = some l' ∧ l'.read type.isPointer k = some v by
    obtain ⟨l', hl', hr'⟩ := hcell
    exact ⟨k, l', exec_constant hs ha hk, by rw [exec_memory hs ha, hl'], hr'⟩
  have hspared : ∀ e : Effect ObjectId ValueId ValueId, e.isLifetime = false ∨ e.region ≠ some oid →
      e.Spares oid k → ∃ l', e.apply s.memory oid = some l' ∧ l'.read type.isPointer k = some v := by
    intro e he hek
    obtain ⟨l', hl', hr'⟩ := Effect.read_apply hl he hek type.isPointer
    exact ⟨l', hl', hr'.trans hr⟩
  cases op with
  | createDerivedPointer | container => exact ⟨l, hl, hr⟩
  | allocateRegion t ms =>
    obtain ⟨_, o, ho, _⟩ := memory_some hl
    have hlt := (hs.key oid o ho).2
    refine hspared _ (Or.inr fun heq => ?_) ⟨rfl, rfl⟩
    exact Int.ne_of_lt hlt (Option.some.inj heq).symm
  | readValue p t =>
    simp only [GraphOp.effect, MemState.readEffect]
    split
    · exact ⟨l, hl, hr⟩
    · rename_i l₀ hl₀
      split
      · exact ⟨l, hl, hr⟩
      · rename_i hnone
        refine Effect.read_fill (fun l₁ hl₁ => ?_) hl hr
        rw [hl₀] at hl₁
        cases hl₁
        exact (Slots.read_eq_none hnone).1
  | writeValue p w t =>
    exact hspared _ (Or.inl (writeEffect_lifetime _ _ _ _)) (writeEffect_spares (pointsApart_ne hsp hk) _ _ _)
  | free p =>
    simp only [GraphOp.effect, MemState.freeEffect]
    split
    · exact ⟨l, hl, hr⟩
    · split
      · exact hspared _ (Or.inr fun heq => hsp (Option.some.inj heq)) ⟨rfl, rfl⟩
      · exact ⟨l, hl, hr⟩
  | memclear p n =>
    obtain ⟨hlife, hcell⟩ := clearEffect_spares hs (ha p (by simp [GraphOp.ids])) hsp hk
    exact hspared _ (Or.inl hlife) hcell

/-- A write or a read gives the cell its value. -/
theorem holdsAt_gives (hs : GraphOk s) (h0 : 0 < oid) {op : GraphOp} (ha : op.Adm s)
    (h : op.Gives oid f type v s) : (op.exec s).2.HoldsAt oid f type v := by
  have hmem := exec_memory hs ha
  cases op with
  | writeValue p w t =>
    obtain ⟨⟨rfl, hf⟩, rfl, rfl⟩ := h
    obtain ⟨o, ho⟩ := resolve_exists hs p
    have hcell := Effect.apply_some (memory_region h0 ho)
      (Or.inl (writeEffect_lifetime s (s.resolve p) w t))
    rw [GraphOp.effect] at hmem
    refine ⟨(s.resolve p).targetOffset, _, exec_constant hs ha hf, by rw [hmem, hcell], ?_⟩
    simp only [Slots.read, MemState.writeEffect]
    cases t.isPointer with
    | true => cases s.graph.existsPtEdge w <;> simp [Effect.plainAt, Effect.pointerAt]
    | false => simp [Effect.plainAt]
  | readValue p t =>
    obtain ⟨⟨rfl, hf⟩, rfl, u, hu⟩ := h
    obtain ⟨o, ho⟩ := resolve_exists hs p
    have hl := memory_region h0 ho
    obtain ⟨u', hu'⟩ := readValue_of_memory hs hl t
    rw [hu'] at hu
    cases hu
    simp only [GraphOp.effect, MemState.readEffect, hl] at hmem
    refine ⟨(s.resolve p).targetOffset, ?_⟩
    cases hr : o.slots.read t.isPointer (s.resolve p).targetOffset with
    | some w =>
      rw [hr] at hmem
      exact ⟨o.slots, exec_constant hs ha hf, by rw [hmem]; exact hl, hr⟩
    | none =>
      rw [hr] at hmem
      have hcell := Effect.apply_some (e := .plain (s.resolve p).targetObjectId (s.resolve p).targetOffset
        s.statics.nextIdToGive) hl (Or.inl rfl)
      refine ⟨_, exec_constant hs ha hf, by rw [hmem]; exact hcell, ?_⟩
      obtain ⟨hplain, hpointer⟩ := Slots.read_eq_none hr
      simp only [Slots.read, Effect.plainAt, Effect.pointerAt, Option.getD_none, and_self, if_true, Option.some_or]
      cases ht : t.isPointer with
      | true => rw [if_pos rfl, hpointer ht, Option.none_or]
      | false => rfl
  | _ => exact h.elim

omit [DataLayout] in
/-- What a cell holds is what a read through any pointer to it returns. -/
theorem readValue_of_holdsAt (hs : GraphOk s) (h : s.HoldsAt oid f type v) {q : ValueId} (hq : s.PointsTo q oid f) :
    ∃ t, Angie.readValue q type s = .ok v t := by
  obtain ⟨k, l, hk, hl, hr⟩ := h
  obtain ⟨rfl, hf⟩ := hq
  have hid : (s.resolve q).targetOffset = k := hs.const.interned _ _ f hf hk
  obtain ⟨t, ht⟩ := readValue_of_memory hs hl type
  rw [hid, hr, Option.getD_some] at ht
  exact ⟨t, ht⟩

variable {es : GraphHistory}

/-- What a write gave a cell, or a read returned for it, is what a read through any pointer to the cell returns after
operations that spare the cell. -/
theorem readValue_stable (h : GraphRun es s) (hlive : Live es oid) {op : GraphOp} (ha : op.Adm s)
    (hgives : op.Gives oid f type v s) {ops : List GraphOp}
    (hops : Admissible GraphOp.exec (fun s op => op.Adm s ∧ op.Spares oid f type s) (op.exec s).2 ops) {q : ValueId}
    (hq : (play GraphOp.exec es (op.exec s).2 ops).2.PointsTo q oid f) :
    ∃ t, Angie.readValue q type (play GraphOp.exec es (op.exec s).2 ops).2 = .ok v t := by
  have hs := run_graphOk h
  have hend : GraphOk (play GraphOp.exec es (op.exec s).2 ops).2 ∧
      (play GraphOp.exec es (op.exec s).2 ops).2.HoldsAt oid f type v := by
    refine hops.invariant (I := fun s => GraphOk s ∧ s.HoldsAt oid f type v) ?_ es ⟨?_, ?_⟩
    · rintro s op ⟨ha, hsp⟩ ⟨hs, hv⟩
      exact ⟨Edits.ok (exec_edits hs ha) hs, holdsAt_step hs ha hsp hv⟩
    · exact Edits.ok (exec_edits hs ha) hs
    · exact holdsAt_gives hs hlive.1 ha hgives
  exact readValue_of_holdsAt hend.1 hend.2 hq

end Frame

section Example

attribute [local instance] Ty.x86

/-- Two words in one region, and a pointer to the second. -/
def twoWords : GraphHistory × MemState :=
  play GraphOp.exec [] MemState.new
    [.allocateRegion (.array (.int 32) 2) .heap, .container (.createConstIntVal 4), .createDerivedPointer 1 3]

theorem twoWords_run : GraphRun twoWords.1 twoWords.2 := Run.play (Run.start rfl) (by decide +kernel)

theorem twoWords_live : Live twoWords.1 1 := (live_iff twoWords_run).2 ⟨by decide, ⟨_, rfl⟩⟩

/-- The first word is written, then the second one and another region is allocated and freed. -/
theorem readValue_stable_twoWords :
    ∃ t, Angie.readValue 1 (.int 32) (play GraphOp.exec twoWords.1
      ((GraphOp.writeValue 1 3 (.int 32)).exec twoWords.2).2
      [.writeValue 4 0 (.int 32), .allocateRegion (.int 8) .heap, .free 5]).2 = .ok 3 t := by
  have hgives : (GraphOp.writeValue 1 3 (.int 32)).Gives 1 0 (.int 32) 3 twoWords.2 := ⟨⟨rfl, rfl⟩, rfl, rfl⟩
  refine readValue_stable twoWords_run twoWords_live (by decide +kernel) hgives ?_ ⟨rfl, rfl⟩
  refine ⟨⟨by decide +kernel, Or.inr ⟨4, rfl, by decide, by decide⟩⟩, ⟨by decide +kernel, trivial⟩,
    ⟨by decide +kernel, ?_⟩, trivial⟩
  show _ ≠ (1 : ObjectId)
  decide +kernel

end Example

end Angie
