import Angie.Smg.Integrity
import Angie.Smg.Provenance

/-!
# What a pointer means

A pointer is looked up by its value, so that two edges with one value should lead to the same place, and the pointers
to the null object should be the numbers that are their offsets (`MemState.Functional`). New pointers have new values,
and loads, stores and frees copy or retarget edges as a whole. Only a derivation can break this: it adds the base
pointer to the new offset, which counts the old offset twice when both are constants. `MemState.DerivesAgree` is the
condition under which its edge agrees with the others, and a run stays functional exactly as long as the derivations
meet it (`functional_iff`).
-/

namespace Angie

open Exec KeyedList Trace

/-! ## The property -/

structure MemState.Functional (s : MemState) : Prop where
  /-- Edges with the same value have the same target. -/
  same : ∀ e e', s.Edge e → s.Edge e' → e.value = e'.value →
    e.targetObjectId = e'.targetObjectId ∧ e.targetOffset = e'.targetOffset
  /-- A pointer to the null object that is a constant is its own offset. -/
  null : ∀ e, s.Edge e → e.targetObjectId = 0 → ∀ c, s.vc.constantContainer[e.value]? = some c →
    s.vc.constantContainer[e.targetOffset]? = some c

/-- The constants that a derivation adds: the base pointer, the offset of its edge and the new offset. -/
def MemState.DerivesConstants (s : MemState) (basePtr offset : ValueId) (x y z : Word) : Prop :=
  s.vc.constantContainer[basePtr]? = some x ∧
    s.vc.constantContainer[(s.resolve basePtr).targetOffset]? = some y ∧ s.vc.constantContainer[offset]? = some z

/-- When the base pointer is `x`, at the offset `y`, and `z` is added to it, the pointers that are the number
`x + (y + z)` already lead to `y + z` in the same target, and `x` is null if the target is. -/
def MemState.DerivesAgree (s : MemState) (basePtr offset : ValueId) : Prop :=
  ∀ x y z, s.DerivesConstants basePtr offset x y z →
    (∀ e, s.Edge e → s.vc.constantContainer[e.value]? = some (x + (y + z)) →
      e.targetObjectId = (s.resolve basePtr).targetObjectId ∧
      s.vc.constantContainer[e.targetOffset]? = some (y + z)) ∧
    ((s.resolve basePtr).targetObjectId = 0 → x = 0)

/-- The base pointer and the offset of the derivation that an operation makes. -/
def GraphOp.derivation (s : MemState) : GraphOp → Option (ValueId × ValueId)
  | .createDerivedPointer basePtr offset => some (basePtr, offset)
  | .memclear ptr size => if s.vc.isConstant size then some (ptr, 0) else none
  | _ => none

def GraphOp.Agrees (s : MemState) (op : GraphOp) : Prop := ∀ d, op.derivation s = some d → s.DerivesAgree d.1 d.2

/-! ## Changes of the state -/

namespace MemState.Functional

variable {s t : MemState}

/-- Edges that lead where others led. -/
theorem of_sameTarget (hf : s.Functional) (hs : GraphOk s) (hext : Extends s.toVc t.toVc)
    (h : ∀ e, t.Edge e → ∃ e', s.Edge e' ∧ e.SameTarget e') : t.Functional where
  same := by
    intro e e' he he' hv
    obtain ⟨a, ha, hav, hat, hao⟩ := h e he
    obtain ⟨b, hb, hbv, hbt, hbo⟩ := h e' he'
    have hab := hf.same a b ha hb (hav.trans (hv.trans hbv.symm))
    exact ⟨hat.symm.trans (hab.1.trans hbt), hao.symm.trans (hab.2.trans hbo)⟩
  null := by
    intro e he h0 c hc
    obtain ⟨a, ha, hav, hat, hao⟩ := h e he
    have haok := hs.edge ha
    rw [← hav] at hc
    rw [← hao]
    have hca : s.vc.constantContainer[a.value]? = some c := (hext.constant haok.value).symm.trans hc
    exact (hext.constant haok.targetOffset).trans (hf.null a ha (hat.trans h0) c hca)

theorem withVc (hf : s.Functional) (hs : GraphOk s) {u : VcState} (hext : Extends s.toVc u) :
    (s.withVc u).Functional :=
  hf.of_sameTarget hs hext fun e he => ⟨e, he, PtEdge.SameTarget.refl e⟩

/-- A new handle that leads where the others of its value lead. -/
theorem addHandle (hf : s.Functional) {e : PtEdge}
    (hsame : ∀ e', s.Edge e' → e'.value = e.value →
      e'.targetObjectId = e.targetObjectId ∧ e'.targetOffset = e.targetOffset)
    (hnull : e.targetObjectId = 0 → ∀ c, s.vc.constantContainer[e.value]? = some c →
      s.vc.constantContainer[e.targetOffset]? = some c) : (s.addHandle e).Functional where
  same := by
    intro a b ha hb hv
    rcases edge_addHandle.1 ha with ha' | rfl <;> rcases edge_addHandle.1 hb with hb' | rfl
    · exact hf.same a b ha' hb' hv
    · exact hsame a ha' hv
    · exact ⟨(hsame b hb' hv.symm).1.symm, (hsame b hb' hv.symm).2.symm⟩
    · exact ⟨rfl, rfl⟩
  null := by
    intro a ha h0 c hc
    rcases edge_addHandle.1 ha with ha | rfl
    · exact hf.null a ha h0 c hc
    · exact hnull h0 c hc

theorem addUnused (hf : s.Functional) {e : PtEdge} (hun : s.Unused e.value)
    (hnull : e.targetObjectId = 0 → s.vc.constantContainer[e.value]? = none) : (s.addHandle e).Functional := by
  refine hf.addHandle (fun e' he' hv => absurd hv (hun e' he')) fun h0 c hc => ?_
  rw [hnull h0] at hc
  cases hc

theorem copyHandle (hf : s.Functional) (hs : GraphOk s) {a : PtEdge} (ha : s.Edge a) (offset : ValueId) :
    (s.addHandle (a.withSource offset)).Functional := by
  refine hf.of_sameTarget hs (Extends.refl _) fun e he => ?_
  rcases edge_addHandle.1 he with he | rfl
  · exact ⟨e, he, PtEdge.SameTarget.refl e⟩
  · exact ⟨a, ha, rfl, rfl, rfl⟩

theorem setObject (hf : s.Functional) (hs : GraphOk s) (id : ObjectId) {o : Object}
    (h : ∀ e ∈ o.ptEdges, ∃ e', s.Edge e' ∧ e.SameTarget e') : (s.setObject id o).Functional := by
  refine hf.of_sameTarget hs (Extends.refl _) fun e he => ?_
  rcases MemState.edge_setObject he with he | he
  · exact ⟨e, he, PtEdge.SameTarget.refl e⟩
  · exact h e he

theorem freed (hf : s.Functional) (id : ObjectId) : (s.freed id).Functional where
  same := by
    intro e e' he he' hv
    obtain ⟨a, ha, rfl⟩ := edge_freed he
    obtain ⟨b, hb, rfl⟩ := edge_freed he'
    rw [PtEdge.retarget_value, PtEdge.retarget_value] at hv
    obtain ⟨ht, ho⟩ := hf.same a b ha hb hv
    constructor
    · rw [PtEdge.retarget_target, PtEdge.retarget_target, ht]
    · rw [PtEdge.retarget_targetOffset, PtEdge.retarget_targetOffset, ho]
  null := by
    intro e he h0 c hc
    obtain ⟨a, ha, rfl⟩ := edge_freed he
    rw [PtEdge.retarget_value] at hc
    rw [PtEdge.retarget_target] at h0
    rw [PtEdge.retarget_targetOffset]
    split at h0
    · cases h0
    · exact hf.null a ha h0 c hc

theorem touch (hf : s.Functional) (ptr : ValueId) (hun : lookup (·.value) ptr s.graph.handles = none → s.Unused ptr) :
    (s.touch ptr).Functional := by
  cases hl : lookup (·.value) ptr s.graph.handles with
  | some e => rw [(resolve_of_lookup hl).2]; exact hf
  | none =>
    rw [(resolve_of_none hl).2]
    exact hf.addUnused (hun hl) fun h => by cases h

end MemState.Functional

/-! ## Operations -/

section Operations

variable {s : MemState}

theorem GraphOk.touch (hs : GraphOk s) {ptr : ValueId} (hp : s.Given ptr) : GraphOk (s.touch ptr) :=
  Edits.ok (touch_edits hp) hs

/-- A pointer without a handle is on no edge: stored pointers have handles. -/
theorem unused_of_unknown (hs : GraphOk s) {ptr : ValueId} (h : lookup (·.value) ptr s.graph.handles = none) :
    s.Unused ptr := by
  have hno : ∀ e ∈ s.graph.handles, e.value ≠ ptr := lookup_eq_none.1 h
  rintro e (he | ⟨id, o, ho, he⟩) hv
  · exact hno e he hv
  · obtain ⟨k, hk, hkv⟩ := (hs.object id o ho).held e he
    exact hno k hk (hkv.trans hv)

theorem touch_functional (hs : GraphOk s) (hf : s.Functional) (ptr : ValueId) : (s.touch ptr).Functional :=
  hf.touch ptr (unused_of_unknown hs)

theorem readValue_functional (hs : GraphOk s) (hf : s.Functional) (ptr : ValueId) (type : Ty) :
    (final (Angie.readValue ptr type s)).Functional := by
  rcases resolve_target_cases hs ptr with h | h | h | ⟨h0, o, ho⟩
  · rw [readValue_error (Or.inl h)]; exact touch_functional hs hf ptr
  · rw [readValue_error (Or.inr (Or.inl h))]; exact touch_functional hs hf ptr
  · rw [readValue_error (Or.inr (Or.inr h))]; exact touch_functional hs hf ptr
  · rw [readValue_region h0 ho]
    split
    · rename_i e he
      split at he
      · exact hf.copyHandle hs (Or.inr ⟨_, o, ho, (lookup_some he).1⟩) 0
      · cases he
    · split
      · exact hf
      · have hext : Extends s.toVc s.nextValue.toVc := (grows_next s.toVc).toExtends
        exact (hf.withVc hs hext).setObject (hs.withVc hext) _ fun e he =>
          ⟨e, Or.inr ⟨_, o, ho, he⟩, PtEdge.SameTarget.refl e⟩

theorem writeEdge_functional (hs : GraphOk s) (hf : s.Functional) {e : PtEdge} (he : EdgeOk s e) (value : ValueId)
    (type : Ty) : (final (writeEdge e value type s)).Functional := by
  obtain ⟨o, ho⟩ := he.target
  have hkey := (hs.key _ o ho).1
  have hold : ∀ a ∈ o.ptEdges, s.Edge a := fun a ha => Or.inr ⟨_, o, ho, ha⟩
  by_cases h : e.targetObjectId = 0 ∨ e.targetObjectId = -1 ∨ e.targetObjectId = -2
  · rw [writeEdge_error h]; exact hf
  · rw [writeEdge_region (by lia) ho]
    refine hf.setObject hs _ fun a ha => ?_
    unfold Object.written at ha
    split at ha
    · split at ha
      · rename_i k hk
        rcases mem_upsert ha with ha | ⟨b, _, _, rfl⟩ | rfl
        · exact ⟨a, hold a ha, PtEdge.SameTarget.refl a⟩
        · exact ⟨k, Or.inl (lookup_some hk).1, rfl, rfl, rfl⟩
        · exact ⟨k, Or.inl (lookup_some hk).1, rfl, rfl, rfl⟩
      · rcases mem_modifyFirst ha with ha | ⟨b, hb, _, rfl⟩
        · exact ⟨a, hold a ha, PtEdge.SameTarget.refl a⟩
        · exact ⟨b, hold b hb, rfl, rfl, rfl⟩
    · exact ⟨a, hold a ha, PtEdge.SameTarget.refl a⟩

theorem writeValue_functional (hs : GraphOk s) (hf : s.Functional) {ptr : ValueId} (hp : s.Given ptr)
    (value : ValueId) (type : Ty) : (final (Angie.writeValue ptr value type s)).Functional := by
  have ht := hs.touch hp
  unfold Angie.writeValue
  rw [bind_of_ok (findPtEdge_eq ptr)]
  exact writeEdge_functional ht (touch_functional hs hf ptr) (ht.handle _ (resolve_mem_touch s ptr)) value type

theorem free_functional (hs : GraphOk s) (hf : s.Functional) (ptr : ValueId) :
    (final (Angie.free ptr s)).Functional := by
  rcases resolve_target_cases hs ptr with h | h | h | ⟨h0, o, ho⟩
  · rw [free_null h]; exact touch_functional hs hf ptr
  · rw [free_unknown h]; exact touch_functional hs hf ptr
  · rw [free_freed h]; exact touch_functional hs hf ptr
  · rw [free_region h0 ho]
    split
    · exact hf.freed _
    · exact hf

section Typed

variable [DataLayout]

theorem allocateRegion_functional (hs : GraphOk s) (hf : s.Functional) (type : Ty) (ms : MemorySpace) :
    (final (Angie.allocateRegion type ms s)).Functional := by
  obtain ⟨size, t, hg, hid, -, hnone, -, heq⟩ := allocateRegion_spec hs type ms
  rw [heq]
  have hs1 := hs.withVc hg.toExtends
  have hnew : MemState.Functional ((s.withVc t).nextObject.setObject t.statics.nextObjectIdToGive
      { Object.region t.statics.nextObjectIdToGive with size := size, memSpace := ms }) := by
    have hf1 := hf.withVc hs hg.toExtends
    have hnext : Grows (s.withVc t).toVc (s.withVc t).nextObject.toVc :=
      grows_statics (Int.le_refl t.statics.nextIdToGive) (Nat.le_refl t.statics.nextConstraintIdToGive)
        (Int.le_add_one (Int.le_refl t.statics.nextObjectIdToGive))
    refine hf1.of_sameTarget hs1 hnext.toExtends fun e he => ?_
    rcases MemState.edge_setObject he with he | he
    · exact ⟨e, he, PtEdge.SameTarget.refl e⟩
    · cases he
  refine hnew.addUnused ?_ fun _ => hnone
  intro e he
  rcases MemState.edge_setObject he with he | he
  · exact hs.unused_next (Int.le_refl _) e he
  · cases he

/-- Constants give a constant pointer, and everything else gives a new unknown. -/
theorem derived_value (hs : GraphOk s) {basePtr : ValueId} (hb : s.Given basePtr) (offset : ValueId) :
    ∃ o v t, Derived s basePtr offset o v t ∧
      createDerivedPointer basePtr offset s = .ok (v, (s.resolve basePtr).derive v o)
        (((s.touch basePtr).withVc t).addHandle ((s.resolve basePtr).derive v o)) ∧
      ((∃ x y z, s.DerivesConstants basePtr offset x y z ∧ t.vc.constantContainer[o]? = some (y + z) ∧
          t.vc.constantContainer[v]? = some (x + (y + z))) ∨
        ((∀ x y z, ¬ s.DerivesConstants basePtr offset x y z) ∧ s.statics.nextIdToGive ≤ v ∧
          t.vc.constantContainer[v]? = none)) := by
  obtain ⟨o, t, v, u, h1, h2, heq⟩ := createDerivedPointer_run s basePtr offset
  have hd := derived_of_add hs hb h1 h2
  refine ⟨o, v, u, hd, heq, ?_⟩
  have hy1 := yields_binOp (s.resolve basePtr).targetOffset offset Ty.charPointer ⟨.add, ArithFlags.default⟩
  have hg1 : Grows s.toVc t := hy1.steps.ok h1
  by_cases h : ∃ x y z, s.DerivesConstants basePtr offset x y z
  · obtain ⟨x, y, z, hx, hy, hz⟩ := h
    refine Or.inl ⟨x, y, z, ⟨hx, hy, hz⟩, hd.offset_constants y z hy hz, ?_⟩
    have hy' : add (s.resolve basePtr).targetOffset offset Ty.charPointer ArithFlags.default s.toVc = _ :=
      add_constants hy hz
    have ho := (createConstIntVal_ok (hy'.symm.trans h1)).2
    have hx' : t.vc.constantContainer[basePtr]? = some x := hg1.bound hs.const hx
    exact (createConstIntVal_ok ((add_constants hx' ho).symm.trans h2)).2
  · refine Or.inr ⟨fun x y z hc => h ⟨x, y, z, hc⟩, ?_⟩
    cases hx : s.vc.constantContainer[basePtr]? with
    | none => exact hd.value_unknown hx
    | some x =>
      -- one of the two others is unknown, and so is their sum
      have hun : s.vc.constantContainer[(s.resolve basePtr).targetOffset]? = none ∨
          s.vc.constantContainer[offset]? = none := by
        by_contra hno
        obtain ⟨hy, hz⟩ := not_or.1 hno
        obtain ⟨y, hy⟩ := Option.ne_none_iff_exists'.1 hy
        obtain ⟨z, hz⟩ := Option.ne_none_iff_exists'.1 hz
        exact h ⟨x, y, z, hx, hy, hz⟩
      have ho : t.vc.constantContainer[o]? = none := by
        rw [add_unknown hun, createVal_apply] at h1
        cases h1
        exact constant_next hs.const (Int.le_refl s.statics.nextIdToGive)
      have ht := hg1.keeps hs.const
      rw [add_unknown (Or.inr ho), createVal_apply] at h2
      cases h2
      exact ⟨hg1.nextId, constant_next ht (Int.le_refl _)⟩

omit [DataLayout] in
theorem constant_iff {t : VcState} (h : Extends s.toVc t) {v : ValueId} (hv : s.Given v) {c : Word} :
    t.vc.constantContainer[v]? = some c ↔ s.vc.constantContainer[v]? = some c := by
  rw [h.constant hv]
  rfl

omit [DataLayout] in
/-- The state in which a derivation adds its edge. -/
theorem derive_base (hs : GraphOk s) {basePtr : ValueId} (hb : s.Given basePtr) {t : VcState} (hg : Extends s.toVc t) :
    Extends (s.touch basePtr).toVc t ∧ GraphOk ((s.touch basePtr).withVc t) := by
  have hext : Extends (s.touch basePtr).toVc t := by
    rw [toVc_touch]
    exact hg
  exact ⟨hext, (hs.touch hb).withVc hext⟩

omit [DataLayout] in
/-- Looking up a pointer adds at most a handle to the unknown object. -/
theorem edge_touch {ptr : ValueId} {e : PtEdge} (h : (s.touch ptr).Edge e) :
    s.Edge e ∨ s.resolve ptr = PtEdge.handle ptr (-1) ∧ e = PtEdge.handle ptr (-1) := by
  cases hl : lookup (·.value) ptr s.graph.handles with
  | some a =>
    rw [(resolve_of_lookup hl).2] at h
    exact Or.inl h
  | none =>
    rw [(resolve_of_none hl).2] at h
    exact (MemState.edge_addHandle.1 h).imp_right fun he => ⟨(resolve_of_none hl).1, he⟩

theorem derive_functional (hs : GraphOk s) (hf : s.Functional) {basePtr offset : ValueId} (hb : s.Given basePtr)
    (hagree : s.DerivesAgree basePtr offset) :
    (final (Angie.createDerivedPointer basePtr offset s)).Functional := by
  obtain ⟨o, v, t, hd, heq, hval⟩ := derived_value hs hb offset
  have hext := hd.grows.toExtends
  have ht := hext.keeps hs.const
  obtain ⟨hext', hs1⟩ := derive_base hs hb hext
  have hf1 := (touch_functional hs hf basePtr).withVc (hs.touch hb) hext'
  rw [heq]
  rcases hval with ⟨x, y, z, hc, ho, hv⟩ | ⟨-, hnew, hnone⟩
  · obtain ⟨hold, hnull⟩ := hagree x y z hc
    refine hf1.addHandle (fun e he hev => ?_) fun h0 c hcv => ?_
    · rcases edge_touch he with he | ⟨hres, rfl⟩
      · -- an edge that was there before
        have heok := hs.edge he
        have hev' : t.vc.constantContainer[e.value]? = some (x + (y + z)) := by
          rw [hev]
          exact hv
        obtain ⟨htarget, hoff⟩ := hold e he ((constant_iff hext heok.value).1 hev')
        exact ⟨htarget, ht.interned _ _ _ ((constant_iff hext heok.targetOffset).2 hoff) ho⟩
      · -- the handle that the lookup added: the sum of the offsets is zero
        have hbv : basePtr = v := hev
        have hx : t.vc.constantContainer[basePtr]? = some x := hext.bound hs.const hc.1
        rw [hbv, hv] at hx
        have hyz : y + z = 0 := by simpa using hx
        have hzero := hext.bound hs.const hs.bound_zero
        rw [hyz] at ho
        refine ⟨?_, ht.interned _ _ _ hzero ho⟩
        exact (congrArg (·.targetObjectId) hres).symm
    · have hx : x = 0 := hnull h0
      have hsum : x + (y + z) = y + z := by simp [hx]
      have hcv' : t.vc.constantContainer[v]? = some c := hcv
      rw [hv, hsum] at hcv'
      rw [← hcv']
      exact ho
  · refine hf1.addUnused ?_ fun _ => hnone
    refine (hs.touch hb).unused_next ?_
    rw [statics_touch]
    exact hnew

/-- A derivation that does not agree breaks the property. -/
theorem derivesAgree_of_functional (hs : GraphOk s) {basePtr offset : ValueId} (hb : s.Given basePtr)
    (hf : (final (Angie.createDerivedPointer basePtr offset s)).Functional) : s.DerivesAgree basePtr offset := by
  obtain ⟨o, v, t, hd, heq, hval⟩ := derived_value hs hb offset
  have hext := hd.grows.toExtends
  have ht := hext.keeps hs.const
  rw [heq] at hf
  intro x y z hc
  rcases hval with ⟨x', y', z', hc', ho, hv⟩ | ⟨hno, -⟩
  · obtain ⟨rfl, rfl, rfl⟩ : x' = x ∧ y' = y ∧ z' = z :=
      ⟨Option.some.inj (hc'.1.symm.trans hc.1), Option.some.inj (hc'.2.1.symm.trans hc.2.1),
        Option.some.inj (hc'.2.2.symm.trans hc.2.2)⟩
    have hnew : MemState.Edge (((s.touch basePtr).withVc t).addHandle ((s.resolve basePtr).derive v o))
        ((s.resolve basePtr).derive v o) := MemState.edge_addHandle.2 (Or.inr rfl)
    constructor
    · intro e he hev
      have heok := hs.edge he
      have hold : MemState.Edge (((s.touch basePtr).withVc t).addHandle ((s.resolve basePtr).derive v o)) e := by
        refine MemState.edge_addHandle.2 (Or.inl ?_)
        unfold MemState.touch
        split
        · exact he
        · exact MemState.edge_addHandle.2 (Or.inl he)
      have hvalue : e.value = v := ht.interned _ _ _ ((constant_iff hext heok.value).2 hev) hv
      obtain ⟨htarget, hoffset⟩ := hf.same e _ hold hnew hvalue
      refine ⟨htarget, (constant_iff hext heok.targetOffset).1 ?_⟩
      rw [hoffset]
      exact ho
    · intro h0
      have h := hf.null _ hnew h0 _ hv
      have hsum : y' + z' = x' + (y' + z') := Option.some.inj (ho.symm.trans h)
      simpa using hsum.symm
  · exact absurd hc (hno x y z)

omit [DataLayout] in
/-- Writing a plain value leaves the points-to edges alone. -/
theorem writeEdge_functional_iff (hs : GraphOk s) {e : PtEdge} (he : EdgeOk s e) (value : ValueId) {type : Ty}
    (htype : type.isPointer = false) : (final (writeEdge e value type s)).Functional ↔ s.Functional := by
  constructor
  · intro hf
    obtain ⟨o, ho⟩ := he.target
    have hkey := (hs.key _ o ho).1
    by_cases h : e.targetObjectId = 0 ∨ e.targetObjectId = -1 ∨ e.targetObjectId = -2
    · rw [writeEdge_error h] at hf
      exact hf
    · rw [writeEdge_region (by lia) ho] at hf
      simp only [Object.written, htype, Bool.false_eq_true, if_false, final_ok] at hf
      have hmem : ∀ e', s.Edge e' →
          (s.setObject e.targetObjectId (o.createOrModifyHvEdge e.targetOffset value type)).Edge e' := by
        rintro e' (h' | ⟨id, o', ho', h'⟩)
        · exact Or.inl h'
        · by_cases hid : e.targetObjectId = id
          · refine Or.inr ⟨id, _, (MemState.objects_setObject _ _ _ _).trans (if_pos hid), ?_⟩
            rw [← hid, ho] at ho'
            cases ho'
            exact h'
          · exact Or.inr ⟨id, o', (MemState.objects_setObject _ _ _ _).trans ((if_neg hid).trans ho'), h'⟩
      exact ⟨fun a b ha hb => hf.same a b (hmem a ha) (hmem b hb), fun a ha => hf.null a (hmem a ha)⟩
  · exact fun hf => writeEdge_functional hs hf he value type

/-- `Memclear` of a constant size is a derivation and a write of a plain value. -/
theorem memclear_functional_iff (hs : GraphOk s) {ptr size : ValueId} (hp : s.Given ptr)
    (hc : s.vc.isConstant size = true) :
    (final (Angie.memclear ptr size s)).Functional ↔ (final (Angie.createDerivedPointer ptr 0 s)).Functional := by
  obtain ⟨n, hn⟩ := isConstant_iff.1 hc
  obtain ⟨o, v, t, hd, heq⟩ := createDerivedPointer_spec hs hp 0
  have hs1 := Edits.ok (derive_edits hs hp hd) hs
  rw [memclear_constant hn heq, heq]
  exact writeEdge_functional_iff hs1 (hs1.edge (MemState.edge_addHandle.2 (Or.inr rfl))) _ rfl

theorem memclear_functional (hs : GraphOk s) (hf : s.Functional) {ptr size : ValueId} (hp : s.Given ptr)
    (hagree : (GraphOp.memclear ptr size).Agrees s) : (final (Angie.memclear ptr size s)).Functional := by
  cases hc : s.vc.isConstant size with
  | false =>
    rw [memclear_abstract (isConstant_eq_false.1 hc)]
    exact hf
  | true =>
    refine (memclear_functional_iff hs hp hc).2 (derive_functional hs hf hp (hagree (ptr, 0) ?_))
    simp [GraphOp.derivation, hc]

/-- Operations keep the property, a derivation when its edge agrees with the others. -/
theorem exec_functional (hs : GraphOk s) (hf : s.Functional) {op : GraphOp} (ha : op.Adm s) (hagree : op.Agrees s) :
    (op.exec s).2.Functional := by
  rw [GraphOp.exec_state]
  cases op with
  | allocateRegion t ms => rw [GraphOp.run, final_map]; exact allocateRegion_functional hs hf t ms
  | createDerivedPointer p o =>
    rw [GraphOp.run, final_map]
    exact derive_functional hs hf (ha p (by simp [GraphOp.ids])) (hagree (p, o) rfl)
  | readValue p t => rw [GraphOp.run, final_map]; exact readValue_functional hs hf p t
  | writeValue p v t =>
    rw [GraphOp.run, final_map]
    exact writeValue_functional hs hf (ha p (by simp [GraphOp.ids])) v t
  | free p => rw [GraphOp.run, final_map]; exact free_functional hs hf p
  | memclear p n =>
    rw [GraphOp.run, final_map]
    exact memclear_functional hs hf (ha p (by simp [GraphOp.ids])) hagree
  | container op =>
    have hext := exec_extends op s.toVc
    rw [VcOp.exec_state] at hext
    rw [final_container]
    exact hf.withVc hs hext

/-- An operation that leaves a functional graph made no other derivation. -/
theorem agrees_of_functional (hs : GraphOk s) {op : GraphOp} (ha : op.Adm s) (hf : (op.exec s).2.Functional) :
    op.Agrees s := by
  rw [GraphOp.exec_state] at hf
  intro d hd
  cases op with
  | createDerivedPointer p o =>
    rw [GraphOp.run, final_map] at hf
    cases hd
    exact derivesAgree_of_functional hs (ha p (by simp [GraphOp.ids])) hf
  | memclear p n =>
    rw [GraphOp.run, final_map] at hf
    have hp := ha p (by simp [GraphOp.ids])
    simp only [GraphOp.derivation] at hd
    split at hd
    · rename_i hc
      cases hd
      exact derivesAgree_of_functional hs hp ((memclear_functional_iff hs hp hc).1 hf)
    · cases hd
  | allocateRegion | readValue | writeValue | free | container => cases hd

omit [DataLayout] in
/-- A derivation from an unknown agrees: its pointer is new. -/
theorem agrees_of_unknown {op : GraphOp} (h : (op.derivation s).all (!s.vc.isConstant ·.1) = true) : op.Agrees s := by
  intro d hd x y z hc
  rw [hd, Option.all_some, Bool.not_eq_true', isConstant_eq_false] at h
  rw [hc.1] at h
  cases h

/-! ## Runs -/

omit [DataLayout] in
theorem new_functional : MemState.new.Functional := by
  have hedge : ∀ e, MemState.new.Edge e → e = PtEdge.handle 0 0 := by
    rintro e (he | ⟨id, o, ho, he⟩)
    · exact List.mem_singleton.1 he
    · rw [(new_object ho).2] at he
      cases he
  constructor
  · intro e e' he he' _
    rw [hedge e he, hedge e' he']
    exact ⟨rfl, rfl⟩
  · intro e he _ c hc
    rw [hedge e he] at hc ⊢
    exact hc

/-- The graphs of a run are functional exactly when every derivation agrees with the edges that it meets. -/
theorem functional_iff {es : GraphHistory} (h : GraphRun es s) :
    (s.Functional ∧ ∀ e ∈ es, e.pre.Functional) ↔ ∀ e ∈ es, e.op.Agrees e.pre := by
  induction h with
  | start h0 =>
    rw [h0]
    simp [new_functional]
  | @step es s op hr ha ih =>
    have hs := run_graphOk hr
    simp only [List.forall_mem_cons]
    constructor
    · rintro ⟨hpost, hpre, hall⟩
      exact ⟨agrees_of_functional hs ha hpost, ih.1 ⟨hpre, hall⟩⟩
    · rintro ⟨hop, hall⟩
      obtain ⟨hpre, hrest⟩ := ih.2 hall
      exact ⟨exec_functional hs hpre ha hop, hpre, hrest⟩

end Typed

end Operations

/-! ### Examples -/

section Example

attribute [local instance] Ty.x86

/-- A pointer into a region, moved twice by four bytes. -/
def movedTwice : GraphHistory × MemState :=
  play GraphOp.exec [] MemState.new [.allocateRegion (.int 64) .heap, .container (.createConstIntVal 4),
    .createDerivedPointer 1 3, .createDerivedPointer 4 3]

theorem movedTwice_functional : movedTwice.2.Functional ∧ ∀ e ∈ movedTwice.1, e.pre.Functional := by
  have hrun : GraphRun movedTwice.1 movedTwice.2 := Run.play (Run.start rfl) (by decide +kernel)
  have hbase : ∀ e ∈ movedTwice.1, (e.op.derivation e.pre).all (!e.pre.vc.isConstant ·.1) = true := by decide +kernel
  exact (functional_iff hrun).2 fun e he => agrees_of_unknown (hbase e he)

/-- A null pointer, moved twice by eight bytes. -/
def nullMovedTwice : GraphHistory × MemState :=
  play GraphOp.exec [] MemState.new [.container (.createConstIntVal 8), .createDerivedPointer 0 1,
    .createDerivedPointer 1 1]

/-- It is the number `24`, at the offset `16`. -/
theorem nullMovedTwice_not_functional :
    GraphRun nullMovedTwice.1 nullMovedTwice.2 ∧ ¬ nullMovedTwice.2.Functional := by
  constructor
  · exact Run.play (Run.start rfl) (by decide +kernel)
  · intro h
    have hedge : (⟨⟨0, 3, Ty.charPointer⟩, 0, 2⟩ : PtEdge) ∈ nullMovedTwice.2.graph.handles := by decide +kernel
    have hvalue : nullMovedTwice.2.vc.constantContainer[(3 : ValueId)]? = some 24 := by decide +kernel
    have hoffset : nullMovedTwice.2.vc.constantContainer[(2 : ValueId)]? = some 16 := by decide +kernel
    have h24 : nullMovedTwice.2.vc.constantContainer[(2 : ValueId)]? = some 24 :=
      h.null _ (Or.inl hedge) rfl 24 hvalue
    rw [hoffset] at h24
    exact absurd h24 (by decide)

end Example

end Angie
