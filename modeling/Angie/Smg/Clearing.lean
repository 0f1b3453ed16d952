import Angie.Smg.Frame
import Angie.Smg.Freeing

/-!
# Clearing a range

`Memclear` writes one plain value, an array of zeros, at the offset where its range begins. It reaches no other offset
of the range, and a known pointer stays in the view for pointers, also at this offset. `MemState.Clears` says for which
reads this is enough: exactly there a clear zeroes its range and leaves the rest alone (`memclear_zeroes_iff`).
-/

namespace Angie

open Exec KeyedList TwoView Trace

/-! ## The property -/

/-- Derivations of pointers and calls of the container, which leave the memory alone. -/
def GraphOp.Quiet : GraphOp → Prop
  | .createDerivedPointer _ _ | .container _ => True
  | _ => False

section Property

variable [DataLayout]

/-- The state after a clear. -/
def MemState.cleared (s : MemState) (p size : ValueId) : MemState := ((GraphOp.memclear p size).exec s).2

/-- Every read of the type at the constant offset returns `v`, whatever pointers are derived before. -/
def MemState.Reads (s : MemState) (oid : ObjectId) (g : Word) (type : Ty) (v : ValueId) : Prop :=
  ∀ ops, Admissible GraphOp.exec (fun s op => op.Adm s ∧ op.Quiet) s ops →
    ∀ q, (play GraphOp.exec [] s ops).2.PointsTo q oid g →
      ∃ t, Angie.readValue q type (play GraphOp.exec [] s ops).2 = .ok v t

/-- Clearing the `n` bytes at the offset `f`: a read of the type at `g` returns zero when it is inside the range, and
what it returned before when it is outside. -/
structure MemState.Zeroes (s : MemState) (p size : ValueId) (oid : ObjectId) (f n g : Word) (type : Ty) : Prop where
  inside : f.toInt ≤ g.toInt → g.toInt + type.getSizeOf ≤ f.toInt + n.toNat → (s.cleared p size).Reads oid g type 0
  outside : 0 < type.getSizeOf → (g.toInt + type.getSizeOf ≤ f.toInt ∨ f.toInt + n.toNat ≤ g.toInt) →
    ∀ q v t, s.PointsTo q oid g → Angie.readValue q type s = .ok v t → (t.cleared p size).Reads oid g type v

omit [DataLayout] in
/-- A known pointer is stored at the constant offset. -/
def MemState.StoresPointer (s : MemState) (oid : ObjectId) (g : Word) : Prop :=
  ∃ k l w, s.vc.constantContainer[(k : ValueId)]? = some g ∧ s.memory oid = some l ∧ l.pointer k = some w

/-- Inside the range the field is zero before, or it is the first one and no pointer read finds a known pointer. A range
without bytes begins with a field that is zero before, or with one that is read as a known pointer. -/
structure MemState.Clears (s : MemState) (oid : ObjectId) (f n g : Word) (type : Ty) : Prop where
  inside : f.toInt ≤ g.toInt → g.toInt + type.getSizeOf ≤ f.toInt + n.toNat →
    s.HoldsAt oid g type 0 ∨ g = f ∧ (type.isPointer = true → ¬ s.StoresPointer oid g)
  empty : n = 0 → g = f → 0 < type.getSizeOf →
    s.HoldsAt oid g type 0 ∨ type.isPointer = true ∧ s.StoresPointer oid g

end Property

/-! ## Pointers to a field -/

section Pointers

variable {s t : MemState} {oid : ObjectId} {p : ValueId} {f : Word}

theorem resolve_addHandle (h : (s.resolve p).targetObjectId ≠ -1) (e : PtEdge) :
    (s.addHandle e).resolve p = s.resolve p := by
  cases hl : lookup (·.value) p s.graph.handles with
  | none =>
    rw [(resolve_of_none hl).1] at h
    exact absurd rfl h
  | some a =>
    have hl' : lookup (·.value) p (s.addHandle e).graph.handles = some a := by
      change lookup (·.value) p (s.graph.handles ++ [e]) = some a
      rw [lookup_append, hl]
      rfl
    rw [(resolve_of_lookup hl).1, (resolve_of_lookup hl').1]

theorem MemState.PointsTo.mono (h : s.PointsTo p oid f) (hr : t.resolve p = s.resolve p)
    (hc : ∀ (k : ValueId) c, s.vc.constantContainer[k]? = some c → t.vc.constantContainer[k]? = some c) :
    t.PointsTo p oid f := by
  unfold MemState.PointsTo
  rw [hr]
  exact ⟨h.1, hc _ _ h.2⟩

/-- The pointer leads to the field of a region that exists. -/
structure MemState.LeadsTo (s : MemState) (p : ValueId) (oid : ObjectId) (f : Word) : Prop where
  ok : GraphOk s
  tracks : Tracks s p oid
  live : s.Exists oid
  field : s.PointsTo p oid f

variable [DataLayout] {es : GraphHistory}

/-- In a run every pointer that resolves to the field does. -/
theorem leadsTo_of_run (h : GraphRun es s) (hlive : Live es oid) (hp : s.PointsTo p oid f) : s.LeadsTo p oid f := by
  obtain ⟨h0, hexists⟩ := (live_iff h).1 hlive
  refine ⟨run_graphOk h, ?_, hexists, hp⟩
  obtain ⟨htarget, -⟩ := hp
  have htouch : s.touch p = s := touch_of_target (by lia)
  have hmem := resolve_mem_touch s p
  rw [htouch] at hmem
  have hinto := (run_traced h _ (Or.inl hmem)).1 (by lia)
  rw [htarget, resolve_value] at hinto
  exact run_pointsInto h hinto

omit [DataLayout] in
theorem memclear_adm (h : s.LeadsTo p oid f) {size : ValueId} {n : Word}
    (hn : s.vc.constantContainer[size]? = some n) : (GraphOp.memclear p size).Adm s := by
  intro w hw
  rcases List.mem_cons.1 hw with rfl | hw
  · exact h.tracks.given
  · rw [List.mem_singleton.1 hw]
    exact h.ok.const.range _ _ hn

omit [DataLayout] in
/-- The derived offset is the one that the pointer has. -/
theorem derived_zero (h : s.LeadsTo p oid f) {o v : ValueId} {u : VcState} (hd : Derived s p 0 o v u) :
    o = (s.resolve p).targetOffset := by
  have hu := Edits.ok (derive_edits h.ok h.tracks.given hd) h.ok
  have hf := h.field.2
  have hsum : u.vc.constantContainer[o]? = some f :=
    (hd.offset_constants f 0 hf h.ok.bound_zero).trans (congrArg some (BitVec.add_zero f))
  exact hu.const.interned _ _ f hsum (hd.grows.bound h.ok.const hf)

/-- A clear writes zero in the plain view of the field where the range begins. -/
theorem clear_effect (h : s.LeadsTo p oid f) {size : ValueId} {n : Word}
    (hn : s.vc.constantContainer[size]? = some n) :
    (GraphOp.memclear p size).effect s = .plain oid (s.resolve p).targetOffset 0 := by
  obtain ⟨o, v, u, hd, heq⟩ := createDerivedPointer_spec h.ok h.tracks.given 0
  have hu := Edits.ok (derive_edits h.ok h.tracks.given hd) h.ok
  have hzero : u.vc.zero = 0 := hu.zero
  rw [h.tracks.touch] at heq
  rw [GraphOp.effect]
  unfold MemState.clearEffect
  rw [hn, heq, ← h.field.1, ← derived_zero h hd, ← hzero]
  rfl

/-- The derived pointer and the written region are what is new after a clear. -/
theorem cleared_eq (h : s.LeadsTo p oid f) {size : ValueId} {n : Word}
    (hn : s.vc.constantContainer[size]? = some n) :
    ∃ o v u id r, Derived s p 0 o v u ∧
      s.cleared p size = ((s.withVc u).addHandle ((s.resolve p).derive v o)).setObject id r := by
  obtain ⟨r, hr⟩ := h.live
  obtain ⟨o, v, u, hd, heq⟩ := createDerivedPointer_spec h.ok h.tracks.given 0
  rw [h.tracks.touch] at heq
  exact ⟨o, v, u, _, _, hd, (exec_memclear hn heq).trans
    (congrArg final (writeEdge_region (h.field.1 ▸ h.tracks.pos) (h.field.1 ▸ hr)))⟩

/-- What a clear changes: zero is in the plain view of the field where the range begins. -/
theorem cleared_spec (h : s.LeadsTo p oid f) {size : ValueId} {n : Word}
    (hn : s.vc.constantContainer[size]? = some n) :
    Extends s.toVc (s.cleared p size).toVc ∧ (s.cleared p size).LeadsTo p oid f ∧
      (s.cleared p size).memory =
        Function.update s.memory oid ((s.memory oid).map (·.setPlain (s.resolve p).targetOffset 0)) := by
  have hs := h.ok
  have hadm := memclear_adm h hn
  obtain ⟨o, v, u, id, r, hd, hcleared⟩ := cleared_eq h hn
  have hedits : Edits s (s.cleared p size) := exec_edits hs hadm
  refine ⟨?_, ⟨hedits.ok hs, hedits.induct (fun h _ => h.tracks) hs h.tracks, ?_, ?_⟩, ?_⟩
  · rw [hcleared]
    exact hd.grows.toExtends
  · refine (exists_exec hs hadm h.tracks.pos).2 (Or.inr ⟨h.live, ?_⟩)
    rw [clear_effect h hn]
    simp
  · rw [hcleared]
    refine h.field.mono ?_ fun k c hk => hd.grows.bound hs.const hk
    have hpos := h.tracks.pos
    have hknown : ((s.withVc u).resolve p).targetObjectId ≠ -1 := by
      change (s.resolve p).targetObjectId ≠ -1
      rw [h.field.1]
      lia
    exact resolve_addHandle hknown _
  · have hmem := exec_memory hs hadm
    rw [clear_effect h hn] at hmem
    exact hmem

theorem derive_pointsTo (h : s.LeadsTo p oid f) {k : ValueId} {a : Word} (hk : s.vc.constantContainer[k]? = some a) :
    ∃ v, ((GraphOp.createDerivedPointer p k).exec s).2.PointsTo v oid (f + a) := by
  obtain ⟨hs, ht, -, htarget, hf⟩ := h
  obtain ⟨o, v, u, hd, heq⟩ := createDerivedPointer_spec hs ht.given k
  rw [ht.touch] at heq
  refine ⟨v, ?_⟩
  rw [exec_derive heq]
  obtain ⟨hnew, -⟩ := hd.value_unknown ht.abstracted
  have hnone : lookup (·.value) v s.graph.handles = none :=
    lookup_eq_none.2 fun e he => hs.unused_next hnew e (Or.inl he)
  have hlookup : lookup (·.value) v (((s.withVc u).addHandle ((s.resolve p).derive v o)).graph.handles) =
      some ((s.resolve p).derive v o) := by
    change lookup (·.value) v (s.graph.handles ++ [(s.resolve p).derive v o]) = _
    rw [lookup_append, hnone, Option.none_or]
    exact if_pos rfl
  unfold MemState.PointsTo
  rw [(resolve_of_lookup hlookup).1]
  exact ⟨htarget, hd.offset_constants f a hf hk⟩

/-- A pointer to any field of the region can be derived. -/
theorem exists_pointsTo (h : s.LeadsTo p oid f) (g : Word) :
    ∃ ops q, Admissible GraphOp.exec (fun s op => op.Adm s ∧ op.Quiet) s ops ∧
      (play GraphOp.exec [] s ops).2.PointsTo q oid g := by
  obtain ⟨hs, ht, hlive, hp⟩ := h
  obtain ⟨k, t, hconst, hgrows, hk⟩ := createConstIntVal_spec (g - f) s.toVc
  have hexec : ((GraphOp.container (.createConstIntVal (g - f))).exec s).2 = s.withVc t := by
    rw [GraphOp.exec_state, final_container, VcOp.run, final_map, hconst]
    rfl
  have hadm : (GraphOp.container (.createConstIntVal (g - f))).Adm s := by
    intro v hv
    cases hv
  have hedits := exec_edits hs hadm
  rw [hexec] at hedits
  have hs' := Edits.ok hedits hs
  have ht' : Tracks (s.withVc t) p oid := hedits.induct (fun h _ => h.tracks) hs ht
  have hp' : (s.withVc t).PointsTo p oid f := hp.mono rfl fun k c hk => hgrows.bound hs.const hk
  obtain ⟨v, hv⟩ := derive_pointsTo ⟨hs', ht', hlive, hp'⟩ hk
  rw [add_sub_cancel] at hv
  refine ⟨[.container (.createConstIntVal (g - f)), .createDerivedPointer p k], v, ⟨⟨hadm, trivial⟩, ?_⟩, ?_⟩
  · rw [hexec]
    refine ⟨⟨fun w hw => ?_, trivial⟩, trivial⟩
    rcases List.mem_cons.1 hw with rfl | hw
    · exact ht'.given
    · rw [List.mem_singleton.1 hw]
      exact hs'.const.range _ _ hk
  · change ((GraphOp.createDerivedPointer p k).exec _).2.PointsTo v oid g
    rw [hexec]
    exact hv

end Pointers

/-! ## Fields and reads -/

section Fields

variable [DataLayout] {s t : MemState} {oid : ObjectId} {p q v : ValueId} {f g : Word} {type : Ty}

/-- Quiet operations leave the memory and the constants alone. -/
theorem quiet_step (hs : GraphOk s) {op : GraphOp} (ha : op.Adm s) (hq : op.Quiet) :
    Extends s.toVc (op.exec s).2.toVc ∧ (op.exec s).2.memory = s.memory := by
  cases op with
  | createDerivedPointer p k =>
    obtain ⟨o, v, u, hd, heq⟩ := createDerivedPointer_spec hs (ha p (by simp [GraphOp.ids])) k
    rw [exec_derive heq]
    exact ⟨hd.grows.toExtends, memory_derive s p u _⟩
  | container op =>
    have hext := exec_extends op s.toVc
    rw [VcOp.exec_state] at hext
    rw [GraphOp.exec_state, final_container]
    exact ⟨hext, rfl⟩
  | _ => exact hq.elim

theorem quiet_run {ops : List GraphOp} (hs : GraphOk s)
    (hops : Admissible GraphOp.exec (fun s op => op.Adm s ∧ op.Quiet) s ops) :
    GraphOk (play GraphOp.exec [] s ops).2 ∧ Extends s.toVc (play GraphOp.exec [] s ops).2.toVc ∧
      (play GraphOp.exec [] s ops).2.memory = s.memory := by
  refine hops.invariant (I := fun t => GraphOk t ∧ Extends s.toVc t.toVc ∧ t.memory = s.memory) ?_ []
    ⟨hs, Extends.refl _, rfl⟩
  rintro t op ⟨ha, hq⟩ ⟨ht, hext, hmem⟩
  obtain ⟨hext', hmem'⟩ := quiet_step ht ha hq
  exact ⟨Edits.ok (exec_edits ht ha) ht, hext.trans hext', hmem'.trans hmem⟩

omit [DataLayout] in
/-- A field has one offset id. -/
theorem holdsAt_iff (hs : GraphOk s) {l : Slots ValueId ValueId} (hl : s.memory oid = some l) {k : ValueId}
    (hk : s.vc.constantContainer[k]? = some g) : s.HoldsAt oid g type v ↔ l.read type.isPointer k = some v := by
  constructor
  · rintro ⟨k', l', hk', hl', hr⟩
    rw [hl] at hl'
    cases hl'
    obtain rfl : k' = k := hs.const.interned _ _ g hk' hk
    exact hr
  · exact fun hr => ⟨k, l, hk, hl, hr⟩

omit [DataLayout] in
theorem storesPointer_iff (hs : GraphOk s) {l : Slots ValueId ValueId} (hl : s.memory oid = some l) {k : ValueId}
    (hk : s.vc.constantContainer[k]? = some g) : s.StoresPointer oid g ↔ ∃ w, l.pointer k = some w := by
  constructor
  · rintro ⟨k', l', w, hk', hl', hw⟩
    rw [hl] at hl'
    cases hl'
    obtain rfl : k' = k := hs.const.interned _ _ g hk' hk
    exact ⟨w, hw⟩
  · rintro ⟨w, hw⟩
    exact ⟨k, l, w, hk, hl, hw⟩

omit [DataLayout] in
/-- States with one memory hold the same. -/
theorem holdsAt_congr (hs : GraphOk s) (hext : Extends s.toVc t.toVc) (hmem : t.memory oid = s.memory oid) :
    t.HoldsAt oid g type v ↔ s.HoldsAt oid g type v := by
  constructor
  · rintro ⟨k, l, hk, hl, hr⟩
    rw [hmem] at hl
    exact ⟨k, l, (hext.constant (slot_given hs hl (Slots.slot_of_read hr)).1).symm.trans hk, hl, hr⟩
  · rintro ⟨k, l, hk, hl, hr⟩
    exact ⟨k, l, hext.bound hs.const hk, hmem.trans hl, hr⟩

/-- What a field holds is what is read. -/
theorem reads_of_holdsAt (hs : GraphOk s) (h : s.HoldsAt oid g type v) : s.Reads oid g type v := by
  intro ops hops q hq
  obtain ⟨ht, hext, hmem⟩ := quiet_run hs hops
  exact readValue_of_holdsAt ht ((holdsAt_congr hs hext (congrFun hmem oid)).2 h) hq

omit [DataLayout] in
/-- A read that returns zero found it. -/
theorem holdsAt_of_read (hs : GraphOk s) (hlive : s.Exists oid) (h0 : 0 < oid) (hq : s.PointsTo q oid g)
    (h : Angie.readValue q type s = .ok 0 t) : s.HoldsAt oid g type 0 := by
  obtain ⟨l, hl⟩ := Option.isSome_iff_exists.1 ((exists_iff_memory h0).1 hlive)
  obtain ⟨rfl, hg⟩ := hq
  obtain ⟨t', ht'⟩ := readValue_of_memory hs hl type
  rw [ht'] at h
  refine ⟨_, l, hg, hl, ?_⟩
  cases hr : l.read type.isPointer (s.resolve q).targetOffset with
  | some w =>
    rw [hr] at h
    cases h
    rfl
  | none =>
    rw [hr] at h
    have hnext := hs.given_zero.2
    injection h with hzero
    exact absurd hzero (Int.ne_of_gt hnext)

theorem holdsAt_of_reads (h : s.LeadsTo p oid f) (hr : s.Reads oid g type 0) : s.HoldsAt oid g type 0 := by
  obtain ⟨ops, q, hops, hq⟩ := exists_pointsTo h g
  obtain ⟨ht, hext, hmem⟩ := quiet_run h.ok hops
  obtain ⟨t, hread⟩ := hr ops hops q hq
  have hlive := (exists_iff_memory h.tracks.pos).2 (congrFun hmem oid ▸ (exists_iff_memory h.tracks.pos).1 h.live)
  exact (holdsAt_congr h.ok hext (congrFun hmem oid)).1 (holdsAt_of_read ht hlive h.tracks.pos hq hread)

/-! ## The cleared field -/

omit [DataLayout] in
/-- A read at the constant offset `g` finds what a clear writes at `f`. -/
def MemState.Overwrites (s : MemState) (oid : ObjectId) (f g : Word) (type : Ty) : Prop :=
  g = f ∧ (type.isPointer = true → ¬ s.StoresPointer oid g)

section Cleared

variable {size : ValueId} {n : Word}

/-- The memory of the region after a clear. -/
theorem cleared_memory (h : s.LeadsTo p oid f) (hn : s.vc.constantContainer[size]? = some n) :
    ∃ l, s.memory oid = some l ∧
      (s.cleared p size).memory oid = some (l.setPlain (s.resolve p).targetOffset 0) := by
  obtain ⟨-, -, hmem⟩ := cleared_spec h hn
  obtain ⟨l, hl⟩ := Option.isSome_iff_exists.1 ((exists_iff_memory h.tracks.pos).1 h.live)
  refine ⟨l, hl, ?_⟩
  rw [hmem, Function.update_self, hl]
  rfl

/-- A clear leaves zero in the field that it overwrites. -/
theorem cleared_overwritten (h : s.LeadsTo p oid f) (hn : s.vc.constantContainer[size]? = some n)
    (hover : s.Overwrites oid f g type) : (s.cleared p size).HoldsAt oid g type v ↔ v = 0 := by
  obtain ⟨rfl, hstore⟩ := hover
  obtain ⟨hext, hled, -⟩ := cleared_spec h hn
  obtain ⟨l, hl, hl'⟩ := cleared_memory h hn
  have hk := h.field.2
  have hread : (l.setPlain (s.resolve p).targetOffset 0).read type.isPointer (s.resolve p).targetOffset = some 0 := by
    refine Slots.read_setPlain_self (fun hptr => ?_) 0
    by_contra hsome
    exact hstore hptr ((storesPointer_iff h.ok hl hk).2 (Option.ne_none_iff_exists'.1 hsome))
  rw [holdsAt_iff hled.ok hl' (hext.bound h.ok.const hk), hread, Option.some_inj, eq_comm]

/-- Another field keeps what it holds. -/
theorem cleared_apart (h : s.LeadsTo p oid f) (hn : s.vc.constantContainer[size]? = some n) (hg : g ≠ f) :
    (s.cleared p size).HoldsAt oid g type v ↔ s.HoldsAt oid g type v := by
  obtain ⟨hext, -, -⟩ := cleared_spec h hn
  obtain ⟨l, hl, hl'⟩ := cleared_memory h hn
  have hf := hext.bound h.ok.const h.field.2
  have hne : ∀ k : ValueId, (s.cleared p size).vc.constantContainer[k]? = some g →
      k ≠ (s.resolve p).targetOffset := by
    rintro k hk rfl
    exact hg (Option.some.inj (hk.symm.trans hf))
  constructor
  · rintro ⟨k, l₁, hk, hl₁, hr⟩
    rw [hl'] at hl₁
    cases hl₁
    rw [Slots.read_setPlain_of_ne (hne k hk)] at hr
    exact ⟨k, l, (hext.constant (slot_given h.ok hl (Slots.slot_of_read hr)).1).symm.trans hk, hl, hr⟩
  · rintro ⟨k, l₁, hk, hl₁, hr⟩
    rw [hl] at hl₁
    cases hl₁
    have hk' := hext.bound h.ok.const hk
    exact ⟨k, _, hk', hl', by rwa [Slots.read_setPlain_of_ne (hne k hk')]⟩

/-- A field that a clear does not overwrite keeps what it holds: it is another one, or a pointer is found first. -/
theorem cleared_kept (h : s.LeadsTo p oid f) (hn : s.vc.constantContainer[size]? = some n)
    (hover : ¬ s.Overwrites oid f g type) : (s.cleared p size).HoldsAt oid g type v ↔ s.HoldsAt oid g type v := by
  by_cases hg : g = f
  · subst hg
    obtain ⟨hptr, hstore⟩ : type.isPointer = true ∧ s.StoresPointer oid g := by
      by_contra hno
      exact hover ⟨rfl, fun hptr hstore => hno ⟨hptr, hstore⟩⟩
    obtain ⟨hext, hled, -⟩ := cleared_spec h hn
    obtain ⟨l, hl, hl'⟩ := cleared_memory h hn
    have hk := h.field.2
    obtain ⟨w, hw⟩ := (storesPointer_iff h.ok hl hk).1 hstore
    have hw' : (l.setPlain (s.resolve p).targetOffset 0).pointer (s.resolve p).targetOffset = some w := hw
    rw [holdsAt_iff hled.ok hl' (hext.bound h.ok.const hk), holdsAt_iff h.ok hl hk, hptr, Slots.read_pointer hw,
      Slots.read_pointer hw']
  · exact cleared_apart h hn hg

end Cleared

omit [DataLayout] in
/-- A read leaves the other pointers where they are. -/
theorem resolve_read (hs : GraphOk s) (h0 : 0 < (s.resolve q).targetObjectId) (hp : (s.resolve p).targetObjectId ≠ -1)
    (hread : Angie.readValue q type s = .ok v t) : Extends s.toVc t.toVc ∧ t.resolve p = s.resolve p := by
  obtain ⟨o, ho⟩ := resolve_exists hs q
  rw [readValue_region h0 ho] at hread
  split at hread
  · cases hread
    exact ⟨Extends.refl _, resolve_addHandle hp _⟩
  · split at hread
    · cases hread
      exact ⟨Extends.refl _, rfl⟩
    · cases hread
      exact ⟨(grows_next s.toVc).toExtends, rfl⟩

omit [DataLayout] in
/-- A read makes up a plain value at most. -/
theorem readEffect_pointer {l : Slots ValueId ValueId} (hl : s.memory oid = some l) (q : ValueId) (type : Ty) :
    ∃ l', (s.readEffect q type).apply s.memory oid = some l' ∧ l'.pointer = l.pointer := by
  unfold MemState.readEffect
  dsimp only
  split
  · exact ⟨l, hl, rfl⟩
  · split
    · exact ⟨l, hl, rfl⟩
    · by_cases hid : (s.resolve q).targetObjectId = oid
      · subst hid
        refine ⟨l.setPlain (s.resolve q).targetOffset s.statics.nextIdToGive, ?_, rfl⟩
        rw [Effect.apply, Function.update_self, hl]
        rfl
      · refine ⟨l, ?_, rfl⟩
        rw [Effect.apply, Function.update_of_ne (Ne.symm hid)]
        exact hl

/-- After a read the field holds what was read, and the known pointers are where they were. -/
theorem read_spec (h : s.LeadsTo p oid f) (hq : s.PointsTo q oid g) (hread : Angie.readValue q type s = .ok v t) :
    Extends s.toVc t.toVc ∧ t.LeadsTo p oid f ∧ t.HoldsAt oid g type v ∧
      (t.StoresPointer oid g ↔ s.StoresPointer oid g) := by
  have hs := h.ok
  have h0 := h.tracks.pos
  have hq0 : 0 < (s.resolve q).targetObjectId := hq.1.symm ▸ h0
  have hp0 : (s.resolve p).targetObjectId ≠ -1 := by
    rw [h.field.1]
    lia
  obtain ⟨hext, hres⟩ := resolve_read hs hq0 hp0 hread
  have hmem := resolve_mem_touch s q
  rw [touch_of_target (by lia)] at hmem
  have hadm : (GraphOp.readValue q type).Adm s := by
    intro w hw
    rw [List.mem_singleton.1 hw, ← resolve_value s q]
    exact (hs.handle _ hmem).value
  have hexec := GraphOp.exec_of_ok (.readValue q type) rfl hread
  have hgives := holdsAt_gives hs h0 hadm (show (GraphOp.readValue q type).Gives oid g type v s from ⟨hq, rfl, t, hread⟩)
  have hmemory := exec_memory hs hadm
  have hedits := exec_edits hs hadm
  rw [hexec] at hgives hmemory hedits
  obtain ⟨l, hl⟩ := Option.isSome_iff_exists.1 ((exists_iff_memory h0).1 h.live)
  obtain ⟨l', hl', hpointer⟩ := readEffect_pointer hl q type
  have hlt : t.memory oid = some l' := (congrFun hmemory oid).trans hl'
  refine ⟨hext, ⟨hedits.ok hs, hedits.induct (fun h _ => h.tracks) hs h.tracks, ?_, ?_⟩, hgives, ?_, ?_⟩
  · exact (exists_iff_memory h0).2 (by rw [hlt]; rfl)
  · exact h.field.mono hres fun k c hk => hext.bound hs.const hk
  · rintro ⟨k, l₁, w, hk, hl₁, hw⟩
    rw [hlt] at hl₁
    cases hl₁
    rw [hpointer] at hw
    exact ⟨k, l, w, (hext.constant (slot_given hs hl (Or.inr hw)).1).symm.trans hk, hl, hw⟩
  · rintro ⟨k, l₁, w, hk, hl₁, hw⟩
    rw [hl] at hl₁
    cases hl₁
    exact ⟨k, l', w, hext.bound hs.const hk, hlt, by rwa [hpointer]⟩

end Fields

/-! ## When a clear zeroes its range -/

section Zeroes

variable [DataLayout] {es : GraphHistory} {s : MemState} {oid : ObjectId} {p size : ValueId} {f n : Word}

/-- A read before a clear and one after it return the same, unless the clear overwrites what the first returned. -/
theorem reads_again (h : s.LeadsTo p oid f) (hn : s.vc.constantContainer[size]? = some n) {q v : ValueId} {g : Word}
    {type : Ty} {t : MemState} (hq : s.PointsTo q oid g) (hread : Angie.readValue q type s = .ok v t)
    (hkept : s.Overwrites oid f g type → v = 0) : (t.cleared p size).Reads oid g type v := by
  obtain ⟨hext, hled, hholds, hstore⟩ := read_spec h hq hread
  have hn' := hext.bound h.ok.const hn
  obtain ⟨-, hcleared, -⟩ := cleared_spec hled hn'
  refine reads_of_holdsAt hcleared.ok ?_
  by_cases hover : t.Overwrites oid f g type
  · refine (cleared_overwritten hled hn' hover).2 (hkept ⟨hover.1, fun hptr hs => ?_⟩)
    exact hover.2 hptr (hstore.2 hs)
  · exact (cleared_kept hled hn' hover).2 hholds

/-- What an overwritten field is read as before a clear is read after it only if it is zero. -/
theorem zero_of_reads_again (h : s.LeadsTo p oid f) (hn : s.vc.constantContainer[size]? = some n) {v : ValueId}
    {type : Ty} {t : MemState} (hread : Angie.readValue p type s = .ok v t) (hover : s.Overwrites oid f f type)
    (hreads : (t.cleared p size).Reads oid f type v) : v = 0 := by
  obtain ⟨hext, hled, -, hstore⟩ := read_spec h h.field hread
  have hn' := hext.bound h.ok.const hn
  obtain ⟨-, hcleared, -⟩ := cleared_spec hled hn'
  have hover' : t.Overwrites oid f f type := ⟨rfl, fun hptr ht => hover.2 hptr (hstore.1 ht)⟩
  have hzero : (t.cleared p size).HoldsAt oid f type 0 := (cleared_overwritten hled hn' hover').2 rfl
  obtain ⟨u, hu⟩ := hreads [] trivial p hcleared.field
  obtain ⟨u', hu'⟩ := readValue_of_holdsAt hcleared.ok hzero hcleared.field
  have heq : (.ok v u : EStateM.Result Exn MemState ValueId) = .ok 0 u' := hu.symm.trans hu'
  injection heq

theorem memclear_zeroes_iff (h : GraphRun es s) (hlive : Live es oid) (hp : s.PointsTo p oid f)
    (hn : s.vc.constantContainer[size]? = some n) (g : Word) (type : Ty) :
    s.Zeroes p size oid f n g type ↔ s.Clears oid f n g type := by
  have hled := leadsTo_of_run h hlive hp
  obtain ⟨-, hcleared, -⟩ := cleared_spec hled hn
  constructor
  · rintro ⟨hin, hout⟩
    refine ⟨fun hlo hhi => ?_, ?_⟩
    · have hzero := holdsAt_of_reads hcleared (hin hlo hhi)
      by_cases hover : s.Overwrites oid f g type
      · exact Or.inr hover
      · exact Or.inl ((cleared_kept hled hn hover).1 hzero)
    · -- a range without bytes: the field is read before and after
      rintro rfl rfl hsize
      by_contra hno
      obtain ⟨hunset, hstore⟩ := not_or.1 hno
      have h0 : 0 < (s.resolve p).targetObjectId := hp.1.symm ▸ hled.tracks.pos
      obtain ⟨v, t, hread⟩ := readValue_completes hled.ok h0 type
      have hreads := hout hsize (Or.inr (by simp)) p v t hp hread
      have hv := zero_of_reads_again hled hn hread ⟨rfl, fun hptr hs => hstore ⟨hptr, hs⟩⟩ hreads
      rw [hv] at hread
      exact hunset (holdsAt_of_read hled.ok hled.live hled.tracks.pos hp hread)
  · rintro ⟨hin, hempty⟩
    refine ⟨fun hlo hhi => reads_of_holdsAt hcleared.ok ?_, fun hsize hout q v t hq hread => ?_⟩
    · by_cases hover : s.Overwrites oid f g type
      · exact (cleared_overwritten hled hn hover).2 rfl
      · exact (cleared_kept hled hn hover).2 ((hin hlo hhi).resolve_right hover)
    · refine reads_again hled hn hq hread ?_
      rintro ⟨rfl, hover⟩
      have hn0 : n = 0 := by
        apply BitVec.eq_of_toNat_eq
        have hz : (0 : Word).toNat = 0 := rfl
        omega
      rcases hempty hn0 rfl hsize with hzero | ⟨hptr, hstore⟩
      · obtain ⟨t', hread'⟩ := readValue_of_holdsAt hled.ok hzero hq
        have heq : (.ok v t : EStateM.Result Exn MemState ValueId) = .ok 0 t' := hread.symm.trans hread'
        injection heq
      · exact absurd hstore (hover hptr)

end Zeroes

section Example

attribute [local instance] Ty.x86

/-- The first of two words is zeroed. -/
theorem memclear_zeroes_first : twoWords.2.Zeroes 1 2 1 0 8 0 (.int 32) := by
  refine (memclear_zeroes_iff twoWords_run twoWords_live ⟨rfl, rfl⟩ rfl 0 (.int 32)).2 ⟨fun _ _ => Or.inr ⟨rfl, ?_⟩, ?_⟩
  · intro hptr
    cases hptr
  · intro hn
    cases hn

/-- The second one is not: the read makes up a value. -/
theorem memclear_leaves_second : GraphRun twoWords.1 twoWords.2 ∧ Live twoWords.1 1 ∧ twoWords.2.PointsTo 1 1 0 ∧
    twoWords.2.vc.constantContainer[(2 : ValueId)]? = some 8 ∧
    (∃ t, Angie.readValue 4 (.int 32) (twoWords.2.cleared 1 2) = .ok 6 t) ∧
    ¬ twoWords.2.Zeroes 1 2 1 0 8 4 (.int 32) := by
  have hread : ∃ t, Angie.readValue 4 (.int 32) (twoWords.2.cleared 1 2) = .ok 6 t := ⟨_, rfl⟩
  refine ⟨twoWords_run, twoWords_live, ⟨rfl, rfl⟩, rfl, hread, fun hz => ?_⟩
  obtain ⟨t, ht⟩ := hread
  obtain ⟨t', ht'⟩ := hz.inside (by decide) (by decide) [] trivial 4 ⟨rfl, rfl⟩
  have heq : (.ok 6 t : EStateM.Result Exn MemState ValueId) = .ok 0 t' := ht.symm.trans ht'
  injection heq with hv
  exact absurd hv (by decide)

end Example

end Angie
