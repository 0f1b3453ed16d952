import Angie.Smg.Access

/-!
# Which frees are accepted

- `PointsInto`: the pointers into a region, by the events so far. Every edge of one goes to the region, or to the freed
  object (`run_pointsInto`), and the other edges go to the null or the unknown object (`run_traced`).
- `ClassifiesFree`: what `Free` should do with a pointer. It looks at the object that the pointer resolves to, but not
  at the offset, nor does it tell the null pointer from other pointers to the null object. `free_classifies_iff` says
  for which pointers this does not matter.
-/

namespace Angie

open Exec KeyedList Trace

section Pointers

variable [DataLayout]

/-! ## Pointers into a region -/

/-- The value points into the region, by the events so far: an allocation returned it, or it was derived from such a
pointer, by the program or within a `Memclear`. -/
inductive PointsInto (oid : ObjectId) : GraphHistory → ValueId → Prop
  | allocate {es : GraphHistory} {e : Event MemState GraphOp (Except Exn (Option ValueId))} {type : Ty}
      {ms : MemorySpace} {v : ValueId} : e.op = .allocateRegion type ms → e.pre.statics.nextObjectIdToGive = oid →
      e.out = .ok (some v) → PointsInto oid (e :: es) v
  | derive {es : GraphHistory} {e : Event MemState GraphOp (Except Exn (Option ValueId))} {p offset v : ValueId} :
      PointsInto oid es p → e.op = .createDerivedPointer p offset → e.out = .ok (some v) → PointsInto oid (e :: es) v
  | clear {es : GraphHistory} {e : Event MemState GraphOp (Except Exn (Option ValueId))} {p size v : ValueId}
      {n : Word} {edge : PtEdge} {t : MemState} : PointsInto oid es p → e.op = .memclear p size →
      e.pre.vc.constantContainer[size]? = some n → createDerivedPointer p 0 e.pre = .ok (v, edge) t →
      PointsInto oid (e :: es) v
  | later {es : GraphHistory} {e : Event MemState GraphOp (Except Exn (Option ValueId))} {v : ValueId} :
      PointsInto oid es v → PointsInto oid (e :: es) v

variable {es : GraphHistory} {s t : MemState} {oid : ObjectId}

/-- The pointers that the program was given. -/
theorem PointerInto.pointsInto (h : GraphRun es s) : ∀ {v : ValueId}, PointerInto oid es v → PointsInto oid es v := by
  refine h.invariant (I := fun es _ => ∀ {v : ValueId}, PointerInto oid es v → PointsInto oid es v) ?_ ?_
  · intro s _ v hv
    exact hv.elim
  · intro es s op hr _ ih v hv
    rcases hv with hv | ⟨hout, hv⟩
    · exact (ih hv).later
    · cases op with
      | allocateRegion t ms => exact .allocate rfl hv hout
      | createDerivedPointer p o => exact (ih hv).derive rfl hout
      | readValue p t =>
        obtain ⟨w, hw, hp⟩ : ∃ w, s.Holds p t w ∧ PointerInto oid es w := hv
        have hvw : v = w := readValue_holds (run_graphOk hr) hw hout
        subst hvw
        exact (ih hp).later
      | writeValue | free | memclear | container => exact hv.elim

/-- A clear that derives its pointer writes through it. -/
theorem exec_memclear {p size v : ValueId} {n : Word} {edge : PtEdge}
    (hn : s.vc.constantContainer[size]? = some n) (hd : createDerivedPointer p 0 s = .ok (v, edge) t) :
    ((GraphOp.memclear p size).exec s).2 = final (writeEdge edge t.vc.zero (.array (.int 8) n.toNat) t) := by
  rw [GraphOp.exec_state, GraphOp.run, final_map, memclear_constant hn hd]

theorem exec_derive {p offset v : ValueId} {edge : PtEdge} (hd : createDerivedPointer p offset s = .ok (v, edge) t) :
    (GraphOp.createDerivedPointer p offset).exec s = (.ok (some v), t) :=
  GraphOp.exec_of_ok (.createDerivedPointer p offset) (f := fun d => some d.1) rfl hd

/-- The pointer that a clear derives from a pointer into a region. -/
theorem tracks_clear (hs : GraphOk s) {p size v : ValueId} {n : Word} {edge : PtEdge} (hp : Tracks s p oid)
    (hn : s.vc.constantContainer[size]? = some n) (hd : createDerivedPointer p 0 s = .ok (v, edge) t) :
    Tracks ((GraphOp.memclear p size).exec s).2 v oid := by
  have hderive := exec_derive hd
  have hadm : (GraphOp.createDerivedPointer p 0).Adm s := by
    intro w hw
    rcases List.mem_cons.1 hw with rfl | hw
    · exact hp.given
    · rw [List.mem_singleton.1 hw]
      exact hs.given_zero
  have hok := Edits.ok (exec_edits hs hadm) hs
  have hvalue : ((GraphOp.createDerivedPointer p 0).exec s).1 = .ok (some v) := by rw [hderive]
  have htracks := tracks_derive hs hp hvalue
  rw [hderive] at hok htracks
  -- the derived edge is a handle, through which the zeros are written
  obtain ⟨o, w, u, -, heq⟩ := createDerivedPointer_spec hs hp.given 0
  rw [hd] at heq
  cases heq
  have hedge := hok.handle _ (List.mem_append_right _ (List.mem_singleton_self _))
  have hzero := hok.const.range _ _ hok.const.zero
  rw [exec_memclear hn hd]
  exact (writeEdge_edits hok hedge hzero _).induct (fun h _ => h.tracks) hok htracks

/-- Every edge of a pointer into a region goes to what stands for the region. -/
theorem run_pointsInto (h : GraphRun es s) : ∀ {v : ValueId}, PointsInto oid es v → Tracks s v oid := by
  refine h.invariant (I := fun es s => ∀ {v : ValueId}, PointsInto oid es v → Tracks s v oid) ?_ ?_
  · intro s _ v hv
    cases hv
  · intro es s op hr ha ih v hv
    have hs := run_graphOk hr
    cases hv with
    | allocate hop hid hout =>
      obtain rfl : op = _ := hop
      have hid : s.statics.nextObjectIdToGive = oid := hid
      subst hid
      exact tracks_allocate hs hout
    | derive hp hop hout =>
      obtain rfl : op = _ := hop
      exact tracks_derive hs (ih hp) hout
    | clear hp hop hn hd =>
      obtain rfl : op = _ := hop
      exact tracks_clear hs (ih hp) hn hd
    | later hv => exact (exec_edits hs ha).induct (fun h _ => h.tracks) hs (ih hv)

theorem PointsInto.allocated {v : ValueId} (h : PointsInto oid es v) : Allocated es oid := by
  induction h with
  | allocate hop hid _ => exact ⟨_, List.mem_cons_self, ⟨_, _, hop⟩, hid⟩
  | derive _ _ _ ih | clear _ _ _ _ ih | later _ ih =>
    obtain ⟨a, ha, hp⟩ := ih
    exact ⟨a, List.mem_cons_of_mem _ ha, hp⟩

end Pointers

/-! ## All other pointers -/

section Copies

variable {s t : MemState}

/-- Every edge of `t` copies the value and the target of one of `s`, or leads to the unknown object. -/
def MemState.CopiedTo (s t : MemState) : Prop :=
  ∀ e, t.Edge e → e.targetObjectId = -1 ∨
    ∃ a, s.Edge a ∧ a.value = e.value ∧ a.targetObjectId = e.targetObjectId

theorem copiedTo_refl (s : MemState) : s.CopiedTo s := fun e he => Or.inr ⟨e, he, rfl, rfl⟩

theorem MemState.CopiedTo.trans {u : MemState} (h : s.CopiedTo t) (h' : t.CopiedTo u) : s.CopiedTo u := by
  intro e he
  rcases h' e he with hun | ⟨a, ha, hav, hat⟩
  · exact Or.inl hun
  · rcases h a ha with hun | ⟨b, hb, hbv, hbt⟩
    · exact Or.inl (hat.symm.trans hun)
    · exact Or.inr ⟨b, hb, hbv.trans hav, hbt.trans hat⟩

theorem copiedTo_withVc (s : MemState) (t : VcState) : s.CopiedTo (s.withVc t) := copiedTo_refl s

theorem copiedTo_addHandle {e : PtEdge} (h : e.targetObjectId = -1 ∨
    ∃ a, s.Edge a ∧ a.value = e.value ∧ a.targetObjectId = e.targetObjectId) : s.CopiedTo (s.addHandle e) := by
  intro e' he'
  rcases MemState.edge_addHandle.1 he' with he' | rfl
  · exact copiedTo_refl s e' he'
  · exact h

theorem copiedTo_setObject {id : ObjectId} {o : Object} (h : ∀ e ∈ o.ptEdges,
    ∃ a, s.Edge a ∧ a.value = e.value ∧ a.targetObjectId = e.targetObjectId) : s.CopiedTo (s.setObject id o) := by
  intro e he
  rcases MemState.edge_setObject he with he | he
  · exact copiedTo_refl s e he
  · exact Or.inr (h e he)

theorem copiedTo_touch (s : MemState) (ptr : ValueId) : s.CopiedTo (s.touch ptr) := by
  unfold MemState.touch
  split
  · exact copiedTo_refl s
  · exact copiedTo_addHandle (Or.inl rfl)

/-- Loading copies the edge of a stored pointer. -/
theorem copiedTo_readValue (hs : GraphOk s) (ptr : ValueId) (type : Ty) :
    s.CopiedTo (final (Angie.readValue ptr type s)) := by
  rcases resolve_target_cases hs ptr with h0 | h0 | h0 | ⟨h0, o, ho⟩
  · rw [readValue_error (Or.inl h0)]; exact copiedTo_touch s ptr
  · rw [readValue_error (Or.inr (Or.inl h0))]; exact copiedTo_touch s ptr
  · rw [readValue_error (Or.inr (Or.inr h0))]; exact copiedTo_touch s ptr
  · have hold : ∀ e ∈ o.ptEdges, ∃ a, s.Edge a ∧ a.value = e.value ∧ a.targetObjectId = e.targetObjectId :=
      fun e he => ⟨e, Or.inr ⟨_, o, ho, he⟩, rfl, rfl⟩
    rw [readValue_region h0 ho]
    split
    · rename_i e he
      split at he
      · exact copiedTo_addHandle (Or.inr (hold e (lookup_some he).1))
      · cases he
    · split
      · exact copiedTo_refl s
      · exact (copiedTo_withVc s s.nextValue.toVc).trans (copiedTo_setObject hold)

/-- Storing copies the edge of a known pointer. -/
theorem copiedTo_writeEdge (hs : GraphOk s) {e : PtEdge} (he : EdgeOk s e) (value : ValueId) (type : Ty) :
    s.CopiedTo (final (writeEdge e value type s)) := by
  obtain ⟨o, ho⟩ := he.target
  have hkey := (hs.key _ o ho).1
  by_cases h : e.targetObjectId = 0 ∨ e.targetObjectId = -1 ∨ e.targetObjectId = -2
  · rw [writeEdge_error h]; exact copiedTo_refl s
  · rw [writeEdge_region (by lia) ho]
    have hold : ∀ e ∈ o.ptEdges, ∃ a, s.Edge a ∧ a.value = e.value ∧ a.targetObjectId = e.targetObjectId :=
      fun e he => ⟨e, Or.inr ⟨_, o, ho, he⟩, rfl, rfl⟩
    refine copiedTo_setObject fun e' he' => ?_
    unfold Object.written at he'
    split at he'
    · cases hl : lookup (·.value) value s.graph.handles with
      | some a =>
        rw [hl] at he'
        have hstored : ∃ b, s.Edge b ∧ b.value = a.value ∧ b.targetObjectId = a.targetObjectId :=
          ⟨a, Or.inl (lookup_some hl).1, rfl, rfl⟩
        rcases mem_upsert he' with he' | ⟨b, _, _, rfl⟩ | rfl
        · exact hold e' he'
        · exact hstored
        · exact hstored
      | none =>
        rw [hl] at he'
        rcases mem_modifyFirst he' with he' | ⟨b, hb, _, rfl⟩
        · exact hold e' he'
        · exact hold b hb
    · exact hold e' he'

theorem copiedTo_writeValue (hs : GraphOk s) {ptr value : ValueId} (hp : s.Given ptr) (type : Ty) :
    s.CopiedTo (final (Angie.writeValue ptr value type s)) := by
  have ht := Edits.ok (touch_edits hp) hs
  unfold Angie.writeValue
  rw [bind_of_ok (findPtEdge_eq ptr)]
  exact (copiedTo_touch s ptr).trans (copiedTo_writeEdge ht (ht.handle _ (resolve_mem_touch s ptr)) value type)

end Copies

theorem Freed.later {es : GraphHistory} {oid : ObjectId} (h : Freed es oid)
    (e : Event MemState GraphOp (Except Exn (Option ValueId))) : Freed (e :: es) oid := by
  obtain ⟨a, ha, hp⟩ := h
  exact ⟨a, List.mem_cons_of_mem _ ha, hp⟩

section Traced

variable [DataLayout] {es : GraphHistory} {s t : MemState} {oid : ObjectId}

/-- An edge into a region is one of a pointer into it, and an edge to the freed object one of a pointer into a region
that was freed. -/
def Traced (es : GraphHistory) (s : MemState) : Prop :=
  ∀ e, s.Edge e → (0 < e.targetObjectId → PointsInto e.targetObjectId es e.value) ∧
    (e.targetObjectId = -2 → ∃ oid, PointsInto oid es e.value ∧ Freed es oid)

theorem Traced.copied (h : Traced es s) (hc : s.CopiedTo t) (ev : Event MemState GraphOp (Except Exn (Option ValueId))) :
    Traced (ev :: es) t := by
  intro e he
  rcases hc e he with hun | ⟨a, ha, hav, hat⟩
  · rw [hun]
    exact ⟨fun h0 => absurd h0 (by decide), fun h2 => absurd h2 (by decide)⟩
  · obtain ⟨h1, h2⟩ := h a ha
    rw [hav, hat] at h1
    rw [hav, hat] at h2
    refine ⟨fun h0 => (h1 h0).later, fun hf => ?_⟩
    obtain ⟨oid, hp, hfr⟩ := h2 hf
    exact ⟨oid, hp.later, hfr.later ev⟩

/-- A derived pointer points where its base points. -/
theorem Traced.derived (h : Traced es s) {p v o : ValueId} {u : VcState}
    {ev : Event MemState GraphOp (Except Exn (Option ValueId))}
    (hnew : ∀ oid, PointsInto oid es p → PointsInto oid (ev :: es) v) :
    Traced (ev :: es) (((s.touch p).withVc u).addHandle ((s.resolve p).derive v o)) := by
  have hcopied := (copiedTo_touch s p).trans (copiedTo_withVc (s.touch p) u)
  have hbase : ((s.touch p).withVc u).Edge (s.resolve p) := Or.inl (resolve_mem_touch s p)
  intro e he
  rcases MemState.edge_addHandle.1 he with he | rfl
  · exact h.copied hcopied ev e he
  · change (0 < (s.resolve p).targetObjectId → PointsInto (s.resolve p).targetObjectId (ev :: es) v) ∧
      ((s.resolve p).targetObjectId = -2 → ∃ oid, PointsInto oid (ev :: es) v ∧ Freed (ev :: es) oid)
    rcases hcopied _ hbase with hun | ⟨a, ha, hav, hat⟩
    · rw [hun]
      exact ⟨fun h0 => absurd h0 (by decide), fun h2 => absurd h2 (by decide)⟩
    · obtain ⟨h1, h2⟩ := h a ha
      rw [hav, hat, resolve_value] at h1
      rw [hav, hat, resolve_value] at h2
      refine ⟨fun h0 => hnew _ (h1 h0), fun hf => ?_⟩
      obtain ⟨oid, hp, hfr⟩ := h2 hf
      exact ⟨oid, hnew oid hp, hfr.later ev⟩

theorem traced_free (h : Traced es s) (hs : GraphOk s) (p : ValueId) :
    Traced (step GraphOp.exec s (.free p) :: es) ((GraphOp.free p).exec s).2 := by
  rcases resolve_target_cases hs p with h0 | h0 | h0 | ⟨h0, o, ho⟩
  · rw [GraphOp.exec_state, GraphOp.run, final_map, free_null h0]
    exact h.copied (copiedTo_touch s p) _
  · rw [GraphOp.exec_state, GraphOp.run, final_map, free_unknown h0]
    exact h.copied (copiedTo_touch s p) _
  · rw [GraphOp.exec_state, GraphOp.run, final_map, free_freed h0]
    exact h.copied (copiedTo_touch s p) _
  · have hrun := free_region h0 ho
    by_cases hm : o.memSpace = .heap
    · rw [if_pos hm] at hrun
      have hexec := GraphOp.exec_of_ok (.free p) (f := fun _ => none) rfl hrun
      have hfreed : Freed (step GraphOp.exec s (.free p) :: es) (s.resolve p).targetObjectId :=
        ⟨_, List.mem_cons_self, p, rfl, congrArg Prod.fst hexec, rfl⟩
      rw [hexec]
      intro e he
      obtain ⟨a, ha, rfl⟩ := MemState.edge_freed he
      rw [PtEdge.retarget_target, PtEdge.retarget_value]
      split
      · -- the edge led to the region that is freed now
        rename_i heq
        refine ⟨fun h0 => absurd h0 (by decide), fun _ => ⟨_, ?_, hfreed⟩⟩
        rw [← heq]
        exact ((h a ha).1 (heq ▸ h0)).later
      · exact h.copied (copiedTo_refl s) _ a ha
    · rw [if_neg hm] at hrun
      rw [GraphOp.exec_of_error (.free p) (f := fun _ => none) rfl hrun]
      exact h.copied (copiedTo_refl s) _

theorem Traced.step (h : Traced es s) (hs : GraphOk s) {op : GraphOp} (ha : op.Adm s) :
    Traced (step GraphOp.exec s op :: es) (op.exec s).2 := by
  cases op with
  | allocateRegion type ms =>
    obtain ⟨size, t, -, hid, -, -, -, heq⟩ := allocateRegion_spec hs type ms
    have hexec := GraphOp.exec_of_ok (.allocateRegion type ms) (f := some) rfl heq
    rw [hexec]
    intro e he
    rcases MemState.edge_addHandle.1 he with he | rfl
    · rcases MemState.edge_setObject he with he | he
      · exact h.copied (copiedTo_refl s) _ e he
      · cases he
    · refine ⟨fun _ => ?_, fun hf => ?_⟩
      · exact .allocate rfl hid.symm (congrArg Prod.fst hexec)
      · have hpos := hs.counter
        rw [← hid] at hpos
        exact absurd hf (Int.ne_of_gt (Int.lt_trans (by decide) hpos))
  | createDerivedPointer p offset =>
    obtain ⟨o, v, u, -, heq⟩ := createDerivedPointer_spec hs (ha p (by simp [GraphOp.ids])) offset
    have hexec := exec_derive heq
    rw [hexec]
    exact h.derived fun oid hp => hp.derive rfl (congrArg Prod.fst hexec)
  | readValue p t =>
    rw [GraphOp.exec_state, GraphOp.run, final_map]
    exact h.copied (copiedTo_readValue hs p t) _
  | writeValue p v t =>
    rw [GraphOp.exec_state, GraphOp.run, final_map]
    exact h.copied (copiedTo_writeValue hs (ha p (by simp [GraphOp.ids])) t) _
  | free p => exact traced_free h hs p
  | memclear p n =>
    cases hn : s.vc.constantContainer[n]? with
    | none =>
      rw [GraphOp.exec_state, GraphOp.run, final_map, memclear_abstract hn]
      exact h.copied (copiedTo_refl s) _
    | some c =>
      have hp := ha p (by simp [GraphOp.ids])
      obtain ⟨o, v, u, hd, heq⟩ := createDerivedPointer_spec hs hp 0
      have hok := Edits.ok (derive_edits hs hp hd) hs
      have hedge := hok.handle _ (List.mem_append_right _ (List.mem_singleton_self _))
      have hderived : Traced (Trace.step GraphOp.exec s (.memclear p n) :: es)
          (((s.touch p).withVc u).addHandle ((s.resolve p).derive v o)) :=
        h.derived fun oid hp => hp.clear rfl hn heq
      rw [exec_memclear hn heq]
      intro e he
      rcases copiedTo_writeEdge hok hedge u.vc.zero (.array (.int 8) c.toNat) e he with hun | ⟨a, hae, hav, hat⟩
      · rw [hun]
        exact ⟨fun h0 => absurd h0 (by decide), fun h2 => absurd h2 (by decide)⟩
      · have hsource := hderived a hae
        rwa [hav, hat] at hsource
  | container op =>
    rw [GraphOp.exec_state, final_container]
    exact h.copied (copiedTo_withVc s _) _

theorem run_traced (h : GraphRun es s) : Traced es s := by
  refine h.invariant (I := fun es s => Traced es s) ?_ fun es s op hr ha ih => ih.step (run_graphOk hr) ha
  rintro s rfl e (he | ⟨id, o, ho, he⟩)
  · rw [List.mem_singleton.1 he]
    exact ⟨fun h0 => absurd h0 (by decide), fun h2 => absurd h2 (by decide)⟩
  · rw [(new_object ho).2] at he
    cases he

end Traced

/-! ## The null pointer -/

/-- The first handle of the null pointer leads to the null object. -/
def MemState.NullFirst (s : MemState) : Prop :=
  ∃ e, lookup (·.value) 0 s.graph.handles = some e ∧ e.targetObjectId = 0

theorem MemState.NullFirst.addHandle {s : MemState} (h : s.NullFirst) (e : PtEdge) : (s.addHandle e).NullFirst := by
  obtain ⟨a, ha, hat⟩ := h
  refine ⟨a, ?_, hat⟩
  rw [MemState.handles_addHandle, lookup_append, ha, Option.some_or]

/-- Handles are added behind it. -/
theorem Edit.nullFirst {s t : MemState} (h : Edit s t) (hs : s.NullFirst) : t.NullFirst := by
  cases h with
  | container | plain | pointer | hide => exact hs
  | unknown | derive | load => exact hs.addHandle _
  | allocate => exact MemState.NullFirst.addHandle (s := MemState.setObject _ _ _) hs _
  | @free id h0 _ =>
    obtain ⟨a, ha, hat⟩ := hs
    refine ⟨a.retarget id, ?_, ?_⟩
    · rw [MemState.handles_freed, lookup_map fun e => e.retarget_value id, ha]
      rfl
    · rw [PtEdge.retarget_target, if_neg (by lia), hat]

/-! ## What `Free` should do -/

section Freeing

variable [DataLayout]

/-- The pointer points into the region, which is not freed. -/
def IntoLive (es : GraphHistory) (s : MemState) (p : ValueId) (o : Object) : Prop :=
  ∃ oid, PointsInto oid es p ∧ ¬ Freed es oid ∧ s.graph.objects[oid]? = some o

/-- The pointer points to the start of a region of the heap. -/
def AtHeapStart (es : GraphHistory) (s : MemState) (p : ValueId) : Prop :=
  ∃ o, IntoLive es s p o ∧ o.memSpace = .heap ∧ s.vc.constantContainer[(s.resolve p).targetOffset]? = some 0

def IntoFreed (es : GraphHistory) (p : ValueId) : Prop := ∃ oid, PointsInto oid es p ∧ Freed es oid

def OutsideHeap (es : GraphHistory) (s : MemState) (p : ValueId) : Prop :=
  ∃ o, IntoLive es s p o ∧ o.memSpace ≠ .heap

/-- The null pointer and the start of a region of the heap can be freed; else the exception says what is wrong. -/
structure ClassifiesFree (es : GraphHistory) (s : MemState) (p : ValueId) : Prop where
  completes : (∃ t, free p s = .ok () t) ↔ p = 0 ∨ AtHeapStart es s p
  twice : IntoFreed es p → ∃ t, free p s = .error .doubleFree t
  outside : OutsideHeap es s p → ∃ what t, free p s = .error (.nonHeapFree what) t
  other : p ≠ 0 → ¬ AtHeapStart es s p → ¬ IntoFreed es p → ¬ OutsideHeap es s p →
    ∃ t, free p s = .error .invalidFree t

variable {es : GraphHistory} {s : MemState} {p : ValueId}

/-- The null pointer resolves to the null object, and points into no region. -/
theorem null_resolves (h : GraphRun es s) : (s.resolve 0).targetObjectId = 0 ∧ ∀ oid, ¬ PointsInto oid es 0 := by
  have hfirst : s.NullFirst := by
    refine h.invariant (I := fun _ s => s.NullFirst) ?_ ?_
    · rintro s rfl
      exact ⟨_, rfl, rfl⟩
    · intro es s op hr ha ih
      exact (exec_edits (run_graphOk hr) ha).induct (fun h _ => h.nullFirst) (run_graphOk hr) ih
  obtain ⟨e, he, het⟩ := hfirst
  refine ⟨by rw [(resolve_of_lookup he).1, het], fun oid hp => ?_⟩
  exact (run_pointsInto h hp).not_constant (isConstant_iff.2 ⟨0, (run_graphOk h).bound_zero⟩)

theorem intoLive_resolve (h : GraphRun es s) {o : Object} (hp : IntoLive es s p o) :
    0 < (s.resolve p).targetObjectId ∧ s.graph.objects[(s.resolve p).targetObjectId]? = some o := by
  obtain ⟨oid, hp, -, ho⟩ := hp
  have ht := run_pointsInto h hp
  rw [ht.resolve, MemState.current_of_exists ⟨o, ho⟩]
  exact ⟨ht.pos, ho⟩

theorem intoFreed_resolve (h : GraphRun es s) (hp : IntoFreed es p) : (s.resolve p).targetObjectId = -2 := by
  obtain ⟨oid, hp, hf⟩ := hp
  have ht := run_pointsInto h hp
  rw [ht.resolve, MemState.current_of_not_exists]
  intro hex
  exact (((run_lifetimes h).live oid ht.pos).1 hex).2 hf

/-- A pointer that resolves to a region, or to the freed object, was obtained so. -/
theorem resolve_pointsInto (h : GraphRun es s) :
    (0 < (s.resolve p).targetObjectId → PointsInto (s.resolve p).targetObjectId es p) ∧
    ((s.resolve p).targetObjectId = -2 → IntoFreed es p) := by
  cases hl : lookup (·.value) p s.graph.handles with
  | none =>
    rw [(resolve_of_none hl).1]
    have htarget : (PtEdge.handle p (-1)).targetObjectId = -1 := rfl
    rw [htarget]
    exact ⟨fun h0 => absurd h0 (by decide), fun h2 => absurd h2 (by decide)⟩
  | some e =>
    have hsource := run_traced h e (Or.inl (lookup_some hl).1)
    rw [(resolve_of_lookup hl).1]
    rwa [(lookup_some hl).2] at hsource

theorem resolve_intoLive (h : GraphRun es s) (h0 : 0 < (s.resolve p).targetObjectId) {o : Object}
    (ho : s.graph.objects[(s.resolve p).targetObjectId]? = some o) : IntoLive es s p o := by
  refine ⟨_, (resolve_pointsInto h).1 h0, ?_, ho⟩
  exact (((run_lifetimes h).live _ h0).1 ⟨o, ho⟩).2

theorem not_intoLive (h : GraphRun es s) (h0 : (s.resolve p).targetObjectId ≤ 0) (o : Object) : ¬ IntoLive es s p o :=
  fun hlive => absurd (intoLive_resolve h hlive).1 (Int.not_lt.2 h0)

theorem not_intoFreed (h : GraphRun es s) (h0 : (s.resolve p).targetObjectId ≠ -2) : ¬ IntoFreed es p :=
  fun hf => h0 (intoFreed_resolve h hf)

theorem ne_zero_of_resolve (h : GraphRun es s) (h0 : (s.resolve p).targetObjectId ≠ 0) : p ≠ 0 := by
  rintro rfl
  exact h0 (null_resolves h).1

omit [DataLayout] in
theorem not_completes {t : MemState} {x : Exn} (hrun : free p s = .error x t) : ¬ ∃ t, free p s = .ok () t := by
  rintro ⟨t', ht'⟩
  rw [hrun] at ht'
  cases ht'

/-- A pointer into no region that is not the null pointer is not to be freed. -/
theorem not_freeable (h : GraphRun es s) (h0 : (s.resolve p).targetObjectId < 0) : ¬ (p = 0 ∨ AtHeapStart es s p) := by
  rintro (hp | ⟨o, hlive, -⟩)
  · exact ne_zero_of_resolve h (Int.ne_of_lt h0) hp
  · exact not_intoLive h (Int.le_of_lt h0) o hlive

theorem classifiesFree_null (h : GraphRun es s) : ClassifiesFree es s 0 := by
  obtain ⟨h0, -⟩ := null_resolves h
  refine ⟨iff_of_true ⟨_, free_null h0⟩ (Or.inl rfl), fun hf => ?_, ?_, fun hne => absurd rfl hne⟩
  · exact absurd hf (not_intoFreed h (by rw [h0]; decide))
  · rintro ⟨o, hlive, -⟩
    exact absurd hlive (not_intoLive h (Int.le_of_eq h0) o)

theorem classifiesFree_unknown (h : GraphRun es s) (h0 : (s.resolve p).targetObjectId = -1) :
    ClassifiesFree es s p := by
  have hrun := free_unknown h0
  have hneg : (s.resolve p).targetObjectId < 0 := by
    rw [h0]
    decide
  refine ⟨iff_of_false (not_completes hrun) (not_freeable h hneg), fun hf => ?_, ?_, fun _ _ _ _ => ⟨_, hrun⟩⟩
  · exact absurd hf (not_intoFreed h (by rw [h0]; decide))
  · rintro ⟨o, hlive, -⟩
    exact absurd hlive (not_intoLive h (Int.le_of_lt hneg) o)

theorem classifiesFree_freed (h : GraphRun es s) (h0 : (s.resolve p).targetObjectId = -2) : ClassifiesFree es s p := by
  have hrun := free_freed h0
  have hneg : (s.resolve p).targetObjectId < 0 := by
    rw [h0]
    decide
  refine ⟨iff_of_false (not_completes hrun) (not_freeable h hneg), fun _ => ⟨_, hrun⟩, ?_, fun _ _ hf _ => ?_⟩
  · rintro ⟨o, hlive, -⟩
    exact absurd hlive (not_intoLive h (Int.le_of_lt hneg) o)
  · exact absurd ((resolve_pointsInto h).2 h0) hf

/-- A pointer into a region of the heap has to point to the start. -/
theorem classifiesFree_region (h : GraphRun es s) (h0 : 0 < (s.resolve p).targetObjectId) {o : Object}
    (ho : s.graph.objects[(s.resolve p).targetObjectId]? = some o)
    (hoff : o.memSpace = .heap → s.vc.constantContainer[(s.resolve p).targetOffset]? = some 0) :
    ClassifiesFree es s p := by
  have hlive := resolve_intoLive h h0 ho
  have hsame : ∀ o', IntoLive es s p o' → o' = o := fun o' hlive' =>
    Option.some.inj ((intoLive_resolve h hlive').2.symm.trans ho)
  have hnot := not_intoFreed h (Int.ne_of_gt (Int.lt_trans (by decide : (-2 : Int) < 0) h0))
  have hrun := free_region h0 ho
  by_cases hm : o.memSpace = .heap
  · rw [if_pos hm] at hrun
    have hstart : AtHeapStart es s p := ⟨o, hlive, hm, hoff hm⟩
    refine ⟨iff_of_true ⟨_, hrun⟩ (Or.inr hstart), fun hf => absurd hf hnot, ?_, fun _ hno => absurd hstart hno⟩
    rintro ⟨o', hlive', hne⟩
    exact absurd (hsame o' hlive' ▸ hm) hne
  · rw [if_neg hm] at hrun
    have hout : OutsideHeap es s p := ⟨o, hlive, hm⟩
    refine ⟨iff_of_false (not_completes hrun) ?_, fun hf => absurd hf hnot, fun _ => ⟨_, _, hrun⟩,
      fun _ _ _ hno => absurd hout hno⟩
    rintro (hp | ⟨o', hlive', hm', -⟩)
    · exact ne_zero_of_resolve h (Int.ne_of_gt h0) hp
    · exact hm (hsame o' hlive' ▸ hm')

/-- The frees are classified except those of a pointer to the null object that is not the null pointer, and those of a
pointer into a region of the heap at another offset than the constant 0: both complete. -/
theorem free_classifies_iff (h : GraphRun es s) (p : ValueId) :
    ClassifiesFree es s p ↔
      ((s.resolve p).targetObjectId = 0 → p = 0) ∧
      ∀ o, IntoLive es s p o → o.memSpace = .heap →
        s.vc.constantContainer[(s.resolve p).targetOffset]? = some 0 := by
  have hs := run_graphOk h
  constructor
  · intro hc
    constructor
    · intro h0
      rcases hc.completes.1 ⟨_, free_null h0⟩ with hp | ⟨o, hlive, -⟩
      · exact hp
      · exact absurd hlive (not_intoLive h (Int.le_of_eq h0) o)
    · intro o hlive hm
      obtain ⟨h0, ho⟩ := intoLive_resolve h hlive
      have hrun := free_region h0 ho
      rw [if_pos hm] at hrun
      rcases hc.completes.1 ⟨_, hrun⟩ with hp | ⟨o', -, -, hoff⟩
      · exact absurd hp (ne_zero_of_resolve h (Int.ne_of_gt h0))
      · exact hoff
  · rintro ⟨hnone, hoff⟩
    rcases resolve_target_cases hs p with h0 | h0 | h0 | ⟨h0, o, ho⟩
    · rw [hnone h0]
      exact classifiesFree_null h
    · exact classifiesFree_unknown h h0
    · exact classifiesFree_freed h h0
    · exact classifiesFree_region h h0 ho (hoff o (resolve_intoLive h h0 ho))

end Freeing

section Example

attribute [local instance] Ty.x86

/-- Pointers to the eighth byte of a region and of the null object. -/
def interiorPointer : GraphHistory × MemState :=
  play GraphOp.exec [] MemState.new [.allocateRegion (.array (.int 64) 2) .heap,
    .container (.createConstIntVal 8), .createDerivedPointer 1 3, .createDerivedPointer 0 3]

theorem interiorPointer_run : GraphRun interiorPointer.1 interiorPointer.2 := Run.play (Run.start rfl) (by decide +kernel)

/-- The pointer that the allocation returned is freed rightly. -/
theorem free_classifies_start : ClassifiesFree interiorPointer.1 interiorPointer.2 1 := by
  refine (free_classifies_iff interiorPointer_run 1).2 ⟨fun h => ?_, fun o _ _ => rfl⟩
  exact absurd h (by decide +kernel)

theorem interiorPointer_pointsInto : PointsInto 1 interiorPointer.1 4 :=
  .later (.derive (p := 1) (.later (.allocate rfl rfl rfl)) rfl rfl)

/-- The interior pointer is freed too, and so is the eighth byte of the null object. -/
theorem free_interior_completes : GraphRun interiorPointer.1 interiorPointer.2 ∧
    PointsInto 1 interiorPointer.1 4 ∧
    ((∃ t, free 4 interiorPointer.2 = .ok () t) ∧ ¬ ClassifiesFree interiorPointer.1 interiorPointer.2 4) ∧
    (∃ t, free 3 interiorPointer.2 = .ok () t) ∧ ¬ ClassifiesFree interiorPointer.1 interiorPointer.2 3 := by
  refine ⟨interiorPointer_run, interiorPointer_pointsInto, ⟨⟨_, rfl⟩, fun hc => ?_⟩, ⟨_, rfl⟩, fun hc => ?_⟩
  · rcases hc.completes.1 ⟨_, rfl⟩ with hp | ⟨o, -, -, hoff⟩
    · cases hp
    · have h8 : interiorPointer.2.vc.constantContainer[(interiorPointer.2.resolve 4).targetOffset]? = some 8 := rfl
      rw [h8] at hoff
      cases hoff
  · rcases hc.completes.1 ⟨_, rfl⟩ with hp | ⟨o, -, -, hoff⟩
    · cases hp
    · have h8 : interiorPointer.2.vc.constantContainer[(interiorPointer.2.resolve 3).targetOffset]? = some 8 := rfl
      rw [h8] at hoff
      cases hoff

end Example

end Angie
