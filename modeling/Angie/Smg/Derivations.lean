import Mathlib.Data.BitVec
import Mathlib.Algebra.BigOperators.Group.List.Basic
import Angie.Smg.Functional

/-!
# Composing derivations

A pointer that was derived from an allocated one by constant offsets lies at their sum: every edge of it that an
operation leaves or makes has an offset with this constant (`Edit.liesAt`, `run_liesAt`). The container interns its
constants, so two pointers that were derived from one by offsets with the same sum see the same fields, whatever
happened in between (`derivations_compose`).
-/

namespace Angie

open Exec KeyedList Trace

/-! ## Edges of a value -/

/-- The offset of every edge of the value is the constant. -/
def MemState.LiesAt (s : MemState) (v : ValueId) (c : Word) : Prop :=
  ∀ e, s.Edge e → e.value = v → s.vc.constantContainer[e.targetOffset]? = some c

section LiesAt

variable {s t : MemState} {v : ValueId} {oid : ObjectId} {c : Word}

/-- The edge copies the value and the offset of another. -/
def MemState.Copied (s : MemState) (e : PtEdge) : Prop :=
  ∃ a, s.Edge a ∧ a.value = e.value ∧ a.targetOffset = e.targetOffset

theorem MemState.Edge.copied {e : PtEdge} (h : s.Edge e) : s.Copied e := ⟨e, h, rfl, rfl⟩

/-- An edge that a change leaves or makes is a copy, or its value is a constant or was on no edge. -/
theorem Edit.edge_cases (h : Edit s t) (hs : GraphOk s) {e : PtEdge} (he : t.Edge e) :
    s.Copied e ∨ s.vc.isConstant e.value = true ∨ s.Unused e.value := by
  cases h with
  | container => exact Or.inl he.copied
  | unknown _ hnone =>
    rcases MemState.edge_addHandle.1 he with he | rfl
    · exact Or.inl he.copied
    · exact Or.inr (Or.inr (unused_of_unknown hs hnone))
  | derive _ _ _ hnew =>
    rcases MemState.edge_addHandle.1 he with he | rfl
    · exact Or.inl he.copied
    · exact Or.inr hnew
  | allocate _ hun _ =>
    rcases MemState.edge_addHandle.1 he with he | rfl
    · rcases MemState.edge_setObject he with he | he
      · exact Or.inl he.copied
      · cases he
    · exact Or.inr (Or.inr hun)
  | load ho hm =>
    rcases MemState.edge_addHandle.1 he with he | rfl
    · exact Or.inl he.copied
    · exact Or.inl ⟨_, Or.inr ⟨_, _, ho, hm⟩, rfl, rfl⟩
  | plain _ ho _ _ =>
    rcases MemState.edge_setObject he with he | he
    · exact Or.inl he.copied
    · exact Or.inl ⟨e, Or.inr ⟨_, _, ho, he⟩, rfl, rfl⟩
  | pointer _ ho _ hh =>
    rcases MemState.edge_setObject he with he | he
    · exact Or.inl he.copied
    · rcases mem_upsert he with he | ⟨a, _, _, rfl⟩ | rfl
      · exact Or.inl ⟨e, Or.inr ⟨_, _, ho, he⟩, rfl, rfl⟩
      · exact Or.inl ⟨_, Or.inl hh, rfl, rfl⟩
      · exact Or.inl ⟨_, Or.inl hh, rfl, rfl⟩
  | hide _ ho _ _ =>
    rcases MemState.edge_setObject he with he | he
    · exact Or.inl he.copied
    · rcases mem_modifyFirst he with he | ⟨a, ha, _, rfl⟩
      · exact Or.inl ⟨e, Or.inr ⟨_, _, ho, he⟩, rfl, rfl⟩
      · exact Or.inl ⟨a, Or.inr ⟨_, _, ho, ha⟩, rfl, rfl⟩
  | free _ _ =>
    obtain ⟨a, ha, rfl⟩ := MemState.edge_freed he
    exact Or.inl ⟨a, ha, (a.retarget_value _).symm, (a.retarget_targetOffset _).symm⟩

/-- Changes keep what is bound. -/
theorem Edit.bound (h : Edit s t) (hs : GraphOk s) {o : ValueId} (ho : s.vc.constantContainer[o]? = some c) :
    t.vc.constantContainer[o]? = some c := by
  cases h with
  | container hext => exact hext.bound hs.const ho
  | _ => exact ho

/-- Every elementary change keeps the offset of a pointer into a region. -/
theorem Edit.liesAt (h : Edit s t) (hs : GraphOk s) (ht : Tracks s v oid) (hv : s.LiesAt v c) : t.LiesAt v c := by
  intro e he hev
  obtain ⟨a, ha, hav, hao⟩ : s.Copied e := by
    rcases h.edge_cases hs he with hc | hconst | hun
    · exact hc
    · rw [hev] at hconst
      exact absurd hconst ht.not_constant
    · obtain ⟨a, ha, hav⟩ := ht.held
      exact absurd (hav.trans hev.symm) (hun a (Or.inl ha))
  rw [← hao]
  exact h.bound hs (hv a ha (hav.trans hev))

theorem Tracks.resolve_edge (ht : Tracks s v oid) : s.Edge (s.resolve v) ∧ (s.resolve v).value = v := by
  have hmem := resolve_mem_touch s v
  rw [ht.touch] at hmem
  exact ⟨Or.inl hmem, resolve_value s v⟩

end LiesAt

/-! ## Derivations by constants -/

/-- The value is the pointer to the region that an allocation returned, to which the constants were added one after
another, first one first, with any operations in between. -/
inductive PointerAt (oid : ObjectId) : GraphHistory → List Word → ValueId → Prop
  | allocate {es : GraphHistory} {e : Event MemState GraphOp (Except Exn (Option ValueId))} {type : Ty}
      {ms : MemorySpace} {v : ValueId} : e.op = .allocateRegion type ms → e.pre.statics.nextObjectIdToGive = oid →
      e.out = .ok (some v) → PointerAt oid (e :: es) [] v
  | derive {es : GraphHistory} {e : Event MemState GraphOp (Except Exn (Option ValueId))} {p offset v : ValueId}
      {cs : List Word} {a : Word} : PointerAt oid es cs p → e.op = .createDerivedPointer p offset →
      e.pre.vc.constantContainer[offset]? = some a → e.out = .ok (some v) → PointerAt oid (e :: es) (cs ++ [a]) v
  | later {es : GraphHistory} {e : Event MemState GraphOp (Except Exn (Option ValueId))} {v : ValueId}
      {cs : List Word} : PointerAt oid es cs v → PointerAt oid (e :: es) cs v

/-- The value is what a pointer into some region, itself obtained so, became by adding the constants. -/
inductive DerivedFrom (p : ValueId) : GraphHistory → List Word → ValueId → Prop
  | refl {oid : ObjectId} {es : GraphHistory} {cs : List Word} : PointerAt oid es cs p → DerivedFrom p es [] p
  | derive {es : GraphHistory} {e : Event MemState GraphOp (Except Exn (Option ValueId))} {q offset v : ValueId}
      {as : List Word} {a : Word} : DerivedFrom p es as q → e.op = .createDerivedPointer q offset →
      e.pre.vc.constantContainer[offset]? = some a → e.out = .ok (some v) → DerivedFrom p (e :: es) (as ++ [a]) v
  | later {es : GraphHistory} {e : Event MemState GraphOp (Except Exn (Option ValueId))} {v : ValueId}
      {as : List Word} : DerivedFrom p es as v → DerivedFrom p (e :: es) as v

theorem PointerAt.pointerInto {oid : ObjectId} {es : GraphHistory} {cs : List Word} {v : ValueId}
    (h : PointerAt oid es cs v) : PointerInto oid es v := by
  induction h with
  | allocate hop hid hout =>
    refine Or.inr ⟨hout, ?_⟩
    rw [hop]
    exact hid
  | derive _ hop _ hout ih =>
    refine Or.inr ⟨hout, ?_⟩
    rw [hop]
    exact ih
  | later _ ih => exact Or.inl ih

/-- The constants follow those of the first pointer. -/
theorem DerivedFrom.pointerAt {p v : ValueId} {es : GraphHistory} {as : List Word} (h : DerivedFrom p es as v) :
    ∃ oid cs, PointerAt oid es cs p ∧ PointerAt oid es (cs ++ as) v := by
  induction h with
  | @refl oid es cs hp => exact ⟨oid, cs, hp, by rwa [List.append_nil]⟩
  | derive _ hop ha hout ih =>
    obtain ⟨oid, cs, hp, hq⟩ := ih
    refine ⟨oid, cs, hp.later, ?_⟩
    rw [← List.append_assoc]
    exact hq.derive hop ha hout
  | later _ ih =>
    obtain ⟨oid, cs, hp, hv⟩ := ih
    exact ⟨oid, cs, hp.later, hv.later⟩

section Runs

variable [DataLayout] {es : GraphHistory} {s : MemState} {v : ValueId} {oid : ObjectId}

/-- A new region is pointed to at its start. -/
theorem liesAt_allocate (hs : GraphOk s) {type : Ty} {ms : MemorySpace}
    (h : ((GraphOp.allocateRegion type ms).exec s).1 = .ok (some v)) :
    ((GraphOp.allocateRegion type ms).exec s).2.LiesAt v 0 := by
  have hadm : (GraphOp.allocateRegion type ms).Adm s := nofun
  have hs' := Edits.ok (exec_edits hs hadm) hs
  obtain ⟨size, t, -, -, -, -, -, heq⟩ := allocateRegion_spec hs type ms
  rw [GraphOp.exec_of_ok (.allocateRegion type ms) rfl heq] at h hs' ⊢
  cases h
  intro e he hv
  rcases MemState.edge_addHandle.1 he with he | rfl
  · rcases MemState.edge_setObject he with he | he
    · exact absurd hv (hs.unused_next (Int.le_refl _) e he)
    · cases he
  · exact hs'.bound_zero

/-- A derivation by a constant adds it to the offset. -/
theorem liesAt_derive (hs : GraphOk s) {p offset : ValueId} {c a : Word} (ht : Tracks s p oid) (hp : s.LiesAt p c)
    (ha : s.vc.constantContainer[offset]? = some a)
    (h : ((GraphOp.createDerivedPointer p offset).exec s).1 = .ok (some v)) :
    ((GraphOp.createDerivedPointer p offset).exec s).2.LiesAt v (c + a) := by
  obtain ⟨o, w, t, hd, heq⟩ := createDerivedPointer_spec hs ht.given offset
  rw [ht.touch] at heq
  rw [GraphOp.exec_of_ok (.createDerivedPointer p offset) rfl heq] at h ⊢
  cases h
  have hc := hp _ ht.resolve_edge.1 ht.resolve_edge.2
  obtain ⟨hnew, -⟩ := hd.value_unknown ht.abstracted
  intro e he hv
  rcases MemState.edge_addHandle.1 he with he | rfl
  · exact absurd hv (hs.unused_next hnew e he)
  · exact hd.offset_constants c a hc ha

/-- After every run, a pointer lies at the sum of the constants that were added to it. -/
theorem run_liesAt (h : GraphRun es s) : ∀ {oid cs v}, PointerAt oid es cs v → s.LiesAt v cs.sum := by
  refine h.invariant (I := fun es s => ∀ {oid cs v}, PointerAt oid es cs v → s.LiesAt v cs.sum) ?_ ?_
  · intro s _ oid cs v hv
    cases hv
  · intro es s op hr ha ih oid cs v hv
    have hs := run_graphOk hr
    cases hv with
    | @allocate _ _ type ms _ hop hid hout =>
      have hop' : op = .allocateRegion type ms := hop
      subst hop'
      exact liesAt_allocate hs hout
    | @derive _ _ p offset _ cs a hp hop hc hout =>
      have hop' : op = .createDerivedPointer p offset := hop
      subst hop'
      rw [List.sum_append, List.sum_singleton]
      exact liesAt_derive hs (run_tracks hr hp.pointerInto) (ih hp) hc hout
    | later hv =>
      have hboth := (exec_edits hs ha).induct (P := fun t => Tracks t v oid ∧ t.LiesAt v cs.sum)
        (fun h hs ht => ⟨h.tracks ht.1, h.liesAt hs ht.1 ht.2⟩) hs ⟨run_tracks hr hv.pointerInto, ih hv⟩
      exact hboth.2

/-! ## The law -/

/-- Both pointers have the same target at the same offset, so that every read and every write goes to the same field. -/
def MemState.SameFields (s : MemState) (q r : ValueId) : Prop :=
  (∃ e e', findPtEdge q s = .ok e s ∧ findPtEdge r s = .ok e' s ∧ e.targetObjectId = e'.targetObjectId ∧
    e.targetOffset = e'.targetOffset) ∧
  (∀ type, readValue q type s = readValue r type s) ∧ ∀ value type, writeValue q value type s = writeValue r value type s

omit [DataLayout] in
theorem sameFields_of_edges {q r : ValueId} {e e' : PtEdge} (he : findPtEdge q s = .ok e s)
    (he' : findPtEdge r s = .ok e' s) (ht : e.targetObjectId = e'.targetObjectId)
    (ho : e.targetOffset = e'.targetOffset) : s.SameFields q r := by
  refine ⟨⟨e, e', he, he', ht, ho⟩, fun type => ?_, fun value type => ?_⟩
  · unfold readValue
    rw [bind_of_ok he, bind_of_ok he', ht, ho]
  · unfold writeValue
    rw [bind_of_ok he, bind_of_ok he']
    unfold writeEdge
    rw [ht, ho]

omit [DataLayout] in
theorem Tracks.find (ht : Tracks s v oid) : findPtEdge v s = .ok (s.resolve v) s := by
  rw [findPtEdge_eq, ht.touch]

/-- A value that is derived is new. -/
theorem derive_new (hs : GraphOk s) {p offset : ValueId} (ht : Tracks s p oid)
    (h : ((GraphOp.createDerivedPointer p offset).exec s).1 = .ok (some v)) : ¬ s.Given v := by
  obtain ⟨o, w, t, hd, heq⟩ := createDerivedPointer_spec hs ht.given offset
  rw [GraphOp.exec_of_ok (.createDerivedPointer p offset) rfl heq] at h
  cases h
  exact fun hg => Int.lt_irrefl _ (Int.lt_of_lt_of_le hg.2 (hd.value_unknown ht.abstracted).1)

theorem DerivedFrom.tracks (h : GraphRun es s) {p : ValueId} {as : List Word} (hv : DerivedFrom p es as v) :
    ∃ oid, Tracks s p oid ∧ Tracks s v oid := by
  obtain ⟨oid, cs, hp, hq⟩ := hv.pointerAt
  exact ⟨oid, run_tracks h hp.pointerInto, run_tracks h hq.pointerInto⟩

/-- A value was derived in one way only. -/
theorem derivedFrom_unique (h : GraphRun es s) {p : ValueId} : ∀ {as bs v}, DerivedFrom p es as v →
    DerivedFrom p es bs v → as = bs := by
  refine h.invariant (I := fun es _ => ∀ {as bs v}, DerivedFrom p es as v → DerivedFrom p es bs v → as = bs) ?_ ?_
  · intro s _ as bs v ha
    cases ha with
    | refl hp => cases hp
  · intro es s op hr ha ih as bs v has hbs
    have hs := run_graphOk hr
    -- the value of the last derivation is on no earlier one
    have hnew : ∀ {q offset xs ys w}, DerivedFrom p es xs q → op = .createDerivedPointer q offset →
        (op.exec s).1 = .ok (some w) → ¬ DerivedFrom p es ys w := by
      intro q offset xs ys w hq hop hout hw
      subst hop
      obtain ⟨_, -, hqt⟩ := hq.tracks hr
      obtain ⟨_, -, hwt⟩ := hw.tracks hr
      exact derive_new hs hqt hout hwt.given
    have hbase : ∀ {xs w}, DerivedFrom p es xs w → DerivedFrom p es [] p := fun hw => by
      obtain ⟨oid, cs, hp, -⟩ := hw.pointerAt
      exact .refl hp
    cases has with
    | refl hp =>
      cases hbs with
      | refl => rfl
      | later hbs => exact ih (hbase hbs) hbs
      | derive hq hop _ hout => exact absurd (hbase hq) (hnew hq hop hout)
    | later has =>
      cases hbs with
      | refl => exact ih has (hbase has)
      | later hbs => exact ih has hbs
      | derive hq hop _ hout => exact absurd has (hnew hq hop hout)
    | @derive _ _ q offset _ xs a hq hop hc hout =>
      cases hbs with
      | refl => exact absurd (hbase hq) (hnew hq hop hout)
      | later hbs => exact absurd hbs (hnew hq hop hout)
      | @derive _ _ q' offset' _ ys b hq' hop' hc' hout' =>
        have heq : GraphOp.createDerivedPointer q offset = .createDerivedPointer q' offset' := hop.symm.trans hop'
        cases heq
        rw [hc] at hc'
        cases hc'
        rw [ih hq hq']

/-- In every run, a pointer that was derived from an allocated one can be derived further, and two pointers derived from
it by constants with the same sum, as any sequence and its sum or any permutation of it have, see the same fields
although they are different values, whatever operations came in between. -/
theorem derivations_compose (h : GraphRun es s) {p : ValueId} :
    (∀ as q, DerivedFrom p es as q → ∀ offset, ∃ r, ((GraphOp.createDerivedPointer q offset).exec s).1 = .ok (some r)) ∧
    ∀ as bs q r, DerivedFrom p es as q → DerivedFrom p es bs r → as.sum = bs.sum →
      s.SameFields q r ∧ (as ≠ bs → q ≠ r) := by
  have hs := run_graphOk h
  constructor
  · intro as q _ offset
    obtain ⟨o, t, r, u, -, -, heq⟩ := createDerivedPointer_run s q offset
    exact ⟨r, by rw [GraphOp.exec_of_ok (.createDerivedPointer q offset) rfl heq]⟩
  · intro as bs q r hq hr hsum
    refine ⟨?_, fun hne heq => hne (derivedFrom_unique h hq (heq ▸ hr))⟩
    obtain ⟨oid, cs, hp, hqa⟩ := hq.pointerAt
    obtain ⟨oid', cs', hp', hra⟩ := hr.pointerAt
    have hpt := run_tracks h hp.pointerInto
    have hpt' := run_tracks h hp'.pointerInto
    have hqt := run_tracks h hqa.pointerInto
    have hrt := run_tracks h hra.pointerInto
    -- the pointer itself is at one place only
    have hcs : cs.sum = cs'.sum := by
      have h1 := run_liesAt h hp _ hpt.resolve_edge.1 hpt.resolve_edge.2
      have h2 := run_liesAt h hp' _ hpt.resolve_edge.1 hpt.resolve_edge.2
      exact Option.some.inj (h1.symm.trans h2)
    have htarget : (s.resolve q).targetObjectId = (s.resolve r).targetObjectId := by
      rw [hqt.resolve, hrt.resolve, ← hpt.resolve, ← hpt'.resolve]
    have hoffset : (s.resolve q).targetOffset = (s.resolve r).targetOffset := by
      have h1 := run_liesAt h hqa _ hqt.resolve_edge.1 hqt.resolve_edge.2
      have h2 := run_liesAt h hra _ hrt.resolve_edge.1 hrt.resolve_edge.2
      rw [List.sum_append, hcs, hsum, ← List.sum_append] at h1
      exact hs.const.interned _ _ _ h1 h2
    exact sameFields_of_edges hqt.find hrt.find htarget hoffset

end Runs

section Example

attribute [local instance] Ty.x86

/-- A pointer is moved by `3` and then, after the region was freed, by `5`; another one is moved by `8` at once. -/
def movedBoth : GraphHistory × MemState :=
  play GraphOp.exec [] MemState.new [.allocateRegion (.int 8) .heap, .container (.createConstIntVal 3),
    .container (.createConstIntVal 5), .container (.createConstIntVal 8), .createDerivedPointer 1 3, .free 1,
    .createDerivedPointer 6 4, .createDerivedPointer 1 5]

theorem movedBoth_run : GraphRun movedBoth.1 movedBoth.2 := Run.play (Run.start rfl) (by decide +kernel)

theorem movedBoth_steps : DerivedFrom 1 movedBoth.1 [3, 5] 7 := by
  show DerivedFrom 1 movedBoth.1 ([] ++ [3] ++ [5]) 7
  exact .later (.derive (.later (.derive (.refl (.later (.later (.later (.allocate rfl rfl rfl))))) rfl rfl rfl))
    rfl rfl rfl)

theorem movedBoth_once : DerivedFrom 1 movedBoth.1 [8] 8 := by
  show DerivedFrom 1 movedBoth.1 ([] ++ [8]) 8
  exact .derive (.refl (.later (.later (.later (.later (.later (.later (.allocate rfl rfl rfl)))))))) rfl rfl rfl

theorem movedBoth_compose : movedBoth.2.SameFields 7 8 ∧ ([3, 5] ≠ [(8 : Word)] → (7 : ValueId) ≠ 8) :=
  (derivations_compose movedBoth_run).2 _ _ _ _ movedBoth_steps movedBoth_once (by decide)

end Example

end Angie
