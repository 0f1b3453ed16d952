import Angie.Semantics.Memory
import Angie.Semantics.Values

/-!
# Programs that follow the machine

A state of the analysis models a store (`Models`) when its container and graph mirror the memory under a reading and
the mappings of its frames have an id for every register that is set, which is read as the datum of the register. A
view is a reading at the counters of a moment; a later view keeps the readings of the ids that were given out.

`Follows P W st m out R`: started in what `W` models as `st`, the program `m` ends in what a later view models as
`out` and answers by `R`. It may throw instead, but it does not refuse a branch, and where the machine fails it throws.
The rules follow the structure of the program, as those of `Triple` do.
-/

namespace Angie

open Exec Llvm

/-! ## Views -/

/-- A reading at the counters of a moment. -/
structure View where
  counters : Statics
  reading : Reading

namespace View

structure Le (W W' : View) : Prop where
  counters : W.counters.Le W'.counters
  value : ∀ v, W.counters.Given v → W'.reading.value v = W.reading.value v

/-- The id is read as the datum. -/
structure Has (W : View) (v : ValueId) (d : Datum) : Prop where
  given : W.counters.Given v
  stands : (W.reading.value v).Stands d

/-- The registers that are set have ids in the mapping. -/
def Maps (W : View) (m : Mapper) (registers : Registers) : Prop :=
  ∀ id d, registers id = some d → ∃ v, m[id]? = some v ∧ W.Has v d

structure Suspends (W : View) (frame : Frame) (call : Activation NodeId) : Prop where
  mapping : W.Maps frame.mapping call.registers
  target : frame.retFrontendId = call.target
  node : frame.node = call.back

variable {W W' W'' : View}

theorem Le.refl (W : View) : W.Le W := ⟨Statics.Le.refl _, fun _ _ => rfl⟩

theorem Le.trans (h : W.Le W') (h' : W'.Le W'') : W.Le W'' where
  counters := h.counters.trans h'.counters
  value := fun v hv => (h'.value v (h.counters.given hv)).trans (h.value v hv)

theorem Has.later {v : ValueId} {d : Datum} (hv : W.Has v d) (h : W.Le W') : W'.Has v d where
  given := h.counters.given hv.given
  stands := by
    rw [h.value v hv.given]
    exact hv.stands

theorem Maps.later {m : Mapper} {registers : Registers} (hm : W.Maps m registers) (h : W.Le W') :
    W'.Maps m registers := fun id d hd => (hm id d hd).imp fun _ hv => ⟨hv.1, hv.2.later h⟩

/-- An id gets a value, which is read as its datum if it has one. -/
theorem Maps.update {m : Mapper} {registers : Registers} (hm : W.Maps m registers) {id : FrontendId} {v : ValueId}
    {d : Option Datum} (hv : ∀ e, d = some e → W.Has v e) :
    W.Maps (m.insert id v) (Function.update registers id d) := by
  intro id' d' hd
  rw [Std.TreeMap.getElem?_insert]
  by_cases hid : id' = id
  · subst hid
    rw [Function.update_self] at hd
    exact ⟨v, by simp, hv d' hd⟩
  · rw [Function.update_of_ne hid] at hd
    obtain ⟨w, hw, hhas⟩ := hm id' d' hd
    refine ⟨w, ?_, hhas⟩
    rw [if_neg (by simpa using Ne.symm hid), hw]

theorem Maps.insert {m : Mapper} {registers : Registers} (hm : W.Maps m registers) {id : FrontendId} {v : ValueId}
    {d : Datum} (hv : W.Has v d) : W.Maps (m.insert id v) (Function.update registers id (some d)) :=
  hm.update fun _ he => Option.some.inj he ▸ hv

theorem Suspends.later {frame : Frame} {call : Activation NodeId} (hf : W.Suspends frame call) (h : W.Le W') :
    W'.Suspends frame call := ⟨hf.mapping.later h, hf.target, hf.node⟩

end View

/-- The word that the container has for a constant of the program. -/
def Datum.constant : Datum → Option Word
  | .int _ x => some (x.setWidth 64)
  | .null => some 0
  | _ => none

theorem Datum.constant_stands {d : Datum} {u : Word} (h : d.constant = some u) : (Meaning.constant u).Stands d := by
  cases d with
  | int w x =>
    cases h
    refine .int rfl ?_ fun _ => rfl
    rw [BitVec.setWidth_setWidth_of_le _ w.le, BitVec.setWidth_eq]
  | null =>
    cases h
    exact .null
  | wild | junk | ptr => cases h

/-- The global ids of the constants are bound to them. -/
def Program.Binds (P : Program) (W : View) : Prop :=
  ∀ id d, P.ctx.globalMapping.contains id = true → P.constants id = some d →
    ∃ v u, P.ctx.globalMapping[id]? = some v ∧ W.counters.Given v ∧ d.constant = some u ∧ W.reading.value v = .constant u

theorem Program.Binds.later {P : Program} {W W' : View} (hb : P.Binds W) (h : W.Le W') : P.Binds W' := by
  intro id d hid hd
  obtain ⟨v, u, hv, hgiven, hu, hval⟩ := hb id d hid hd
  exact ⟨v, u, hv, h.counters.given hgiven, hu, (h.value v hgiven).trans hval⟩

/-! ## Models -/

section Models

variable [DataLayout]

structure Models (P : Program) (W : View) (s : OpState) (st : Store) : Prop where
  counters : s.statics = W.counters
  ok : StateOk P.ctx s
  mirrors : Mirrors W.reading s.toMem st.blocks st.births
  binds : P.Binds W
  registers : W.Maps s.state.localMapping st.registers
  calls : List.Forall₂ W.Suspends s.state.stack st.calls

variable {P : Program} {W W' : View} {s t : OpState} {st : Store}

theorem Models.given (h : Models P W s st) {v : ValueId} : W.counters.Given v ↔ s.toMem.Given v := by
  rw [← h.counters]
  exact Iff.rfl

/-- The value of an operand is read as its datum. -/
theorem Models.getValue (h : Models P W s st) {var : FrontendIdTypePair} {d : Datum} (hd : P.value st var = some d) :
    ∃ v, s.state.getValue P.ctx var = .ok v ∧ W.Has v d := by
  unfold Program.value at hd
  unfold AnalysisState.getValue
  split at hd
  · rename_i hglobal
    obtain ⟨v, u, hv, hgiven, hu, hval⟩ := h.binds var.id d hglobal hd
    refine ⟨v, by rw [hv], hgiven, ?_⟩
    rw [hval]
    exact Datum.constant_stands hu
  · rename_i hlocal
    have hnone : P.ctx.globalMapping[var.id]? = none := by
      rw [Bool.not_eq_true, Std.TreeMap.contains_eq_isSome_getElem?] at hlocal
      exact Option.isSome_eq_false_iff.1 hlocal |> Option.isNone_iff_eq_none.1
    obtain ⟨v, hv, hhas⟩ := h.registers var.id d hd
    exact ⟨v, by rw [hnone, hv], hhas⟩

/-- Only the memory changes, and the counters. -/
theorem Models.withMem (h : Models P W s st) (hle : W.Le W') (hcounters : t.statics = W'.counters)
    (hok : StateOk P.ctx t) {blocks : List Block} {births : ℕ} (hm : Mirrors W'.reading t.toMem blocks births)
    (hlocal : t.state.localMapping = s.state.localMapping) (hstack : t.state.stack = s.state.stack) :
    Models P W' t { st with blocks := blocks, births := births } where
  counters := hcounters
  ok := hok
  mirrors := hm
  binds := h.binds.later hle
  registers := hlocal ▸ h.registers.later hle
  calls := hstack ▸ h.calls.imp fun _ _ hf => hf.later hle

theorem Models.assign (h : Models P W s st) {var : FrontendIdTypePair} {v : ValueId} {d : Datum} (hv : W.Has v d) :
    Models P W (s.assign var v) (st.assign var d) where
  counters := h.counters
  ok := by
    have hgiven : s.statics.Given v := h.counters ▸ hv.given
    exact h.ok.withFrames rfl rfl (h.ok.locals.insert hgiven) h.ok.frames
  mirrors := h.mirrors
  binds := h.binds
  registers := h.registers.insert hv
  calls := h.calls

/-- A state models what it did while others draw from the counters. -/
theorem Models.later {c d : Statics} {state : AnalysisState} (h : Models P W ⟨c, state⟩ st) (hcd : c.Le d) :
    ∃ W', W.Le W' ∧ Models P W' ⟨d, state⟩ st := by
  have hgrows : Grows (OpState.toMem ⟨c, state⟩).toVc (OpState.toMem ⟨d, state⟩).toVc :=
    grows_statics hcd.values hcd.constraints hcd.objects
  have hcounters : c = W.counters := h.counters
  subst hcounters
  have hold : ∀ v, W.counters.Given v → (W.reading.extend (OpState.toMem ⟨W.counters, state⟩).toVc
      (OpState.toMem ⟨d, state⟩).toVc .other).value v = W.reading.value v := fun v hv => if_pos hv
  have hm := h.mirrors.grow h.ok.graphOk hgrows (δ := .other) trivial
  exact ⟨⟨d, _⟩, ⟨hcd, hold⟩, h.withMem ⟨hcd, hold⟩ rfl (h.ok.later hcd) hm rfl rfl⟩

end Models

/-! ## Programs -/

section Follows

variable [DataLayout] {P : Program} {W : View} {st : Store} {out : Option Store} {α β : Type}

abbrev Follows (P : Program) (W : View) (st : Store) (m : OpM α) (out : Option Store) (R : View → α → Prop) : Prop :=
  Triple (fun s => Models P W s st) m
    (fun a t => ∃ W' st', out = some st' ∧ W.Le W' ∧ Models P W' t st' ∧ R W' a) (fun e _ => e.isBranch = false)

theorem follows_pure {R : View → α → Prop} {a : α} (h : R W a) : Follows P W st (pure a) (some st) R :=
  triple_pure fun _ hs => ⟨W, st, rfl, .refl W, hs, h⟩

theorem follows_throw {R : View → α → Prop} {e : Exn} (h : e.isBranch = false) : Follows P W st (throw e) out R :=
  triple_throw fun _ _ => h

/-- The second part goes on from the later view that the first one ends in. -/
theorem follows_bind {st₁ : Store} {Q : View → α → Prop} {R : View → β → Prop} {m : OpM α} {f : α → OpM β}
    (hm : Follows P W st m (some st₁) Q) (hf : ∀ a W₁, W.Le W₁ → Q W₁ a → Follows P W₁ st₁ (f a) out R) :
    Follows P W st (m >>= f) out R := by
  refine triple_bind hm fun a t ht => ?_
  obtain ⟨W₁, st', heq, hle, hmodels, hq⟩ := ht
  cases heq
  have hrest := hf a W₁ hle hq t hmodels
  cases hr : f a t with
  | ok b u =>
    rw [hr] at hrest
    obtain ⟨W₂, st₂, hout, hle', hmodels', hR⟩ := hrest
    exact ⟨W₂, st₂, hout, hle.trans hle', hmodels', hR⟩
  | error e u =>
    rw [hr] at hrest
    exact hrest

theorem follows_weaken {Q R : View → α → Prop} {m : OpM α} (hm : Follows P W st m out Q)
    (h : ∀ W' a, Q W' a → R W' a) : Follows P W st m out R := by
  refine hm.weaken (fun _ hs => hs) (fun a t ht => ?_) fun _ _ he => he
  obtain ⟨W', st', hout, hle, hmodels, hq⟩ := ht
  exact ⟨W', st', hout, hle, hmodels, h W' a hq⟩

/-- The arguments of an operation are known. -/
theorem follows_ofExcept {R : View → β → Prop} {x : Except Exn α} {a : α} {f : α → OpM β} (hx : x = .ok a)
    (hf : Follows P W st (f a) out R) : Follows P W st (ofExcept x >>= f) out R := by
  subst hx
  exact fun s hs => hf s hs

theorem follows_get {R : View → β → Prop} {f : OpState → OpM β}
    (hf : ∀ s, Models P W s st → Follows P W st (f s) out R) : Follows P W st (get >>= f) out R :=
  triple_get fun s hs t ht => hf s hs t (ht ▸ hs)

theorem follows_getValue {var : FrontendIdTypePair} {d : Datum} (hd : P.value st var = some d) :
    Follows P W st (OpM.getValue P.ctx var) (some st) (fun W' v => W'.Has v d) := by
  intro s hs
  obtain ⟨v, hv, hhas⟩ := hs.getValue hd
  rw [OpM.getValue_run hv]
  exact ⟨W, st, rfl, .refl W, hs, hhas⟩

theorem follows_assign {var : FrontendIdTypePair} {v : ValueId} {d : Datum} (hv : W.Has v d) :
    Follows P W st (OpM.assignValue var v) (some (st.assign var d)) (fun _ _ => True) :=
  triple_modify fun _ hs => ⟨W, _, rfl, .refl W, hs.assign hv, trivial⟩

/-- The end of an operation that has a target. -/
theorem follows_assignTarget {x : Except Exn FrontendIdTypePair} {target : FrontendIdTypePair} (hx : x = .ok target)
    {v : ValueId} {d : Datum} (hv : W.Has v d) :
    Follows P W st (do let target ← ofExcept x; OpM.assignValue target v) (some (st.assign target d))
      (fun _ _ => True) := follows_ofExcept hx (follows_assign hv)

/-! ### Calls of the container -/

/-- A call that assumes nothing, with what it makes up read as `δ`. -/
theorem follows_callVc {m : VcM ValueId} (op : VcOp) (hop : op.run = some <$> m)
    (hassumes : ∀ zero, op.assumed zero = none) {δ : Meaning} (hδ : δ.IsUnknown) {R : View → ValueId → Prop}
    (hanswer : ∀ s v t, Models P W s st → m s.toVc = .ok v t → Grows s.toVc t → Fresh s.toVc t v →
      R ⟨t.statics, W.reading.extend s.toVc t δ⟩ v)
    (hthrows : ∀ s e t, Models P W s st → m s.toVc = .error e t → e.isBranch = false) :
    Follows P W st (OpM.callVc m) (some st) R := by
  intro s hs
  cases hm : m s.toVc with
  | error e t =>
    rw [OpM.callVc_throws hm]
    exact hthrows s e t hs hm
  | ok v t =>
    have hrun := OpM.callVc_run hm
    have hok := (keepsOk_callVc op hop hassumes).ok ⟨hs.ok, Statics.Le.refl _⟩ hrun
    have hexec : op.exec s.toVc = (.ok (some v), t) := by
      have hmap : op.run s.toVc = .ok (some v) t := by
        rw [hop]
        change EStateM.map some m s.toVc = _
        rw [EStateM.map, hm]
      rw [VcOp.exec, hmap]
    have hgrows : Grows s.toVc t := by
      have hgrows : Grows s.toVc (op.exec s.toVc).2 := exec_grows (hassumes s.toVc.vc.zero)
      rwa [hexec] at hgrows
    have hfresh : Fresh s.toVc t v := by
      have hnew : Fresh s.toVc (op.exec s.toVc).2 v := exec_fresh hs.ok.graphOk.const (congrArg Prod.fst hexec)
      rwa [hexec] at hnew
    have hold : ∀ w, W.counters.Given w → (W.reading.extend s.toVc t δ).value w = W.reading.value w :=
      fun w hw => if_pos (hs.given.1 hw)
    have hle : W.Le ⟨t.statics, W.reading.extend s.toVc t δ⟩ := ⟨hs.counters ▸ le_of_extends hgrows.toExtends, hold⟩
    rw [hrun]
    exact ⟨_, st, rfl, hle, hs.withMem hle rfl hok.1.1 (hs.mirrors.grow hs.ok.graphOk hgrows hδ) rfl rfl,
      hanswer s v t hs hm hgrows hfresh⟩

/-- A call that yields a datum: what is made up may be it, and a constant must be. -/
theorem follows_yields {m : VcM ValueId} (op : VcOp) (hop : op.run = some <$> m)
    (hassumes : ∀ zero, op.assumed zero = none) {δ : Meaning} (hδ : δ.IsUnknown) {d : Datum} (hd : δ.Stands d)
    (hconst : ∀ s v t u, Models P W s st → m s.toVc = .ok v t → t.vc.constantContainer[v]? = some u →
      (Meaning.constant u).Stands d)
    (hthrows : ∀ s e t, Models P W s st → m s.toVc = .error e t → e.isBranch = false) :
    Follows P W st (OpM.callVc m) (some st) (fun W' v => W'.Has v d) := by
  refine follows_callVc op hop hassumes hδ (fun s v t hs hm hgrows hfresh => ⟨hfresh.given, ?_⟩) hthrows
  cases hv : t.vc.constantContainer[v]? with
  | some u =>
    have hgrown := hs.mirrors.grow hs.ok.graphOk hgrows hδ
    have hvalue : (W.reading.extend s.toVc t δ).value v = .constant u := (hgrown.constants v u).1 hv
    change ((W.reading.extend s.toVc t δ).value v).Stands d
    rw [hvalue]
    exact hconst s v t u hs hm hv
  | none =>
    have hnot : ¬ s.toVc.Given v := by
      rcases hfresh.new with hnew | hnew
      · exact fun hg => Int.lt_irrefl _ (Int.lt_of_lt_of_le hg.2 hnew)
      · obtain ⟨u, hu⟩ := isConstant_iff.1 hnew
        cases hu.symm.trans hv
    have hvalue : (W.reading.extend s.toVc t δ).value v = δ := Reading.extend_unknown hnot hv
    change ((W.reading.extend s.toVc t δ).value v).Stands d
    rwa [hvalue]

theorem follows_createVal {d : Datum} {δ : Meaning} (hδ : δ.IsUnknown) (hd : δ.Stands d) (type : Ty) :
    Follows P W st (OpM.callVc (createVal type)) (some st) (fun W' v => W'.Has v d) := by
  refine follows_yields (.createVal type) rfl (fun _ => rfl) hδ hd (fun s v t u hs hm hu => ?_) fun s e t _ hm => ?_
  · rw [createVal_apply] at hm
    cases hm
    cases (constant_next hs.ok.graphOk.const (Int.le_refl _)).symm.trans hu
  · rw [createVal_apply] at hm
    cases hm

theorem follows_createConstIntVal (value : Word) :
    Follows P W st (OpM.callVc (createConstIntVal value)) (some st)
      (fun W' v => W'.counters.Given v ∧ W'.reading.value v = .constant value) := by
  refine follows_callVc (.createConstIntVal value) rfl (fun _ => rfl) (δ := .other) trivial
    (fun s v t hs hm hgrows hfresh => ⟨hfresh.given, ?_⟩) fun s e t _ hm => ?_
  · have hgrown := hs.mirrors.grow hs.ok.graphOk hgrows (δ := .other) trivial
    exact (hgrown.constants v value).1 (createConstIntVal_ok hm).2
  · obtain ⟨v, u, hok, -⟩ := createConstIntVal_spec value s.toVc
    cases hok.symm.trans hm

/-! ### Operations of the graph -/

/-- An operation that goes on with the memory. -/
theorem follows_callGraph {m : GraphM α} {Q : Statics → α → Prop}
    (hkeeps : KeepsOk P.ctx W.counters (OpM.callGraph m) Q) {blocks : List Block} {births : ℕ} {R : View → α → Prop}
    (h : ∀ s, Models P W s st → ∃ a t ρ', m s.toMem = .ok a t ∧ Continues W.reading s.toMem ρ' t blocks births ∧
      (Q t.statics a → R ⟨t.statics, ρ'⟩ a)) :
    Follows P W st (OpM.callGraph m) (some { st with blocks := blocks, births := births }) R := by
  intro s hs
  obtain ⟨a, t, ρ', hm, hcontinues, hR⟩ := h s hs
  have hrun := OpM.callGraph_run hm
  have hok := hkeeps.ok ⟨hs.ok, hs.counters ▸ Statics.Le.refl _⟩ hrun
  have hle : W.Le ⟨t.statics, ρ'⟩ := ⟨hok.1.2, fun v hv => hcontinues.value v (hs.given.1 hv)⟩
  rw [hrun]
  exact ⟨_, _, rfl, hle, hs.withMem hle rfl hok.1.1 hcontinues.mirrors rfl rfl, hR hok.2⟩

omit [DataLayout] in
theorem OpM.callGraph_throws {s : OpState} {m : GraphM α} {e : Exn} {t : MemState} (h : m s.toMem = .error e t) :
    OpM.callGraph m s = .error e (s.withMem t) := by
  show zoom _ _ m s = _
  unfold zoom
  simp only [show m ⟨s.statics, s.state.vc, s.state.graph⟩ = _ from h]
  rfl

theorem follows_callGraph_throws {m : GraphM α} {R : View → α → Prop}
    (h : ∀ s, Models P W s st → ∃ e t, m s.toMem = .error e t ∧ e.isBranch = false) :
    Follows P W st (OpM.callGraph m) out R := by
  intro s hs
  obtain ⟨e, t, hm, he⟩ := h s hs
  rw [OpM.callGraph_throws hm]
  exact he

end Follows

end Angie
