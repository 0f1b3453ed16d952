import Angie.Lib.Triple
import Angie.Interp.Exploration
import Angie.Interp.Indexing
import Angie.Smg.Paths

/-!
# States that the interpreter reaches

The states of a pool draw ids from the same counters while each has a container, a graph and mappings of its own.
`StateOk` says of one of them, at the present counters, that its container is at the end of a path of container calls
and branches, that the container and the graph are at the end of a run of graph operations, and that the mappings of
all its frames and the global one hold ids that were given out. So everything that is proved of such paths and runs
holds of every state of the interpreter.

An operation keeps this, whether it returns or throws (`keepsOk_basic`, `keepsOk_branch`, `keepsOk_call`,
`keepsOk_ret`), a state keeps it while others count on (`StateOk.later`), and therefore all states of the pool have it,
in whatever order the loop takes them (`verify_stateOk`).
-/

namespace Angie

open Exec Llvm Trace

/-! ## The invariant -/

/-- `d` is reached from `c` by counting. -/
structure Statics.Le (c d : Statics) : Prop where
  values : c.nextIdToGive ≤ d.nextIdToGive
  constraints : c.nextConstraintIdToGive ≤ d.nextConstraintIdToGive
  objects : c.nextObjectIdToGive ≤ d.nextObjectIdToGive

def Statics.Given (c : Statics) (v : ValueId) : Prop := 0 ≤ v ∧ v < c.nextIdToGive

/-- Every value of the mapping was given out. -/
def Statics.Covers (c : Statics) (m : Mapper) : Prop := ∀ (id : FrontendId) v, m[id]? = some v → c.Given v

structure StateOk [DataLayout] (ctx : Context) (s : OpState) : Prop where
  memory : ∃ es, GraphRun es s.toMem
  path : ∃ es, PathRun es s.toMem.toVc
  globals : s.statics.Covers ctx.globalMapping
  locals : s.statics.Covers s.state.localMapping
  frames : ∀ frame ∈ s.state.stack, s.statics.Covers frame.mapping

namespace Statics

variable {c d e : Statics}

theorem Le.refl (c : Statics) : c.Le c := ⟨Int.le_refl _, Nat.le_refl _, Int.le_refl _⟩

theorem Le.trans (h : c.Le d) (h' : d.Le e) : c.Le e :=
  ⟨Int.le_trans h.values h'.values, Nat.le_trans h.constraints h'.constraints, Int.le_trans h.objects h'.objects⟩

theorem Le.given (h : c.Le d) {v : ValueId} (hv : c.Given v) : d.Given v := ⟨hv.1, Int.lt_of_lt_of_le hv.2 h.values⟩

theorem Le.covers (h : c.Le d) {m : Mapper} (hm : c.Covers m) : d.Covers m := fun id v hv => h.given (hm id v hv)

/-- Whatever was counted can have been counted elsewhere. -/
theorem Le.skip (h : c.Le d) : ∃ values constraints objects : ℕ, c.skip values constraints objects = d := by
  obtain ⟨h1, h2, h3⟩ := h
  obtain ⟨v, k, o⟩ := d
  refine ⟨(v - c.nextIdToGive).toNat, k - c.nextConstraintIdToGive, (o - c.nextObjectIdToGive).toNat, ?_⟩
  simp only [skip, Statics.mk.injEq] at h1 h2 h3 ⊢
  exact ⟨by lia, by lia, by lia⟩

theorem covers_empty (c : Statics) : c.Covers ∅ := fun id v h => by simp at h

theorem Covers.insert {m : Mapper} (hm : c.Covers m) {id : FrontendId} {v : ValueId} (hv : c.Given v) :
    c.Covers (m.insert id v) := by
  intro id' v' h
  rw [Std.TreeMap.getElem?_insert] at h
  split at h
  · cases h; exact hv
  · exact hm id' v' h

end Statics

section States

variable [DataLayout] {ctx : Context} {s t : OpState} {c d : Statics}

theorem StateOk.graphOk (h : StateOk ctx s) : GraphOk s.toMem := by
  obtain ⟨es, hr⟩ := h.memory
  exact run_graphOk hr

theorem StateOk.pathOk (h : StateOk ctx s) : ∃ es, PathOk es s.toMem.toVc := by
  obtain ⟨es, hr⟩ := h.path
  exact ⟨es, path_ok hr⟩

/-- A state is none the worse for others drawing from the counters. -/
theorem StateOk.later {state : AnalysisState} (h : StateOk ctx ⟨c, state⟩) (hcd : c.Le d) : StateOk ctx ⟨d, state⟩ := by
  obtain ⟨values, constraints, objects, hskip⟩ := hcd.skip
  refine ⟨?_, ?_, hcd.covers h.globals, hcd.covers h.locals, fun frame hf => hcd.covers (h.frames frame hf)⟩
  · obtain ⟨es, hr⟩ := h.memory
    obtain ⟨es', hr'⟩ := hr.container (.elsewhere values constraints objects)
    have hmem : OpState.toMem ⟨d, state⟩ = (OpState.toMem ⟨c, state⟩).withVc
        ((VcOp.elsewhere values constraints objects).exec (OpState.toMem ⟨c, state⟩).toVc).2 := by
      rw [← hskip]
      rfl
    exact ⟨es', hmem ▸ hr'⟩
  · obtain ⟨es, hr⟩ := h.path
    have hstep := Run.step (PathOp.call (.elsewhere values constraints objects)) hr rfl
    have hvc : (OpState.toMem ⟨d, state⟩).toVc =
        (step PathOp.exec (OpState.toMem ⟨c, state⟩).toVc (.call (.elsewhere values constraints objects))).post := by
      rw [← hskip]
      rfl
    exact ⟨_, hvc ▸ hstep⟩

/-- A value that the state has for an operand was given out. -/
theorem StateOk.getValue (h : StateOk ctx s) {var : FrontendIdTypePair} {v : ValueId}
    (hv : s.state.getValue ctx var = .ok v) : s.statics.Given v := by
  unfold AnalysisState.getValue at hv
  split at hv
  · rename_i value hg
    cases hv
    exact h.globals _ _ hg
  · split at hv
    · rename_i value hl
      cases hv
      exact h.locals _ _ hl
    · cases hv

/-- Only the memory and the counters move. -/
theorem StateOk.withMem (h : StateOk ctx s) (hc : s.statics.Le t.statics) (hmem : ∃ es, GraphRun es t.toMem)
    (hpath : ∃ es, PathRun es t.toMem.toVc) (hlocal : t.state.localMapping = s.state.localMapping)
    (hstack : t.state.stack = s.state.stack) : StateOk ctx t where
  memory := hmem
  path := hpath
  globals := hc.covers h.globals
  locals := hlocal ▸ hc.covers h.locals
  frames := fun frame hf => hc.covers (h.frames frame (hstack ▸ hf))

/-- Only the mappings move. -/
theorem StateOk.withFrames (h : StateOk ctx s) {state : AnalysisState} (hvc : state.vc = s.state.vc)
    (hgraph : state.graph = s.state.graph) (hlocals : s.statics.Covers state.localMapping)
    (hframes : ∀ frame ∈ state.stack, s.statics.Covers frame.mapping) : StateOk ctx { s with state := state } := by
  have hmem : OpState.toMem { s with state := state } = s.toMem := by simp only [OpState.toMem, hvc, hgraph]
  exact ⟨hmem ▸ h.memory, hmem ▸ h.path, h.globals, hlocals, hframes⟩

end States

/-! ## Programs that keep it -/

section Programs

variable [DataLayout] {ctx : Context} {c : Statics} {α β : Type}

/-- From counters past `c`, the program keeps the invariant and counts on, and its answer satisfies `Q` at the counters
that it leaves. -/
abbrev KeepsOk (ctx : Context) (c : Statics) (m : OpM α) (Q : Statics → α → Prop) : Prop :=
  Triple (fun s => StateOk ctx s ∧ c.Le s.statics) m (fun a t => (StateOk ctx t ∧ c.Le t.statics) ∧ Q t.statics a)
    (fun _ t => StateOk ctx t ∧ c.Le t.statics)

theorem keepsOk_pure {Q : Statics → α → Prop} {a : α} (h : ∀ d, c.Le d → Q d a) : KeepsOk ctx c (pure a) Q :=
  triple_pure fun s hs => ⟨hs, h s.statics hs.2⟩

theorem keepsOk_throw {Q : Statics → α → Prop} (e : Exn) : KeepsOk ctx c (throw e) Q := triple_throw fun _ hs => hs

/-- The rest may be proved from the counters that the first part leaves. -/
theorem keepsOk_bind {Q : Statics → α → Prop} {R : Statics → β → Prop} {m : OpM α} {f : α → OpM β}
    (hm : KeepsOk ctx c m Q) (hf : ∀ a d, c.Le d → Q d a → KeepsOk ctx d (f a) R) : KeepsOk ctx c (m >>= f) R := by
  refine triple_bind hm fun a t ht => ?_
  have hrest := hf a t.statics ht.1.2 ht.2 t ⟨ht.1.1, Statics.Le.refl _⟩
  cases hr : f a t with
  | ok b u =>
    rw [hr] at hrest
    exact ⟨⟨hrest.1.1, ht.1.2.trans hrest.1.2⟩, hrest.2⟩
  | error e u =>
    rw [hr] at hrest
    exact ⟨hrest.1, ht.1.2.trans hrest.2⟩

theorem keepsOk_ofExcept (x : Except Exn α) : KeepsOk ctx c (ofExcept x) (fun _ a => x = .ok a) :=
  triple_ofExcept (fun _ hx _ hs => ⟨hs, hx⟩) fun _ _ _ hs => hs

theorem keepsOk_ite {p : Prop} [Decidable p] {Q : Statics → α → Prop} {m n : OpM α} (hm : KeepsOk ctx c m Q)
    (hn : KeepsOk ctx c n Q) : KeepsOk ctx c (if p then m else n) Q := triple_ite (fun _ => hm) fun _ => hn

theorem keepsOk_get {Q : Statics → β → Prop} {f : OpState → OpM β}
    (hf : ∀ s, StateOk ctx s → c.Le s.statics → KeepsOk ctx c (f s) Q) : KeepsOk ctx c (get >>= f) Q :=
  triple_get fun s hs t ht => hf s hs.1 hs.2 t (ht ▸ hs)

theorem keepsOk_getValue (var : FrontendIdTypePair) :
    KeepsOk ctx c (OpM.getValue ctx var) (fun d v => d.Given v) := by
  refine triple_get fun s hs => triple_ofExcept (fun v hv t ht => ?_) fun e _ t ht => ?_
  · subst ht
    exact ⟨hs, hs.1.getValue hv⟩
  · subst ht
    exact hs

/-- The value of an operand, as every operation reads it. -/
theorem keepsOk_operandValue {R : Statics → β → Prop} (x : Except Exn FrontendIdTypePair) {f : ValueId → OpM β}
    (hf : ∀ v d, c.Le d → d.Given v → KeepsOk ctx d (f v) R) :
    KeepsOk ctx c (do let var ← ofExcept x; let value ← OpM.getValue ctx var; f value) R :=
  keepsOk_bind (keepsOk_ofExcept x) fun var _ hd _ =>
    keepsOk_bind (keepsOk_getValue var) fun v _ he hv => hf v _ (hd.trans he) hv

theorem keepsOk_assignValue (var : FrontendIdTypePair) {v : ValueId} (hv : c.Given v) :
    KeepsOk ctx c (OpM.assignValue var v) (fun _ _ => True) := by
  refine triple_modify fun s hs => ⟨⟨?_, hs.2⟩, trivial⟩
  exact hs.1.withFrames rfl rfl (hs.1.locals.insert (hs.2.given hv)) hs.1.frames

/-- The end of an operation that has a target. -/
theorem keepsOk_assignTarget (x : Except Exn FrontendIdTypePair) {v : ValueId} (hv : c.Given v) :
    KeepsOk ctx c (do let target ← ofExcept x; OpM.assignValue target v) (fun _ _ => True) :=
  keepsOk_bind (keepsOk_ofExcept x) fun target _ hd _ => keepsOk_assignValue target (hd.given hv)

/-! ### Calls of the container -/

omit [DataLayout] in
theorem le_of_extends {s t : VcState} (h : Extends s t) : s.statics.Le t.statics :=
  ⟨h.nextId, h.nextConstraintId, h.nextObjectId⟩

/-- A call that assumes nothing; an id that it returns was given out. -/
theorem keepsOk_callVc {m : VcM ValueId} (op : VcOp) (hop : op.run = some <$> m)
    (hassumes : ∀ zero, op.assumed zero = none) : KeepsOk ctx c (OpM.callVc m) (fun d v => d.Given v) := by
  refine triple_zoom fun s hs => ?_
  obtain ⟨es, hr⟩ := hs.1.memory
  obtain ⟨es', hp⟩ := hs.1.path
  have hconst := hs.1.graphOk.const
  have hfinal : (op.exec s.toMem.toVc).2 = final (m s.toMem.toVc) := by rw [VcOp.exec_state, hop, final_map]
  have hle := le_of_extends (exec_extends op s.toMem.toVc)
  obtain ⟨es₂, hr⟩ := hr.container op
  have hadm : PathOp.Adm s.toMem.toVc (.call op) := hassumes _
  have hp := Run.step (PathOp.call op) hp hadm
  refine ⟨fun v t hm => ?_, fun e t hm => ?_⟩ <;> replace hm : m s.toMem.toVc = _ := hm
  · rw [hm, final_ok] at hfinal
    subst hfinal
    refine ⟨⟨hs.1.withMem hle ⟨_, hr⟩ ⟨_, hp⟩ rfl rfl, hs.2.trans hle⟩, ?_⟩
    have hexec : (op.exec s.toMem.toVc).1 = .ok (some v) := by
      have hrun : op.run s.toMem.toVc = .ok (some v) (op.exec s.toMem.toVc).2 := by
        rw [hop]
        change EStateM.map some m s.toMem.toVc = _
        rw [EStateM.map, hm]
      rw [VcOp.exec, hrun]
    exact (exec_fresh hconst hexec).given
  · rw [hm, final_error] at hfinal
    subst hfinal
    exact ⟨hs.1.withMem hle ⟨_, hr⟩ ⟨_, hp⟩ rfl rfl, hs.2.trans hle⟩

theorem keepsOk_createConstIntVal (value : Word) :
    KeepsOk ctx c (OpM.callVc (createConstIntVal value)) (fun d v => d.Given v) :=
  keepsOk_callVc (.createConstIntVal value) rfl fun _ => rfl

theorem keepsOk_createVal (type : Ty) : KeepsOk ctx c (OpM.callVc (createVal type)) (fun d v => d.Given v) :=
  keepsOk_callVc (.createVal type) rfl fun _ => rfl

theorem keepsOk_binOp (a b : ValueId) (type : Ty) (options : BinaryOpOptions) :
    KeepsOk ctx c (OpM.callVc (binOp a b type options)) (fun d v => d.Given v) :=
  keepsOk_callVc (.binOp a b type options) rfl fun _ => rfl

theorem keepsOk_extendInt (a : ValueId) (source target : Ty) (flags : ArithFlags) :
    KeepsOk ctx c (OpM.callVc (extendInt a source target flags)) (fun d v => d.Given v) :=
  keepsOk_callVc (.extendInt a source target flags) rfl fun _ => rfl

theorem keepsOk_truncateInt (a : ValueId) (source target : Ty) :
    KeepsOk ctx c (OpM.callVc (truncateInt a source target)) (fun d v => d.Given v) :=
  keepsOk_callVc (.truncateInt a source target) rfl fun _ => rfl

theorem keepsOk_query (q : ValueContainer → Except Exn α) :
    KeepsOk ctx c (OpM.callVc (VcM.query q)) (fun _ _ => True) := by
  refine triple_zoom fun s hs => ?_
  rw [query_apply]
  refine ⟨fun a t hm => ?_, fun e t hm => ?_⟩ <;> dsimp only at hm <;> cases hq : q s.state.vc <;> rw [hq] at hm
  · cases hm
  · cases hm; exact ⟨hs, trivial⟩
  · cases hm; exact hs
  · cases hm

/-- A direction of a branch, which a path and a run go along alike. -/
theorem keepsOk_branchOn {v : ValueId} (hv : c.Given v) (br : Bool) :
    KeepsOk ctx c (OpM.callVc (branchOn v br)) (fun _ _ => True) := by
  refine triple_zoom fun s hs => ?_
  obtain ⟨es, hp⟩ := hs.1.path
  obtain ⟨es₂, hr⟩ := hs.1.memory
  have hg : s.toMem.toVc.Given v := hs.2.given hv
  rcases branchOn_cases (path_ok hp) hg br with hb | ⟨what, hb⟩ <;>
    refine ⟨fun a t hm => ?_, fun e t hm => ?_⟩ <;> cases hb.symm.trans hm
  · have hle := le_of_extends (exec_extends (assumption br v) s.toMem.toVc)
    obtain ⟨es₃, hr⟩ := hr.container (assumption br v)
    have hp := Run.step (PathOp.branch v br) hp ⟨hg, _, hb⟩
    simp only [step, PathOp.exec, hb] at hp
    exact ⟨⟨hs.1.withMem hle ⟨_, hr⟩ ⟨_, hp⟩ rfl rfl, hs.2.trans hle⟩, trivial⟩
  · exact hs

/-! ### Operations of the graph -/

/-- An operation on the graph with ids that were given out. -/
theorem keepsOk_callGraph {m : GraphM α} {f : α → Option ValueId} (op : GraphOp) (hop : op.run = f <$> m)
    (hcall : op.isGraphCall = true) (hids : ∀ v ∈ op.ids, c.Given v) {Q : Statics → α → Prop}
    (hQ : ∀ {s t : MemState} {a}, GraphOk s → op.Adm s → m s = .ok a t → Q t.statics a) :
    KeepsOk ctx c (OpM.callGraph m) Q := by
  refine triple_zoom fun s hs => ?_
  obtain ⟨es, hr⟩ := hs.1.memory
  obtain ⟨es', hp⟩ := hs.1.path
  have hg := run_graphOk hr
  have hadm : op.Adm s.toMem := fun v hv => hs.2.given (hids v hv)
  have hfinal : (op.exec s.toMem).2 = final (m s.toMem) := by rw [GraphOp.exec_state, hop, final_map]
  have hcalls : Calls s.toMem.toVc (op.exec s.toMem).2.toVc := by
    have := steps_calls hcall s.toMem
    rwa [← GraphOp.exec_state] at this
  have hle : s.statics.Le (op.exec s.toMem).2.statics := by
    have hext : Extends s.toMem.toVc (op.exec s.toMem).2.toVc := by
      refine Relation.ReflTransGen.head_induction_on hcalls (Extends.refl _) ?_
      rintro t u ⟨call, -, rfl⟩ - htail
      exact (exec_extends call t).trans htail
    exact le_of_extends hext
  have hp := PathRun.calls hp hcalls
  have hr : ∃ es, GraphRun es (op.exec s.toMem).2 := ⟨_, .step op hr hadm⟩
  refine ⟨fun a t hm => ?_, fun e t hm => ?_⟩ <;> replace hm : m s.toMem = _ := hm
  · rw [hm, final_ok] at hfinal
    subst hfinal
    exact ⟨⟨hs.1.withMem hle hr hp rfl rfl, hs.2.trans hle⟩, hQ hg hadm hm⟩
  · rw [hm, final_error] at hfinal
    subst hfinal
    exact ⟨hs.1.withMem hle hr hp rfl rfl, hs.2.trans hle⟩

theorem keepsOk_readValue {ptr : ValueId} (h : c.Given ptr) (type : Ty) :
    KeepsOk ctx c (OpM.callGraph (readValue ptr type)) (fun d v => d.Given v) := by
  refine keepsOk_callGraph (.readValue ptr type) rfl rfl ?_ fun hs _ hm => readValue_given hs hm
  intro v hv
  rw [List.mem_singleton.1 hv]
  exact h

theorem keepsOk_writeValue {ptr value : ValueId} (h : c.Given ptr) (hv : c.Given value) (type : Ty) :
    KeepsOk ctx c (OpM.callGraph (writeValue ptr value type)) (fun _ _ => True) := by
  refine keepsOk_callGraph (.writeValue ptr value type) rfl rfl ?_ fun _ _ _ => trivial
  intro v hmem
  rcases List.mem_cons.1 hmem with rfl | hmem
  · exact h
  · rw [List.mem_singleton.1 hmem]
    exact hv

theorem keepsOk_allocateRegion (type : Ty) (ms : MemorySpace) :
    KeepsOk ctx c (OpM.callGraph (allocateRegion type ms)) (fun d v => d.Given v) :=
  keepsOk_callGraph (.allocateRegion type ms) rfl rfl (fun _ hv => by cases hv) fun hs _ hm => allocateRegion_given hs hm

theorem keepsOk_createDerivedPointer {ptr offset : ValueId} (h : c.Given ptr) (ho : c.Given offset) :
    KeepsOk ctx c (OpM.callGraph (createDerivedPointer ptr offset)) (fun d r => d.Given r.1) := by
  refine keepsOk_callGraph (.createDerivedPointer ptr offset) rfl rfl ?_ fun hs hadm hm => ?_
  · intro v hmem
    rcases List.mem_cons.1 hmem with rfl | hmem
    · exact h
    · rw [List.mem_singleton.1 hmem]
      exact ho
  · exact createDerivedPointer_given hs (hadm ptr List.mem_cons_self) hm

theorem keepsOk_memclear {ptr size : ValueId} (h : c.Given ptr) (hs : c.Given size) :
    KeepsOk ctx c (OpM.callGraph (memclear ptr size)) (fun _ _ => True) := by
  refine keepsOk_callGraph (.memclear ptr size) rfl rfl ?_ fun _ _ _ => trivial
  intro v hmem
  rcases List.mem_cons.1 hmem with rfl | hmem
  · exact h
  · rw [List.mem_singleton.1 hmem]
    exact hs

theorem keepsOk_free {ptr : ValueId} (h : c.Given ptr) :
    KeepsOk ctx c (OpM.callGraph (Angie.free ptr)) (fun _ _ => True) := by
  refine keepsOk_callGraph (.free ptr) rfl rfl ?_ fun _ _ _ => trivial
  intro v hmem
  rw [List.mem_singleton.1 hmem]
  exact h

end Programs

/-! ## Operations -/

namespace MemGraphOp

variable [DataLayout] {ctx : Context} {args : OperationArgs} {c : Statics}

theorem keepsOk_load : KeepsOk ctx c (load ctx args) (fun _ _ => True) := by
  refine keepsOk_bind (keepsOk_ofExcept _) fun ptr d _ _ => keepsOk_bind (keepsOk_ofExcept _) fun reg d _ _ => ?_
  refine keepsOk_bind (keepsOk_getValue ptr) fun ptrId d _ hptr => ?_
  exact keepsOk_bind (keepsOk_readValue hptr reg.type) fun value d _ hv => keepsOk_assignValue reg hv

theorem keepsOk_store : KeepsOk ctx c (store ctx args) (fun _ _ => True) := by
  refine keepsOk_bind (keepsOk_ofExcept _) fun value d _ _ => ?_
  refine keepsOk_bind (keepsOk_getValue value) fun valueId d _ hvalue => ?_
  exact keepsOk_operandValue _ fun target e hde htarget => keepsOk_writeValue htarget (hde.given hvalue) _

theorem keepsOk_allocaRegion (type : Ty) (count : ValueId) :
    KeepsOk ctx c (allocaRegion type count) (fun d v => d.Given v) := by
  refine keepsOk_get fun s _ _ => ?_
  cases s.state.vc.constantContainer[count]? with
  | none => exact keepsOk_throw _
  | some n => exact keepsOk_ite (keepsOk_throw _) (keepsOk_allocateRegion type .stack)

theorem keepsOk_alloca : KeepsOk ctx c (alloca ctx args) (fun _ _ => True) := by
  refine keepsOk_bind (keepsOk_ofExcept _) fun operand d _ _ => ?_
  refine keepsOk_bind (keepsOk_getValue operand) fun count d _ _ => ?_
  refine keepsOk_bind (keepsOk_ofExcept _) fun target d _ _ => ?_
  refine keepsOk_bind (keepsOk_extendInt _ _ _ _) fun count64 d _ _ => ?_
  refine keepsOk_bind (keepsOk_ofExcept _) fun type d _ _ => ?_
  exact keepsOk_bind (keepsOk_allocaRegion type count64) fun retVal d _ hv => keepsOk_assignValue target hv

theorem keepsOk_mallocRegion (size : ValueId) : KeepsOk ctx c (mallocRegion size) (fun d v => d.Given v) := by
  refine keepsOk_get fun s _ _ => ?_
  cases s.state.vc.constantContainer[size]? with
  | none => exact keepsOk_throw _
  | some n => exact keepsOk_allocateRegion _ .heap

theorem keepsOk_malloc : KeepsOk ctx c (malloc ctx args) (fun _ _ => True) := by
  refine keepsOk_bind (keepsOk_ofExcept _) fun operand d _ _ => ?_
  refine keepsOk_bind (keepsOk_getValue operand) fun size d _ _ => ?_
  refine keepsOk_bind (keepsOk_extendInt _ _ _ _) fun size64 d _ _ => ?_
  exact keepsOk_bind (keepsOk_mallocRegion size64) fun retVal d _ hv => keepsOk_assignTarget _ hv

theorem keepsOk_memsetRegion {ptr size : ValueId} (value : ValueId) (hptr : c.Given ptr) (hsize : c.Given size) :
    KeepsOk ctx c (memsetRegion ptr value size) (fun _ _ => True) := by
  refine keepsOk_bind (keepsOk_query _) fun zero d hd _ => keepsOk_ite ?_ ?_
  · exact keepsOk_memclear (hd.given hptr) (hd.given hsize)
  · refine keepsOk_get fun s _ _ => ?_
    cases s.state.vc.constantContainer[size]? with
    | none => exact keepsOk_throw _
    | some n => exact keepsOk_throw _

theorem keepsOk_memset : KeepsOk ctx c (memset ctx args) (fun _ _ => True) := by
  refine keepsOk_operandValue _ fun target d _ htarget => keepsOk_operandValue _ fun value d hd _ => ?_
  exact keepsOk_operandValue _ fun len e hde hlen => keepsOk_memsetRegion value (hde.given (hd.given htarget)) hlen

theorem keepsOk_free : KeepsOk ctx c (free ctx args) (fun _ _ => True) :=
  keepsOk_operandValue _ fun _ _ _ h => Angie.keepsOk_free h

theorem keepsOk_structElementOffset (type : Ty) (index : ℕ) :
    KeepsOk ctx c (structElementOffset type index) (fun d v => d.Given v) := by
  unfold structElementOffset
  cases type.getStructElementOffset index with
  | some offset => exact keepsOk_createConstIntVal _
  | none => exact keepsOk_throw _

theorem keepsOk_fieldOffset (type : Ty) {offset : ValueId} (h : c.Given offset) :
    KeepsOk ctx c (fieldOffset ctx args type offset) (fun d v => d.Given v) := by
  refine keepsOk_ite ?_ (keepsOk_pure fun d hd => hd.given h)
  refine keepsOk_operandValue _ fun index d _ _ => keepsOk_bind (keepsOk_query _) fun field d _ _ => ?_
  refine keepsOk_bind (keepsOk_structElementOffset type _) fun inner d _ _ => ?_
  refine keepsOk_bind (keepsOk_binOp _ _ _ ⟨.add, ArithFlags.default⟩) fun sum d _ hsum => ?_
  exact keepsOk_ite (keepsOk_throw _) (keepsOk_pure fun e he => he.given hsum)

theorem keepsOk_getElementPtr : KeepsOk ctx c (getElementPtr ctx args) (fun _ _ => True) := by
  refine keepsOk_bind (keepsOk_ofExcept _) fun source d _ _ => ?_
  refine keepsOk_bind (keepsOk_getValue source) fun sourceId d₁ _ hsource => ?_
  refine keepsOk_bind (keepsOk_ofExcept _) fun type d₂ h₂ _ => keepsOk_bind (keepsOk_query _) fun zero d₃ h₃ _ => ?_
  refine keepsOk_operandValue _ fun index d₄ h₄ _ => ?_
  refine keepsOk_bind (keepsOk_createConstIntVal _) fun size d₅ h₅ _ => ?_
  refine keepsOk_bind (keepsOk_binOp _ _ _ ⟨.mul, ArithFlags.default⟩) fun offset d₆ h₆ hoffset => ?_
  refine keepsOk_bind (keepsOk_fieldOffset type hoffset) fun sum d₇ h₇ hsum => ?_
  have hle : d₁.Le d₇ := h₂.trans (h₃.trans (h₄.trans (h₅.trans (h₆.trans h₇))))
  refine keepsOk_bind (keepsOk_createDerivedPointer (hle.given hsource) hsum) fun retVal d₈ _ hv => ?_
  exact keepsOk_assignTarget _ hv

theorem keepsOk_cast : KeepsOk ctx c (cast ctx args) (fun _ _ => True) := by
  refine keepsOk_bind (keepsOk_ofExcept _) fun operand d _ _ => ?_
  refine keepsOk_bind (keepsOk_getValue operand) fun lhs d₁ _ hlhs => ?_
  refine keepsOk_bind (keepsOk_ofExcept _) fun opts d₂ h₂ _ => ?_
  refine keepsOk_bind (keepsOk_ofExcept _) fun target d₃ h₃ _ => ?_
  have hlhs₃ : d₃.Given lhs := h₃.given (h₂.given hlhs)
  cases opts.opKind with
  | bitCast =>
    refine keepsOk_bind (keepsOk_assignValue target hlhs₃) fun _ d₄ h₄ _ => keepsOk_get fun s hs hle => ?_
    have hzero : d₄.Given s.state.vc.zero := by
      rw [show s.state.vc.zero = 0 from hs.graphOk.zero]
      exact ⟨Int.le_refl 0, Int.lt_of_le_of_lt hlhs₃.1 (h₄.given hlhs₃).2⟩
    exact keepsOk_bind (keepsOk_createDerivedPointer (h₄.given hlhs₃) hzero) fun _ _ _ _ =>
      keepsOk_pure fun _ _ => trivial
  | extend => exact keepsOk_assignValue target hlhs₃
  | truncate => exact keepsOk_bind (keepsOk_truncateInt _ _ _) fun trunc d _ hv => keepsOk_assignValue target hv
  | _ => exact keepsOk_throw _

theorem keepsOk_isCmp (lhs rhs : ValueId) (type : Ty) (flags : CmpFlags) :
    KeepsOk ctx c (isCmp lhs rhs type flags) (fun _ _ => True) := by
  refine keepsOk_bind (keepsOk_query _) fun result d _ _ => keepsOk_ite ?_ (keepsOk_pure fun _ _ => trivial)
  exact keepsOk_get fun s _ _ => (keepsOk_ofExcept _).weaken (fun _ h => h) (fun _ _ h => ⟨h.1, trivial⟩) fun _ _ h => h

theorem keepsOk_cmpValue (result : Option Bool) : KeepsOk ctx c (cmpValue result) (fun d v => d.Given v) := by
  cases result with
  | none => exact keepsOk_createVal _
  | some b => exact keepsOk_createConstIntVal _

theorem keepsOk_cmp : KeepsOk ctx c (cmp ctx args) (fun _ _ => True) := by
  refine keepsOk_bind (keepsOk_ofExcept _) fun operand d _ _ => ?_
  refine keepsOk_bind (keepsOk_getValue operand) fun lhs d _ _ => keepsOk_operandValue _ fun rhs d _ _ => ?_
  refine keepsOk_bind (keepsOk_ofExcept _) fun flags d _ _ => ?_
  refine keepsOk_bind (keepsOk_isCmp lhs rhs _ flags) fun result d _ _ => ?_
  exact keepsOk_bind (keepsOk_cmpValue result) fun retVal d _ hv => keepsOk_assignTarget _ hv

theorem keepsOk_binOp : KeepsOk ctx c (binOp ctx args) (fun _ _ => True) := by
  refine keepsOk_bind (keepsOk_ofExcept _) fun opts d _ _ => keepsOk_bind (keepsOk_ofExcept _) fun operand d _ _ => ?_
  refine keepsOk_bind (keepsOk_getValue operand) fun lhs d _ _ => keepsOk_operandValue _ fun rhs d _ _ => ?_
  exact keepsOk_bind (Angie.keepsOk_binOp _ _ _ _) fun retVal d _ hv => keepsOk_assignTarget _ hv

theorem keepsOk_createUnknown : KeepsOk ctx c (createUnknown args) (fun _ _ => True) := by
  refine keepsOk_bind (keepsOk_ofExcept _) fun target d _ _ => ?_
  exact keepsOk_bind (keepsOk_createVal _) fun retVal d _ hv => keepsOk_assignValue target hv

theorem keepsOk_branch (br : Bool) : KeepsOk ctx c (branch ctx args br) (fun _ _ => True) :=
  keepsOk_operandValue _ fun _ _ _ hv => keepsOk_branchOn hv br

/-- The values that a call passes on. -/
theorem keepsOk_callArgs : ∀ (params : List FrontendIdTypePair) (i : ℕ) (c : Statics),
    KeepsOk ctx c (callArgs ctx args i params) (fun d values => ∀ v ∈ values, d.Given v)
  | [], _, _ => keepsOk_pure fun _ _ _ hv => by cases hv
  | _ :: params, i, c => by
    refine keepsOk_operandValue _ fun value d _ hv => ?_
    refine keepsOk_bind (keepsOk_callArgs params (i + 1) d) fun rest e hde hrest => keepsOk_pure fun f hf v hmem => ?_
    rcases List.mem_cons.1 hmem with rfl | hmem
    · exact hf.given (hde.given hv)
    · exact hf.given (hrest v hmem)

theorem keepsOk_assignParams : ∀ (params : List FrontendIdTypePair) (values : List ValueId) (c : Statics),
    (∀ v ∈ values, c.Given v) → KeepsOk ctx c (assignParams params values) (fun _ _ => True)
  | [], _, _, _ => keepsOk_pure fun _ _ => trivial
  | _ :: _, [], _, _ => keepsOk_pure fun _ _ => trivial
  | param :: params, value :: values, c, h => by
    refine keepsOk_bind (keepsOk_assignValue param (h value List.mem_cons_self)) fun _ d hd _ => ?_
    exact keepsOk_assignParams params values d fun v hv => hd.given (h v (List.mem_cons_of_mem _ hv))

/-- A change of the frames that leaves the memory alone. -/
theorem keepsOk_update {f : AnalysisState → Except Exn AnalysisState}
    (h : ∀ s t, StateOk ctx s → c.Le s.statics → f s.state = .ok t → t.vc = s.state.vc ∧ t.graph = s.state.graph ∧
      s.statics.Covers t.localMapping ∧ ∀ frame ∈ t.stack, s.statics.Covers frame.mapping) :
    KeepsOk ctx c (OpM.update f) (fun _ _ => True) := by
  intro s hs
  unfold OpM.update
  rw [bind_of_ok (get_apply s)]
  cases hf : f s.state with
  | error e => exact hs
  | ok t =>
    obtain ⟨hvc, hgraph, hlocals, hframes⟩ := h s t hs.1 hs.2 hf
    exact ⟨⟨hs.1.withFrames hvc hgraph hlocals hframes, hs.2⟩, trivial⟩

theorem keepsOk_stackPush (id : FrontendId) : KeepsOk ctx c (OpM.update (·.stackPush id)) (fun _ _ => True) := by
  refine keepsOk_update fun s t hs _ ht => ?_
  unfold AnalysisState.stackPush at ht
  split at ht
  · cases ht
    refine ⟨rfl, rfl, s.statics.covers_empty, fun frame hf => ?_⟩
    rcases List.mem_cons.1 hf with rfl | hf
    · exact hs.locals
    · exact hs.frames frame hf
  · cases ht

theorem keepsOk_stackPop : KeepsOk ctx c (OpM.update (·.stackPop)) (fun _ _ => True) := by
  refine keepsOk_update fun s t hs _ ht => ?_
  unfold AnalysisState.stackPop at ht
  split at ht
  · rename_i frame stack hstack
    cases ht
    refine ⟨rfl, rfl, hs.frames frame (hstack ▸ List.mem_cons_self), fun frame' hf => ?_⟩
    exact hs.frames frame' (hstack ▸ List.mem_cons_of_mem _ hf)
  · cases ht

theorem keepsOk_stackPopValue {v : ValueId} (hv : c.Given v) :
    KeepsOk ctx c (OpM.update (·.stackPopValue v)) (fun _ _ => True) := by
  refine keepsOk_update fun s t hs hle ht => ?_
  unfold AnalysisState.stackPopValue at ht
  split at ht
  · rename_i frame stack hstack
    cases ht
    have hframe : s.statics.Covers frame.mapping := hs.frames frame (hstack ▸ List.mem_cons_self)
    refine ⟨rfl, rfl, hframe.insert (hle.given hv), fun frame' hf => ?_⟩
    exact hs.frames frame' (hstack ▸ List.mem_cons_of_mem _ hf)
  · cases ht

theorem keepsOk_call : KeepsOk ctx c (call ctx args) (fun _ _ => True) := by
  refine keepsOk_operandValue _ fun vid d _ _ => keepsOk_bind (keepsOk_ofExcept _) fun func d _ _ => ?_
  refine keepsOk_bind (keepsOk_callArgs func.params 0 d) fun values d₁ _ hvalues => ?_
  refine keepsOk_bind (keepsOk_ofExcept _) fun target d₂ h₂ _ => ?_
  refine keepsOk_bind (keepsOk_stackPush target.id) fun _ d₃ h₃ _ => ?_
  exact keepsOk_assignParams func.params values d₃ fun v hv => h₃.given (h₂.given (hvalues v hv))

theorem keepsOk_ret : KeepsOk ctx c (ret ctx args) (fun _ _ => True) := by
  refine keepsOk_ite ?_ keepsOk_stackPop
  exact keepsOk_operandValue _ fun retVal d _ hv => keepsOk_stackPopValue hv

end MemGraphOp

section Execute

variable [DataLayout] {ctx : Context}

/-- Every basic operation keeps the invariant. -/
theorem keepsOk_basic {args : OperationArgs} {op : Operation} {body : OpM Unit}
    (h : memGraphOpFactory ctx args op = .basic body) (c : Statics) : KeepsOk ctx c body (fun _ _ => True) := by
  cases op with
  | ret | br | call | invoke | memcpy | memmove | notSupportedInstr => cases h
  | binOp => cases h; exact MemGraphOp.keepsOk_binOp
  | cast => cases h; exact MemGraphOp.keepsOk_cast
  | alloca => cases h; exact MemGraphOp.keepsOk_alloca
  | load => cases h; exact MemGraphOp.keepsOk_load
  | store => cases h; exact MemGraphOp.keepsOk_store
  | getElementPtr => cases h; exact MemGraphOp.keepsOk_getElementPtr
  | cmp => cases h; exact MemGraphOp.keepsOk_cmp
  | abort | exit => cases h; exact keepsOk_throw _
  | memset => cases h; exact MemGraphOp.keepsOk_memset
  | malloc => cases h; exact MemGraphOp.keepsOk_malloc
  | free => cases h; exact MemGraphOp.keepsOk_free
  | createUnknownVal => cases h; exact MemGraphOp.keepsOk_createUnknown
  | noop | terminate | diagnosticsPlotMem => cases h; exact keepsOk_pure fun _ _ => trivial

/-! ## Executing a state -/

/-- An outcome at counters: what was enqueued is as it should be, and the counters only went up. -/
structure Outcome.Ok (ctx : Context) (c : Statics) (o : Outcome) : Prop where
  counted : c.Le o.statics
  enqueued : ∀ t ∈ o.enqueued, StateOk ctx ⟨o.statics, t⟩

theorem outcomeOk_throws (e : Exn) (c : Statics) : (Outcome.throws e c).Ok ctx c := ⟨Statics.Le.refl c, nofun⟩

theorem outcomeOk_safely {body : OpM Unit} {c : Statics} (hbody : KeepsOk ctx c body (fun _ _ => True))
    {successor : AnalysisState} (hs : StateOk ctx ⟨c, successor⟩) : (Outcome.safely body successor c).Ok ctx c := by
  have h := hbody ⟨c, successor⟩ ⟨hs, Statics.Le.refl c⟩
  unfold Outcome.safely
  cases hb : body ⟨c, successor⟩ with
  | ok a t =>
    rw [hb] at h
    refine ⟨h.1.2, fun t' ht' => ?_⟩
    rw [List.mem_singleton.1 ht']
    exact h.1.1
  | error e t =>
    rw [hb] at h
    dsimp only
    split
    · exact ⟨h.2, nofun⟩
    · exact ⟨h.2, nofun⟩

theorem outcomeOk_assertBranching {c : Statics} {node : Node} {branching : Bool} {o : Outcome} (ho : o.Ok ctx c) :
    (Context.assertBranching c node branching o).Ok ctx c := by
  unfold Context.assertBranching
  split
  · exact ho
  · exact outcomeOk_throws _ c

theorem outcomeOk_nextOf {c : Statics} {p : Option NodeId} {f : NodeId → Outcome} (h : ∀ n, (f n).Ok ctx c) :
    (Context.nextOf c p f).Ok ctx c := by
  cases p with
  | none => exact outcomeOk_throws _ c
  | some n => exact h n

/-- A successor has the memory and the frames of the state. -/
theorem StateOk.createSuccessor {c : Statics} {s : AnalysisState} (hs : StateOk ctx ⟨c, s⟩) (n : NodeId) :
    StateOk ctx ⟨c, s.createSuccessor n⟩ := ⟨hs.memory, hs.path, hs.globals, hs.locals, hs.frames⟩

theorem StateOk.setStackRetNode {c : Statics} {s : AnalysisState} (hs : StateOk ctx ⟨c, s⟩) (n : NodeId) :
    StateOk ctx ⟨c, s.setStackRetNode n⟩ := ⟨hs.memory, hs.path, hs.globals, hs.locals, hs.frames⟩

theorem outcomeOk_branch {c : Statics} {s : AnalysisState} (hs : StateOk ctx ⟨c, s⟩) (args : OperationArgs)
    (node : Node) : (ctx.executeBranch args c s node).Ok ctx c := by
  refine outcomeOk_assertBranching (outcomeOk_nextOf fun onFalse => outcomeOk_nextOf fun onTrue => ?_)
  have hbranch : ∀ d br, KeepsOk ctx d (MemGraphOp.branch ctx args br) (fun _ _ => True) :=
    fun _ br => MemGraphOp.keepsOk_branch br
  have hfirst := outcomeOk_safely (hbranch c false) (hs.createSuccessor onFalse)
  dsimp only
  split
  · exact hfirst
  · -- the true successor meets the counters that the false one left
    have hlater := hs.later hfirst.counted
    have hsecond := outcomeOk_safely (hbranch _ true) (hlater.createSuccessor onTrue)
    refine ⟨hfirst.counted.trans hsecond.counted, fun t ht => ?_⟩
    rcases List.mem_append.1 ht with ht | ht
    · exact (hfirst.enqueued t ht).later hsecond.counted
    · exact hsecond.enqueued t ht

/-- Executing a state keeps the invariant. -/
theorem execute_ok {c : Statics} {s : AnalysisState} (hs : StateOk ctx ⟨c, s⟩) : (ctx.execute c s).Ok ctx c := by
  unfold Context.execute
  cases ctx.nodes[s.node]? with
  | none => exact outcomeOk_throws _ c
  | some node =>
    dsimp only
    unfold Context.executeNode
    cases node.kind with
    | start => exact outcomeOk_throws _ c
    | terminal => exact ⟨Statics.Le.refl c, nofun⟩
    | inner op args instr bp =>
      dsimp only
      cases hf : memGraphOpFactory ctx args op with
      | basic body =>
        exact outcomeOk_assertBranching (outcomeOk_nextOf fun next =>
          outcomeOk_safely (keepsOk_basic hf c) (hs.createSuccessor next))
      | branch => exact outcomeOk_branch hs args node
      | call =>
        refine outcomeOk_assertBranching ?_
        cases Context.callee ctx args s with
        | error e => exact outcomeOk_throws _ c
        | ok func =>
          exact outcomeOk_nextOf fun next =>
            outcomeOk_safely MemGraphOp.keepsOk_call ((hs.createSuccessor func.cfg).setStackRetNode next)
      | ret =>
        refine outcomeOk_assertBranching ?_
        cases s.getStackRetNode with
        | error e => exact outcomeOk_throws _ c
        | ok next => exact outcomeOk_safely MemGraphOp.keepsOk_ret (hs.createSuccessor next)
      | notSupported => exact outcomeOk_throws _ c

/-! ## The loop -/

variable {statics : Statics} {initial : AnalysisState} {es : Turns} {v : Verification}

/-- Every state of the pool is as it should be at the counters of the loop. -/
def Verification.Ok (ctx : Context) (v : Verification) : Prop :=
  ∀ entry ∈ v.manager.statePool, StateOk ctx ⟨v.statics, entry.state⟩

omit [DataLayout] in
theorem mem_pool_inserts {entry : PooledState} (states : List AnalysisState) : ∀ {m : StatesManager},
    entry ∈ (states.foldl StatesManager.insertAndEnqueue m).statePool →
      entry ∈ m.statePool ∨ entry.state ∈ states := by
  induction states with
  | nil => exact fun h => Or.inl h
  | cons state states ih =>
    intro m h
    rcases ih h with h | h
    · rcases List.mem_append.1 h with h | h
      · exact Or.inl h
      · rw [List.mem_singleton.1 h]
        exact Or.inr List.mem_cons_self
    · exact Or.inr (List.mem_cons_of_mem _ h)

omit [DataLayout] in
theorem mem_pool_setExplored {m : StatesManager} {ref : ℕ} {entry : PooledState}
    (h : entry ∈ (m.setExplored ref).statePool) : ∃ entry' ∈ m.statePool, entry'.state = entry.state := by
  obtain ⟨i, hi⟩ := List.getElem?_of_mem h
  simp only [StatesManager.setExplored, List.getElem?_modify] at hi
  obtain ⟨entry', hentry', heq⟩ := Option.map_eq_some_iff.1 hi
  refine ⟨entry', List.mem_of_getElem? hentry', ?_⟩
  rw [← heq]
  split <;> rfl

theorem turn_ok (h : v.Ok ctx) (p : ℕ) : (ctx.turn p v).2.Ok ctx := by
  unfold Context.turn
  cases v.manager.worklist[p]? with
  | none => exact h
  | some ref =>
    dsimp only
    cases hentry : (v.manager.worklistDequeue p).statePool[ref]? with
    | none => exact h
    | some entry =>
      dsimp only
      have hs := h entry (List.mem_of_getElem? hentry)
      split
      · exact h
      · have ho := execute_ok hs
        intro entry' hmem
        rcases mem_pool_inserts _ hmem with hmem | hmem
        · have hold : ∃ old ∈ v.manager.statePool, old.state = entry'.state := by
            split at hmem
            · exact mem_pool_setExplored hmem
            · exact ⟨entry', hmem, rfl⟩
          obtain ⟨old, hold, heq⟩ := hold
          rw [← heq]
          exact (h old hold).later ho.counted
        · exact ho.enqueued _ hmem

theorem verify_ok (h : ctx.VerifyRun statics initial es v) (hinit : StateOk ctx ⟨statics, initial⟩) : v.Ok ctx := by
  refine h.invariant (I := fun _ v => v.Ok ctx) ?_ fun _ _ p _ _ hv => turn_ok hv p
  rintro v rfl entry hmem
  rw [List.mem_singleton.1 hmem]
  exact hinit

/-- In every order of turns, every state that was ever put into the pool is at the end of a path of its container and
of a run of its graph, at the counters that all of them share, so that what holds after these holds of it, and its
mappings hold ids that were given out. -/
theorem verify_stateOk (h : ctx.VerifyRun statics initial es v) (hinit : StateOk ctx ⟨statics, initial⟩) :
    ∀ entry ∈ v.manager.statePool, StateOk ctx ⟨v.statics, entry.state⟩ ∧
      GraphOk ⟨v.statics, entry.state.vc, entry.state.graph⟩ ∧ ∃ es, PathOk es ⟨v.statics, entry.state.vc⟩ := by
  intro entry hentry
  have hok := verify_ok h hinit entry hentry
  exact ⟨hok, hok.graphOk, hok.pathOk⟩

end Execute

/-- The state in which the analysis starts, before anything was mapped. -/
theorem new_stateOk [DataLayout] {ctx : Context} (hglobals : (VcState.new {}).statics.Covers ctx.globalMapping)
    (node : NodeId) : StateOk ctx ⟨(VcState.new {}).statics, .new node (VcState.new {}).vc⟩ where
  memory := ⟨[], .start rfl⟩
  path := ⟨[], .start ⟨{}, Int.le_refl 0, rfl⟩⟩
  globals := hglobals
  locals := Statics.covers_empty _
  frames := nofun

section Example

attribute [local instance] Ty.x86

/-- The state that was put in last. -/
theorem twiceBranched_stateOk : ∃ entry, twiceBranchedTurns.2.manager.statePool.getLast? = some entry ∧
    StateOk twiceBranched ⟨twiceBranchedTurns.2.statics, entry.state⟩ := by
  have hrun : twiceBranched.VerifyRun (VcState.new {}).statics (.new 0 (VcState.new {}).vc)
      twiceBranchedTurns.1 twiceBranchedTurns.2 := Run.play (.start rfl) (by decide +kernel)
  obtain ⟨entry, hentry⟩ : ∃ entry, twiceBranchedTurns.2.manager.statePool.getLast? = some entry :=
    Option.isSome_iff_exists.1 (by decide +kernel)
  exact ⟨entry, hentry, (verify_stateOk hrun (new_stateOk (Statics.covers_empty _) 0) entry
    (List.mem_of_getLast? hentry)).1⟩

end Example

end Angie
