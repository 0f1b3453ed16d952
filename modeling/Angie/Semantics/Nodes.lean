import Angie.Interp.Steps
import Angie.Semantics.Operations

/-!
# Executing a node covers the machine

A state at the counters of the loop covers a machine that stands at its node and whose store it models
(`Program.Covers`). When the machine moves, executing the state enqueues one that covers where it moved to, unless it
prints an error or an exception leaves it (`covers_moves`); when the machine fails, an error is printed
(`covers_fails`). Of the machine that departs nothing is said.
-/

namespace Angie

open Exec Llvm

/-- The errors that executing a state prints: the analysis errors but for the refusal of a branch. -/
def Context.printed [DataLayout] (ctx : Context) (c : Statics) (s : AnalysisState) : List Exn :=
  (results c (ctx.tries s)).filterMap fun
    | .ok _ => none
    | .error e => if e.isAnalysisError && !e.isBranch then some e else none

/-- A state at the counters stands for the machine. -/
def Program.Covers [DataLayout] (P : Program) (c : Statics) (s : AnalysisState) (m : Machine) : Prop :=
  s.node = m.node ∧ ∃ W, Models P W ⟨c, s⟩ m.store

section Nodes

variable [DataLayout] {P : Program} {W : View} {st : Store} {out : Option Store} {c d : Statics} {s t : AnalysisState}
  {m m' : Machine} {node : Node} {op : Operation} {args : OperationArgs} {instr : Instruction} {bp : Bool}

theorem Program.Covers.later (h : P.Covers c s m) (hcd : c.Le d) : P.Covers d s m := by
  obtain ⟨hnode, W, hs⟩ := h
  obtain ⟨W', -, hs'⟩ := hs.later hcd
  exact ⟨hnode, W', hs'⟩

theorem Program.Covers.ok (h : P.Covers c s m) : StateOk P.ctx ⟨c, s⟩ := by
  obtain ⟨-, W, hs⟩ := h
  exact hs.ok

/-- The node and the node to return to make no difference to what is modelled. -/
theorem Models.createSuccessor (h : Models P W ⟨c, s⟩ st) (n : NodeId) : Models P W ⟨c, s.createSuccessor n⟩ st :=
  ⟨h.counters, h.ok.createSuccessor n, h.mirrors, h.binds, h.registers, h.calls⟩

theorem Context.mem_printed {ctx : Context} {e : Exn} (he : .error e ∈ results c (ctx.tries s))
    (hanalysis : e.isAnalysisError = true) (hbranch : e.isBranch = false) : ctx.printed c s ≠ [] := by
  refine List.ne_nil_of_mem (a := e) (List.mem_filterMap.2 ⟨_, he, ?_⟩)
  simp only [hanalysis, hbranch]
  rfl

/-- A body that follows the machine enqueues a state that covers it, or throws an error. -/
theorem safely_covers {body : OpM Unit} {R : View → Unit → Prop} (hkeeps : KeepsControl body)
    (hs : Models P W ⟨c, s⟩ st) (hbody : Follows P W st body out R) (h : (Outcome.safely body s c).thrown = none) :
    (∃ st', out = some st' ∧ ∃ t ∈ (Outcome.safely body s c).enqueued,
      P.Covers (Outcome.safely body s c).statics t ⟨s.node, st'⟩) ∨
      ∃ e t, body ⟨c, s⟩ = .error e t ∧ e.isAnalysisError = true ∧ e.isBranch = false := by
  have hrun := hbody _ hs
  unfold Outcome.safely at h ⊢
  cases hb : body ⟨c, s⟩ with
  | ok a t =>
    rw [hb] at hrun
    obtain ⟨W', st', hout, -, hmodels, -⟩ := hrun
    exact Or.inl ⟨st', hout, t.state, List.mem_singleton_self _, (hkeeps.ok hb).node, W', hmodels⟩
  | error e t =>
    rw [hb] at hrun h
    dsimp only at h
    cases he : e.isAnalysisError with
    | true => exact Or.inr ⟨e, t, rfl, he, hrun⟩
    | false =>
      rw [he] at h
      cases h

omit [DataLayout] in
theorem error_mem_results {body : OpM Unit} {e : Exn} {t : OpState} (h : body ⟨c, s⟩ = .error e t) (rest : List Try) :
    .error e ∈ results c (⟨s, body⟩ :: rest) := by
  simp only [results, h]
  exact List.mem_cons_self

/-! ## Basic operations -/

theorem does_basic (h : P.Does args st op out) :
    op.isNotSupported = true ∨ ∃ body, memGraphOpFactory P.ctx args op = .basic body := by
  cases h
  case notSupported hop => exact Or.inl hop
  all_goals exact Or.inr ⟨_, rfl⟩

theorem execute_notSupported {ctx : Context} (hn : ctx.nodes[s.node]? = some node)
    (hk : node.kind = .inner op args instr bp) (hop : op.isNotSupported = true) : (ctx.execute c s).thrown ≠ none := by
  simp only [Context.execute, hn, Context.executeNode, hk, factory_notSupported.2 hop]
  exact nofun

/-- Executing a node with a basic operation. -/
theorem execute_basic {ctx : Context} {body : OpM Unit} (hn : ctx.nodes[s.node]? = some node)
    (hk : node.kind = .inner op args instr bp) (hf : memGraphOpFactory ctx args op = .basic body)
    (h : (ctx.execute c s).thrown = none) : ∃ next, node.next = some next ∧
      ctx.execute c s = .safely body (s.createSuccessor next) c ∧ ctx.tries s = [⟨s.createSuccessor next, body⟩] := by
  have hexec : ctx.execute c s = Context.executeBasic c s node body := by
    simp only [Context.execute, hn, Context.executeNode, hk, hf]
  rw [hexec] at h ⊢
  unfold Context.executeBasic at h ⊢
  obtain ⟨hassert, -, h⟩ := of_assertBranching h
  obtain ⟨next, hnext, heq, -⟩ := of_nextOf h
  refine ⟨next, hnext, hassert.trans heq, ?_⟩
  simp only [Context.tries, hn, hk, hf, hnext]
  rfl

/-- What executing a basic operation comes to. -/
theorem covers_does (hcov : P.Covers c s m) (hn : P.ctx.nodes[m.node]? = some node)
    (hk : node.kind = .inner op args instr bp) (hdoes : P.Does args m.store op out)
    (h : (P.ctx.execute c s).thrown = none) :
    P.ctx.printed c s ≠ [] ∨ ∃ st' next, out = some st' ∧ node.next = some next ∧
      ∃ t ∈ (P.ctx.execute c s).enqueued, P.Covers (P.ctx.execute c s).statics t ⟨next, st'⟩ := by
  obtain ⟨hnode, W, hs⟩ := hcov
  obtain hop | ⟨body, hf⟩ := does_basic hdoes
  · exact absurd h (execute_notSupported (hnode ▸ hn) hk hop)
  obtain ⟨next, hnext, hexec, htries⟩ := execute_basic (hnode ▸ hn) hk hf h
  rw [hexec] at h ⊢
  rcases safely_covers (keeps_basic hf) (hs.createSuccessor next) (follows_basic hdoes hf) h with
    ⟨st', hout, hcov⟩ | ⟨e, t, hrun, hanalysis, hbranch⟩
  · exact Or.inr ⟨st', next, hout, hnext, hcov⟩
  · exact Or.inl (Context.mem_printed (htries ▸ error_mem_results hrun []) hanalysis hbranch)

/-! ## Branches -/

theorem follows_branch {x : FrontendIdTypePair} {b : BitVec 1} (hx : args.getOperand 0 = .ok x)
    (hb : P.value st x = some (.int .bit b)) :
    Follows P W st (MemGraphOp.branch P.ctx args (b == 1)) (some st) (fun _ _ => True) := by
  refine follows_operand hx hb fun v W₁ _ hv => ?_
  intro s hs
  obtain ⟨es, hpath⟩ := hs.ok.pathOk
  obtain ⟨t, hrun, hext, hmirrors⟩ :=
    hs.mirrors.branchOn hs.ok.graphOk hpath (hs.given.1 hv.given) hv.stands
  have hrun : OpM.callVc (branchOn v (b == 1)) s = .ok () (s.withVc t) := OpM.callVc_run hrun
  have hok := (keepsOk_branchOn hv.given (b == 1)).ok ⟨hs.ok, hs.counters ▸ Statics.Le.refl _⟩ hrun
  have hle : W₁.Le ⟨t.statics, W₁.reading⟩ := ⟨hok.1.2, fun _ _ => rfl⟩
  rw [hrun]
  exact ⟨_, st, rfl, hle, hs.withMem hle rfl hok.1.1 hmirrors rfl rfl, trivial⟩

/-- Executing a branch: the false successor, then the true one at the counters that this left. -/
theorem execute_branch {ctx : Context} (hn : ctx.nodes[s.node]? = some node) (hk : node.kind = .inner .br args instr bp)
    (h : (ctx.execute c s).thrown = none) : ∃ (onFalse onTrue : NodeId) (first second : Outcome),
      node.nextFalse = some onFalse ∧ node.next = some onTrue ∧
      first = .safely (MemGraphOp.branch ctx args false) (s.createSuccessor onFalse) c ∧
      second = .safely (MemGraphOp.branch ctx args true) (s.createSuccessor onTrue) first.statics ∧
      first.thrown = none ∧ second.thrown = none ∧
      ctx.execute c s = ⟨first.enqueued ++ second.enqueued, none, second.statics⟩ ∧
      ctx.tries s = [⟨s.createSuccessor onFalse, MemGraphOp.branch ctx args false⟩,
        ⟨s.createSuccessor onTrue, MemGraphOp.branch ctx args true⟩] := by
  have hexec : ctx.execute c s = ctx.executeBranch args c s node := by
    simp only [Context.execute, hn, Context.executeNode, hk, memGraphOpFactory]
  rw [hexec] at h ⊢
  unfold Context.executeBranch at h ⊢
  obtain ⟨hassert, -, h⟩ := of_assertBranching h
  obtain ⟨onFalse, hfalse, heq, h⟩ := of_nextOf h
  rw [hassert, heq]
  obtain ⟨onTrue, htrue, heq, h⟩ := of_nextOf h
  rw [heq]
  refine ⟨onFalse, onTrue, _, _, hfalse, htrue, rfl, rfl, ?_⟩
  have htries : ctx.tries s = [⟨s.createSuccessor onFalse, MemGraphOp.branch ctx args false⟩,
      ⟨s.createSuccessor onTrue, MemGraphOp.branch ctx args true⟩] := by
    simp only [Context.tries, hn, hk, memGraphOpFactory, hfalse, htrue]
    rfl
  dsimp only at h ⊢
  cases hfirst : (Outcome.safely (MemGraphOp.branch ctx args false) (s.createSuccessor onFalse) c).thrown with
  | some e =>
    rw [hfirst] at h
    dsimp only at h
    rw [hfirst] at h
    cases h
  | none =>
    rw [hfirst] at h
    dsimp only at h ⊢
    exact ⟨rfl, h, by rw [h], htries⟩

theorem covers_branch {x : FrontendIdTypePair} {b : BitVec 1} {next : NodeId} (hcov : P.Covers c s m)
    (hn : P.ctx.nodes[m.node]? = some node) (hk : node.kind = .inner .br args instr bp)
    (hx : args.getOperand 0 = .ok x) (hb : P.value m.store x = some (.int .bit b))
    (hnext : (if b = 1 then node.next else node.nextFalse) = some next) (h : (P.ctx.execute c s).thrown = none) :
    P.ctx.printed c s ≠ [] ∨
      ∃ t ∈ (P.ctx.execute c s).enqueued, P.Covers (P.ctx.execute c s).statics t ⟨next, m.store⟩ := by
  obtain ⟨hnode, W, hs⟩ := hcov
  obtain ⟨onFalse, onTrue, first, second, hfalse, htrue, hfirst, hsecond, hthrown, hthrown', hexec, htries⟩ :=
    execute_branch (hnode ▸ hn) hk h
  subst hfirst hsecond
  have hcounted : c.Le (Outcome.safely (MemGraphOp.branch P.ctx args false) (s.createSuccessor onFalse) c).statics :=
    (outcomeOk_safely (MemGraphOp.keepsOk_branch false) (hs.ok.createSuccessor onFalse)).counted
  obtain ⟨W', -, hs'⟩ := hs.later hcounted
  have hbody := fun W => follows_branch (P := P) (W := W) hx hb
  rw [hexec]
  cases hb1 : b == 1 with
  | true =>
    -- the true successor, at the counters that the false one left
    rw [if_pos (beq_iff_eq.1 hb1), htrue] at hnext
    obtain rfl : onTrue = next := Option.some.inj hnext
    rw [hb1] at hbody
    rcases safely_covers (MemGraphOp.keeps_branch _ _ _) (hs'.createSuccessor onTrue) (hbody W') hthrown' with
      ⟨st', hout, t, ht, hcov⟩ | ⟨e, t, hrun, hanalysis, hbranch⟩
    · cases hout
      exact Or.inr ⟨t, List.mem_append_right _ ht, hcov⟩
    · obtain ⟨r, hr, -⟩ := safely_results hthrown [⟨s.createSuccessor onTrue, MemGraphOp.branch P.ctx args true⟩]
      refine Or.inl (Context.mem_printed (e := e) ?_ hanalysis hbranch)
      rw [htries, hr]
      exact List.mem_cons_of_mem _ (error_mem_results hrun [])
  | false =>
    rw [if_neg (beq_eq_false_iff_ne.1 hb1), hfalse] at hnext
    obtain rfl : onFalse = next := Option.some.inj hnext
    rw [hb1] at hbody
    have hcounted' := (outcomeOk_safely (@MemGraphOp.keepsOk_branch _ P.ctx args _ true)
      (hs'.ok.createSuccessor onTrue)).counted
    rcases safely_covers (MemGraphOp.keeps_branch _ _ _) (hs.createSuccessor onFalse) (hbody W) hthrown with
      ⟨st', hout, t, ht, hcov⟩ | ⟨e, t, hrun, hanalysis, hbranch⟩
    · cases hout
      exact Or.inr ⟨t, List.mem_append_left _ ht, hcov.later hcounted'⟩
    · exact Or.inl (Context.mem_printed (htries ▸ error_mem_results hrun _) hanalysis hbranch)

/-! ## Calls and returns -/

omit [DataLayout] in
/-- What only looks something up ends, unless an exception leaves the loop. -/
theorem run_of_looksUp {body : OpM Unit} (hbody : LooksUp body) (h : (Outcome.safely body s c).thrown = none) :
    ∃ t, body ⟨c, s⟩ = .ok () t ∧ t.state ∈ (Outcome.safely body s c).enqueued := by
  unfold Outcome.safely at h ⊢
  cases hb : body ⟨c, s⟩ with
  | ok a t => exact ⟨t, rfl, List.mem_singleton_self _⟩
  | error e t =>
    rw [hb] at h
    dsimp only at h
    rw [not_analysisError (hbody _ trivial e t hb)] at h
    cases h

/-- Executing a call of a function that is there. -/
theorem execute_call {ctx : Context} {f : FrontendIdTypePair} {vid : ValueId} {func : FunctionHandle}
    (hn : ctx.nodes[s.node]? = some node) (hk : node.kind = .inner .call args instr bp)
    (hf : args.callOptions = .ok f) (hvid : s.getValue ctx f = .ok vid) (hfunc : ctx.funcMapping[vid]? = some func)
    (h : (ctx.execute c s).thrown = none) : ctx.callee args s = .ok func ∧
      ctx.execute c s = ctx.executeCall args c s node ∧ ∃ t, t ∈ (ctx.execute c s).enqueued := by
  have hexec : ctx.execute c s = ctx.executeCall args c s node := by
    simp only [Context.execute, hn, Context.executeNode, hk, memGraphOpFactory]
  have hhandle : MemGraphOp.getFunction ctx vid = .ok func := by
    unfold MemGraphOp.getFunction
    rw [hfunc]
  have hcallee : ctx.callee args s = .ok func := by simp only [Context.callee, hf, hvid, hhandle]
  refine ⟨hcallee, hexec, ?_⟩
  rw [hexec] at h ⊢
  unfold Context.executeCall at h ⊢
  obtain ⟨hassert, -, h⟩ := of_assertBranching h
  rw [hassert]
  simp only [hcallee] at h ⊢
  obtain ⟨back, -, heq, h⟩ := of_nextOf h
  rw [heq]
  obtain ⟨t, -, ht⟩ := run_of_looksUp looksUp_call h
  exact ⟨_, ht⟩

omit [DataLayout] in
/-- The registers of a callee are its parameters. -/
theorem mem_parameters {params : List FrontendIdTypePair} {data : List (Option Datum)} {id : FrontendId} {d : Datum}
    (h : Program.parameters params data id = some d) : ∃ (i : ℕ) (param : FrontendIdTypePair),
      params[i]? = some param ∧ param.id = id ∧ data[i]? = some (some d) := by
  obtain ⟨⟨param, d'⟩, hfind, rfl⟩ := Option.bind_eq_some_iff.1 h
  obtain ⟨i, hi⟩ := List.getElem?_of_mem (List.mem_of_find?_eq_some hfind)
  obtain ⟨hparam, hdata⟩ := List.getElem?_zip_eq_some.1 hi
  have hid : (param.id == id) = true :=
    List.find?_some (p := fun x : FrontendIdTypePair × Option Datum => x.1.id == id) hfind
  exact ⟨i, param, hparam, beq_iff_eq.1 hid, hdata⟩

theorem covers_call {f target : FrontendIdTypePair} {vid : ValueId} {func : FunctionHandle}
    {data : List (Option Datum)} {back : NodeId} (hcov : P.Covers c s m) (hn : P.ctx.nodes[m.node]? = some node)
    (hk : node.kind = .inner .call args instr bp) (hf : args.callOptions = .ok f)
    (hvid : P.ctx.globalMapping[f.id]? = some vid) (hfunc : P.ctx.funcMapping[vid]? = some func)
    (hpasses : P.Passes args m.store func.params data) (htarget : args.getTarget = .ok target)
    (hback : node.next = some back) (h : (P.ctx.execute c s).thrown = none) :
    ∃ t ∈ (P.ctx.execute c s).enqueued, P.Covers (P.ctx.execute c s).statics t ⟨func.cfg, { m.store with
      registers := Program.parameters func.params data
      calls := ⟨m.store.registers, target.id, back⟩ :: m.store.calls }⟩ := by
  obtain ⟨hnode, W, hs⟩ := hcov
  have hvalue : s.getValue P.ctx f = .ok vid := by
    unfold AnalysisState.getValue
    rw [hvid]
  obtain ⟨hcallee, hexec, t, ht⟩ := execute_call (hnode ▸ hn) hk hf hvalue hfunc h
  have hout := execute_ok hs.ok
  refine ⟨t, ht, ?_⟩
  obtain ⟨W', hle, hs'⟩ := hs.later hout.counted
  obtain ⟨func', values, target', back', mapping, hfunc', hback', htarget', hactual, hmapping, hteq⟩ :=
    Context.executeCall_mem (hexec ▸ ht)
  cases hcallee.symm.trans hfunc'
  cases hback.symm.trans hback'
  cases htarget.symm.trans htarget'
  have hok := hout.enqueued t ht
  subst hteq
  refine ⟨rfl, W', hs'.counters, hok, hs'.mirrors, hs'.binds, ?_, ?_⟩
  · intro id d hd
    obtain ⟨i, param, hparam, hid, hdata⟩ := mem_parameters hd
    obtain ⟨var, hvar, hval⟩ := hpasses.value i (some d) hdata
    obtain ⟨v, hv, hhas⟩ := hs.getValue hval
    have hi : i < values.length := by
      rw [hactual.length]
      exact (List.getElem?_eq_some_iff.1 hparam).1
    obtain ⟨var', hvar', hv'⟩ := hactual.value i _ (List.getElem?_eq_getElem hi)
    cases hvar.symm.trans hvar'
    have heq := Except.ok.inj (hv.symm.trans hv')
    exact ⟨v, (hmapping id v).2 ⟨i, param, hparam, hid, heq ▸ List.getElem?_eq_getElem hi⟩, hhas.later hle⟩
  · exact .cons ⟨hs'.registers, rfl, rfl⟩ hs'.calls

/-- Executing a return. -/
theorem execute_ret {ctx : Context} {frame : Frame} {stack : List Frame} (hn : ctx.nodes[s.node]? = some node)
    (hk : node.kind = .inner .ret args instr bp) (hstack : s.stack = frame :: stack)
    (h : (ctx.execute c s).thrown = none) : ∃ t : OpState, t.state ∈ (ctx.execute c s).enqueued ∧
      MemGraphOp.ret ctx args ⟨c, s.createSuccessor frame.node⟩ = .ok () t := by
  have hexec : ctx.execute c s = ctx.executeRet args c s node := by
    simp only [Context.execute, hn, Context.executeNode, hk, memGraphOpFactory]
  have hnode : s.getStackRetNode = .ok frame.node := by simp only [AnalysisState.getStackRetNode, hstack]
  rw [hexec] at h ⊢
  unfold Context.executeRet at h ⊢
  obtain ⟨hassert, -, h⟩ := of_assertBranching h
  rw [hassert]
  simp only [hnode] at h ⊢
  obtain ⟨t, hrun, ht⟩ := run_of_looksUp looksUp_ret h
  exact ⟨t, ht, hrun⟩

/-- A return that comes back with the frame of the call. -/
theorem covers_ret {call : Activation NodeId} {calls : List (Activation NodeId)} {registers : Registers}
    (hcov : P.Covers c s m) (hn : P.ctx.nodes[m.node]? = some node) (hk : node.kind = .inner .ret args instr bp)
    (hcalls : m.store.calls = call :: calls)
    (hregisters : (2 < args.length ∧ ∃ x, args.getOperand 0 = .ok x ∧
      registers = Function.update call.registers call.target (P.value m.store x)) ∨
        ¬ 2 < args.length ∧ registers = call.registers)
    (h : (P.ctx.execute c s).thrown = none) :
    ∃ t ∈ (P.ctx.execute c s).enqueued, P.Covers (P.ctx.execute c s).statics t
      ⟨call.back, { m.store with registers := registers, calls := calls }⟩ := by
  obtain ⟨hnode, W, hs⟩ := hcov
  have hframes := hs.calls
  rw [hcalls] at hframes
  cases hstack : s.stack with
  | nil =>
    rw [show (OpState.mk c s).state.stack = [] from hstack] at hframes
    cases hframes
  | cons frame stack =>
    rw [show (OpState.mk c s).state.stack = frame :: stack from hstack] at hframes
    obtain ⟨hframe, hrest⟩ := List.forall₂_cons.1 hframes
    obtain ⟨t, ht, hrun⟩ := execute_ret (hnode ▸ hn) hk hstack h
    have hout := execute_ok hs.ok
    have hok := hout.enqueued _ ht
    obtain ⟨W', hle, hs'⟩ := hs.later hout.counted
    obtain ⟨frame', stack', hstack', hcase⟩ := MemGraphOp.ret_ok hrun
    cases hstack.symm.trans hstack'
    refine ⟨t.state, ht, ?_⟩
    have hframe := hframe.later hle
    have hrest : List.Forall₂ W'.Suspends stack calls := hrest.imp fun _ _ hf => hf.later hle
    rcases hcase with ⟨hlen, x, v, hx, hv, hteq⟩ | ⟨hlen, hteq⟩
    · rcases hregisters with ⟨-, x', hx', rfl⟩ | ⟨hnot, -⟩
      · cases hx.symm.trans hx'
        rw [hteq] at hok ⊢
        refine ⟨hframe.node, W', hs'.counters, hok, hs'.mirrors, hs'.binds, ?_, hrest⟩
        rw [← hframe.target]
        refine hframe.mapping.update fun d hd => ?_
        obtain ⟨v', hv', hhas⟩ := hs.getValue hd
        cases hv.symm.trans hv'
        exact hhas.later hle
      · exact absurd hlen hnot
    · rcases hregisters with ⟨hlen', -⟩ | ⟨-, rfl⟩
      · exact absurd hlen' hlen
      · rw [hteq] at hok ⊢
        exact ⟨hframe.node, W', hs'.counters, hok, hs'.mirrors, hs'.binds, hframe.mapping, hrest⟩

/-! ## Every move -/

/-- Where the machine moves to is covered by a successor, unless an error is printed. -/
theorem covers_moves (hcov : P.Covers c s m) (hmoves : P.Moves m m') (h : (P.ctx.execute c s).thrown = none) :
    P.ctx.printed c s ≠ [] ∨
      ∃ t ∈ (P.ctx.execute c s).enqueued, P.Covers (P.ctx.execute c s).statics t m' := by
  cases hmoves with
  | basic hn hk hnext hdoes =>
    refine (covers_does hcov hn hk hdoes h).imp_right fun ⟨st', next', hout, hnext', hcov'⟩ => ?_
    cases hout
    cases hnext.symm.trans hnext'
    exact hcov'
  | branch hn hk hx hb hnext => exact covers_branch hcov hn hk hx hb hnext h
  | call hn hk hf hvid hfunc hpasses htarget hback =>
    exact Or.inr (covers_call hcov hn hk hf hvid hfunc hpasses htarget hback h)
  | ret hn hk hcalls hlen hx => exact Or.inr (covers_ret hcov hn hk hcalls (Or.inl ⟨hlen, _, hx, rfl⟩) h)
  | retVoid hn hk hcalls hlen => exact Or.inr (covers_ret hcov hn hk hcalls (Or.inr ⟨hlen, rfl⟩) h)

end Nodes

end Angie
