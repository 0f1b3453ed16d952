import Angie.Lib.WellNested
import Angie.Interp.Steps

/-!
# Calls and returns

The states that the interpreter goes through form a system of plain steps, calls and returns over the call stack
(`Context.system`, `disciplined`), so every return of a run that began with an empty stack belongs to one call
(`ret_has_call`). `call_return_discipline`: the callee is entered with its parameters bound to the actual arguments and
with nothing else of the caller, and its return goes on behind the call, in the mapping that the caller had, with
the target of the call bound to the value that is returned, if one is.
-/

namespace Angie

open Relation WellNested

namespace Context

variable [DataLayout] (ctx : Context)

/-- One state was enqueued for the other, the counters standing anywhere. -/
def Step (s t : AnalysisState) : Prop := ∃ statics, t ∈ (ctx.execute statics s).enqueued

/-- Steps by what stands at the node they start from. -/
def system : System AnalysisState where
  plain s t := ctx.Step s t ∧ ∀ args, ctx.opAt s ≠ some (.call, args) ∧ ctx.opAt s ≠ some (.ret, args)
  call s t := ctx.Step s t ∧ ∃ args, ctx.opAt s = some (.call, args)
  ret s t := ctx.Step s t ∧ ∃ args, ctx.opAt s = some (.ret, args)

/-! ## What a call and a return do -/

/-- The state `e` at the entry of the callee, after a call in `c`. -/
structure Entered (args : OperationArgs) (c e : AnalysisState) (func : FunctionHandle) (values : List ValueId) :
    Prop where
  callee : Context.callee ctx args c = .ok func
  node : e.node = func.cfg
  actual : ActualArgs ctx args c func.params values
  binds : ∀ id v, e.localMapping[id]? = some v ↔ Binds func.params values id v
  memory : e.vc = c.vc ∧ e.graph = c.graph

/-- The state `k` behind the call that `c` stood at, after a return in `r`. -/
structure Returned (cargs rargs : OperationArgs) (c r k : AnalysisState) : Prop where
  next : ∃ node, ctx.nodes[c.node]? = some node ∧ node.next = some k.node
  stack : k.stack = c.stack
  /-- A `ret` with an operand returns its value. -/
  mapping : (2 < rargs.length ∧ ∃ target var v, cargs.getTarget = .ok target ∧ rargs.getOperand 0 = .ok var ∧
      r.getValue ctx var = .ok v ∧ k.localMapping = c.localMapping.insert target.id v) ∨
    (¬ 2 < rargs.length ∧ k.localMapping = c.localMapping)

variable {ctx} {s t : AnalysisState} {args : OperationArgs}

theorem system_step : ctx.system.Step s t ↔ ctx.Step s t := by
  constructor
  · rintro (⟨h, -⟩ | ⟨h, -⟩ | ⟨h, -⟩) <;> exact h
  · intro h
    by_cases hc : ∃ args, ctx.opAt s = some (.call, args)
    · exact Or.inr (Or.inl ⟨h, hc⟩)
    by_cases hr : ∃ args, ctx.opAt s = some (.ret, args)
    · exact Or.inr (Or.inr ⟨h, hr⟩)
    exact Or.inl ⟨h, fun args => ⟨fun ha => hc ⟨args, ha⟩, fun ha => hr ⟨args, ha⟩⟩⟩

/-- A step from a call is a call. -/
theorem step_call (h : ctx.Step s t) (hop : ctx.opAt s = some (.call, args)) :
    ∃ func values target back node, ctx.Entered args s t func values ∧ ctx.nodes[s.node]? = some node ∧
      node.next = some back ∧ args.getTarget = .ok target ∧ t.stack = ⟨s.localMapping, target.id, back⟩ :: s.stack := by
  obtain ⟨statics, h⟩ := h
  obtain ⟨node, op, args', hn, hop', hcase⟩ := execute_cases h
  cases hop.symm.trans hop'
  rcases hcase with ⟨hne, -⟩ | ⟨-, h⟩ | ⟨hne, -⟩
  · exact absurd rfl hne
  · obtain ⟨func, values, target, back, m, hcallee, hback, htarget, hvalues, hm, rfl⟩ := executeCall_mem h
    exact ⟨func, values, target, back, node, ⟨hcallee, rfl, hvalues, hm, rfl, rfl⟩, hn, hback, htarget, rfl⟩
  · cases hne

/-- A step from a return pops the top frame. -/
theorem step_ret (h : ctx.Step s t) (hop : ctx.opAt s = some (.ret, args)) :
    ∃ frame, s.stack = frame :: t.stack ∧ t.node = frame.node ∧
      ((2 < args.length ∧ ∃ var v, args.getOperand 0 = .ok var ∧ s.getValue ctx var = .ok v ∧
          t.localMapping = frame.mapping.insert frame.retFrontendId v) ∨
        (¬ 2 < args.length ∧ t.localMapping = frame.mapping)) := by
  obtain ⟨statics, h⟩ := h
  obtain ⟨node, op, args', hn, hop', hcase⟩ := execute_cases h
  cases hop.symm.trans hop'
  rcases hcase with ⟨-, hne, -⟩ | ⟨hne, -⟩ | ⟨-, h⟩
  · exact absurd rfl hne
  · cases hne
  · obtain ⟨frame, stack, hstack, hnode, rfl, hmapping⟩ := executeRet_mem h
    exact ⟨frame, hstack, hnode, hmapping⟩

theorem disciplined : ctx.system.Disciplined AnalysisState.stack where
  plain := by
    rintro s t ⟨⟨statics, h⟩, hop⟩
    obtain ⟨node, op, args, -, hop', hcase⟩ := execute_cases h
    rcases hcase with ⟨-, -, -, hstack⟩ | ⟨rfl, -⟩ | ⟨rfl, -⟩
    · exact hstack
    · exact absurd hop' (hop args).1
    · exact absurd hop' (hop args).2
  call := by
    rintro s t ⟨h, args, hop⟩
    obtain ⟨func, values, target, back, node, -, -, -, -, hstack⟩ := step_call h hop
    exact ⟨_, hstack⟩
  ret := by
    rintro s t ⟨h, args, hop⟩
    obtain ⟨frame, hstack, -⟩ := step_ret h hop
    exact ⟨frame, hstack⟩

omit [DataLayout] in
/-- Of the ids that are not global, the callee sees its parameters and no other. -/
theorem Entered.visible {c e : AnalysisState} {func : FunctionHandle} {values : List ValueId}
    (h : ctx.Entered args c e func values) {var : FrontendIdTypePair} (hlocal : ctx.globalMapping[var.id]? = none)
    (v : ValueId) : e.getValue ctx var = .ok v ↔ Binds func.params values var.id v := by
  rw [← h.binds var.id v]
  unfold AnalysisState.getValue
  rw [hlocal]
  cases e.localMapping[var.id]? with
  | none => exact ⟨nofun, nofun⟩
  | some w => exact ⟨fun he => congrArg some (Except.ok.inj he), fun he => congrArg Except.ok (Option.some.inj he)⟩

/-! ## Runs -/

/-- Every return of a run has its call, with a balanced run between the two. -/
theorem ret_has_call {s₀ r k : AnalysisState} (hempty : s₀.stack = []) (hrun : ReflTransGen ctx.Step s₀ r)
    (hret : ctx.system.ret r k) :
    ∃ c e, ReflTransGen ctx.Step s₀ c ∧ ctx.system.call c e ∧ ctx.system.Balanced e r := by
  have hsame : ctx.system.Step = ctx.Step := funext fun _ => funext fun _ => propext system_step
  rw [← hsame] at hrun ⊢
  exact System.ret_matched disciplined hempty hrun hret

/-- A call enters the callee with its parameters alone; the return that belongs to it, after any calls and returns
in between, goes on behind the call with the mapping of the caller, to which a value that is returned is added. -/
theorem call_return_discipline {c e r k : AnalysisState} {cargs rargs : OperationArgs}
    (hcall : ctx.Step c e) (hc : ctx.opAt c = some (.call, cargs)) (hb : ctx.system.Balanced e r)
    (hret : ctx.Step r k) (hr : ctx.opAt r = some (.ret, rargs)) :
    ∃ func values, ctx.Entered cargs c e func values ∧
      (∀ (var : FrontendIdTypePair), ctx.globalMapping[var.id]? = none →
        ∀ v, e.getValue ctx var = .ok v ↔ Binds func.params values var.id v) ∧
      ctx.Returned cargs rargs c r k := by
  obtain ⟨func, values, target, back, node, hentered, hn, hback, htarget, hpush⟩ := step_call hcall hc
  obtain ⟨frame, hstack, hnode, hmapping⟩ := step_ret hret hr
  obtain ⟨htop, hrest⟩ := System.matched_stack disciplined hpush hb ⟨hret, rargs, hr⟩
  -- the frame on top of the stack is the one that the call pushed
  obtain rfl : frame = ⟨c.localMapping, target.id, back⟩ := (List.cons.inj (hstack.symm.trans htop)).1
  refine ⟨func, values, hentered, fun var hlocal v => hentered.visible hlocal v, ?_, hrest, ?_⟩
  · exact ⟨node, hn, by rw [hback, hnode]⟩
  · rcases hmapping with ⟨hlen, var, v, hvar, hv, hm⟩ | ⟨hlen, hm⟩
    · exact Or.inl ⟨hlen, target, var, v, htarget, hvar, hv, hm⟩
    · exact Or.inr ⟨hlen, hm⟩

end Context

section Example

attribute [local instance] Ty.x86

/-- `y = f(x)` before the end, where `f` has the parameter `p`, makes a local value and returns `p`. -/
def identityContext : Context where
  nodes :=
    [⟨.inner .call [.idTypePair ⟨20, .int 32⟩, .idTypePair ⟨10, .void⟩, .idTypePair ⟨21, .int 32⟩]
        ⟨20, .int 32, .call (.function 10 "f" false), [], false⟩ false, some 1, none, []⟩,
     ⟨.terminal, none, none, [0]⟩,
     ⟨.inner .createUnknownVal [.idTypePair ⟨31, .int 32⟩, .empty] ⟨31, .int 32, .alloca, [], false⟩ false, some 3,
        none, []⟩,
     ⟨.inner .ret [.idTypePair ⟨32, .void⟩, .empty, .idTypePair ⟨30, .int 32⟩] ⟨32, .void, .ret, [], false⟩ false,
        some 4, none, [2]⟩,
     ⟨.terminal, none, none, [3]⟩]
  globalMapping := (∅ : Mapper).insert 10 100
  funcMapping := (∅ : FuncMapper).insert 100 ⟨2, [⟨30, .int 32⟩], by decide⟩

def identityCaller : AnalysisState :=
  { AnalysisState.new 0 (VcState.new {}).vc with localMapping := (∅ : Mapper).insert 21 7 }

def identityEntry : AnalysisState :=
  (identityContext.execute {} identityCaller).enqueued.head (by decide +kernel)

def identityRet : AnalysisState :=
  (identityContext.execute {} identityEntry).enqueued.head (by decide +kernel)

def identityBack : AnalysisState :=
  (identityContext.execute {} identityRet).enqueued.head (by decide +kernel)

theorem call_return_identity : ∃ func values,
    identityContext.Entered [.idTypePair ⟨20, .int 32⟩, .idTypePair ⟨10, .void⟩, .idTypePair ⟨21, .int 32⟩]
      identityCaller identityEntry func values ∧
    (∀ (var : FrontendIdTypePair), identityContext.globalMapping[var.id]? = none →
      ∀ v, identityEntry.getValue identityContext var = .ok v ↔ Binds func.params values var.id v) ∧
    identityContext.Returned [.idTypePair ⟨20, .int 32⟩, .idTypePair ⟨10, .void⟩, .idTypePair ⟨21, .int 32⟩]
      [.idTypePair ⟨32, .void⟩, .empty, .idTypePair ⟨30, .int 32⟩] identityCaller identityRet identityBack := by
  have hplain : identityContext.system.plain identityEntry identityRet := by
    refine ⟨⟨{}, List.head_mem _⟩, fun args => ?_⟩
    have hop : identityContext.opAt identityEntry =
        some (.createUnknownVal, [.idTypePair ⟨31, .int 32⟩, .empty]) := by decide +kernel
    rw [hop]
    exact ⟨nofun, nofun⟩
  exact Context.call_return_discipline ⟨{}, List.head_mem _⟩ (by decide +kernel) (.plain (.refl _) hplain)
    ⟨{}, List.head_mem _⟩ (by decide +kernel)

end Example

end Angie
