import Angie.Interp.Exploration
import Angie.Interp.Steps
import Angie.Lib.FlowGraph
import Mathlib.Algebra.Order.BigOperators.Group.List
import Mathlib.Algebra.Order.Group.Nat

/-!
# Programs without loops

The interpreter unrolls loops and recursion, so the loop of `VerificationLoop` need not end. It does for a program in
which every walk along next nodes and into callees ends (`Context.continues`, `FlowGraph.Loopless`): a state ranks by its
node and those of its frames, every successor ranks lower (`step_rank`), and a state has two successors at most
(`execute_length`). So fewer than `2 ^ (rank + 1)` turns are made, whatever position each of them takes
(`verify_turns`), and the loop ends under every strategy (`verificationLoop_terminates`).
-/

namespace Angie

open Exec Llvm Trace Worklist FlowGraph

/-! ## Ranks -/

namespace Context

/-- The functions that a call may enter: the one that the global callee is, or any. -/
def callees (ctx : Context) (args : OperationArgs) : List FunctionHandle :=
  match args.callOptions with
  | .error _ => []
  | .ok options =>
    match ctx.globalMapping[options.id]? with
    | some vid => ctx.funcMapping[vid]?.toList
    | none => ctx.funcMapping.toList.map (·.2)

/-- Where control may go from a node, and where it comes back to. -/
def continues (ctx : Context) (n : NodeId) : List NodeId :=
  match ctx.nodes[n]? with
  | none => []
  | some node =>
    match node.kind with
    | .start | .terminal => []
    | .inner .call args _ _ => (ctx.callees args).map (·.cfg) ++ node.next.toList
    | .inner .ret _ _ _ => []
    | .inner _ _ _ _ => node.succs

end Context

/-- Neither in the frame of the state nor in those below is a loop. -/
structure AnalysisState.Loopless (ctx : Context) (s : AnalysisState) : Prop where
  node : FlowGraph.Loopless ctx.continues s.node
  stack : ∀ frame ∈ s.stack, FlowGraph.Loopless ctx.continues frame.node

/-- What is left to do in the frame of a state and in those below. -/
noncomputable def AnalysisState.rank (ctx : Context) (s : AnalysisState) : ℕ :=
  FlowGraph.rank ctx.continues s.node + (s.stack.map fun frame => FlowGraph.rank ctx.continues frame.node).sum

namespace Context

variable {ctx : Context} {s t : AnalysisState} {statics : Statics}

theorem kind_of_opAt {node : Node} {op : Operation} {args : OperationArgs} (hn : ctx.nodes[s.node]? = some node)
    (h : ctx.opAt s = some (op, args)) : ∃ instr bp, node.kind = .inner op args instr bp := by
  unfold opAt at h
  rw [hn] at h
  dsimp only at h
  split at h
  · rename_i hk
    cases h
    exact ⟨_, _, hk⟩
  · cases h

theorem mem_callees {args : OperationArgs} {func : FunctionHandle} (h : callee ctx args s = .ok func) :
    func ∈ ctx.callees args := by
  unfold callee at h
  unfold callees
  cases hargs : args.callOptions with
  | error e => rw [hargs] at h; cases h
  | ok options =>
    rw [hargs] at h
    dsimp only at h ⊢
    unfold AnalysisState.getValue at h
    have hfunc : ∀ {vid : ValueId}, MemGraphOp.getFunction ctx vid = .ok func → ctx.funcMapping[vid]? = some func := by
      intro vid hvid
      unfold MemGraphOp.getFunction at hvid
      split at hvid
      · cases hvid
        assumption
      · cases hvid
    cases hglobal : ctx.globalMapping[options.id]? with
    | some vid =>
      rw [hglobal] at h
      exact Option.mem_toList.2 (hfunc h)
    | none =>
      rw [hglobal] at h
      dsimp only at h ⊢
      cases hlocal : s.localMapping[options.id]? with
      | none => rw [hlocal] at h; cases h
      | some vid =>
        rw [hlocal] at h
        exact List.mem_map.2 ⟨(vid, func), Std.TreeMap.mem_toList_iff_getElem?_eq_some.2 (hfunc h), rfl⟩

theorem continues_inner {n : NodeId} {node : Node} {op : Operation} {args : OperationArgs} {instr : Llvm.Instruction}
    {bp : Bool} (hn : ctx.nodes[n]? = some node) (hk : node.kind = .inner op args instr bp) (hcall : op ≠ .call)
    (hret : op ≠ .ret) : ctx.continues n = node.succs := by
  unfold continues
  rw [hn]
  dsimp only
  rw [hk]
  cases op <;> first | rfl | contradiction

theorem continues_call {n : NodeId} {node : Node} {args : OperationArgs} {instr : Llvm.Instruction} {bp : Bool}
    (hn : ctx.nodes[n]? = some node) (hk : node.kind = .inner .call args instr bp) :
    ctx.continues n = (ctx.callees args).map (·.cfg) ++ node.next.toList := by
  unfold continues
  rw [hn]
  dsimp only
  rw [hk]

theorem continues_ret {n : NodeId} {node : Node} {args : OperationArgs} {instr : Llvm.Instruction} {bp : Bool}
    (hn : ctx.nodes[n]? = some node) (hk : node.kind = .inner .ret args instr bp) : ctx.continues n = [] := by
  unfold continues
  rw [hn]
  dsimp only
  rw [hk]

theorem continues_terminal {n : NodeId} {node : Node} (hn : ctx.nodes[n]? = some node) (hk : node.kind = .terminal) :
    ctx.continues n = [] := by
  unfold continues
  rw [hn]
  dsimp only
  rw [hk]

variable [DataLayout]

/-- A successor is where there are no loops either, and ranks lower. -/
theorem step_rank (hs : s.Loopless ctx) (h : t ∈ (ctx.execute statics s).enqueued) :
    t.Loopless ctx ∧ t.rank ctx < s.rank ctx := by
  obtain ⟨node, op, args, hn, hop, hcase⟩ := execute_cases h
  obtain ⟨instr, bp, hk⟩ := kind_of_opAt hn hop
  have hrank := rank_eq hs.node
  unfold AnalysisState.rank
  rcases hcase with ⟨hcall, hret, hsucc, hstack⟩ | ⟨rfl, ht⟩ | ⟨rfl, ht⟩
  · rw [← continues_inner hn hk hcall hret] at hsucc
    have hle := List.le_sum_of_mem (List.mem_map_of_mem (f := FlowGraph.rank ctx.continues) hsucc)
    rw [hstack]
    exact ⟨⟨hs.node.succ hsucc, hstack ▸ hs.stack⟩, by lia⟩
  · obtain ⟨func, values, target, back, m, hfunc, hback, -, -, -, rfl⟩ := executeCall_mem ht
    have hcontinues := continues_call hn hk
    rw [hback, Option.toList_some] at hcontinues
    have hcfg : func.cfg ∈ (ctx.callees args).map (·.cfg) := List.mem_map_of_mem (mem_callees hfunc)
    have hle := List.le_sum_of_mem (List.mem_map_of_mem (f := FlowGraph.rank ctx.continues) hcfg)
    have hbehind : FlowGraph.Loopless ctx.continues back := hs.node.succ (by rw [hcontinues]; simp)
    rw [hcontinues, List.map_append, List.sum_append, List.map_singleton, List.sum_singleton] at hrank
    refine ⟨⟨hs.node.succ (by rw [hcontinues]; exact List.mem_append_left _ hcfg), fun frame hframe => ?_⟩, ?_⟩
    · rcases List.mem_cons.1 hframe with rfl | hframe
      · exact hbehind
      · exact hs.stack frame hframe
    · dsimp only
      rw [List.map_cons, List.sum_cons]
      lia
  · obtain ⟨frame, stack, hstack, hnode, hrest, -⟩ := executeRet_mem ht
    have hframes := hs.stack
    rw [hstack] at hframes
    refine ⟨⟨hnode ▸ hframes frame List.mem_cons_self, fun f hf => ?_⟩, ?_⟩
    · exact hframes f (List.mem_cons_of_mem _ (hrest ▸ hf))
    · rw [hstack, hnode, hrest, List.map_cons, List.sum_cons]
      lia

/-! ## Successors -/

omit [DataLayout] in
theorem safely_length (body : OpM Unit) (successor : AnalysisState) (statics : Statics) :
    (Outcome.safely body successor statics).enqueued.length ≤ 1 := by
  unfold Outcome.safely
  split
  · exact Nat.le_refl 1
  · split <;> exact Nat.zero_le 1

omit [DataLayout] in
theorem assertBranching_length {node : Node} {branching : Bool} {o : Outcome} {n : ℕ} (h : o.enqueued.length ≤ n) :
    (assertBranching statics node branching o).enqueued.length ≤ n := by
  unfold assertBranching
  split
  · exact h
  · exact Nat.zero_le n

omit [DataLayout] in
theorem nextOf_length {p : Option NodeId} {f : NodeId → Outcome} {n : ℕ} (h : ∀ m, (f m).enqueued.length ≤ n) :
    (nextOf statics p f).enqueued.length ≤ n := by
  cases p with
  | none => exact Nat.zero_le n
  | some m => exact h m

theorem executeBranch_length (args : OperationArgs) (node : Node) :
    (executeBranch ctx args statics s node).enqueued.length ≤ 2 := by
  refine assertBranching_length (nextOf_length fun onFalse => nextOf_length fun onTrue => ?_)
  have hfirst := safely_length (MemGraphOp.branch ctx args false) (s.createSuccessor onFalse) statics
  dsimp only
  split
  · exact Nat.le_trans hfirst (by decide)
  · have hsecond := safely_length (MemGraphOp.branch ctx args true) (s.createSuccessor onTrue)
      (Outcome.safely (MemGraphOp.branch ctx args false) (s.createSuccessor onFalse) statics).statics
    rw [List.length_append]
    exact Nat.add_le_add hfirst hsecond

variable (ctx statics s) in
theorem execute_length : (ctx.execute statics s).enqueued.length ≤ 2 := by
  unfold execute
  cases ctx.nodes[s.node]? with
  | none => exact Nat.zero_le 2
  | some node =>
    dsimp only
    unfold executeNode
    cases node.kind with
    | start | terminal => exact Nat.zero_le 2
    | inner op args instr bp =>
      dsimp only
      cases memGraphOpFactory ctx args op with
      | basic body =>
        exact Nat.le_trans (assertBranching_length (nextOf_length fun next => safely_length _ _ _)) (by decide)
      | branch => exact executeBranch_length args node
      | call =>
        refine Nat.le_trans (assertBranching_length ?_) (by decide : 1 ≤ 2)
        cases callee ctx args s with
        | error e => exact Nat.zero_le 1
        | ok func => exact nextOf_length fun next => safely_length _ _ _
      | ret =>
        refine Nat.le_trans (assertBranching_length ?_) (by decide : 1 ≤ 2)
        cases s.getStackRetNode with
        | error e => exact Nat.zero_le 1
        | ok next => exact safely_length _ _ _
      | notSupported => exact Nat.zero_le 2

end Context

/-! ## Turns -/

section Turns

variable [DataLayout] {ctx : Context} {statics : Statics} {initial : AnalysisState} {es : Turns}
  {v : Verification}

/-- Every turn executed a state that is still in the pool. -/
theorem turn_executed (h : ctx.VerifyRun statics initial es v) : ∀ e ∈ es, ∃ ref s,
    e.out = some (ref, ctx.execute e.pre.statics s) ∧ v.manager.search.pool[ref]? = some s := by
  intro e he
  obtain ⟨⟨es', hpre⟩, ha, heq⟩ := h.event e he
  obtain ⟨ref, entry, m, -, hentry, hsearch, -, hturn⟩ := turn_eq ctx (verify_searchOk hpre) ha.2
  refine ⟨ref, entry.state, by rw [heq, step, hturn], verify_keeps h e he ?_⟩
  have hpost : e.post = (ctx.turn e.op e.pre).2 := by
    conv_lhs => rw [heq]
    rfl
  have hpool : (e.pre.manager.search.take e.op).pool[ref]? = some entry.state := by
    simp [Search.take, StatesManager.search, hentry]
  rw [hpost, hturn]
  dsimp only
  rw [search_inserts, hsearch, (foldl_push _ _).1, List.getElem?_append_left (List.getElem?_eq_some_iff.1 hpool).1]
  exact hpool

/-- A visit hands on what the execution of its state enqueued. -/
theorem visit_executed (h : ctx.VerifyRun statics initial es v) {x : Visit AnalysisState} (hx : x ∈ visits es) :
    ∃ s, v.manager.search.pool[x.1]? = some s ∧ ∃ statics, x.2 = (ctx.execute statics s).enqueued := by
  obtain ⟨y, hy, rfl⟩ := List.mem_map.1 hx
  obtain ⟨e, he, hout⟩ := List.mem_filterMap.1 hy
  obtain ⟨ref, s, hexec, hs⟩ := turn_executed h e he
  cases hexec.symm.trans hout
  exact ⟨s, hs, e.pre.statics, rfl⟩

theorem visits_length (h : ctx.VerifyRun statics initial es v) : (visits es).length = es.length := by
  have hall : ∀ e ∈ es, e.out.isSome = true := by
    intro e he
    obtain ⟨ref, s, hout, -⟩ := turn_executed h e he
    rw [hout]
    rfl
  rw [visits, List.length_map, List.length_filterMap_eq_countP, List.countP_eq_length.2]
  exact hall

/-- The weight of a state: more than those of two states of lower rank. -/
noncomputable def AnalysisState.weight (ctx : Context) (s : AnalysisState) : ℕ := 2 ^ (s.rank ctx + 1) - 1

omit [DataLayout] in
theorem weight_pos (s : AnalysisState) : 1 ≤ s.weight ctx := by
  have := Nat.one_le_two_pow (n := s.rank ctx)
  unfold AnalysisState.weight
  rw [Nat.pow_succ]
  lia

omit [DataLayout] in
theorem sum_weight_lt {s : AnalysisState} {children : List AnalysisState} (hlen : children.length ≤ 2)
    (hlt : ∀ t ∈ children, t.rank ctx < s.rank ctx) : (children.map (·.weight ctx)).sum < s.weight ctx := by
  have hpos := Nat.one_le_two_pow (n := s.rank ctx)
  have hle : ∀ t ∈ children, t.weight ctx ≤ 2 ^ s.rank ctx - 1 := fun t ht =>
    Nat.sub_le_sub_right (Nat.pow_le_pow_right (by decide) (hlt t ht)) 1
  have hweight : s.weight ctx = 2 * 2 ^ s.rank ctx - 1 := by rw [AnalysisState.weight, Nat.pow_succ, Nat.mul_comm]
  rw [hweight]
  match children with
  | [] =>
    rw [List.map_nil, List.sum_nil]
    lia
  | [t] =>
    have ht := hle t (by simp)
    rw [List.map_singleton, List.sum_singleton]
    lia
  | [t, u] =>
    have ht := hle t (by simp)
    have hu := hle u (by simp)
    simp only [List.map_cons, List.map_nil, List.sum_cons, List.sum_nil]
    lia

/-- Nowhere in the pool is a loop. -/
theorem pool_loopless (h : ctx.VerifyRun statics initial es v) (hinit : initial.Loopless ctx) :
    ∀ s ∈ v.manager.search.pool, s.Loopless ctx := by
  refine (verify_searchOk h).explores.forall_pool hinit fun x hx a ha hloopless b hb => ?_
  obtain ⟨s, hs, hchildren⟩ := visit_executed h hx
  cases hs.symm.trans ha
  obtain ⟨statics, hchildren⟩ := hchildren
  rw [hchildren] at hb
  exact (Context.step_rank hloopless hb).1

/-- However the states are taken from the worklist, the turns made and the states waiting are fewer than
`2 ^ (rank + 1)`. -/
theorem verify_turns (hinit : initial.Loopless ctx) (h : ctx.VerifyRun statics initial es v) :
    es.length + v.manager.worklist.length < 2 ^ (initial.rank ctx + 1) := by
  have hexp := (verify_searchOk h).explores
  have hlen := hexp.length_le (·.weight ctx) fun x hx a ha => by
    obtain ⟨s, hs, statics, hchildren⟩ := visit_executed h hx
    cases hs.symm.trans ha
    have hloopless := pool_loopless h hinit a (List.mem_of_getElem? ha)
    rw [hchildren]
    exact sum_weight_lt (Context.execute_length ctx _ _) fun t ht => (Context.step_rank hloopless ht).2
  rw [visits_length h] at hlen
  -- what is pending weighs one at least
  have hpending : v.manager.worklist.length ≤ v.manager.search.weight (·.weight ctx) := by
    have hone : ∀ i ∈ v.manager.search.pending, 1 ≤ v.manager.search.weightAt (·.weight ctx) i := by
      intro i hi
      rw [Search.weightAt, List.getElem?_eq_getElem (hexp.pending hi).1]
      exact weight_pos _
    have := List.length_le_sum_of_one_le (v.manager.search.pending.map (v.manager.search.weightAt (·.weight ctx)))
      (by simpa using hone)
    rwa [List.length_map] at this
  have hroot : initial.weight ctx = 2 ^ (initial.rank ctx + 1) - 1 := rfl
  have hpos := Nat.one_le_two_pow (n := initial.rank ctx + 1)
  lia

/-! ## The loop -/

/-- The loop is over: the worklist is empty, or an exception has left it. -/
def Verification.ended (v : Verification) : Bool := v.manager.worklist.isEmpty || v.thrown.isSome

/-- At most so many turns of the loop, each at the position that the strategy chooses. -/
def Context.verificationLoop (ctx : Context) (choose : Verification → ℕ) : ℕ → Verification → Verification
  | 0, v => v
  | n + 1, v => if v.ended then v else ctx.verificationLoop choose n (ctx.turn (choose v) v).2

theorem verificationLoop_run {choose : Verification → ℕ}
    (hc : ∀ v, v.manager.worklist ≠ [] → choose v < v.manager.worklist.length) (n : ℕ) :
    ∀ {es : Turns} {v : Verification}, ctx.VerifyRun statics initial es v →
      ∃ es', ctx.VerifyRun statics initial es' (ctx.verificationLoop choose n v) ∧
        ((ctx.verificationLoop choose n v).ended = true ∨ es'.length = es.length + n) := by
  induction n with
  | zero => exact fun {es v} h => ⟨es, h, Or.inr rfl⟩
  | succ n ih =>
    intro es v h
    unfold Context.verificationLoop
    cases hend : v.ended with
    | true => exact ⟨es, by rwa [if_pos rfl], Or.inl (by rwa [if_pos rfl])⟩
    | false =>
      rw [if_neg Bool.false_ne_true]
      simp only [Verification.ended, Bool.or_eq_false_iff, List.isEmpty_eq_false_iff, Option.isSome_eq_false_iff,
        Option.isNone_iff_eq_none] at hend
      obtain ⟨es', h', hor⟩ := ih (.step (choose v) h ⟨hend.2, hc v hend.1⟩)
      refine ⟨es', h', hor.imp_right fun hlen => ?_⟩
      rw [hlen, List.length_cons]
      lia

/-- The loop ends when no run is so long. -/
theorem verificationLoop_ended {choose : Verification → ℕ}
    (hc : ∀ v, v.manager.worklist ≠ [] → choose v < v.manager.worklist.length) {n : ℕ}
    (hn : ∀ {es v}, ctx.VerifyRun statics initial es v → es.length < n) :
    ∃ es, ctx.VerifyRun statics initial es (ctx.verificationLoop choose n (.start statics initial)) ∧
      (ctx.verificationLoop choose n (.start statics initial)).ended = true := by
  have hstart : ctx.VerifyRun statics initial [] (.start statics initial) := .start rfl
  obtain ⟨es, h, hend | hlen⟩ := verificationLoop_run hc n hstart
  · exact ⟨es, h, hend⟩
  · have := hn h
    rw [hlen, List.length_nil] at this
    lia

/-- A program without loops and recursion is explored to the end, whatever the strategy. -/
theorem verificationLoop_terminates {choose : Verification → ℕ} (hinit : initial.Loopless ctx)
    (hc : ∀ v, v.manager.worklist ≠ [] → choose v < v.manager.worklist.length) :
    (ctx.verificationLoop choose (2 ^ (initial.rank ctx + 1)) (.start statics initial)).ended = true := by
  have hturns : ∀ {es v}, ctx.VerifyRun statics initial es v → es.length < 2 ^ (initial.rank ctx + 1) := fun h =>
    Nat.lt_of_le_of_lt (Nat.le_add_right _ _) (verify_turns hinit h)
  obtain ⟨es, -, hended⟩ := verificationLoop_ended hc hturns
  exact hended

end Turns

/-! ### An example -/

section Example

attribute [local instance] Ty.x86

theorem twiceBranched_loopless (n : NodeId) : FlowGraph.Loopless twiceBranched.continues n := by
  refine loopless_of_rank (fun n => 3 - n) (fun n (_ : True) m hm => ⟨trivial, ?_⟩) trivial
  match n with
  | 0 | 1 | 2 | 3 => revert m; decide
  | n + 4 => cases hm

/-- From the terminal node back. -/
theorem twiceBranched_rank : FlowGraph.rank twiceBranched.continues 0 = 6 := by
  have h3 : FlowGraph.rank twiceBranched.continues 3 = 1 := by
    rw [rank_eq (twiceBranched_loopless 3)]
    rfl
  have h2 : FlowGraph.rank twiceBranched.continues 2 = 3 := by
    rw [rank_eq (twiceBranched_loopless 2), show twiceBranched.continues 2 = [3, 3] from rfl]
    simp [h3]
  have h1 : FlowGraph.rank twiceBranched.continues 1 = 5 := by
    rw [rank_eq (twiceBranched_loopless 1), show twiceBranched.continues 1 = [2, 3] from rfl]
    simp [h2, h3]
  rw [rank_eq (twiceBranched_loopless 0), show twiceBranched.continues 0 = [1] from rfl]
  simp [h1]

/-- The oldest state first, and the loop is over after at most so many turns. -/
theorem verificationLoop_twiceBranched :
    (twiceBranched.verificationLoop (fun v => v.manager.worklist.length - 1) 128 twiceBranchedStart).ended = true := by
  have hrank : AnalysisState.rank twiceBranched (.new 0 (VcState.new {}).vc) = 6 := twiceBranched_rank
  have hinit : AnalysisState.Loopless twiceBranched (.new 0 (VcState.new {}).vc) := ⟨twiceBranched_loopless 0, nofun⟩
  have h : (twiceBranched.verificationLoop (fun v => v.manager.worklist.length - 1)
      (2 ^ (AnalysisState.rank twiceBranched (.new 0 (VcState.new {}).vc) + 1)) twiceBranchedStart).ended = true :=
    verificationLoop_terminates hinit fun v hv => Nat.sub_one_lt_of_lt (List.length_pos_iff.2 hv)
  rwa [hrank] at h

end Example

end Angie
