import Angie.Interp.Operations

/-!
# Steps of the interpreter

What executing one node can do (`execute_cases`): a basic operation or a direction of a branch goes on to a next node
of the same frame, a call pushes one frame and enters the callee, a return pops one and goes on behind the call.
A basic operation reads mappings, assigns values and works on the container and the graph, which leaves the node and
the stack alone (`KeepsControl`, `keeps_basic`); `call_ok` and `ret_ok` say what the two others do.
-/

namespace Angie

open Exec Llvm

/-! ## Operations that leave the control alone -/

/-- The node and the stack are the same. -/
structure SameControl (s t : OpState) : Prop where
  node : t.state.node = s.state.node
  stack : t.state.stack = s.state.stack

instance : IsPreorder OpState SameControl where
  refl _ := ⟨rfl, rfl⟩
  trans _ _ _ h h' := ⟨h'.node.trans h.node, h'.stack.trans h.stack⟩

/-- However the program ends, it leaves the node and the stack as they were. -/
abbrev KeepsControl {α : Type} (m : OpM α) : Prop := Steps SameControl m

section Rules

variable {α β : Type}

theorem keeps_ofExcept (x : Except Exn α) : KeepsControl (ofExcept x : OpM α) := by
  cases x with
  | ok a => exact steps_pure a
  | error e => exact steps_throw e

theorem keeps_callVc (m : VcM α) : KeepsControl (OpM.callVc m) := by
  intro s
  unfold OpM.callVc zoom
  cases m ⟨s.statics, s.state.vc⟩ <;> exact ⟨rfl, rfl⟩

theorem keeps_callGraph (m : GraphM α) : KeepsControl (OpM.callGraph m) := by
  intro s
  unfold OpM.callGraph zoom
  cases m ⟨s.statics, s.state.vc, s.state.graph⟩ <;> exact ⟨rfl, rfl⟩

theorem keeps_getValue (ctx : Context) (var : FrontendIdTypePair) : KeepsControl (OpM.getValue ctx var) :=
  steps_get fun s => keeps_ofExcept (s.state.getValue ctx var) s

theorem keeps_assignValue (var : FrontendIdTypePair) (value : ValueId) : KeepsControl (OpM.assignValue var value) :=
  fun _ => ⟨rfl, rfl⟩

/-- The value of an operand, as every operation reads it. -/
theorem keeps_operandValue (ctx : Context) (x : Except Exn FrontendIdTypePair) {g : ValueId → OpM β}
    (hg : ∀ a, KeepsControl (g a)) : KeepsControl (do let var ← ofExcept x; let value ← OpM.getValue ctx var; g value) :=
  steps_bind (keeps_ofExcept x) fun var => steps_bind (keeps_getValue ctx var) hg

/-- The end of an operation that has a target. -/
theorem keeps_assignTarget (x : Except Exn FrontendIdTypePair) (value : ValueId) :
    KeepsControl (do let target ← ofExcept x; OpM.assignValue target value) :=
  steps_bind (keeps_ofExcept x) fun target => keeps_assignValue target value

end Rules

namespace MemGraphOp

variable (ctx : Context) (args : OperationArgs)

section Typed

variable [DataLayout]

omit [DataLayout] in
theorem keeps_load : KeepsControl (load ctx args) := by
  refine steps_bind (keeps_ofExcept _) fun ptr => steps_bind (keeps_ofExcept _) fun reg => ?_
  refine steps_bind (keeps_getValue ctx ptr) fun ptrId => ?_
  exact steps_bind (keeps_callGraph _) fun value => keeps_assignValue reg value

omit [DataLayout] in
theorem keeps_store : KeepsControl (store ctx args) := by
  refine steps_bind (keeps_ofExcept _) fun value => steps_bind (keeps_getValue ctx value) fun valueId => ?_
  exact keeps_operandValue ctx _ fun target => keeps_callGraph _

theorem keeps_allocaRegion (type : Ty) (count : ValueId) : KeepsControl (allocaRegion type count) := by
  refine steps_get fun s => ?_
  cases s.state.vc.constantContainer[count]? with
  | none => exact steps_throw _ s
  | some n => exact steps_ite (steps_throw _) (keeps_callGraph _) s

theorem keeps_alloca : KeepsControl (alloca ctx args) := by
  refine steps_bind (keeps_ofExcept _) fun operand => steps_bind (keeps_getValue ctx operand) fun count => ?_
  refine steps_bind (keeps_ofExcept _) fun target => steps_bind (keeps_callVc _) fun count64 => ?_
  refine steps_bind (keeps_ofExcept _) fun type => ?_
  exact steps_bind (keeps_allocaRegion type count64) fun retVal => keeps_assignValue target retVal

theorem keeps_mallocRegion (size : ValueId) : KeepsControl (mallocRegion size) := by
  refine steps_get fun s => ?_
  cases s.state.vc.constantContainer[size]? with
  | none => exact steps_throw _ s
  | some n => exact keeps_callGraph _ s

theorem keeps_malloc : KeepsControl (malloc ctx args) := by
  refine steps_bind (keeps_ofExcept _) fun operand => steps_bind (keeps_getValue ctx operand) fun size => ?_
  refine steps_bind (keeps_callVc _) fun size64 => steps_bind (keeps_mallocRegion size64) fun retVal => ?_
  exact keeps_assignTarget _ retVal

theorem keeps_memsetRegion (ptr value size : ValueId) : KeepsControl (memsetRegion ptr value size) := by
  refine steps_bind (keeps_callVc _) fun zero => steps_ite (keeps_callGraph _) ?_
  refine steps_get fun s => ?_
  cases s.state.vc.constantContainer[size]? with
  | none => exact steps_throw _ s
  | some n => exact steps_throw _ s

theorem keeps_memset : KeepsControl (memset ctx args) := by
  refine keeps_operandValue ctx _ fun target => keeps_operandValue ctx _ fun value => ?_
  exact keeps_operandValue ctx _ fun len => keeps_memsetRegion target value len

omit [DataLayout] in
theorem keeps_free : KeepsControl (free ctx args) := keeps_operandValue ctx _ fun _ => keeps_callGraph _

theorem keeps_structElementOffset (type : Ty) (index : ℕ) : KeepsControl (structElementOffset type index) := by
  unfold structElementOffset
  cases type.getStructElementOffset index with
  | some offset => exact keeps_callVc _
  | none => exact steps_throw _

theorem keeps_fieldOffset (type : Ty) (offset : ValueId) : KeepsControl (fieldOffset ctx args type offset) := by
  refine steps_ite ?_ (steps_pure offset)
  refine keeps_operandValue ctx _ fun index => steps_bind (keeps_callVc _) fun field => ?_
  refine steps_bind (keeps_structElementOffset type _) fun inner => steps_bind (keeps_callVc _) fun sum => ?_
  exact steps_ite (steps_throw _) (steps_pure sum)

theorem keeps_getElementPtr : KeepsControl (getElementPtr ctx args) := by
  refine steps_bind (keeps_ofExcept _) fun source => steps_bind (keeps_getValue ctx source) fun sourceId => ?_
  refine steps_bind (keeps_ofExcept _) fun type => steps_bind (keeps_callVc _) fun zero => ?_
  refine keeps_operandValue ctx _ fun index => steps_bind (keeps_callVc _) fun size => ?_
  refine steps_bind (keeps_callVc _) fun offset => steps_bind (keeps_fieldOffset ctx args type offset) fun sum => ?_
  exact steps_bind (keeps_callGraph _) fun retVal => keeps_assignTarget _ retVal.1

theorem keeps_cast : KeepsControl (cast ctx args) := by
  refine steps_bind (keeps_ofExcept _) fun operand => steps_bind (keeps_getValue ctx operand) fun lhs => ?_
  refine steps_bind (keeps_ofExcept _) fun opts => steps_bind (keeps_ofExcept _) fun target => ?_
  cases opts.opKind with
  | bitCast =>
    refine steps_bind (keeps_assignValue target lhs) fun _ => steps_get fun s => ?_
    exact steps_bind (keeps_callGraph _) (fun _ => steps_pure ()) s
  | extend => exact keeps_assignValue target lhs
  | truncate => exact steps_bind (keeps_callVc _) fun trunc => keeps_assignValue target trunc
  | _ => exact steps_throw _

theorem keeps_isCmp (lhs rhs : ValueId) (type : Ty) (flags : CmpFlags) : KeepsControl (isCmp lhs rhs type flags) := by
  refine steps_bind (keeps_callVc _) fun result => steps_ite ?_ (steps_pure result)
  exact steps_get fun s => keeps_ofExcept _ s

omit [DataLayout] in
theorem keeps_cmpValue (result : Option Bool) : KeepsControl (cmpValue result) := by
  cases result with
  | none => exact keeps_callVc _
  | some b => exact keeps_callVc _

theorem keeps_cmp : KeepsControl (cmp ctx args) := by
  refine steps_bind (keeps_ofExcept _) fun operand => steps_bind (keeps_getValue ctx operand) fun lhs => ?_
  refine keeps_operandValue ctx _ fun rhs => steps_bind (keeps_ofExcept _) fun flags => ?_
  refine steps_bind (keeps_isCmp lhs rhs _ flags) fun result => steps_bind (keeps_cmpValue result) fun retVal => ?_
  exact keeps_assignTarget _ retVal

theorem keeps_binOp : KeepsControl (binOp ctx args) := by
  refine steps_bind (keeps_ofExcept _) fun opts => steps_bind (keeps_ofExcept _) fun operand => ?_
  refine steps_bind (keeps_getValue ctx operand) fun lhs => keeps_operandValue ctx _ fun rhs => ?_
  exact steps_bind (keeps_callVc _) fun retVal => keeps_assignTarget _ retVal

omit [DataLayout] in
theorem keeps_createUnknown : KeepsControl (createUnknown args) :=
  steps_bind (keeps_ofExcept _) fun target => steps_bind (keeps_callVc _) fun retVal =>
    keeps_assignValue target retVal

theorem keeps_branch (br : Bool) : KeepsControl (branch ctx args br) := keeps_operandValue ctx _ fun _ => keeps_callVc _

end Typed

end MemGraphOp

/-- Every basic operation leaves the node and the stack alone. -/
theorem keeps_basic [DataLayout] {ctx : Context} {args : OperationArgs} {op : Operation} {body : OpM Unit}
    (h : memGraphOpFactory ctx args op = .basic body) : KeepsControl body := by
  cases op with
  | ret | br | call | invoke | memcpy | memmove | notSupportedInstr => cases h
  | binOp => cases h; exact MemGraphOp.keeps_binOp ctx args
  | cast => cases h; exact MemGraphOp.keeps_cast ctx args
  | alloca => cases h; exact MemGraphOp.keeps_alloca ctx args
  | load => cases h; exact MemGraphOp.keeps_load ctx args
  | store => cases h; exact MemGraphOp.keeps_store ctx args
  | getElementPtr => cases h; exact MemGraphOp.keeps_getElementPtr ctx args
  | cmp => cases h; exact MemGraphOp.keeps_cmp ctx args
  | abort | exit => cases h; exact steps_throw _
  | memset => cases h; exact MemGraphOp.keeps_memset ctx args
  | malloc => cases h; exact MemGraphOp.keeps_malloc ctx args
  | free => cases h; exact MemGraphOp.keeps_free ctx args
  | createUnknownVal => cases h; exact MemGraphOp.keeps_createUnknown args
  | noop | terminate | diagnosticsPlotMem => cases h; exact steps_pure ()

/-! ## Calls and returns -/

/-- The values of the actual arguments, as they stand in the caller. -/
structure ActualArgs (ctx : Context) (args : OperationArgs) (s : AnalysisState) (params : List FrontendIdTypePair)
    (values : List ValueId) : Prop where
  length : values.length = params.length
  value : ∀ i v, values[i]? = some v → ∃ var, args.getOperand i = .ok var ∧ s.getValue ctx var = .ok v

/-- A parameter takes the value of the same index. -/
def Binds (params : List FrontendIdTypePair) (values : List ValueId) (id : FrontendId) (v : ValueId) : Prop :=
  ∃ (i : ℕ) (param : FrontendIdTypePair), params[i]? = some param ∧ param.id = id ∧ values[i]? = some v

theorem binds_cons {param : FrontendIdTypePair} {params : List FrontendIdTypePair} {value : ValueId}
    {values : List ValueId} {id : FrontendId} {v : ValueId} :
    Binds (param :: params) (value :: values) id v ↔ (param.id = id ∧ value = v) ∨ Binds params values id v := by
  constructor
  · rintro ⟨i, p, hp, hid, hv⟩
    cases i with
    | zero =>
      simp only [List.getElem?_cons_zero, Option.some.injEq] at hp hv
      exact Or.inl ⟨hp ▸ hid, hv⟩
    | succ i => exact Or.inr ⟨i, p, hp, hid, hv⟩
  · rintro (⟨hid, hv⟩ | ⟨i, p, hp, hid, hv⟩)
    · exact ⟨0, param, rfl, hid, by rw [hv]; rfl⟩
    · exact ⟨i + 1, p, hp, hid, hv⟩

theorem Binds.mem {params : List FrontendIdTypePair} {values : List ValueId} {id : FrontendId} {v : ValueId}
    (h : Binds params values id v) : id ∈ params.map (·.id) := by
  obtain ⟨i, param, hp, rfl, -⟩ := h
  exact List.mem_map_of_mem (List.mem_of_getElem? hp)

namespace MemGraphOp

variable {ctx : Context} {args : OperationArgs} {s t : OpState}

theorem bind_getValue_ok {α : Type} {var : FrontendIdTypePair} {f : ValueId → OpM α} {a : α}
    (h : (OpM.getValue ctx var >>= f) s = .ok a t) : ∃ v, s.state.getValue ctx var = .ok v ∧ f v s = .ok a t :=
  bind_ofExcept_ok h

theorem update_ok {f : AnalysisState → Except Exn AnalysisState} (h : OpM.update f s = .ok () t) :
    f s.state = .ok t.state := by
  obtain ⟨state, hf, h⟩ := bind_ofExcept_ok h
  cases h
  exact hf

/-- The actual arguments are read in the caller, which stays as it is. -/
theorem callArgs_ok {params : List FrontendIdTypePair} {i : ℕ} {values : List ValueId}
    (h : callArgs ctx args i params s = .ok values t) :
    s = t ∧ values.length = params.length ∧
      ∀ j v, values[j]? = some v → ∃ var, args.getOperand (i + j) = .ok var ∧ s.state.getValue ctx var = .ok v := by
  induction params generalizing i values t with
  | nil => cases h; exact ⟨rfl, rfl, fun j v hv => by simp at hv⟩
  | cons param params ih =>
    obtain ⟨var, hvar, h⟩ := bind_ofExcept_ok h
    obtain ⟨value, hvalue, h⟩ := bind_getValue_ok h
    obtain ⟨rest, u, hrest, h⟩ := bind_ok h
    cases h
    obtain ⟨rfl, hlen, hall⟩ := ih hrest
    refine ⟨rfl, by simp only [List.length_cons, hlen], fun j v hv => ?_⟩
    cases j with
    | zero =>
      simp only [List.getElem?_cons_zero, Option.some.injEq] at hv
      exact ⟨var, hvar, hv ▸ hvalue⟩
    | succ j =>
      rw [Nat.add_succ, ← Nat.succ_add]
      exact hall j v hv

/-- The parameters, being distinct, keep the values they are given. -/
theorem assignParams_ok {params : List FrontendIdTypePair} {values : List ValueId}
    (hlen : values.length = params.length) (hnd : (params.map (·.id)).Nodup) :
    ∃ m : Mapper, assignParams params values s = .ok () { s with state := { s.state with localMapping := m } } ∧
      ∀ id v, m[id]? = some v ↔
        Binds params values id v ∨ id ∉ params.map (·.id) ∧ s.state.localMapping[id]? = some v := by
  induction params generalizing values s with
  | nil =>
    obtain rfl := List.length_eq_zero_iff.1 hlen
    refine ⟨s.state.localMapping, rfl, fun id v => ?_⟩
    simp [Binds]
  | cons param params ih =>
    cases values with
    | nil => cases hlen
    | cons value values =>
      obtain ⟨hnotin, hnd⟩ := List.nodup_cons.1 hnd
      obtain ⟨m, hrun, hm⟩ := ih (s := { s with state := s.state.assignValue param value })
        (Nat.succ.inj hlen) hnd
      refine ⟨m, hrun, fun id v => ?_⟩
      rw [hm id v, binds_cons]
      simp only [AnalysisState.assignValue, Std.TreeMap.getElem?_insert, List.map_cons, List.mem_cons, not_or]
      by_cases hid : param.id = id
      · subst hid
        have hno : ¬ Binds params values param.id v := fun hb => hnotin hb.mem
        simp [hno, hnotin]
      · have hcmp : compare param.id id ≠ .eq := fun he => hid (Std.LawfulEqOrd.eq_of_compare he)
        simp [hid, hcmp, Ne.symm hid]

/-- A call reads the arguments, saves the caller and begins a mapping with the parameters alone. -/
theorem call_ok (h : call ctx args s = .ok () t) :
    ∃ var vid func values target node m,
      args.callOptions = .ok var ∧ s.state.getValue ctx var = .ok vid ∧ getFunction ctx vid = .ok func ∧
      ActualArgs ctx args s.state func.params values ∧ args.getTarget = .ok target ∧
      s.state.stackRetNode = some node ∧ (∀ id v, m[id]? = some v ↔ Binds func.params values id v) ∧
      t.state = { s.state with stack := ⟨s.state.localMapping, target.id, node⟩ :: s.state.stack, localMapping := m } := by
  obtain ⟨var, hvar, h⟩ := bind_ofExcept_ok h
  obtain ⟨vid, hvid, h⟩ := bind_getValue_ok h
  obtain ⟨func, hfunc, h⟩ := bind_ofExcept_ok h
  obtain ⟨values, u, hvalues, h⟩ := bind_ok h
  obtain ⟨rfl, hlen, hall⟩ := callArgs_ok hvalues
  obtain ⟨target, htarget, h⟩ := bind_ofExcept_ok h
  obtain ⟨⟨⟩, w, hpush, h⟩ := bind_ok h
  have hpush := update_ok hpush
  unfold AnalysisState.stackPush at hpush
  cases hnode : s.state.stackRetNode with
  | none => rw [hnode] at hpush; cases hpush
  | some node =>
    rw [hnode] at hpush
    injection hpush with hpush
    obtain ⟨m, hrun, hm⟩ := assignParams_ok (s := w) hlen func.params_nodup
    rw [hrun] at h
    cases h
    refine ⟨var, vid, func, values, target, node, m, hvar, hvid, hfunc, ⟨hlen, fun i v hv => ?_⟩, htarget, rfl,
      fun id v => ?_, ?_⟩
    · obtain ⟨operand, ho, hvalue⟩ := hall i v hv
      exact ⟨operand, by rwa [Nat.zero_add] at ho, hvalue⟩
    · rw [hm id v, ← hpush]
      simp
    · simp only [← hpush, hnode]

/-- A return takes the saved mapping back, with the target of the call bound if it returns a value. -/
theorem ret_ok (h : ret ctx args s = .ok () t) :
    ∃ frame stack, s.state.stack = frame :: stack ∧
      ((2 < args.length ∧ ∃ var v, args.getOperand 0 = .ok var ∧ s.state.getValue ctx var = .ok v ∧
          t.state = { s.state with
            stack := stack, localMapping := frame.mapping.insert frame.retFrontendId v }) ∨
        (¬ 2 < args.length ∧ t.state = { s.state with stack := stack, localMapping := frame.mapping })) := by
  unfold ret at h
  split at h
  case isTrue hlen =>
    obtain ⟨var, hvar, h⟩ := bind_ofExcept_ok h
    obtain ⟨v, hv, h⟩ := bind_getValue_ok h
    have hpop := update_ok h
    unfold AnalysisState.stackPopValue at hpop
    cases hstack : s.state.stack with
    | nil => rw [hstack] at hpop; cases hpop
    | cons frame stack =>
      rw [hstack] at hpop
      injection hpop with hpop
      exact ⟨frame, stack, rfl, Or.inl ⟨hlen, var, v, hvar, hv, hpop.symm⟩⟩
  case isFalse hlen =>
    have hpop := update_ok h
    unfold AnalysisState.stackPop at hpop
    cases hstack : s.state.stack with
    | nil => rw [hstack] at hpop; cases hpop
    | cons frame stack =>
      rw [hstack] at hpop
      injection hpop with hpop
      exact ⟨frame, stack, rfl, Or.inr ⟨hlen, hpop.symm⟩⟩

end MemGraphOp

/-! ## Executing a node -/

theorem mem_safely {body : OpM Unit} {successor t : AnalysisState} {statics : Statics}
    (h : t ∈ (Outcome.safely body successor statics).enqueued) :
    ∃ u, body ⟨statics, successor⟩ = .ok () u ∧ u.state = t := by
  unfold Outcome.safely at h
  cases hb : body ⟨statics, successor⟩ with
  | ok a u =>
    rw [hb] at h
    exact ⟨u, rfl, (List.mem_singleton.1 h).symm⟩
  | error e u =>
    rw [hb] at h
    dsimp only at h
    split at h <;> cases h

namespace Context

variable {ctx : Context} {args : OperationArgs} {statics : Statics} {s t : AnalysisState} {node : Node}

theorem mem_assertBranching {branching : Bool} {o : Outcome}
    (h : t ∈ (assertBranching statics node branching o).enqueued) : t ∈ o.enqueued := by
  unfold assertBranching at h
  split at h
  · exact h
  · cases h

theorem mem_nextOf {p : Option NodeId} {f : NodeId → Outcome} (h : t ∈ (nextOf statics p f).enqueued) :
    ∃ n, p = some n ∧ t ∈ (f n).enqueued := by
  cases p with
  | none => cases h
  | some n => exact ⟨n, rfl, h⟩

/-- A program that leaves the control alone ends at the node of the successor it was given. -/
theorem mem_safely_keeps {body : OpM Unit} (hb : KeepsControl body) {successor : AnalysisState}
    (h : t ∈ (Outcome.safely body successor statics).enqueued) :
    t.node = successor.node ∧ t.stack = successor.stack := by
  obtain ⟨u, hrun, rfl⟩ := mem_safely h
  exact ⟨(hb.ok hrun).node, (hb.ok hrun).stack⟩

/-- A basic operation goes on to the next node. -/
theorem executeBasic_mem {body : OpM Unit} (hb : KeepsControl body)
    (h : t ∈ (executeBasic statics s node body).enqueued) : node.next = some t.node ∧ t.stack = s.stack := by
  obtain ⟨n, hn, h⟩ := mem_nextOf (mem_assertBranching h)
  obtain ⟨hnode, hstack⟩ := mem_safely_keeps hb h
  exact ⟨by rw [hn, hnode]; rfl, hstack⟩

/-- A branch goes on to either of the next nodes. -/
theorem executeBranch_mem [DataLayout] (h : t ∈ (executeBranch ctx args statics s node).enqueued) :
    (node.nextFalse = some t.node ∨ node.next = some t.node) ∧ t.stack = s.stack := by
  obtain ⟨onFalse, hfalse, h⟩ := mem_nextOf (mem_assertBranching h)
  obtain ⟨onTrue, htrue, h⟩ := mem_nextOf h
  have hdirection : ∀ {br : Bool} {n : NodeId} {u : Statics},
      t ∈ (Outcome.safely (MemGraphOp.branch ctx args br) (s.createSuccessor n) u).enqueued →
        n = t.node ∧ t.stack = s.stack := by
    intro br n u hmem
    obtain ⟨hnode, hstack⟩ := mem_safely_keeps (MemGraphOp.keeps_branch ctx args br) hmem
    exact ⟨hnode.symm, hstack⟩
  have hcases : t ∈ (Outcome.safely (MemGraphOp.branch ctx args false) (s.createSuccessor onFalse) statics).enqueued ∨
      ∃ u, t ∈ (Outcome.safely (MemGraphOp.branch ctx args true) (s.createSuccessor onTrue) u).enqueued := by
    dsimp only at h
    split at h
    · exact Or.inl h
    · rcases List.mem_append.1 h with h | h
      · exact Or.inl h
      · exact Or.inr ⟨_, h⟩
  rcases hcases with hmem | ⟨u, hmem⟩
  · obtain ⟨rfl, hstack⟩ := hdirection hmem
    exact ⟨Or.inl hfalse, hstack⟩
  · obtain ⟨rfl, hstack⟩ := hdirection hmem
    exact ⟨Or.inr htrue, hstack⟩

/-- A call enters the callee with the parameters bound, the caller saved on the stack. -/
theorem executeCall_mem (h : t ∈ (executeCall ctx args statics s node).enqueued) :
    ∃ func values target back m,
      callee ctx args s = .ok func ∧ node.next = some back ∧ args.getTarget = .ok target ∧
      ActualArgs ctx args s func.params values ∧ (∀ id v, m[id]? = some v ↔ Binds func.params values id v) ∧
      t = { s with
        node := func.cfg, localMapping := m, stack := ⟨s.localMapping, target.id, back⟩ :: s.stack,
        stackRetNode := some back } := by
  have h := mem_assertBranching h
  cases hf : callee ctx args s with
  | error e => rw [hf] at h; cases h
  | ok func =>
    rw [hf] at h
    obtain ⟨back, hback, h⟩ := mem_nextOf h
    obtain ⟨u, hrun, rfl⟩ := mem_safely h
    obtain ⟨var, vid, func', values, target, node', m, hvar, hvid, hfunc, hvalues, htarget, hnode, hm, ht⟩ :=
      MemGraphOp.call_ok hrun
    cases hnode
    have hsame : callee ctx args s = .ok func' := by
      have hvid' : s.getValue ctx var = .ok vid := hvid
      unfold callee
      rw [hvar]
      dsimp only
      rw [hvid']
      exact hfunc
    rw [hf] at hsame
    cases hsame
    exact ⟨func, values, target, back, m, rfl, hback, htarget, ⟨hvalues.length, hvalues.value⟩, hm, ht⟩

/-- A return goes on at the node of the top frame, in the mapping of that frame. -/
theorem executeRet_mem (h : t ∈ (executeRet ctx args statics s node).enqueued) :
    ∃ frame stack, s.stack = frame :: stack ∧ t.node = frame.node ∧ t.stack = stack ∧
      ((2 < args.length ∧ ∃ var v, args.getOperand 0 = .ok var ∧ s.getValue ctx var = .ok v ∧
          t.localMapping = frame.mapping.insert frame.retFrontendId v) ∨
        (¬ 2 < args.length ∧ t.localMapping = frame.mapping)) := by
  have h := mem_assertBranching h
  unfold AnalysisState.getStackRetNode at h
  cases hs : s.stack with
  | nil => rw [hs] at h; cases h
  | cons frame stack =>
    rw [hs] at h
    obtain ⟨u, hrun, rfl⟩ := mem_safely h
    obtain ⟨frame', stack', hstack, hpop⟩ := MemGraphOp.ret_ok hrun
    obtain ⟨rfl, rfl⟩ := List.cons.inj (hs.symm.trans hstack)
    rcases hpop with ⟨hlen, var, v, hvar, hv, ht⟩ | ⟨hlen, ht⟩
    · rw [ht]
      exact ⟨frame, stack, rfl, rfl, rfl, Or.inl ⟨hlen, var, v, hvar, hv, rfl⟩⟩
    · rw [ht]
      exact ⟨frame, stack, rfl, rfl, rfl, Or.inr ⟨hlen, rfl⟩⟩

/-! ## The step of a state -/

/-- The operation at the node of a state. -/
def opAt (ctx : Context) (s : AnalysisState) : Option (Operation × OperationArgs) :=
  match ctx.nodes[s.node]? with
  | some node =>
    match node.kind with
    | .inner op args _ _ => some (op, args)
    | _ => none
  | none => none

theorem opAt_eq {op : Operation} {instr : Llvm.Instruction} {bp : Bool} (hn : ctx.nodes[s.node]? = some node)
    (hk : node.kind = .inner op args instr bp) : ctx.opAt s = some (op, args) := by
  unfold opAt
  rw [hn]
  dsimp only
  rw [hk]

/-- Only operations have successors, and which they are depends on the implementation. -/
theorem execute_cases [DataLayout] (h : t ∈ (ctx.execute statics s).enqueued) :
    ∃ node op args, ctx.nodes[s.node]? = some node ∧ ctx.opAt s = some (op, args) ∧
      ((op ≠ .call ∧ op ≠ .ret ∧ t.node ∈ node.succs ∧ t.stack = s.stack) ∨
        (op = .call ∧ t ∈ (executeCall ctx args statics s node).enqueued) ∨
        (op = .ret ∧ t ∈ (executeRet ctx args statics s node).enqueued)) := by
  unfold execute at h
  cases hn : ctx.nodes[s.node]? with
  | none => rw [hn] at h; cases h
  | some node =>
    rw [hn] at h
    dsimp only at h
    unfold executeNode at h
    cases hk : node.kind with
    | start => rw [hk] at h; cases h
    | terminal => rw [hk] at h; cases h
    | inner op args instr bp =>
      rw [hk] at h
      dsimp only at h
      refine ⟨node, op, args, rfl, opAt_eq hn hk, ?_⟩
      cases hf : memGraphOpFactory ctx args op with
      | basic body =>
        rw [hf] at h
        obtain ⟨hnext, hstack⟩ := executeBasic_mem (keeps_basic hf) h
        refine Or.inl ⟨?_, ?_, ?_, hstack⟩
        · rintro rfl; cases hf
        · rintro rfl; cases hf
        · unfold Node.succs; simp [hnext]
      | branch =>
        rw [hf] at h
        obtain ⟨hnext, hstack⟩ := executeBranch_mem h
        refine Or.inl ⟨?_, ?_, ?_, hstack⟩
        · rintro rfl; cases hf
        · rintro rfl; cases hf
        · unfold Node.succs
          rcases hnext with hnext | hnext <;> simp [hnext]
      | call =>
        rw [hf] at h
        have hop : op = .call := by cases op <;> first | rfl | cases hf
        exact Or.inr (Or.inl ⟨hop, h⟩)
      | ret =>
        rw [hf] at h
        have hop : op = .ret := by cases op <;> first | rfl | cases hf
        exact Or.inr (Or.inr ⟨hop, h⟩)
      | notSupported => rw [hf] at h; cases h

end Context

end Angie
