import Angie.Interp.Steps

/-!
# Nodes that are not supported

A node raises `NotSupportedException` in whatever state it is executed exactly if it is a start node or its operation
is one that the analysis does not implement (`raises_iff`): every other operation has a state in which it goes on or
ends with some other exception, such as one with an empty mapping, where the first operand is out of range.
-/

namespace Angie

open Exec Llvm

/-- The operations behind which the factory has `MemGraphOpNotSupported`. -/
def Operation.isNotSupported : Operation → Bool
  | .invoke | .memcpy | .memmove | .notSupportedInstr => true
  | _ => false

theorem factory_notSupported [DataLayout] {ctx : Context} {args : OperationArgs} {op : Operation} :
    memGraphOpFactory ctx args op = .notSupported ↔ op.isNotSupported = true := by
  cases op <;> simp [memGraphOpFactory, Operation.isNotSupported]

/-- The operation is not supported, or there is none to execute. -/
def NodeKind.isNotSupported : NodeKind → Bool
  | .start => true
  | .terminal => false
  | .inner op _ _ _ => op.isNotSupported

/-- Executing the node raises `NotSupportedException`, whatever the state. -/
def Context.Raises [DataLayout] (ctx : Context) (n : NodeId) : Prop :=
  ∀ statics (s : AnalysisState), s.node = n → ∃ what, (ctx.execute statics s).thrown = some (.notSupported what)

/-! ## Other exceptions -/

/-- What leaves the interpreter is not `NotSupportedException`. -/
def Outcome.Supported (o : Outcome) : Prop := ∀ e, o.thrown = some e → e.isNotSupported = false

/-- From a state that satisfies `pre`, the operation throws no `NotSupportedException`. -/
abbrev Supports {α : Type} (pre : OpState → Prop) (m : OpM α) : Prop := Throws pre (fun e => e.isNotSupported = false) m

/-- No id has a local value. -/
def Blind (s : OpState) : Prop := s.state.localMapping = ∅

theorem Outcome.supported_throws {e : Exn} (h : e.isNotSupported = false) (statics : Statics) :
    (Outcome.throws e statics).Supported := by
  intro e' he
  cases he
  exact h

theorem Outcome.supported_safely {pre : OpState → Prop} {body : OpM Unit} (h : Supports pre body)
    {successor : AnalysisState} {statics : Statics} (hpre : pre ⟨statics, successor⟩) :
    (Outcome.safely body successor statics).Supported := by
  unfold Outcome.safely
  cases hb : body ⟨statics, successor⟩ with
  | ok a u => exact nofun
  | error e u =>
    have he := h _ hpre e u hb
    dsimp only
    split
    · exact nofun
    · exact supported_throws he u.statics

theorem Context.supported_assertBranching {statics : Statics} {node : Node} {branching : Bool} {o : Outcome}
    (h : o.Supported) : (assertBranching statics node branching o).Supported := by
  unfold assertBranching
  split
  · exact h
  · exact Outcome.supported_throws rfl statics

theorem Context.supported_nextOf {statics : Statics} {p : Option NodeId} {f : NodeId → Outcome}
    (h : ∀ n, (f n).Supported) : (nextOf statics p f).Supported := by
  cases p with
  | none => exact Outcome.supported_throws rfl statics
  | some n => exact h n

/-! ## Operations in an empty mapping -/

/-- The mappings and the functions of no program. -/
def Context.blind (nodes : Cfg) (fmap : FuncMapper) : Context := ⟨nodes, ∅, fmap⟩

/-- Something that is looked up is not there. -/
def Exn.isMissing : Exn → Bool
  | .outOfRange | .undefinedBehaviour _ => true
  | _ => false

theorem not_notSupported {e : Exn} (h : e.isMissing = true) : e.isNotSupported = false := by
  cases e <;> first | rfl | cases h

theorem not_analysisError {e : Exn} (h : e.isMissing = true) : e.isAnalysisError = false := by
  cases e <;> first | rfl | cases h

theorem OperationArgs.memberAt_error {α : Type} {args : OperationArgs} {member : OperArg → Option α} {i : ℕ} {e : Exn}
    (h : args.memberAt member i = .error e) : e.isMissing = true := by
  unfold OperationArgs.memberAt at h
  split at h
  · split at h
    · cases h
    · cases h; rfl
  · cases h; rfl

section Blind

variable {nodes : Cfg} {fmap : FuncMapper} {args : OperationArgs}

/-- Reading a member of the arguments. -/
theorem supports_memberAt {α β : Type} {pre : OpState → Prop} (member : OperArg → Option α) (i : ℕ) {f : α → OpM β}
    (hf : ∀ a, Supports pre (f a)) : Supports pre (ofExcept (args.memberAt member i) >>= f) :=
  throws_ofExcept_bind (fun _ he => not_notSupported (OperationArgs.memberAt_error he)) hf

/-- The first value that is asked for is out of range. -/
theorem supports_getValue {α : Type} (var : FrontendIdTypePair) (f : ValueId → OpM α) :
    Supports Blind (OpM.getValue (.blind nodes fmap) var >>= f) := by
  intro s hs e t h
  have hout : s.state.getValue (.blind nodes fmap) var = .error .outOfRange := by
    unfold AnalysisState.getValue
    rw [show s.state.localMapping = ∅ from hs]
    simp [Context.blind]
  have hrun : OpM.getValue (.blind nodes fmap) var s = .error .outOfRange s := by
    change (ofExcept (s.state.getValue (.blind nodes fmap) var) : OpM ValueId) s = _
    rw [hout]
    rfl
  rw [bind_of_error hrun] at h
  cases h
  rfl

/-- No basic operation gets as far as to find something that is not supported. -/
theorem supports_basic [DataLayout] {op : Operation} {body : OpM Unit}
    (h : memGraphOpFactory (.blind nodes fmap) args op = .basic body) : Supports Blind body := by
  cases op with
  | ret | br | call | invoke | memcpy | memmove | notSupportedInstr => cases h
  | binOp =>
    cases h
    exact supports_memberAt _ _ fun opts => supports_memberAt _ _ fun operand => supports_getValue operand _
  | load =>
    cases h
    exact supports_memberAt _ _ fun ptr => supports_memberAt _ _ fun reg => supports_getValue ptr _
  | cast | alloca | store | getElementPtr | cmp | memset | malloc | free =>
    cases h
    exact supports_memberAt _ _ fun operand => supports_getValue operand _
  | abort | exit => cases h; exact throws_throw rfl
  | createUnknownVal =>
    cases h
    refine supports_memberAt _ _ fun target s _ e t h => ?_
    cases h
  | noop | terminate | diagnosticsPlotMem => cases h; exact throws_pure ()

theorem supports_branch [DataLayout] (br : Bool) : Supports Blind (MemGraphOp.branch (.blind nodes fmap) args br) :=
  supports_memberAt _ _ fun operand => supports_getValue operand _

end Blind

/-! ## Calls and returns -/

/-- All that the operation throws is that something it looks up is not there. -/
abbrev LooksUp {α : Type} (m : OpM α) : Prop := Throws (fun _ => True) (fun e => e.isMissing = true) m

section Call

variable {ctx : Context} {args : OperationArgs}

theorem getValue_error {s : AnalysisState} {var : FrontendIdTypePair} {e : Exn} (h : s.getValue ctx var = .error e) :
    e = .outOfRange := by
  unfold AnalysisState.getValue at h
  split at h
  · cases h
  · split at h <;> cases h
    rfl

theorem looksUp_bind {α β : Type} {m : OpM α} {f : α → OpM β} (hm : LooksUp m) (hf : ∀ a, LooksUp (f a)) :
    LooksUp (m >>= f) := throws_bind hm (fun _ _ _ _ _ => trivial) hf

theorem looksUp_memberAt {α β : Type} (member : OperArg → Option α) (i : ℕ) {f : α → OpM β} (hf : ∀ a, LooksUp (f a)) :
    LooksUp (ofExcept (args.memberAt member i) >>= f) :=
  throws_ofExcept_bind (fun _ he => OperationArgs.memberAt_error he) hf

theorem looksUp_getValue (var : FrontendIdTypePair) : LooksUp (OpM.getValue ctx var) := by
  intro s _ e t h
  change (ofExcept (s.state.getValue ctx var) : OpM ValueId) s = .error e t at h
  cases hv : s.state.getValue ctx var with
  | ok v => rw [hv] at h; cases h
  | error e' =>
    rw [hv] at h
    cases h
    rw [getValue_error hv]
    rfl

theorem looksUp_update {f : AnalysisState → Except Exn AnalysisState}
    (hf : ∀ s e, f s = .error e → e.isMissing = true) : LooksUp (OpM.update f) := by
  intro s _ e t h
  change (ofExcept (f s.state) >>= _ : OpM Unit) s = .error e t at h
  cases hp : f s.state with
  | ok state => rw [hp] at h; cases h
  | error e' =>
    rw [hp] at h
    cases h
    exact hf s.state e hp

theorem looksUp_callArgs : ∀ (params : List FrontendIdTypePair) (i : ℕ), LooksUp (MemGraphOp.callArgs ctx args i params)
  | [], _ => throws_pure []
  | _ :: params, i =>
    looksUp_memberAt _ _ fun operand => looksUp_bind (looksUp_getValue operand) fun _ =>
      looksUp_bind (looksUp_callArgs params (i + 1)) fun _ => throws_pure _

theorem looksUp_assignParams : ∀ (params : List FrontendIdTypePair) (values : List ValueId),
    LooksUp (MemGraphOp.assignParams params values)
  | [], _ => throws_pure ()
  | _ :: _, [] => throws_pure ()
  | param :: params, value :: values => by
    intro s _ e t h
    exact looksUp_assignParams params values { s with state := s.state.assignValue param value } trivial e t h

theorem looksUp_call : LooksUp (MemGraphOp.call ctx args) := by
  refine looksUp_memberAt _ _ fun var => looksUp_bind (looksUp_getValue var) fun vid => ?_
  refine throws_ofExcept_bind (fun e he => ?_) fun func => looksUp_bind (looksUp_callArgs func.params 0) fun values => ?_
  · unfold MemGraphOp.getFunction at he
    split at he <;> cases he
    rfl
  · refine looksUp_memberAt _ _ fun target => looksUp_bind (looksUp_update fun s e he => ?_)
      fun _ => looksUp_assignParams func.params values
    unfold AnalysisState.stackPush at he
    split at he <;> cases he
    rfl

theorem looksUp_ret : LooksUp (MemGraphOp.ret ctx args) := by
  unfold MemGraphOp.ret
  split
  · refine looksUp_memberAt _ _ fun operand => looksUp_bind (looksUp_getValue operand) fun retVal => looksUp_update ?_
    intro s e he
    unfold AnalysisState.stackPopValue at he
    split at he <;> cases he
    rfl
  · refine looksUp_update fun s e he => ?_
    unfold AnalysisState.stackPop at he
    split at he <;> cases he
    rfl

/-- A call of a function that is known throws nothing of the kind. -/
theorem supports_call : Supports (fun _ => True) (MemGraphOp.call ctx args) :=
  fun s hs e t h => not_notSupported (looksUp_call s hs e t h)

end Call

/-! ## Every other node is supported in some state -/

section Nodes

variable [DataLayout] {nodes : Cfg} {fmap : FuncMapper} {n : NodeId}

/-- The state of nothing at a node, with the values of a mapping. -/
def AnalysisState.bare (n : NodeId) (mapping : Mapper) : AnalysisState :=
  { AnalysisState.new n (VcState.new {}).vc with localMapping := mapping }

omit [DataLayout] in
/-- A callee that has a value is looked up among the functions. -/
theorem callee_bare (nodes : Cfg) (fmap : FuncMapper) (n : NodeId) (args : OperationArgs) : ∃ mapping, ∀ e,
    Context.callee (.blind nodes fmap) args (.bare n mapping) = .error e → e.isNotSupported = false := by
  unfold Context.callee
  cases ho : args.callOptions with
  | error e =>
    refine ⟨∅, fun e' he => ?_⟩
    cases he
    exact not_notSupported (OperationArgs.memberAt_error ho)
  | ok var =>
    have hv : (AnalysisState.bare n ((∅ : Mapper).insert var.id 0)).getValue (.blind nodes fmap) var = .ok 0 := by
      simp [AnalysisState.getValue, AnalysisState.bare, Context.blind]
    refine ⟨(∅ : Mapper).insert var.id 0, fun e he => ?_⟩
    dsimp only at he
    rw [hv] at he
    unfold MemGraphOp.getFunction at he
    dsimp only at he
    split at he <;> cases he
    rfl

/-- An operation that is supported has a state in which it raises no `NotSupportedException`. -/
theorem exists_supported (nodes : Cfg) (fmap : FuncMapper) (n : NodeId) {node : Node} (hk : node.kind.isNotSupported = false) :
    ∃ mapping, (Context.executeNode (.blind nodes fmap) {} (.bare n mapping) node).Supported := by
  unfold Context.executeNode
  cases hkind : node.kind with
  | start => rw [hkind] at hk; cases hk
  | terminal => exact ⟨∅, nofun⟩
  | inner op args instr bp =>
    rw [hkind] at hk
    dsimp only
    cases hf : memGraphOpFactory (.blind nodes fmap) args op with
    | basic body =>
      refine ⟨∅, Context.supported_assertBranching (Context.supported_nextOf fun next => ?_)⟩
      exact Outcome.supported_safely (supports_basic hf) rfl
    | branch =>
      refine ⟨∅, Context.supported_assertBranching (Context.supported_nextOf fun onFalse => ?_)⟩
      refine Context.supported_nextOf fun onTrue => ?_
      have hfalse : ∀ next statics, (Outcome.safely (MemGraphOp.branch (.blind nodes fmap) args false)
          ((AnalysisState.bare n ∅).createSuccessor next) statics).Supported := fun next statics =>
        Outcome.supported_safely (supports_branch false) rfl
      have htrue : ∀ next statics, (Outcome.safely (MemGraphOp.branch (.blind nodes fmap) args true)
          ((AnalysisState.bare n ∅).createSuccessor next) statics).Supported := fun next statics =>
        Outcome.supported_safely (supports_branch true) rfl
      dsimp only
      split
      · exact hfalse onFalse {}
      · exact htrue onTrue _
    | call =>
      obtain ⟨mapping, hcallee⟩ := callee_bare nodes fmap n args
      refine ⟨mapping, Context.supported_assertBranching ?_⟩
      cases hc : Context.callee (.blind nodes fmap) args (.bare n mapping) with
      | error e => exact Outcome.supported_throws (hcallee e hc) {}
      | ok func => exact Context.supported_nextOf fun next => Outcome.supported_safely supports_call trivial
    | ret => exact ⟨∅, Context.supported_assertBranching (Outcome.supported_throws rfl {})⟩
    | notSupported =>
      rw [show (NodeKind.inner op args instr bp).isNotSupported = op.isNotSupported from rfl,
        factory_notSupported.1 hf] at hk
      cases hk

/-- With the functions given, and whatever the mapping has, a node raises `NotSupportedException` in every state if and
only if nothing is implemented for it. -/
theorem raises_iff {node : Node} (hn : nodes[n]? = some node) :
    (∀ mapping, (Context.mk nodes mapping fmap).Raises n) ↔ node.kind.isNotSupported = true := by
  constructor
  · intro h
    by_contra hk
    obtain ⟨mapping, hs⟩ := exists_supported nodes fmap n (Bool.eq_false_iff.2 hk)
    obtain ⟨what, hwhat⟩ := h ∅ {} (.bare n mapping) rfl
    unfold Context.execute at hwhat
    dsimp only [AnalysisState.bare, AnalysisState.new] at hwhat
    rw [hn] at hwhat
    exact absurd (hs _ hwhat) nofun
  · intro hk mapping statics s hs
    unfold Context.execute
    subst hs
    rw [hn]
    dsimp only
    unfold Context.executeNode
    cases hkind : node.kind with
    | start => exact ⟨_, rfl⟩
    | terminal => rw [hkind] at hk; cases hk
    | inner op args instr bp =>
      rw [hkind] at hk
      dsimp only
      rw [factory_notSupported.2 hk]
      exact ⟨_, rfl⟩

end Nodes

end Angie
