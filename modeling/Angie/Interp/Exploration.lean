import Angie.Lib.Trace
import Angie.Lib.Worklist
import Angie.Interp.Operations

/-!
# The verification loop

`VerificationLoop` of `main.cpp` over the pool and the worklist of `StatesManager`. The source takes the front of the
worklist; here a turn takes any position, so that what is proved holds of every strategy. A state is enqueued when it is
inserted and never again, so it is new when it is taken (`SearchOk`), and the loop is a search in which no state is
lost or executed twice (`verify_searchOk`). What a state puts into the pool are the successors of the operations that
were tried on it one after another, whatever became of the others (`execute_succeeds`); hence
`verification_exhaustive`.
-/

namespace Angie

open Trace Worklist

/-! ## The pool and the worklist -/

inductive StateStatus where
  | new | explored | abstractedOut
  deriving DecidableEq, Repr

/-- An element of `statePool`, with the condition of the state. -/
structure PooledState where
  state : AnalysisState
  condition : StateStatus

def PooledState.isNew (s : PooledState) : Bool := s.condition == .new

/-- The references of the worklist are places in the pool. -/
structure StatesManager where
  statePool : List PooledState
  worklist : List ℕ

namespace StatesManager

/-- `InsertAndEnqueue`: no state is joined with another one, and the latest is the first in the worklist. -/
def insertAndEnqueue (m : StatesManager) (state : AnalysisState) : StatesManager :=
  ⟨m.statePool ++ [⟨state, .new⟩], m.statePool.length :: m.worklist⟩

/-- `WorklistDequeue`, from any position. The source reads the front through a reference that it has just removed; it
is taken to be the element that stood there. -/
def worklistDequeue (m : StatesManager) (p : ℕ) : StatesManager := { m with worklist := m.worklist.eraseIdx p }

/-- `SetExplored` on a state of the pool. -/
def setExplored (m : StatesManager) (ref : ℕ) : StatesManager :=
  { m with statePool := m.statePool.modify ref fun s => { s with condition := .explored } }

end StatesManager

/-- The loop between two turns; `thrown` is the exception that left it. -/
structure Verification where
  statics : Statics
  manager : StatesManager
  thrown : Option Exn

section Loop

variable [DataLayout] (ctx : Context)

omit [DataLayout] in
/-- Executing a node explores the state, unless the node is terminal. Nodes that throw before that end the loop, and the
condition is not looked at again. -/
def Context.explores (s : AnalysisState) : Bool :=
  match (ctx.nodes[s.node]?).map Node.kind with
  | some .terminal => false
  | _ => true

/-- A turn of `VerificationLoop`: which state was executed, if one was, and with what outcome. -/
def Context.turn (p : ℕ) (v : Verification) : Option (ℕ × Outcome) × Verification :=
  match v.manager.worklist[p]? with
  | none => (none, v)
  | some ref =>
    let manager := v.manager.worklistDequeue p
    match manager.statePool[ref]? with
    | none => (none, { v with thrown := some (.undefinedBehaviour "dangling reference") })
    | some entry =>
      if !entry.isNew then (none, { v with manager := manager })
      else
        let o := ctx.execute v.statics entry.state
        let manager := if ctx.explores entry.state then manager.setExplored ref else manager
        (some (ref, o), ⟨o.statics, o.enqueued.foldl StatesManager.insertAndEnqueue manager, o.thrown⟩)

omit [DataLayout] in
/-- The loop before its first turn, on the initial state. -/
def Verification.start (statics : Statics) (initial : AnalysisState) : Verification :=
  ⟨statics, StatesManager.insertAndEnqueue ⟨[], []⟩ initial, none⟩

abbrev Turns := List (Event Verification ℕ (Option (ℕ × Outcome)))

/-- Turns go on while there is something in the worklist and no exception has left the loop. -/
abbrev Context.VerifyRun (statics : Statics) (initial : AnalysisState) :=
  Run ctx.turn (fun v p => v.thrown = none ∧ p < v.manager.worklist.length) (· = Verification.start statics initial)

/-! ## What a state puts into the pool -/

/-- An operation about to be executed on a successor. -/
structure Try where
  successor : AnalysisState
  body : OpM Unit

/-- The operations that executing a state tries, in this order. -/
def Context.tries (s : AnalysisState) : List Try :=
  match ctx.nodes[s.node]? with
  | none => []
  | some node =>
    match node.kind with
    | .start | .terminal => []
    | .inner op args _ _ =>
      match memGraphOpFactory ctx args op with
      | .basic body => node.next.toList.map fun next => ⟨s.createSuccessor next, body⟩
      | .branch =>
        (node.nextFalse.toList.map fun next => ⟨s.createSuccessor next, MemGraphOp.branch ctx args false⟩) ++
          node.next.toList.map fun next => ⟨s.createSuccessor next, MemGraphOp.branch ctx args true⟩
      | .call =>
        match Context.callee ctx args s with
        | .ok func => node.next.toList.map fun next =>
            ⟨(s.createSuccessor func.cfg).setStackRetNode next, MemGraphOp.call ctx args⟩
        | .error _ => []
      | .ret =>
        match s.getStackRetNode with
        | .ok next => [⟨s.createSuccessor next, MemGraphOp.ret ctx args⟩]
        | .error _ => []
      | .notSupported => []

omit [DataLayout] in
/-- What becomes of the operations that are tried: the new state, or the exception. The counters pass on. -/
def results : Statics → List Try → List (Except Exn AnalysisState)
  | _, [] => []
  | statics, x :: rest =>
    match x.body ⟨statics, x.successor⟩ with
    | .ok () t => .ok t.state :: results t.statics rest
    | .error e t => .error e :: results t.statics rest

omit [DataLayout] in
/-- The successors of operations that did not throw. -/
def succeeded (rs : List (Except Exn AnalysisState)) : List AnalysisState := rs.filterMap Except.toOption

variable {ctx} {statics : Statics} {s : AnalysisState}

omit [DataLayout] in
theorem safely_results {body : OpM Unit} {next : AnalysisState}
    (h : (Outcome.safely body next statics).thrown = none) (rest : List Try) :
    ∃ r, results statics (⟨next, body⟩ :: rest) = r :: results (Outcome.safely body next statics).statics rest ∧
      (Outcome.safely body next statics).enqueued = succeeded [r] ∧
      ∀ e, r = .error e → e.isAnalysisError = true := by
  unfold Outcome.safely at h ⊢
  cases hb : body ⟨statics, next⟩ with
  | ok a t => exact ⟨.ok t.state, by simp only [results, hb], rfl, nofun⟩
  | error e t =>
    rw [hb] at h
    dsimp only at h ⊢
    cases he : e.isAnalysisError with
    | false =>
      rw [he] at h
      cases h
    | true => exact ⟨.error e, by simp only [results, hb, if_true], rfl, fun e' h' => by cases h'; exact he⟩

/-- What is enqueued are the new states of the operations that did not throw, and the others threw analysis errors. -/
structure Outcome.Succeeds (o : Outcome) (rs : List (Except Exn AnalysisState)) : Prop where
  enqueued : o.enqueued = succeeded rs
  failed : ∀ e, .error e ∈ rs → e.isAnalysisError = true

omit [DataLayout] in
theorem succeeds_nil {o : Outcome} (h : o.enqueued = []) : o.Succeeds (results statics []) := ⟨h, nofun⟩

omit [DataLayout] in
theorem succeeds_one {body : OpM Unit} {next : AnalysisState}
    (h : (Outcome.safely body next statics).thrown = none) :
    (Outcome.safely body next statics).Succeeds (results statics [⟨next, body⟩]) := by
  obtain ⟨r, hr, henq, herr⟩ := safely_results h []
  rw [hr]
  refine ⟨henq, fun e he => ?_⟩
  rcases List.mem_cons.1 he with he | he
  · exact herr e he.symm
  · cases he

omit [DataLayout] in
theorem of_assertBranching {node : Node} {br : Bool} {o : Outcome}
    (h : (Context.assertBranching statics node br o).thrown = none) :
    Context.assertBranching statics node br o = o ∧ node.nextFalse.isSome = br ∧ o.thrown = none := by
  unfold Context.assertBranching at h ⊢
  split at h
  · rename_i hb
    exact ⟨if_pos hb, hb, h⟩
  · cases h

omit [DataLayout] in
theorem of_nextOf {next : Option NodeId} {f : NodeId → Outcome} (h : (Context.nextOf statics next f).thrown = none) :
    ∃ n, next = some n ∧ Context.nextOf statics next f = f n ∧ (f n).thrown = none := by
  cases next with
  | none => cases h
  | some n => exact ⟨n, rfl, rfl, h⟩

theorem executeBranch_succeeds {args : OperationArgs} {node : Node}
    (h : (ctx.executeBranch args statics s node).thrown = none) :
    ∃ onFalse onTrue, node.nextFalse = some onFalse ∧ node.next = some onTrue ∧
      (ctx.executeBranch args statics s node).Succeeds (results statics
        [⟨s.createSuccessor onFalse, MemGraphOp.branch ctx args false⟩,
          ⟨s.createSuccessor onTrue, MemGraphOp.branch ctx args true⟩]) := by
  unfold Context.executeBranch at h ⊢
  obtain ⟨heq, -, h⟩ := of_assertBranching h
  rw [heq]
  obtain ⟨onFalse, hfalse, heq, h⟩ := of_nextOf h
  rw [heq]
  obtain ⟨onTrue, htrue, heq, h⟩ := of_nextOf h
  rw [heq]
  refine ⟨onFalse, onTrue, hfalse, htrue, ?_⟩
  dsimp only at h ⊢
  cases hfirst : (Outcome.safely (MemGraphOp.branch ctx args false) (s.createSuccessor onFalse) statics).thrown with
  | some e =>
    rw [hfirst] at h
    dsimp only at h
    rw [hfirst] at h
    cases h
  | none =>
    rw [hfirst] at h
    dsimp only at h ⊢
    obtain ⟨r, hr, henq, herr⟩ := safely_results hfirst
      [⟨s.createSuccessor onTrue, MemGraphOp.branch ctx args true⟩]
    obtain ⟨r', hr', henq', herr'⟩ := safely_results h []
    rw [hr, hr']
    constructor
    · dsimp only
      rw [henq, henq']
      simp [succeeded, results, List.filterMap_cons]
      cases r.toOption <;> cases r'.toOption <;> rfl
    · intro e he
      simp only [results, List.mem_cons, List.not_mem_nil, or_false] at he
      rcases he with he | he
      · exact herr e he.symm
      · exact herr' e he.symm

omit [DataLayout] in
theorem executeBasic_succeeds {body : OpM Unit} {node : Node}
    (h : (Context.executeBasic statics s node body).thrown = none) :
    ∃ next, node.next = some next ∧ (Context.executeBasic statics s node body).Succeeds
      (results statics [⟨s.createSuccessor next, body⟩]) := by
  unfold Context.executeBasic at h ⊢
  obtain ⟨heq, -, h⟩ := of_assertBranching h
  rw [heq]
  obtain ⟨next, hnext, heq, h⟩ := of_nextOf h
  rw [heq]
  exact ⟨next, hnext, succeeds_one h⟩

omit [DataLayout] in
theorem executeCall_succeeds {args : OperationArgs} {node : Node}
    (h : (ctx.executeCall args statics s node).thrown = none) :
    ∃ func next, Context.callee ctx args s = .ok func ∧ node.next = some next ∧
      (ctx.executeCall args statics s node).Succeeds (results statics
        [⟨(s.createSuccessor func.cfg).setStackRetNode next, MemGraphOp.call ctx args⟩]) := by
  unfold Context.executeCall at h ⊢
  obtain ⟨heq, -, h⟩ := of_assertBranching h
  rw [heq]
  cases hc : Context.callee ctx args s with
  | error e =>
    rw [hc] at h
    cases h
  | ok func =>
    rw [hc] at h
    dsimp only at h ⊢
    obtain ⟨next, hnext, heq, h⟩ := of_nextOf h
    rw [heq]
    exact ⟨func, next, rfl, hnext, succeeds_one h⟩

omit [DataLayout] in
theorem executeRet_succeeds {args : OperationArgs} {node : Node}
    (h : (ctx.executeRet args statics s node).thrown = none) :
    ∃ next, s.getStackRetNode = .ok next ∧ (ctx.executeRet args statics s node).Succeeds
      (results statics [⟨s.createSuccessor next, MemGraphOp.ret ctx args⟩]) := by
  unfold Context.executeRet at h ⊢
  obtain ⟨heq, -, h⟩ := of_assertBranching h
  rw [heq]
  cases hr : s.getStackRetNode with
  | error e =>
    rw [hr] at h
    cases h
  | ok next =>
    rw [hr] at h
    exact ⟨next, rfl, succeeds_one h⟩

/-- An execution that no exception left enqueued the new states of exactly the operations that did not throw. -/
theorem execute_succeeds (h : (ctx.execute statics s).thrown = none) :
    (ctx.execute statics s).Succeeds (results statics (ctx.tries s)) := by
  unfold Context.execute at h ⊢
  unfold Context.tries
  cases hn : ctx.nodes[s.node]? with
  | none =>
    rw [hn] at h
    cases h
  | some node =>
    rw [hn] at h
    dsimp only at h ⊢
    unfold Context.executeNode at h ⊢
    cases hk : node.kind with
    | start =>
      rw [hk] at h
      cases h
    | terminal => exact succeeds_nil rfl
    | inner op args instr bp =>
      rw [hk] at h
      dsimp only at h ⊢
      cases hf : memGraphOpFactory ctx args op with
      | basic body =>
        rw [hf] at h
        dsimp only at h ⊢
        obtain ⟨next, hnext, hs⟩ := executeBasic_succeeds h
        rw [hnext]
        exact hs
      | branch =>
        rw [hf] at h
        dsimp only at h ⊢
        obtain ⟨onFalse, onTrue, hfalse, htrue, hs⟩ := executeBranch_succeeds h
        rw [hfalse, htrue]
        exact hs
      | call =>
        rw [hf] at h
        dsimp only at h ⊢
        obtain ⟨func, next, hfunc, hnext, hs⟩ := executeCall_succeeds h
        rw [hfunc, hnext]
        exact hs
      | ret =>
        rw [hf] at h
        dsimp only at h ⊢
        obtain ⟨next, hnext, hs⟩ := executeRet_succeeds h
        rw [hnext]
        exact hs
      | notSupported =>
        rw [hf] at h
        cases h

/-! ## The loop as a search -/

omit [DataLayout]

/-- The pool and the worklist without the conditions. -/
def StatesManager.search (m : StatesManager) : Search AnalysisState := ⟨m.statePool.map (·.state), m.worklist⟩

/-- Whatever is in the worklist is new. -/
def StatesManager.AllNew (m : StatesManager) : Prop :=
  ∀ ref ∈ m.worklist, ∀ entry, m.statePool[ref]? = some entry → entry.condition = .new

section StatesManager

variable {m : StatesManager}

theorem search_insert (state : AnalysisState) : (m.insertAndEnqueue state).search = m.search.push state := by
  simp [StatesManager.search, StatesManager.insertAndEnqueue, Search.push]

theorem search_inserts (states : List AnalysisState) : ∀ m : StatesManager,
    (states.foldl StatesManager.insertAndEnqueue m).search = states.foldl Search.push m.search := by
  induction states with
  | nil => exact fun _ => rfl
  | cons state states ih =>
    intro m
    rw [List.foldl_cons, List.foldl_cons, ih, search_insert]

theorem search_setExplored (ref : ℕ) : (m.setExplored ref).search = m.search := by
  have hmap : (m.statePool.modify ref fun s => { s with condition := .explored }).map (·.state) =
      m.statePool.map (·.state) := by
    apply List.ext_getElem?
    intro i
    rw [List.getElem?_map, List.getElem?_map, List.getElem?_modify, Option.map_eq_map, Option.map_map]
    congr 1
    funext s
    simp only [Function.comp]
    split <;> rfl
  simp only [StatesManager.search, StatesManager.setExplored, hmap]

theorem allNew_insert (h : m.AllNew) (state : AnalysisState) : (m.insertAndEnqueue state).AllNew := by
  intro ref href entry hentry
  simp only [StatesManager.insertAndEnqueue] at href hentry
  rw [List.getElem?_append] at hentry
  split at hentry
  · rename_i hlt
    rcases List.mem_cons.1 href with rfl | href
    · exact absurd hlt (Nat.lt_irrefl _)
    · exact h ref href entry hentry
  · rw [List.mem_singleton.1 (List.mem_of_getElem? hentry)]

theorem allNew_inserts (states : List AnalysisState) : ∀ {m : StatesManager}, m.AllNew →
    (states.foldl StatesManager.insertAndEnqueue m).AllNew := by
  induction states with
  | nil => exact fun h => h
  | cons state states ih => exact fun h => ih (allNew_insert h state)

theorem allNew_dequeue (h : m.AllNew) (p : ℕ) : (m.worklistDequeue p).AllNew :=
  fun ref href => h ref (List.mem_of_mem_eraseIdx href)

/-- Exploring a state that is not in the worklist. -/
theorem allNew_setExplored (h : m.AllNew) {ref : ℕ} (href : ref ∉ m.worklist) : (m.setExplored ref).AllNew := by
  intro ref' href' entry hentry
  have hne : ref ≠ ref' := fun heq => href (heq ▸ href')
  simp only [StatesManager.setExplored, List.getElem?_modify, if_neg hne, Option.map_eq_map, Option.map_id'] at hentry
  exact h ref' href' entry hentry

end StatesManager

/-- The visits of the turns so far. -/
def visits (es : Turns) : List (Visit AnalysisState) :=
  (es.filterMap (·.out)).map fun x => (x.1, x.2.enqueued)

variable [DataLayout] {es : Turns} {v : Verification} {initial : AnalysisState}

omit [DataLayout] in
structure SearchOk (initial : AnalysisState) (es : Turns) (v : Verification) : Prop where
  explores : Explores initial (visits es) v.manager.search
  allNew : v.manager.AllNew

variable (ctx) in
/-- A turn executes the state at the place that it takes. -/
theorem turn_eq (h : SearchOk initial es v) {p : ℕ} (hp : p < v.manager.worklist.length) :
    ∃ ref entry m, v.manager.worklist[p]? = some ref ∧ v.manager.statePool[ref]? = some entry ∧
      m.search = v.manager.search.take p ∧ m.AllNew ∧
      ctx.turn p v = (some (ref, ctx.execute v.statics entry.state),
        ⟨(ctx.execute v.statics entry.state).statics,
          (ctx.execute v.statics entry.state).enqueued.foldl StatesManager.insertAndEnqueue m,
          (ctx.execute v.statics entry.state).thrown⟩) := by
  obtain ⟨ref, href⟩ : ∃ ref, v.manager.worklist[p]? = some ref := ⟨_, List.getElem?_eq_getElem hp⟩
  have hlt : ref < v.manager.statePool.length := by
    have := (h.explores.pending (List.mem_of_getElem? href)).1
    simpa [StatesManager.search] using this
  obtain ⟨entry, hentry⟩ : ∃ entry, v.manager.statePool[ref]? = some entry :=
    ⟨_, List.getElem?_eq_getElem hlt⟩
  have hnew : entry.isNew = true := beq_iff_eq.2 (h.allNew ref (List.mem_of_getElem? href) entry hentry)
  have hgone : ref ∉ (v.manager.worklistDequeue p).worklist := h.explores.taken href
  have hdeq := allNew_dequeue h.allNew p
  refine ⟨ref, entry, if ctx.explores entry.state then (v.manager.worklistDequeue p).setExplored ref
    else v.manager.worklistDequeue p, href, hentry, ?_, ?_, ?_⟩
  · split
    · rw [search_setExplored]; rfl
    · rfl
  · split
    · exact allNew_setExplored hdeq hgone
    · exact hdeq
  · have hentry' : (v.manager.worklistDequeue p).statePool[ref]? = some entry := hentry
    simp only [Context.turn, href, hentry', hnew, Bool.not_true, Bool.false_eq_true, if_false]

theorem searchOk_turn (h : SearchOk initial es v) {p : ℕ} (hp : p < v.manager.worklist.length) :
    SearchOk initial (Trace.step ctx.turn v p :: es) (ctx.turn p v).2 := by
  obtain ⟨ref, entry, m, href, hentry, hsearch, hm, heq⟩ := turn_eq ctx h hp
  have hvisits : visits (Trace.step ctx.turn v p :: es) =
      (ref, (ctx.execute v.statics entry.state).enqueued) :: visits es := by
    simp [visits, Trace.step, heq]
  constructor
  · rw [hvisits, heq, search_inserts, hsearch]
    exact .visit _ h.explores href
  · rw [heq]
    exact allNew_inserts _ hm

/-- The loop is a search from the initial state. -/
theorem verify_searchOk (h : ctx.VerifyRun statics initial es v) : SearchOk initial es v := by
  refine h.invariant (I := SearchOk initial) ?_ ?_
  · rintro v rfl
    constructor
    · exact .start
    · exact allNew_insert (fun _ href => by cases href) _
  · intro es v p _ ha hs
    exact searchOk_turn hs ha.2

/-! ## What the loop explores -/

/-- While no exception has left the loop, none has left the execution of a state. -/
theorem verify_caught (h : ctx.VerifyRun statics initial es v) (hv : v.thrown = none) :
    ∀ e ∈ es, e.post.thrown = none := by
  induction h with
  | start => simp
  | step p hr ha ih =>
    intro e he
    rcases List.mem_cons.1 he with rfl | he
    · exact hv
    · exact ih ha.1 e he

/-- The pool only grows. -/
theorem verify_keeps (h : ctx.VerifyRun statics initial es v) {ref : ℕ} {s : AnalysisState} :
    ∀ e ∈ es, e.post.manager.search.pool[ref]? = some s → v.manager.search.pool[ref]? = some s := by
  refine Run.mono (P := fun v => v.manager.search.pool[ref]? = some s) (fun es v p hr ha hs => ?_) h
  obtain ⟨ref', entry, m, -, -, hsearch, -, heq⟩ := turn_eq ctx (verify_searchOk hr) ha.2
  rw [heq]
  dsimp only at hs ⊢
  rw [search_inserts, hsearch, (foldl_push _ _).1, Search.take_pool,
    List.getElem?_append_left (List.getElem?_eq_some_iff.1 hs).1]
  exact hs

/-- The turn `e` executed the state at `ref` of the pool, enqueued what its operations made of the successors, and left
every other place in the worklist. -/
structure Context.Executes (ctx : Context) (pool : List AnalysisState)
    (e : Event Verification ℕ (Option (ℕ × Outcome))) (ref : ℕ) (s : AnalysisState) : Prop where
  out : e.out = some (ref, ctx.execute e.pre.statics s)
  mem : pool[ref]? = some s
  succeeds : (ctx.execute e.pre.statics s).Succeeds (results e.pre.statics (ctx.tries s))
  pending : ∀ ref' ∈ e.pre.manager.worklist, ref' ≠ ref → ref' ∈ e.post.manager.worklist

omit [DataLayout] in
theorem mem_inserts {ref : ℕ} (states : List AnalysisState) : ∀ {m : StatesManager}, ref ∈ m.worklist →
    ref ∈ (states.foldl StatesManager.insertAndEnqueue m).worklist := by
  induction states with
  | nil => exact fun h => h
  | cons state states ih => exact fun h => ih (List.mem_cons_of_mem _ h)

/-- When the loop ends without an exception, every state of the pool was executed exactly once, and the pool holds the
initial state and the successors, of every executed state, whose operation did not throw. -/
theorem verification_exhaustive (h : ctx.VerifyRun statics initial es v) (hend : v.manager.worklist = [])
    (hthrown : v.thrown = none) :
    let executed := es.filterMap (·.out)
    let pool := v.manager.statePool.map (·.state)
    (executed.map (·.1)).Perm (List.range pool.length) ∧
      pool = initial :: executed.reverse.flatMap (·.2.enqueued) ∧
      ∀ e ∈ es, ∃ ref s, ctx.Executes pool e ref s := by
  have hok := verify_searchOk h
  refine ⟨?_, ?_, fun e he => ?_⟩
  · have hcomplete := hok.explores.complete hend
    rwa [visits, List.map_map] at hcomplete
  · have hpool := hok.explores.pool_eq
    rwa [visits, ← List.map_reverse, List.flatMap_map] at hpool
  · obtain ⟨⟨es', hpre⟩, ha, heq⟩ := h.event e he
    obtain ⟨ref, entry, m, href, hentry, hsearch, -, hturn⟩ := turn_eq ctx (verify_searchOk hpre) ha.2
    have hout : e.out = some (ref, ctx.execute e.pre.statics entry.state) := by
      rw [heq, Trace.step, hturn]
    have hpost : e.post = (ctx.turn e.op e.pre).2 := by
      conv_lhs => rw [heq]
      rfl
    rw [hturn] at hpost
    refine ⟨ref, entry.state, hout, ?_, ?_, fun ref' href' hne => ?_⟩
    · refine verify_keeps h e he ?_
      have hpool : (e.pre.manager.search.take e.op).pool[ref]? = some entry.state := by
        simp [Search.take, StatesManager.search, hentry]
      rw [hpost]
      dsimp only
      rw [search_inserts, hsearch, (foldl_push _ _).1, List.getElem?_append_left (List.getElem?_eq_some_iff.1 hpool).1]
      exact hpool
    · have hcaught := verify_caught h hthrown e he
      rw [hpost] at hcaught
      exact execute_succeeds hcaught
    · rw [hpost]
      refine mem_inserts _ ?_
      rw [show m.worklist = e.pre.manager.worklist.eraseIdx e.op from congrArg Search.pending hsearch]
      obtain ⟨i, hi⟩ := List.getElem?_of_mem href'
      refine List.mem_eraseIdx_iff_getElem?.2 ⟨i, fun heq => hne ?_, hi⟩
      rw [heq, href] at hi
      exact (Option.some.inj hi).symm

end Loop

/-! ### An example -/

section Example

attribute [local instance] Ty.x86

/-- Two branches on one unknown, the second one on the true side of the first. -/
def twiceBranched : Context where
  nodes :=
    [⟨.inner .createUnknownVal [.idTypePair ⟨51, .int 1⟩, .empty] ⟨51, .int 1, .alloca, [], false⟩ false, some 1,
        none, []⟩,
     ⟨.inner .br [.idTypePair ⟨52, .void⟩, .empty, .idTypePair ⟨51, .int 1⟩] ⟨52, .void, .condBr 1 2, [], false⟩
        false, some 2, some 3, [0]⟩,
     ⟨.inner .br [.idTypePair ⟨53, .void⟩, .empty, .idTypePair ⟨51, .int 1⟩] ⟨53, .void, .condBr 2 2, [], false⟩
        false, some 3, some 3, [1]⟩,
     ⟨.terminal, none, none, [1, 2]⟩]
  globalMapping := ∅
  funcMapping := ∅

def twiceBranchedStart : Verification := .start (VcState.new {}).statics (.new 0 (VcState.new {}).vc)

def twiceBranchedTurns : Turns × Verification := play twiceBranched.turn [] twiceBranchedStart [0, 0, 1, 0, 0]

/-- The false side of the second branch is refused, and five states are explored. -/
theorem verification_twiceBranched :
    twiceBranchedTurns.2.manager.statePool.length = 5 ∧
    ((twiceBranchedTurns.1.filterMap (·.out)).map (·.1)).Perm
      (List.range (twiceBranchedTurns.2.manager.statePool.map (·.state)).length) := by
  constructor
  · decide +kernel
  · have hrun : twiceBranched.VerifyRun (VcState.new {}).statics (.new 0 (VcState.new {}).vc)
        twiceBranchedTurns.1 twiceBranchedTurns.2 := Run.play (.start rfl) (by decide +kernel)
    exact (verification_exhaustive hrun (by decide +kernel) (by decide +kernel)).1

end Example

end Angie
