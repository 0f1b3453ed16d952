import Angie.Smg.Integrity
import Angie.Values.Branch

/-!
# Container calls behind the operations of a graph

An operation of a graph uses its container through calls that assume nothing (`steps_calls`), and draws object ids from
the counters. Hence it leads the container along a path of the analysis (`PathRun.calls`), and a branch leads the graph
along a run of its operations (`branchOn_graphRun`).
-/

namespace Angie

open Exec KeyedList Trace

section Calls

variable [DataLayout]

/-- `t` is reached from `s` by calls that assume nothing. -/
abbrev Calls : VcState → VcState → Prop :=
  Relation.ReflTransGen fun s t => ∃ op : VcOp, (∀ zero, op.assumed zero = none) ∧ (op.exec s).2 = t

/-- A path goes on with calls that assume nothing. -/
theorem PathRun.calls {es : Path} {s t : VcState} (h : PathRun es s) (hst : Calls s t) : ∃ es, PathRun es t := by
  induction hst with
  | refl => exact ⟨es, h⟩
  | @tail u w _ hb ih =>
    obtain ⟨op, hop, rfl⟩ := hb
    obtain ⟨es, h⟩ := ih
    have hadm : PathOp.Adm u (.call op) := hop u.vc.zero
    exact ⟨_, .step _ h hadm⟩

theorem steps_calls_of_run {α : Type} {m : VcM α} {f : α → Option ValueId} (op : VcOp) (h : op.run = f <$> m)
    (hop : ∀ zero, op.assumed zero = none) : Steps Calls m := by
  intro s
  have hs : (op.exec s).2 = final (m s) := by rw [VcOp.exec_state, h, final_map]
  exact .single ⟨op, hop, hs⟩

theorem steps_calls_createVal (type : Ty) : Steps Calls (createVal type) :=
  steps_calls_of_run (.createVal type) rfl fun _ => rfl

theorem steps_calls_createConstIntVal (value : Word) : Steps Calls (createConstIntVal value) :=
  steps_calls_of_run (.createConstIntVal value) rfl fun _ => rfl

theorem steps_calls_add (a b : ValueId) (type : Ty) (flags : ArithFlags) : Steps Calls (add a b type flags) :=
  steps_calls_of_run (.binOp a b type ⟨.add, flags⟩) rfl fun _ => rfl

/-! ## Operations of a graph -/

/-- An operation uses the container through such calls only. -/
def MemState.VcCalls (s t : MemState) : Prop := Calls s.toVc t.toVc

instance : IsPreorder MemState MemState.VcCalls where
  refl := fun _ => .refl
  trans := fun _ _ _ => .trans

theorem vcCalls_of_toVc {s t : MemState} (h : t.toVc = s.toVc) : s.VcCalls t := by
  unfold MemState.VcCalls
  rw [h]

theorem steps_calls_callVc {α : Type} {m : VcM α} (h : Steps Calls m) : Steps MemState.VcCalls (callVc m) := by
  intro s
  have hc := h s.toVc
  unfold callVc zoom
  cases hm : m s.toVc <;> rw [hm] at hc <;> exact hc

theorem steps_calls_findPtEdge (ptr : ValueId) : Steps MemState.VcCalls (findPtEdge ptr) := by
  intro s
  rw [findPtEdge_eq]
  exact vcCalls_of_toVc (toVc_touch s ptr)

theorem steps_calls_checkTarget (id : ObjectId) : Steps MemState.VcCalls (checkTarget id) :=
  steps_ite (steps_throw _) (steps_ite (steps_throw _) (steps_pure _))

theorem steps_calls_objectAt (id : ObjectId) : Steps MemState.VcCalls (objectAt id) := by
  intro s
  unfold objectAt
  cases s.graph.objects[id]? <;> exact vcCalls_of_toVc rfl

theorem steps_calls_updateObject (id : ObjectId) (o : Object) : Steps MemState.VcCalls (updateObject id o) :=
  fun _ => vcCalls_of_toVc rfl

theorem steps_calls_createPtEdge (e : PtEdge) : Steps MemState.VcCalls (createPtEdge e) := fun _ => vcCalls_of_toVc rfl

/-- An object id is drawn elsewhere. -/
theorem steps_calls_getNextObjectId : Steps MemState.VcCalls getNextObjectId := fun s =>
  .single ⟨.elsewhere 0 0 1, fun _ => rfl, by
    change ({ s.toVc with statics := s.statics.skip 0 0 1 } : VcState) = _
    simp [Statics.skip, getNextObjectId, MemState.toVc]⟩

theorem steps_calls_allocateRegion (type : Ty) (ms : MemorySpace) :
    Steps MemState.VcCalls (Angie.allocateRegion type ms) := by
  refine steps_bind (steps_calls_callVc (steps_calls_createVal _)) fun ptr => ?_
  refine steps_bind steps_calls_getNextObjectId fun oid => ?_
  refine steps_bind (steps_calls_callVc (steps_calls_createConstIntVal _)) fun size => ?_
  exact steps_bind (steps_calls_updateObject _ _) fun _ => steps_bind (steps_calls_createPtEdge _) fun _ =>
    steps_pure ptr

theorem steps_calls_createDerivedPointer (basePtr offset : ValueId) :
    Steps MemState.VcCalls (Angie.createDerivedPointer basePtr offset) := by
  refine steps_bind (steps_calls_findPtEdge basePtr) fun base => ?_
  refine steps_bind (steps_calls_callVc (steps_calls_add _ _ _ _)) fun o => ?_
  refine steps_bind (steps_calls_callVc (steps_calls_add _ _ _ _)) fun v => ?_
  exact steps_bind (steps_calls_createPtEdge _) fun e => steps_pure _

theorem steps_calls_readValue (ptr : ValueId) (type : Ty) : Steps MemState.VcCalls (Angie.readValue ptr type) := by
  refine steps_bind (steps_calls_findPtEdge ptr) fun e => steps_bind (steps_calls_checkTarget _) fun _ => ?_
  refine steps_bind (steps_calls_objectAt _) fun o => ?_
  dsimp only
  cases (if type.isPointer then o.findPtEdgeByOffset e.targetOffset else none) with
  | some edge => exact steps_bind (steps_calls_createPtEdge _) fun _ => steps_pure _
  | none =>
    cases o.findHvEdgeByOffset e.targetOffset with
    | some edge => exact steps_pure edge.value
    | none =>
      refine steps_bind (steps_calls_callVc (steps_calls_createVal _)) fun v => ?_
      exact steps_bind (steps_calls_updateObject _ _) fun _ => steps_pure v

theorem steps_calls_writeEdge (e : PtEdge) (value : ValueId) (type : Ty) :
    Steps MemState.VcCalls (Angie.writeEdge e value type) := by
  refine steps_bind (steps_calls_checkTarget _) fun _ => steps_bind (steps_calls_objectAt _) fun o => steps_ite ?_ ?_
  · refine steps_get fun s => ?_
    cases lookup (·.value) value s.graph.handles <;> exact vcCalls_of_toVc rfl
  · exact steps_calls_updateObject _ _

theorem steps_calls_free (ptr : ValueId) : Steps MemState.VcCalls (Angie.free ptr) := by
  refine steps_bind (steps_calls_findPtEdge ptr) fun e => steps_ite (steps_pure _) ?_
  refine steps_ite (steps_throw _) (steps_ite (steps_throw _) (steps_get fun s => ?_))
  cases s.graph.objects[e.targetObjectId]? with
  | none => exact vcCalls_of_toVc rfl
  | some o =>
    dsimp only
    split <;> exact vcCalls_of_toVc rfl

theorem steps_calls_memclear (ptr size : ValueId) : Steps MemState.VcCalls (Angie.memclear ptr size) := by
  refine steps_get fun s => ?_
  cases s.vc.constantContainer[size]? with
  | none => exact vcCalls_of_toVc rfl
  | some n =>
    have hsteps : Steps MemState.VcCalls (do
        let derived ← Angie.createDerivedPointer ptr 0
        Angie.writeEdge derived.2 (← get).vc.zero (.array (.int 8) n.toNat)) :=
      steps_bind (steps_calls_createDerivedPointer ptr 0) fun d => steps_get fun t => steps_calls_writeEdge _ _ _ t
    exact hsteps s

theorem steps_calls {op : GraphOp} (h : op.isGraphCall = true) : Steps MemState.VcCalls op.run := by
  intro s
  cases op with
  | allocateRegion t ms => rw [GraphOp.run, final_map]; exact steps_calls_allocateRegion t ms s
  | createDerivedPointer p o => rw [GraphOp.run, final_map]; exact steps_calls_createDerivedPointer p o s
  | readValue p t => rw [GraphOp.run, final_map]; exact steps_calls_readValue p t s
  | writeValue p v t =>
    rw [GraphOp.run, final_map]
    exact steps_bind (steps_calls_findPtEdge p) (fun e => steps_calls_writeEdge e v t) s
  | free p => rw [GraphOp.run, final_map]; exact steps_calls_free p s
  | memclear p n => rw [GraphOp.run, final_map]; exact steps_calls_memclear p n s
  | container op => cases h

/-! ## Answers -/

variable {s t : MemState}

omit [DataLayout] in
/-- What is read stands on an edge, or is new. -/
theorem readValue_given (hs : GraphOk s) {ptr v : ValueId} {type : Ty} (h : Angie.readValue ptr type s = .ok v t) :
    t.Given v := by
  rcases resolve_target_cases hs ptr with h0 | h0 | h0 | ⟨h0, o, ho⟩
  · rw [readValue_error (Or.inl h0)] at h; cases h
  · rw [readValue_error (Or.inr (Or.inl h0))] at h; cases h
  · rw [readValue_error (Or.inr (Or.inr h0))] at h; cases h
  · rw [readValue_region h0 ho] at h
    split at h
    · rename_i e he
      split at he
      · cases h
        exact ((hs.object _ o ho).ptEdge e (lookup_some he).1).value
      · cases he
    · split at h
      · rename_i e he
        cases h
        exact (hs.object _ o ho).hvValue e (lookup_some he).1
      · cases h
        exact ⟨hs.const.counter, Int.lt_succ _⟩

theorem createDerivedPointer_given (hs : GraphOk s) {basePtr offset : ValueId} (hb : s.Given basePtr)
    {r : ValueId × PtEdge} (h : Angie.createDerivedPointer basePtr offset s = .ok r t) : t.Given r.1 := by
  obtain ⟨o, v, u, hd, heq⟩ := createDerivedPointer_spec hs hb offset
  rw [heq] at h
  cases h
  exact hd.valueFresh.given

theorem allocateRegion_given (hs : GraphOk s) {type : Ty} {ms : MemorySpace} {v : ValueId}
    (h : Angie.allocateRegion type ms s = .ok v t) : t.Given v := by
  obtain ⟨size, u, _, _, hlt, _, _, heq⟩ := allocateRegion_spec hs type ms
  rw [heq] at h
  cases h
  exact ⟨hs.const.counter, hlt⟩

/-! ## Calls and branches along a run of the graph -/

/-- A call of the container is an operation of the run. -/
theorem GraphRun.container {es : GraphHistory} (h : GraphRun es s) (op : VcOp) :
    ∃ es, GraphRun es (s.withVc (op.exec s.toVc).2) := by
  have hadm : GraphOp.Adm s (.container op) := fun v hv => by cases hv
  have hstate : ((GraphOp.container op).exec s).2 = s.withVc (op.exec s.toVc).2 := by
    rw [GraphOp.exec_state, final_container, VcOp.exec_state]
  rw [← hstate]
  exact ⟨_, .step (GraphOp.container op) h hadm⟩

/-- What a direction of a branch assumes. -/
def assumption (br : Bool) (x : ValueId) : VcOp := if br then .assumeTrue x else .assumeFalse x

/-- A direction that is taken makes its assumption; on a path, a refused one changes nothing. -/
theorem branchOn_cases {es : Path} {s : VcState} (h : PathOk es s) {x : ValueId} (hx : s.Given x) (br : Bool) :
    (branchOn x br s = .ok () ((assumption br x).exec s).2) ∨ ∃ what, branchOn x br s = .error (.branch what) s := by
  by_cases hb : Blocked es s x br
  · exact Or.inr ⟨_, branchOn_blocked h hb⟩
  · left
    obtain ⟨t, ht, _⟩ := branch_pathOk h hx hb (e := ⟨s, .branch x br, .ok none, s⟩) rfl
    obtain ⟨ans, hans, hne⟩ := knownAs_not_of_not_blocked h hb
    have hrun := branchOn_eq x br s
    rw [hans] at hrun
    simp only [hne, if_false] at hrun
    rw [hrun] at ht
    have hassume : ((assumption br x).exec s).2 = t := by
      cases br with
      | true =>
        have hcall : assumeTrue x s = .ok () t := by rw [assumeTrue_eq]; exact ht
        rw [assumption, if_pos rfl, VcOp.exec_state, VcOp.run, final_map, hcall, final_ok]
      | false =>
        have hcall : assumeFalse x s = .ok () t := by rw [assumeFalse_eq]; exact ht
        rw [assumption, if_neg Bool.false_ne_true, VcOp.exec_state, VcOp.run, final_map, hcall, final_ok]
    rw [hassume, hrun]
    exact ht

end Calls

end Angie
