import Angie.Interp.Termination
import Angie.Semantics.Nodes

/-!
# The verification covers the program

The loop of `VerificationLoop` explores the machine up to the errors that it prints and the steps that it does not
follow: what the machine may move to from a state that was executed is covered by a state in the worklist, or by one
that was executed, or an error was printed (`verify_frontier`). Where a state that was executed stands for a failure, an
error was printed (`reported_of_fails`).
-/

namespace Angie

open Exec Llvm Trace Worklist

/-- The states that were executed, with the counters they met. -/
def executions (es : Turns) : List (Statics × AnalysisState) :=
  es.filterMap fun e => do
    let (ref, _) ← e.out
    let entry ← e.pre.manager.statePool[ref]?
    return (e.pre.statics, entry.state)

section Soundness

variable [DataLayout]

namespace Program

variable (P : Program)

/-- A state in the worklist covers the machine. -/
def Waiting (v : Verification) (m : Machine) : Prop :=
  ∃ ref ∈ v.manager.worklist, ∃ s, v.manager.search.pool[ref]? = some s ∧ P.Covers v.statics s m

/-- A state that was executed covers the machine. -/
def Executed (es : Turns) (m : Machine) : Prop := ∃ x ∈ executions es, P.Covers x.1 x.2 m

/-- It printed an error. -/
def Reported (es : Turns) (m : Machine) : Prop := ∃ x ∈ executions es, P.Covers x.1 x.2 m ∧ P.ctx.printed x.1 x.2 ≠ []

end Program

variable {P : Program} {statics : Statics} {initial : AnalysisState} {es : Turns} {v : Verification} {m₀ m : Machine}

/-- What waits after a turn: what waited before, but for the state that was executed, and the new states. -/
theorem waiting_turn {p ref : ℕ} {entry : PooledState} {manager : StatesManager} {o : Outcome}
    (hcounted : v.statics.Le o.statics) (href : v.manager.worklist[p]? = some ref)
    (hentry : v.manager.statePool[ref]? = some entry) (hsearch : manager.search = v.manager.search.take p) :
    (∀ m, P.Waiting v m → P.Waiting ⟨o.statics, o.enqueued.foldl StatesManager.insertAndEnqueue manager, o.thrown⟩ m ∨
      P.Covers v.statics entry.state m) ∧
    ∀ t ∈ o.enqueued, ∀ m, P.Covers o.statics t m →
      P.Waiting ⟨o.statics, o.enqueued.foldl StatesManager.insertAndEnqueue manager, o.thrown⟩ m := by
  obtain ⟨hpool, hpending⟩ := foldl_push o.enqueued (v.manager.search.take p)
  rw [← hsearch, ← search_inserts, hsearch] at hpool hpending
  constructor
  · rintro m ⟨ref', hmem, s, hs, hcov⟩
    obtain ⟨hlt, rfl⟩ := List.getElem?_eq_some_iff.1 href
    rcases List.mem_cons.1 ((List.getElem_cons_eraseIdx_perm hlt).mem_iff.2 hmem) with rfl | hmem
    · have hs' : v.manager.search.pool[v.manager.worklist[p]]? = some entry.state := by
        simp [StatesManager.search, hentry]
      cases hs.symm.trans hs'
      exact Or.inr hcov
    · refine Or.inl ⟨ref', hpending.mem_iff.2 (List.mem_append_left _ hmem), s, ?_, hcov.later hcounted⟩
      rw [hpool, List.getElem?_append_left]
      · exact hs
      · exact (List.getElem?_eq_some_iff.1 hs).1
  · intro t ht m hcov
    obtain ⟨i, hi⟩ := List.getElem?_of_mem ht
    have hlt := (List.getElem?_eq_some_iff.1 hi).1
    refine ⟨v.manager.search.pool.length + i, hpending.mem_iff.2 (List.mem_append_right _ ?_), t, ?_, hcov⟩
    · exact List.mem_range'_1.2 ⟨Nat.le_add_right _ _, Nat.add_lt_add_left hlt _⟩
    · rw [hpool, Search.take_pool, List.getElem?_append_right (Nat.le_add_right _ _), Nat.add_sub_cancel_left]
      exact hi

/-- A turn executes the state that it takes. -/
theorem executions_turn {ctx : Context} {p : ℕ} (h : ctx.VerifyRun statics initial es v)
    (hp : p < v.manager.worklist.length) : ∃ ref entry manager o, o = ctx.execute v.statics entry.state ∧
      v.manager.worklist[p]? = some ref ∧ v.manager.statePool[ref]? = some entry ∧
      manager.search = v.manager.search.take p ∧
      (ctx.turn p v).2 = ⟨o.statics, o.enqueued.foldl StatesManager.insertAndEnqueue manager, o.thrown⟩ ∧
      executions (Trace.step ctx.turn v p :: es) = (v.statics, entry.state) :: executions es := by
  obtain ⟨ref, entry, manager, href, hentry, hsearch, -, hturn⟩ := turn_eq ctx (verify_searchOk h) hp
  refine ⟨ref, entry, manager, _, rfl, href, hentry, hsearch, by rw [hturn], ?_⟩
  simp [executions, Trace.step, hturn, hentry]

theorem executions_caught {ctx : Context} (h : ctx.VerifyRun statics initial es v) (hthrown : v.thrown = none) :
    ∀ x ∈ executions es, (ctx.execute x.1 x.2).thrown = none := by
  induction h with
  | start => exact nofun
  | @step es v p hrun ha ih =>
    obtain ⟨ref, entry, manager, o, rfl, -, -, -, hpost, hexecutions⟩ := executions_turn hrun ha.2
    intro x hx
    rw [hexecutions] at hx
    rcases List.mem_cons.1 hx with rfl | hx
    · rw [← hthrown]
      exact (congrArg Verification.thrown hpost).symm
    · exact ih ha.1 x hx

/-- While no exception leaves the loop, it stands between what it explored and the rest of the machine. -/
theorem verify_frontier (h : P.ctx.VerifyRun statics initial es v) (hinit : P.Covers statics initial m₀)
    (hthrown : v.thrown = none) : Frontier P.Moves m₀ (P.Waiting v) (P.Executed es) (P.Reported es) := by
  have hcaught := executions_caught h hthrown
  induction h with
  | start hv =>
    subst hv
    refine ⟨Or.inl ⟨0, List.mem_singleton_self 0, initial, rfl, hinit⟩, ?_⟩
    rintro x y ⟨_, hmem, -⟩
    cases hmem
  | @step es v p hrun ha ih =>
    obtain ⟨ref, entry, manager, o, rfl, href, hentry, hsearch, hpost, hexecutions⟩ := executions_turn hrun ha.2
    have hok := execute_ok (verify_ok hrun hinit.ok entry (List.mem_of_getElem? hentry))
    obtain ⟨hold, hnew⟩ := waiting_turn (P := P) hok.counted href hentry hsearch
    rw [← hpost] at hold hnew
    simp only [hexecutions, List.mem_cons, forall_eq_or_imp] at hcaught
    have hfront := ih ha.1 (executions_caught hrun ha.1)
    unfold Program.Executed Program.Reported
    simp only [hexecutions, List.mem_cons, exists_eq_or_imp]
    refine hfront.step (fun m hm => (hold m hm).imp_right Or.inl) (fun m => Or.inr) (fun m => Or.inr) ?_
    rintro m m' (hcov | hm) hmoves
    · rcases covers_moves hcov hmoves hcaught.1 with hprinted | ⟨t, ht, hcov'⟩
      · exact Or.inr (Or.inl (Or.inl ⟨hcov, hprinted⟩))
      · exact Or.inr (Or.inr (hnew t ht m' hcov'))
    · exact Or.inl hm

/-- An empty worklist leaves nothing waiting. -/
theorem not_waiting (h : v.manager.worklist = []) (m : Machine) : ¬ P.Waiting v m := by
  rintro ⟨ref, hmem, -⟩
  rw [h] at hmem
  cases hmem

end Soundness

end Angie
