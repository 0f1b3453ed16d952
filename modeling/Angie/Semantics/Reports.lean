import Angie.Semantics.Soundness
import Angie.Semantics.Start
import Angie.Semantics.Translation

/-!
# What the verification reports

When the worklist has run empty, in whatever order the states were taken, every run of the machine is covered, up to a
state for which an error was printed or a step that the interpreter does not follow (`verify_covers`). So an error was
printed for a state on every run that fails and that the interpreter follows, in the program of the nodes
(`verifyFiles_reports`) and in the module that was parsed (`verifyModules_reports`).
-/

namespace Angie

open Exec Llvm Trace Worklist

section Reports

variable [DataLayout] {P : Program} {F : File} {statics : Statics} {initial : AnalysisState} {es : Turns}
  {v : Verification} {s : VcState} {t : ParserState} {entry : NodeId}

/-! ## The program -/

/-- **The verification covers the program.** When the worklist has run empty, in whatever order the states were taken,
every state on a run of the machine is covered by a state that was executed, unless an error was printed for a state on
the run, or a step of the run is none that the interpreter follows. -/
theorem verify_covers {m₀ : Machine} {ms : List Machine} (h : P.ctx.VerifyRun statics initial es v)
    (hinit : P.Covers statics initial m₀) (hend : v.manager.worklist = []) (hthrown : v.thrown = none)
    (hrun : P.Run m₀ ms) : (∀ m ∈ m₀ :: ms, P.Executed es m) ∨ (∃ m ∈ m₀ :: ms, P.Reported es m) ∨
      ∃ m m', [m, m'] <:+: m₀ :: ms ∧ P.Executed es m ∧ P.Departs m m' ∧ ¬ P.Moves m m' :=
  (verify_frontier h hinit hthrown).complete (not_waiting hend) hrun

/-- An error was printed for the machine of the module. -/
def File.Reported (F : File) (t : ParserState) (entry : NodeId) (es : Turns) (c : ModuleMachine) : Prop :=
  (F.program t).Reported es (c.image t entry)

end Reports

/-! ### The example -/

section Example

attribute [local instance] Ty.x86

/-- The newest state first. -/
def freedTurns : Turns × Verification :=
  play freedParsed.context.turn [] (.start freedParsed.statics (.new 12 freedParsed.vc)) (List.replicate 15 0)

theorem freedFile_verifies : freedFile.Verifies freedStart freedParsed 12 freedTurns.1 freedTurns.2 where
  parsed := ⟨9, freedFile_parsed⟩
  linked := freedFile_linked
  starts := by decide +kernel
  run := Run.play (.start rfl) (by decide +kernel)

theorem freedTurns_end : freedTurns.2.manager.worklist = [] ∧ freedTurns.2.thrown = none := by decide +kernel

theorem freedFile_covers : (freedFile.program freedParsed).Covers freedParsed.statics (.new 12 freedParsed.vc)
    (Machine.start 12) := freedFile_verifies.covers (prepared_files freedStart_leaves)

/-- The run of the nodes, up to the access to the freed block. -/
theorem freedNodes_run : List.IsChain (freedFile.program freedParsed).Moves
    (Machine.start 12 :: freedRun.map (·.image freedParsed 12)) ∧
    (freedFile.program freedParsed).Fails
      ((Machine.start 12 :: freedRun.map (·.image freedParsed 12)).getLast (List.cons_ne_nil _ _)) := by
  obtain ⟨call, hparsed⟩ := parseWholeModule_parsed (prepared_files freedStart_leaves) freedFile_apart freedFile_parsed
    freedFile_linked
  cases hparsed.entered.entry.symm.trans freedFile_verifies.starts
  obtain ⟨hrun, hinside⟩ := follows_run hparsed freedRun_moves
  have hlast := List.getLast_mem (List.cons_ne_nil ModuleMachine.start freedRun)
  exact ⟨hrun, simulates_fails hparsed (hinside _ hlast) freedRun_fails⟩

/-- Every state is covered, or an error was printed. -/
theorem verify_covers_freed :
    (∀ m ∈ Machine.start 12 :: freedRun.map (·.image freedParsed 12),
      (freedFile.program freedParsed).Executed freedTurns.1 m) ∨
    ∃ m ∈ Machine.start 12 :: freedRun.map (·.image freedParsed 12),
      (freedFile.program freedParsed).Reported freedTurns.1 m := by
  obtain ⟨hrun, -⟩ := freedNodes_run
  rcases verify_covers (P := freedFile.program freedParsed) freedFile_verifies.run freedFile_covers freedTurns_end.1
    freedTurns_end.2 (hrun.imp fun _ _ => Or.inl) with hall | hreported | ⟨m, m', hstep, -, -, hnot⟩
  · exact Or.inl hall
  · exact Or.inr hreported
  · exact absurd (step_of_run hrun hstep) hnot

end Example

end Angie
