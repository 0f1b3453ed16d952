import Angie.Frontend.Constants
import Angie.Frontend.Gathered
import Angie.Interp.Exploration
import Angie.Interp.Reached
import Angie.Semantics.Machine

/-!
# Files

`Verify` parses a module, binds its constants and starts the loop in a state without memory (`File.Verifies`),
`main_verify_files` does this for one file after another over one container, into which it has put constants at first
(`FilesLeave`). What the parser does to the container are new ids and constants, so the container stays as the analysis
needs it (`prepared_files`).
-/

namespace Angie

open Exec Llvm Trace

section Files

variable [DataLayout]

/-! ## Containers that the parser leaves -/

/-- A state over the container is as it should be, and nothing was assumed. -/
structure VcState.Prepared (s : VcState) : Prop where
  ok : StateOk ⟨[], ∅, ∅⟩ ⟨s.statics, .new 0 s.vc⟩
  constrs : s.vc.constrContainer = ∅

/-- The loop of `main_verify_files` that makes constants, before the files. -/
def createConstIntVals : List Word → VcM Unit
  | [] => pure ()
  | u :: us => do
    let _ ← createConstIntVal u
    createConstIntVals us

theorem prepared_new : (VcState.new {}).Prepared := ⟨new_stateOk (Statics.covers_empty _) 0, rfl⟩

theorem VcState.Prepared.const {s : VcState} (hs : s.Prepared) : ConstOk s := hs.ok.graphOk.const

theorem VcState.Prepared.zero {s : VcState} (hs : s.Prepared) : s.vc.constantContainer[(0 : ValueId)]? = some 0 := by
  have hzero : s.vc.zero = 0 := hs.ok.graphOk.zero
  rw [← hzero]
  exact hs.const.zero

/-- A call that makes up an id or a constant. -/
theorem VcState.Prepared.call {s t : VcState} {m : VcM ValueId} {v : ValueId} (hs : s.Prepared) (op : VcOp)
    (hop : op.run = some <$> m) (hassumes : ∀ zero, op.assumed zero = none) (h : m s = .ok v t) (hg : Grows s t) :
    t.Prepared ∧ s.statics.Le t.statics ∧ t.statics.Given v := by
  have hrun : OpM.callVc m ⟨s.statics, .new 0 s.vc⟩ = .ok v ⟨t.statics, .new 0 t.vc⟩ := OpM.callVc_run h
  have hok := (keepsOk_callVc op hop hassumes).ok ⟨hs.ok, Statics.Le.refl _⟩ hrun
  exact ⟨⟨hok.1.1, hg.constrs.trans hs.constrs⟩, hok.1.2, hok.2⟩

/-- The parser between two steps: the container is prepared, and the mapping has ids that were given out. -/
structure ParserState.Ready (s : ParserState) : Prop where
  prepared : s.toVc.Prepared
  covers : s.statics.Covers s.mapper

/-- A value that is linked was given out. -/
theorem ParserState.Ready.link {s : ParserState} (hs : s.Ready) {v : ValueId} (hv : s.statics.Given v)
    (id : FrontendId) : ParserState.Ready { s with mapper := s.mapper.insert id v } where
  prepared := hs.prepared
  covers := hs.covers.insert hv

/-- A call of the container, with the value that it returns. -/
theorem ParserState.Ready.callVc {s : ParserState} (hs : s.Ready) {m : VcM ValueId} {v : ValueId} {t : VcState}
    (op : VcOp) (hop : op.run = some <$> m) (hassumes : ∀ zero, op.assumed zero = none) (h : m s.toVc = .ok v t)
    (hg : Grows s.toVc t) : (s.withVc t).Ready ∧ t.statics.Given v := by
  obtain ⟨ht, hle, hv⟩ := hs.prepared.call op hop hassumes h hg
  exact ⟨⟨ht, hle.covers hs.covers⟩, hv⟩

theorem ParserState.Ready.value {s t : ParserState} (hs : s.Ready) {arg : FrontendIdTypePair} {v : ValueId}
    (h : createOrGetValueId arg s = .ok v t) : t.Ready := by
  rcases createOrGetValueId_cases arg s with ⟨w, -, heq⟩ | ⟨-, heq⟩
  · cases heq.symm.trans h
    exact hs
  · cases heq.symm.trans h
    obtain ⟨hready, hv⟩ := hs.callVc (.createVal arg.type) rfl (fun _ => rfl) (createVal_apply _ _) (grows_next _)
    exact hready.link hv arg.id

/-- The other steps have nothing to do with values. -/
theorem ready_invariant (m : Module) (e : EntryFunction) : ParserInvariant m e fun _ => ParserState.Ready where
  nodes h _ := ⟨h.prepared, h.covers⟩
  queue h _ := ⟨h.prepared, h.covers⟩
  instruction h _ _ := ⟨h.prepared, h.covers⟩
  block h _ _ := ⟨h.prepared, h.covers⟩
  value h _ hrun := h.value hrun
  function h _ _ _ := ⟨h.prepared, h.covers⟩
  main h _ := ⟨h.prepared, h.covers⟩
  entry h _ := ⟨h.prepared, h.covers⟩

/-! ### Constants -/

abbrev KeepsReady {α : Type} (m : ParserM α) : Prop :=
  Triple ParserState.Ready m (fun _ => ParserState.Ready) (fun _ _ => True)

theorem ready_ofExcept {α : Type} (x : Except Exn α) : KeepsReady (ofExcept x) :=
  triple_ofExcept (fun _ _ _ hs => hs) fun _ _ _ _ => trivial

section Constants

variable (constantAt : FrontendId → Constant)

/-- The value of a constant was given out. -/
theorem ready_constantValue (x : Llvm.Value) : Triple ParserState.Ready (constantValue constantAt x)
    (fun v t => t.Ready ∧ t.statics.Given v) (fun _ _ => True) := by
  -- every constant that is made for an integer is made as this one
  have hint : ∀ u : Word, Triple ParserState.Ready (ParserM.callVc (createConstIntVal u))
      (fun v t => t.Ready ∧ t.statics.Given v) (fun _ _ => True) := by
    intro u s hs
    obtain ⟨v, t, hrun, hgrows, -⟩ := createConstIntVal_spec u s.toVc
    rw [parserVc_run hrun]
    exact hs.callVc (.createConstIntVal u) rfl (fun _ => rfl) hrun hgrows
  unfold constantValue
  cases constantAt x.id with
  | int c => exact triple_bind (ready_ofExcept _) hint
  | fp isIEEE => cases isIEEE <;> exact triple_throw fun _ _ => trivial
  | nullPtr => exact hint 0
  | cast operand => exact triple_bind (ready_ofExcept _) hint
  | getElementPtr idx0 idx1 =>
    refine triple_bind (ready_ofExcept _) fun i => triple_ite (fun _ => ?_) fun _ => triple_throw fun _ _ => trivial
    refine triple_bind (ready_ofExcept _) fun j => triple_ite (fun _ => ?_) fun _ => triple_throw fun _ _ => trivial
    intro s hs
    rw [parserVc_run (createVal_apply x.type s.toVc)]
    exact hs.callVc (.createVal x.type) rfl (fun _ => rfl) (createVal_apply _ _) (grows_next _)
  | function =>
    refine triple_get fun s hs => ?_
    cases hv : s.mapper[x.id]? with
    | some v =>
      refine triple_pure fun t ht => ?_
      cases ht
      exact ⟨hs, hs.covers _ _ hv⟩
    | none => exact triple_throw fun _ _ => trivial
  | otherExpr | globalVariable | other => exact triple_throw fun _ _ => trivial

theorem ready_linkConstants : ∀ xs : List Llvm.Value, KeepsReady (linkConstants constantAt xs)
  | [] => triple_pure fun _ hs => hs
  | x :: rest => triple_bind (ready_constantValue constantAt x) fun _ =>
      triple_bind (triple_modify fun _ hs => hs.1.link hs.2 x.id) fun _ => ready_linkConstants rest

theorem ready_dealWithConstants : KeepsReady (dealWithConstants constantAt) :=
  triple_get fun _ hs => (ready_linkConstants constantAt _).weaken (fun _ h => h ▸ hs) (fun _ _ h => h) fun _ _ h => h

end Constants

/-! ## What is parsed and verified -/

/-- The nodes and mappings of a module that was parsed. -/
def ParserState.context (t : ParserState) : Context := ⟨t.nodes, t.mapper, t.fmap⟩

/-- A machine that has not done anything. -/
def Machine.start (node : NodeId) : Machine := ⟨node, fun _ => none, [], [], 0⟩

/-- The datum of a constant that the machine knows. -/
def Llvm.Constant.datum : Constant → Option Datum
  | .int c => if h : 1 ≤ c.bits ∧ c.bits ≤ 64 then some (.int ⟨c.bits, h.1, h.2⟩ c.value) else none
  | .nullPtr => some .null
  | _ => none

/-- A file: its module, what is at the address of its constants, and the instructions of its entry. -/
structure File where
  module : Module
  constantAt : FrontendId → Constant
  entryFunction : EntryFunction

namespace File

variable (F : File)

/-- The program of the file, as it was parsed. The constants are those among the operands. -/
def program (t : ParserState) : Program where
  ctx := t.context
  constants id := if t.constantValuesToBeCreated.any (·.id == id) then (F.constantAt id).datum else none

/-- `Verify` over a container: the module is parsed until no link is planned any more, and the loop takes the turns `es`
from the entry node. -/
structure Verifies (s : VcState) (t : ParserState) (entry : NodeId) (es : Turns) (v : Verification) : Prop where
  parsed : ∃ n, parseWholeModule F.constantAt F.module F.entryFunction n (.new s) = .ok () t
  linked : t.parseAndLinkTogether = []
  starts : t.entryPointCfg = some entry
  run : t.context.VerifyRun t.statics (.new entry t.vc) es v

end File

/-- The containers that `main_verify_files` comes to: first constants are made, then one file after another is verified,
over the container that the parser of the last one left. -/
inductive FilesLeave : VcState → Prop
  | constants {us : List Word} {s : VcState} : createConstIntVals us (VcState.new {}) = .ok () s → FilesLeave s
  | file {F : File} {s : VcState} {t : ParserState} {entry : NodeId} {es : Turns} {v : Verification} :
      FilesLeave s → F.Verifies s t entry es v → v.manager.worklist = [] → v.thrown = none →
      FilesLeave ⟨v.statics, t.vc⟩

variable {F : File} {s : VcState} {t : ParserState} {entry : NodeId} {es : Turns} {v : Verification}

/-- The module was parsed, then the constants were linked. -/
theorem parseWholeModule_ok {n : ℕ} (hs : s.Prepared)
    (h : parseWholeModule F.constantAt F.module F.entryFunction n (.new s) = .ok () t) :
    ∃ u, parseModule F.module F.entryFunction n (.new s) = .ok () u ∧ t.Ready ∧
      Links F.constantAt u.constantValuesToBeCreated u t := by
  obtain ⟨_, u, hparse, hlink⟩ := bind_ok h
  have hnew : (ParserState.new s).Ready := ⟨hs, Statics.covers_empty _⟩
  have hu := ((ready_invariant _ _).parseModule n).ok hnew hparse
  exact ⟨u, hparse, (ready_dealWithConstants F.constantAt).ok hu hlink, links_of_ok hu.prepared.const hlink⟩

/-- What the parser leaves is prepared. -/
theorem File.Verifies.ready (h : F.Verifies s t entry es v) (hs : s.Prepared) : t.Ready := by
  obtain ⟨n, hparsed⟩ := h.parsed
  obtain ⟨u, -, ht, -⟩ := parseWholeModule_ok hs hparsed
  exact ht

/-- The container that is left for the next file. -/
theorem File.Verifies.prepared (h : F.Verifies s t entry es v) (hs : s.Prepared) :
    VcState.Prepared ⟨v.statics, t.vc⟩ := by
  -- the initial state stays in the pool, at the counters of the end
  obtain ⟨pooled, hpooled, heq⟩ : ∃ e ∈ v.manager.statePool, e.state = .new entry t.vc := by
    have hpool : v.manager.statePool.map (·.state) = _ := (verify_searchOk h.run).explores.pool_eq
    rw [← List.mem_map, hpool]
    exact List.mem_cons_self
  have hready := h.ready hs
  have hinit : StateOk t.context ⟨t.statics, .new entry t.vc⟩ :=
    ⟨hready.prepared.ok.memory, hready.prepared.ok.path, hready.covers, Statics.covers_empty _, nofun⟩
  have hok := verify_ok h.run hinit pooled hpooled
  rw [heq] at hok
  exact ⟨⟨hok.memory, hok.path, Statics.covers_empty _, Statics.covers_empty _, nofun⟩, hready.prepared.constrs⟩

theorem prepared_createConstIntVals : ∀ us : List Word,
    Triple VcState.Prepared (createConstIntVals us) (fun _ => VcState.Prepared) (fun _ _ => False)
  | [] => triple_pure fun _ hs => hs
  | u :: us => by
    have hu : Triple VcState.Prepared (createConstIntVal u) (fun _ => VcState.Prepared) (fun _ _ => False) := by
      intro s hs
      obtain ⟨v, t, hrun, hgrows, -⟩ := createConstIntVal_spec u s
      rw [hrun]
      exact (hs.call (.createConstIntVal u) rfl (fun _ => rfl) hrun hgrows).1
    exact triple_bind hu fun _ => prepared_createConstIntVals us

theorem prepared_files (h : FilesLeave s) : s.Prepared := by
  induction h with
  | constants h => exact (prepared_createConstIntVals _).ok prepared_new h
  | file _ hverifies _ _ ih => exact hverifies.prepared ih

end Files

end Angie
