import Angie.Lib.Triple
import Angie.Frontend.Functions

/-!
# Invariants of the parser

What the parser changes, it changes in few ways (`ParserInvariant`): nodes and the queue, the constants of an
instruction, the first node of a block, the value of an id, the handle of a function, the entry. A property that each
of these keeps holds wherever the parser comes to (`ParserInvariant.parsePrologue`, `ParserInvariant.queueLoop`), and
need not be followed through its functions again.
-/

namespace Angie

open Exec Llvm

/-- The module has the instruction. -/
def Llvm.Module.Contains (m : Module) (i : Instruction) : Prop := ∃ b ∈ m.blocks, i ∈ b.instructions

/-- The ids that get values: those of the functions that are defined, and of the arguments of `__entry`. -/
def Llvm.Module.Names (m : Module) (e : EntryFunction) (id : FrontendId) : Prop :=
  (∃ f entry, m.Defines f entry ∧ f.id = id) ∨ ∃ a ∈ e.args, a.id = id

/-- `I is s` is kept in every step of the parser, when `is` are the instructions of the block at hand that were looked
at. -/
structure ParserInvariant (m : Module) (e : EntryFunction) (I : List Instruction → ParserState → Prop) : Prop where
  nodes : ∀ {is s}, I is s → ∀ t, I is { s with nodes := t }
  queue : ∀ {is s}, I is s → ∀ links, I is { s with parseAndLinkTogether := links }
  instruction : ∀ {is s}, I is s → ∀ i, m.Contains i → I (is ++ [i])
    { s with constantValuesToBeCreated := s.constantValuesToBeCreated ++ i.operands.filter (·.isConstant) }
  block : ∀ {b s}, I b.instructions s → m.block? b.id = some b → ∀ first,
    I [] { s with copyMapping := s.copyMapping.insert b.id first }
  value : ∀ {s t arg v}, I [] s → m.Names e arg.id → createOrGetValueId arg s = .ok v t → I [] t
  function : ∀ {s f entry vid}, I [] s → m.Defines f entry → s.mapper[f.id]? = some vid → ∀ first,
    I [] { s with fmap := s.fmap.insertIfNew vid (f.handle first) }
  main : ∀ {s}, I [] s → ∀ cfg, I [] { s with mainCfg := cfg }
  entry : ∀ {s}, I [] s → ∀ cfg, I [] { s with entryPointCfg := cfg }

namespace ParserInvariant

/-- `p` leads from the invariant to the invariant. -/
abbrev Keeps {α : Type} (I : List Instruction → ParserState → Prop) (is is' : List Instruction) (p : ParserM α) : Prop :=
  Triple (I is) p (fun _ => I is') (fun _ _ => True)

section Rules

variable {α β : Type} {I : List Instruction → ParserState → Prop} {is is' is'' : List Instruction}

theorem keeps_pure (a : α) : Keeps I is is (pure a) := triple_pure fun _ hs => hs

theorem keeps_throw (x : Exn) : Keeps I is is' (throw x : ParserM α) := triple_throw fun _ _ => trivial

theorem keeps_bind {p : ParserM α} {f : α → ParserM β} (hp : Keeps I is is' p) (hf : ∀ a, Keeps I is' is'' (f a)) :
    Keeps I is is'' (p >>= f) := triple_bind hp hf

theorem keeps_get {f : ParserState → ParserM α} (hf : ∀ s, Keeps I is is' (f s)) : Keeps I is is' (get >>= f) :=
  triple_get fun s hs => (hf s).weaken (fun _ h => h ▸ hs) (fun _ _ h => h) fun _ _ h => h

theorem keeps_ofExcept (x : Except Exn α) : Keeps I is is (ofExcept x) :=
  triple_ofExcept (fun _ _ _ hs => hs) fun _ _ _ _ => trivial

theorem keeps_modify {f : ParserState → ParserState} (hf : ∀ s, I is s → I is' (f s)) :
    Keeps I is is' (modify f : ParserM Unit) := triple_modify hf

end Rules

variable {m : Module} {e : EntryFunction} {I : List Instruction → ParserState → Prop} {is : List Instruction}
  (h : ParserInvariant m e I)

include h

theorem callCfg {α : Type} (p : CfgM α) : Keeps I is is (ParserM.callCfg p) :=
  triple_zoom fun _ hs => ⟨fun _ _ _ => h.nodes hs _, fun _ _ _ => trivial⟩

/-! ## Blocks -/

theorem getOperArgsForInstr {i : Instruction} (hi : m.Contains i) :
    Keeps I is (is ++ [i]) (getOperArgsForInstr i) :=
  keeps_bind (keeps_ofExcept _) fun _ => keeps_bind (keeps_modify fun _ hs => h.instruction hs i hi)
    fun _ => keeps_pure _

theorem linkWithOrPlanProcessing (n : NodeId) (block : BlockId) (i : ℕ) :
    Keeps I is is (linkWithOrPlanProcessing n block i) := by
  refine keeps_get fun s => ?_
  cases s.copyMapping[block]? with
  | some next => exact h.callCfg _
  | none => exact keeps_modify fun _ hs => h.queue hs _

theorem parseBody : ∀ (instrs is : List Instruction) (n : NodeId), (∀ i ∈ instrs, m.Contains i) →
    Keeps I is (is ++ instrs) (parseBody instrs n)
  | [], is, n, _ => by
    rw [List.append_nil]
    exact keeps_pure n
  | i :: rest, is, n, hin => by
    have hrest := fun n => parseBody rest (is ++ [i]) n fun j hj => hin j (List.mem_cons_of_mem _ hj)
    rw [List.append_assoc] at hrest
    exact keeps_bind (keeps_ofExcept _) fun _ => keeps_bind (h.getOperArgsForInstr (hin i List.mem_cons_self)) fun _ =>
      keeps_bind (h.callCfg _) hrest

theorem parseTerminator {i : Instruction} (hi : m.Contains i) (n : NodeId) :
    Keeps I is (is ++ [i]) (parseTerminator i n) := by
  refine keeps_bind (keeps_ofExcept _) fun op => keeps_bind (h.getOperArgsForInstr hi) fun args => ?_
  split
  · exact keeps_bind (h.callCfg _) fun _ => h.linkWithOrPlanProcessing _ _ _
  · exact keeps_bind (h.callCfg _) fun _ =>
      keeps_bind (h.linkWithOrPlanProcessing _ _ _) fun _ => h.linkWithOrPlanProcessing _ _ _
  · exact keeps_bind (h.callCfg _) fun _ => keeps_pure _
  · exact keeps_pure _

theorem parseBasicBlock (id : BlockId) : Keeps I [] [] (parseBasicBlock m id) := by
  refine keeps_get fun s => ?_
  cases s.copyMapping[id]? with
  | some node => exact keeps_pure _
  | none =>
    cases hb : m.block? id with
    | none => exact keeps_throw _
    | some b =>
      obtain ⟨hmem, rfl⟩ := Module.block?_some hb
      have hin : ∀ i ∈ b.instructions, m.Contains i := fun i hi => ⟨b, hmem, hi⟩
      refine keeps_bind (h.callCfg _) fun zeroNode =>
        keeps_bind (h.parseBody b.body [] zeroNode fun i hi => hin i (List.mem_append_left _ hi)) fun n => ?_
      refine keeps_bind (h.parseTerminator (hin _ (List.mem_append_right _ (List.mem_singleton_self _))) n) fun _ =>
        keeps_bind (h.callCfg _) fun first => ?_
      exact keeps_bind (keeps_modify fun _ hs => h.block hs hb first) fun _ => keeps_pure _

/-! ## Functions and the entry -/

theorem createOrGetValueId {arg : FrontendIdTypePair} (harg : m.Names e arg.id) :
    Triple (I []) (createOrGetValueId arg) (fun v t => I [] t ∧ t.mapper[arg.id]? = some v) (fun _ _ => True) := by
  intro s hs
  rcases createOrGetValueId_cases arg s with ⟨v, hv, hrun⟩ | ⟨-, hrun⟩
  · rw [hrun]
    exact ⟨hs, hv⟩
  · have ht := h.value hs harg hrun
    rw [hrun]
    exact ⟨ht, by simp⟩

theorem parseFunctions : ∀ functions : List Function, functions ⊆ m.functions →
    Keeps I [] [] (parseFunctions m functions)
  | [], _ => keeps_pure _
  | func :: rest, hsub => by
    have hrest := parseFunctions rest fun f hf => hsub (List.mem_cons_of_mem _ hf)
    refine triple_ite (fun _ => hrest) fun hdefined => ?_
    cases hentry : func.blocks.head? with
    | none => exact absurd ((Function.isDeclaration_iff func).2 hentry) hdefined
    | some entry =>
      have hdef : m.Defines func entry := ⟨hsub List.mem_cons_self, hentry⟩
      have hcfg : Keeps I [] [] (parseFunction m func) := by
        unfold parseFunction
        rw [hentry]
        exact h.parseBasicBlock _
      exact keeps_bind hcfg fun cfg => triple_bind (h.createOrGetValueId (Or.inl ⟨func, entry, hdef, rfl⟩)) fun vid =>
        triple_bind (triple_modify fun s hs => h.function hs.1 hdef hs.2 cfg) fun _ => hrest

omit h in
theorem findMain : Keeps I [] [] (findMain m) := by
  unfold Angie.findMain
  cases m.getFunction "main" with
  | none => exact keeps_throw _
  | some mainFunc =>
    refine keeps_get fun s => ?_
    cases s.mapper[mainFunc.id]? with
    | none => exact keeps_throw _
    | some vid =>
      refine keeps_get fun s => ?_
      cases s.fmap[vid]? with
      | none => exact keeps_throw _
      | some handle => exact keeps_pure _

theorem mainArgs : ∀ (params : List Param) (args : List FrontendIdTypePair), args ⊆ e.args →
    Keeps I [] [] (mainArgs params args)
  | [], _, _ => keeps_pure _
  | _ :: _, [], _ => keeps_throw _
  | _ :: params, arg :: args, hsub => by
    have hvalue := h.createOrGetValueId (Or.inr ⟨arg, hsub List.mem_cons_self, rfl⟩)
    exact keeps_bind (hvalue.weaken (fun _ hs => hs) (fun _ _ hs => hs.1) fun _ _ he => he) fun _ =>
      keeps_bind (mainArgs params args fun _ ha => hsub (List.mem_cons_of_mem _ ha)) fun _ => keeps_pure _

theorem prependEntry (mainFunc : Function) : Keeps I [] [] (prependEntry e mainFunc) :=
  keeps_bind (h.mainArgs _ _ (List.Subset.refl _)) fun _ => keeps_bind (h.callCfg _) fun _ =>
    keeps_bind (h.callCfg _) fun _ => keeps_bind (keeps_modify fun _ hs => h.entry hs _) fun _ =>
      keeps_bind (h.callCfg _) fun _ => keeps_pure _

theorem parsePrologue : Keeps I [] [] (parsePrologue m e) :=
  triple_ite (fun _ => keeps_throw _) fun _ => keeps_bind (h.parseFunctions _ (List.Subset.refl _)) fun _ =>
    keeps_bind findMain fun _ => keeps_bind (keeps_modify fun _ hs => h.main hs _) fun _ => h.prependEntry _

/-! ## Modules -/

theorem queueLoop : ∀ n, Keeps I [] [] (queueLoop m n)
  | 0 => keeps_pure _
  | n + 1 => by
    refine keeps_get fun s => ?_
    cases s.parseAndLinkTogether with
    | nil => exact keeps_pure _
    | cons link rest =>
      exact keeps_bind (keeps_modify fun _ hs => h.queue hs _) fun _ => keeps_bind (h.parseBasicBlock _) fun _ =>
        keeps_bind (h.callCfg _) fun _ => queueLoop n

theorem parseModule (n : ℕ) : Keeps I [] [] (parseModule m e n) :=
  keeps_bind h.parsePrologue fun _ => h.queueLoop n

end ParserInvariant

end Angie
