import Mathlib.Data.List.Chain
import Angie.Semantics.Instructions

/-!
# The parser preserves what a module means

Every run of the machine of the module is a run of the machine of its nodes, up to where control goes behind what has no
node that leads there, and fails where that one fails (`parseWholeModule_simulates`): an instruction is at the node that
the parser put it to (`ParserState.nodeFor`), and control stays in the blocks that the parser reached
(`ModuleMachine.Inside`). What the interpreter follows in the module it follows in the nodes.
-/

namespace Angie

open Exec Llvm Worklist

/-! ## Places -/

/-- The node of an instruction: the first one of its block, or the one behind that of the instruction before. -/
def ParserState.nodeFor (t : ParserState) (p : Module.Pos) : NodeId :=
  if p.2 = 0 then t.nodeOf p else (t.nodes.target (t.nodeOf (p.1, p.2 - 1)) 0).getD 0

theorem nodeFor_start {t : ParserState} {id : BlockId} {first : NodeId} (h : t.copyMapping[id]? = some first) :
    t.nodeFor (id, 0) = first := (if_pos rfl).trans (nodeOf_start h)

/-- The node at a place, where `call` is the first one of `__entry`. -/
def ParserState.place (t : ParserState) (call : NodeId) : Place → NodeId
  | .entry => call
  | .fin => call + 1
  | .instruction p => t.nodeFor p

/-- Control is in a block that can be reached. -/
def Place.Inside (m : Module) : Place → Prop
  | .entry | .fin => True
  | .instruction p => m.Reachable p.1

namespace ModuleMachine

variable [DataLayout]

/-- The machine of the nodes at the same place. -/
def image (t : ParserState) (call : NodeId) (c : ModuleMachine) : Machine :=
  ⟨t.place call c.place, c.store.map (t.place call)⟩

structure Inside (m : Module) (c : ModuleMachine) : Prop where
  place : c.place.Inside m
  calls : ∀ call ∈ c.store.calls, call.back.Inside m

end ModuleMachine

/-! ## Files that were parsed -/

namespace File

/-- The operands of the instructions. -/
def operands (F : File) : List Llvm.Value := F.module.blocks.flatMap fun b => b.instructions.flatMap (·.operands)

/-- An address is the address of one thing. -/
structure Apart (F : File) : Prop where
  function : ∀ f ∈ F.module.functions, F.constantAt f.id = .function
  constant : ∀ x ∈ F.operands, ∀ y ∈ F.operands, x.id = y.id → x.isConstant = y.isConstant
  register : ∀ x ∈ F.operands, x.isConstant = false → ∀ f ∈ F.module.functions, f.id ≠ x.id
  argument : ∀ x ∈ F.operands, ∀ a ∈ F.entryFunction.args, a.id ≠ x.id
  entry : ∀ f ∈ F.module.functions, ∀ a ∈ F.entryFunction.args, a.id ≠ f.id

theorem mem_operands {F : File} {i : Instruction} (hi : F.module.Contains i) {x : Llvm.Value} (hx : x ∈ i.operands) :
    x ∈ F.operands := by
  obtain ⟨b, hb, hib⟩ := hi
  exact List.mem_flatMap.2 ⟨b, hb, List.mem_flatMap.2 ⟨i, hib, hx⟩⟩

/-- The module with its graph, and the operands with what they are in the program. -/
structure Parsed (F : File) (t : ParserState) (call : NodeId) : Prop where
  ok : ParserOk F.module [] t
  registered : ∀ f entry, F.module.Defines f entry → Registered t f entry
  entered : Entered F.module F.entryFunction t call
  operands : ∀ b first, Stands F.module t b first → ∀ i ∈ b.instructions, SameOperands F (F.program t) i
  arguments : ∀ a ∈ F.entryFunction.args, (F.program t).constants a.id = none
  handles : ∀ (vid : ValueId) handle, t.fmap[vid]? = some handle → ∃ f entry, F.module.Defines f entry ∧
    handle = f.handle (t.nodeFor (entry.id, 0))
  valued : ∀ f ∈ F.module.functions, t.mapper.contains f.id = true → ∃ entry, F.module.Defines f entry

end File

section Parsed

variable {F : File} {s u t : ParserState} {vc : VcState}

/-- A key stays one when constants are linked, and what becomes one is a constant. -/
theorem Links.contains {constantAt : FrontendId → Constant} {xs : List Llvm.Value} (h : Links constantAt xs s t)
    (id : FrontendId) : t.mapper.contains id = true ↔ s.mapper.contains id = true ∨ ∃ x ∈ xs, x.id = id := by
  by_cases hid : ∃ x ∈ xs, x.id = id
  · obtain ⟨x, hx, rfl⟩ := hid
    obtain ⟨v, hv, -⟩ := h.linked x hx
    refine iff_of_true ?_ (Or.inr ⟨x, hx, rfl⟩)
    rw [Std.TreeMap.contains_eq_isSome_getElem?, hv]
    rfl
  · have hother : ∀ x ∈ xs, x.id ≠ id := fun x hx heq => hid ⟨x, hx, heq⟩
    rw [Std.TreeMap.contains_eq_isSome_getElem?, Std.TreeMap.contains_eq_isSome_getElem?, h.others id hother]
    exact (or_iff_left hid).symm

/-- The operands of a block that was parsed. -/
theorem ModuleParsed.operands (h : ModuleParsed F.module F.entryFunction u)
    (hlinks : Links F.constantAt u.constantValuesToBeCreated u t) (hF : F.Apart) {b : BasicBlock} {first : NodeId}
    (hb : Stands F.module u b first) {i : Instruction} (hi : i ∈ b.instructions) : SameOperands F (F.program t) i := by
  have hmem := (Module.block?_some hb.1).1
  have hsame : t.constantValuesToBeCreated = u.constantValuesToBeCreated := by rw [hlinks.frame]; rfl
  have hoperand : ∀ x ∈ i.operands, x ∈ F.operands := fun x hx => File.mem_operands ⟨b, hmem, hi⟩ hx
  refine ⟨fun x hx hconst => ?_, fun x hx hconst => ?_⟩
  · have hparsed : u.copyMapping.contains b.id = true := by
      rw [Std.TreeMap.contains_eq_isSome_getElem?, hb.2]
      rfl
    have hcollected := h.gathered.block b hmem hparsed i hi x hx hconst
    refine ⟨(hlinks.contains x.id).2 (Or.inr ⟨x, hcollected, rfl⟩), if_pos ?_⟩
    rw [hsame]
    exact List.any_eq_true.2 ⟨x, hcollected, beq_self_eq_true _⟩
  · rw [Bool.eq_false_iff]
    intro hglobal
    rcases (hlinks.contains x.id).1 hglobal with hkey | ⟨y, hy, hid⟩
    · rcases h.gathered.keys x.id hkey with ⟨f, _, hf, hid⟩ | ⟨a, ha, hid⟩
      · exact hF.register x (hoperand x hx) hconst f hf.1 hid
      · exact hF.argument x (hoperand x hx) a ha hid
    · obtain ⟨hyconst, j, hj, hyj⟩ := h.gathered.constants y hy
      rw [hF.constant y (File.mem_operands hj hyj) x (hoperand x hx) hid, hconst] at hyconst
      cases hyconst

/-- Linking the constants does not touch the graph. -/
theorem ModuleParsed.parsed (h : ModuleParsed F.module F.entryFunction u)
    (hlinks : Links F.constantAt u.constantValuesToBeCreated u t) (hF : F.Apart) : ∃ call, F.Parsed t call := by
  obtain ⟨call, hcall⟩ := h.entered
  have hnodes : t.nodes = u.nodes := by rw [hlinks.frame]; rfl
  have hcopy : t.copyMapping = u.copyMapping := by rw [hlinks.frame]; rfl
  have hfmap : t.fmap = u.fmap := by rw [hlinks.frame]; rfl
  have hentry : t.entryPointCfg = u.entryPointCfg := by rw [hlinks.frame]; rfl
  refine ⟨call, h.ok.congr hnodes hcopy hentry, fun f entry hf => ?_, ?_, fun b first hb i hi => ?_, fun a ha => ?_,
    fun vid handle hhandle => ?_, fun f hf hvalue => ?_⟩
  · obtain ⟨vid, first, hvid, hfunc, hfirst⟩ := h.registered f entry hf
    exact ⟨vid, first, (hlinks.functions f.id (hF.function f hf.1)).trans hvid, hfmap ▸ hfunc, hcopy ▸ hfirst⟩
  · exact hcall.keep hentry (fun n k hk => hnodes ▸ hk) (fun _ _ _ => by rw [hnodes])
      fun id hid => (hlinks.contains id).2 (Or.inl hid)
  · exact h.operands hlinks hF ⟨hb.1, hcopy ▸ hb.2⟩ hi
  · refine if_neg ?_
    rw [show t.constantValuesToBeCreated = u.constantValuesToBeCreated by rw [hlinks.frame]; rfl, List.any_eq_true]
    rintro ⟨x, hx, hid⟩
    obtain ⟨-, i, hi, hxi⟩ := h.gathered.constants x hx
    exact hF.argument x (File.mem_operands hi hxi) a ha (eq_of_beq hid).symm
  · obtain ⟨f, entry, first, hf, hfirst, rfl⟩ := h.handle (hfmap ▸ hhandle)
    exact ⟨f, entry, hf, by rw [nodeFor_start (hcopy ▸ hfirst)]⟩
  · rw [Std.TreeMap.contains_eq_isSome_getElem?, hlinks.functions f.id (hF.function f hf),
      ← Std.TreeMap.contains_eq_isSome_getElem?] at hvalue
    rcases h.gathered.keys f.id hvalue with ⟨f', entry, hf', hid⟩ | ⟨a, ha, hid⟩
    · rw [List.inj_on_of_nodup_map F.module.functions_nodup hf'.1 hf hid] at hf'
      exact ⟨entry, hf'⟩
    · exact absurd hid (hF.entry f hf a ha)

theorem parseWholeModule_parsed [DataLayout] {n : ℕ} (hs : vc.Prepared) (hF : F.Apart)
    (h : parseWholeModule F.constantAt F.module F.entryFunction n (.new vc) = .ok () t)
    (hempty : t.parseAndLinkTogether = []) : ∃ call, F.Parsed t call := by
  obtain ⟨u, hparse, -, hlinks⟩ := parseWholeModule_ok hs h
  have hempty' : u.parseAndLinkTogether = [] := by
    rw [hlinks.frame] at hempty
    exact hempty
  exact (parseModule_ok hparse hempty').parsed hlinks hF

end Parsed

/-! ## The node of an instruction -/

section Nodes

variable {F : File} {t : ParserState} {call : NodeId} {p : Module.Pos} {i : Instruction}

/-- An instruction that becomes a node is at the place of its node. -/
structure AtNode (F : File) (t : ParserState) (p : Module.Pos) (i : Instruction) (b : BasicBlock) (first : NodeId) :
    Prop where
  stands : Stands F.module t b first
  block : p.1 = b.id
  instruction : b.placed[p.2]? = some i
  mem : i ∈ b.instructions
  node : t.nodeFor p = first + p.2

theorem instructions_placed {b : BasicBlock} {k : ℕ} (hi : b.instructions[k]? = some i)
    (hplaced : i.isTerminator = false ∨ i.opcode.isPlaced = true) :
    b.placed[k]? = some i ∧ (i.isTerminator = true → k = b.body.length ∧ i = b.terminator) := by
  rcases Nat.lt_or_ge k b.body.length with hlt | hge
  · have hbody : b.body[k]? = some i := (List.getElem?_append_left hlt).symm.trans hi
    refine ⟨(List.getElem?_append_left hlt).trans hbody, fun hterm => ?_⟩
    rw [b.body_plain i (List.mem_of_getElem? hbody)] at hterm
    cases hterm
  · have hlast : [b.terminator][k - b.body.length]? = some i := (List.getElem?_append_right hge).symm.trans hi
    have hk : k - b.body.length = 0 := by
      have hlt := (List.getElem?_eq_some_iff.1 hlast).1
      rw [List.length_singleton] at hlt
      lia
    rw [hk] at hlast
    obtain rfl : b.terminator = i := Option.some.inj hlast
    have hterm : b.terminator.opcode.isPlaced = true := by
      rcases hplaced with hplain | hplaced
      · rw [b.terminator_ends] at hplain
        cases hplain
      · exact hplaced
    rw [(BasicBlock.instructions_of_placed hterm).1]
    exact ⟨hi, fun _ => ⟨by lia, rfl⟩⟩

theorem File.Parsed.atNode (h : F.Parsed t call) (hp : F.module.Reachable p.1)
    (hi : F.module.instructionAt p = some i) (hplaced : i.isTerminator = false ∨ i.opcode.isPlaced = true) :
    ∃ b first, AtNode F t p i b first ∧ (i.isTerminator = true → p.2 = b.body.length ∧ i = b.terminator) := by
  obtain ⟨first, hfirst⟩ := mapped_of_reachable h.ok h.registered hp
  obtain ⟨b, hb, hid⟩ := hp.block?
  unfold Module.instructionAt at hi
  rw [hb, Option.bind_some] at hi
  obtain ⟨hplace, hlast⟩ := instructions_placed hi hplaced
  have hst : Stands F.module t b first := ⟨by rw [hid]; exact hb, by rw [hid]; exact hfirst⟩
  refine ⟨b, first, ⟨hst, hid.symm, hplace, List.mem_of_getElem? hi, ?_⟩, hlast⟩
  have hnode : ∀ k, t.nodeOf (p.1, k) = first + k := by
    intro k
    unfold ParserState.nodeOf
    rw [hfirst]
    rfl
  unfold ParserState.nodeFor
  split
  · exact hnode p.2
  · have hlt := (List.getElem?_eq_some_iff.1 hplace).1
    rw [hnode, (h.ok.laid b first hst).next (p.2 - 1) (by lia)]
    show first + (p.2 - 1) + 1 = first + p.2
    lia

variable {b : BasicBlock} {first : NodeId}

/-- The node of the instruction, with its links. -/
theorem AtNode.node_eq (hat : AtNode F t p i b first) (h : F.Parsed t call) {op : Operation} {args : OperationArgs}
    (htranslate : translate i = .ok (.inner op args i i.hasBreakpoint)) : ∃ x, t.nodes[t.nodeFor p]? = some x ∧
      x.kind = .inner op args i i.hasBreakpoint ∧ ∀ k, x.target k = t.nodes.target (first + p.2) k := by
  obtain ⟨k, hk, hkind⟩ := (h.ok.laid b first hat.stands).kind p.2 i hat.instruction
  cases htranslate.symm.trans hk
  rw [hat.node]
  obtain ⟨x, hx, hxk⟩ := Option.map_eq_some_iff.1 hkind
  refine ⟨x, hx, hxk, fun k => ?_⟩
  unfold Cfg.target
  rw [hx]
  rfl

/-- Behind an instruction of the body comes the place of the next one. -/
theorem AtNode.next (hat : AtNode F t p i b first) (h : F.Parsed t call) (hplain : i.isTerminator = false) :
    t.nodes.target (first + p.2) 0 = some (t.nodeFor (p.1, p.2 + 1)) := by
  have hlaid := h.ok.laid b first hat.stands
  have hlt := (List.getElem?_eq_some_iff.1 hat.instruction).1
  have hnode : t.nodeOf (p.1, p.2) = first + p.2 := by
    unfold ParserState.nodeOf
    rw [hat.block, hat.stands.2]
    rfl
  obtain ⟨n, hn⟩ : ∃ n, t.nodes.target (first + p.2) 0 = some n := by
    rcases Nat.lt_or_ge (p.2 + 1) b.placed.length with hlt' | hge
    · exact ⟨_, hlaid.next p.2 hlt'⟩
    · have hfollowed : b.followed = [] := by
        by_contra hne
        have hlast := hat.instruction
        rw [b.placed_of_followed hne] at hlast hge
        rw [List.length_append, List.length_singleton] at hge
        rw [List.getElem?_append_right (by lia)] at hlast
        have heq := List.mem_singleton.1 (List.mem_of_getElem? hlast)
        rw [heq, b.terminator_ends] at hplain
        cases hplain
      obtain ⟨e, he, -⟩ := hlaid.last hfollowed p.2 (by lia)
      exact ⟨e, he⟩
  show _ = some ((t.nodes.target (t.nodeOf (p.1, p.2 + 1 - 1)) 0).getD 0)
  rw [Nat.add_sub_cancel, hnode, hn]
  rfl

/-- Behind a branch come the blocks it follows. -/
theorem AtNode.out (hat : AtNode F t p i b first) (h : F.Parsed t call)
    (hlast : p.2 = b.body.length ∧ i = b.terminator) {k : ℕ} {target : BlockId}
    (hk : i.opcode.followed[k]? = some target) :
    t.nodes.target (first + p.2) k = some (t.nodeFor (target, 0)) ∧ F.module.Reachable target := by
  obtain ⟨hp, rfl⟩ := hlast
  constructor
  · rcases (h.ok.laid b first hat.stands).out k target hk with ⟨f, hf, hout⟩ | hpending
    · rw [hp, hout, nodeFor_start hf]
    · cases hpending
  · exact (h.ok.mapped _ _ hat.stands.2).follow ⟨b, hat.stands.1, List.mem_of_getElem? hk⟩

end Nodes

/-! ## Simulation -/

section Simulation

variable {F : File} {t : ParserState} {call : NodeId}

theorem zip_take_length {α β : Type*} : ∀ (xs : List α) (ys : List β), xs.zip (ys.take xs.length) = xs.zip ys
  | [], _ => rfl
  | _ :: _, [] => rfl
  | x :: xs, y :: ys => congrArg ((x, y) :: ·) (zip_take_length xs ys)

/-- Nothing but the parameters has a datum, if a call has more operands. -/
theorem parameters_handle (f : Function) (first : NodeId) (data : List (Option Datum)) :
    Program.parameters (f.handle first).params (data.take f.args.length) = f.registers data := by
  funext id
  have hzip : (f.handle first).params.zip (data.take f.args.length) =
      (f.args.zip data).map (Prod.map (fun p => (⟨p.id, p.type⟩ : FrontendIdTypePair)) fun d => d) := by
    rw [← zip_take_length f.args data]
    exact List.zip_map_left ..
  unfold Program.parameters Function.registers
  rw [hzip, List.find?_map, Option.bind_map]
  rfl

theorem registers_none (f : Function) : f.registers (f.args.map fun _ => none) = fun _ => none := by
  funext id
  unfold Function.registers
  cases hfind : (f.args.zip (f.args.map fun _ => (none : Option Datum))).find? (·.1.id == id) with
  | none => rfl
  | some x =>
    obtain ⟨y, -, hy⟩ := List.mem_map.1 (List.of_mem_zip (List.mem_of_find?_eq_some hfind)).2
    exact hy.symm

/-- A defined function is where its handle says. -/
theorem File.Parsed.function (h : F.Parsed t call) {f : Function} {entry : BasicBlock} (hf : F.module.Defines f entry) :
    ∃ vid, t.mapper[f.id]? = some vid ∧ t.fmap[vid]? = some (f.handle (t.nodeFor (entry.id, 0))) ∧
      F.module.Reachable entry.id := by
  obtain ⟨vid, first, hvid, hfunc, hfirst⟩ := h.registered f entry hf
  exact ⟨vid, hvid, by rw [nodeFor_start hfirst]; exact hfunc, f, entry, hf, .refl⟩

variable [DataLayout] {c c' : ModuleMachine} {p : Module.Pos} {i : Instruction}

/-- `main` is called, and nothing is known of its arguments. -/
theorem simulates_main (h : F.Parsed t call) (hc : c.place = .entry) {f : Function} {entry : BasicBlock}
    (hmain : F.module.getFunction "main" = some f) (hentry : f.blocks.head? = some entry) :
    (F.program t).Moves (c.image t call) (ModuleMachine.image t call ⟨.instruction (entry.id, 0), { c.store with
      registers := fun _ => none
      calls := ⟨c.store.registers, 0, .fin⟩ :: c.store.calls }⟩) := by
  obtain ⟨f', args, hf', -, hargs, hkind⟩ := h.entered.main
  cases hf'.symm.trans hmain
  obtain ⟨vid, hvid, hfunc, -⟩ := h.function ⟨getFunction_mem hmain, hentry⟩
  obtain ⟨x, hx, hxk⟩ := Option.map_eq_some_iff.1 hkind
  have hnext := h.entered.node_next hx
  have hpasses : (F.program t).Passes (OperArg.empty :: .idTypePair ⟨f.id, .ptr .func⟩ :: args) (c.image t call).store
      (f.handle (t.nodeFor (entry.id, 0))).params ((f.args.map fun _ => none).take f.args.length) := by
    refine ⟨by simp [Function.handle], fun k d hk => ?_⟩
    rw [List.take_of_length_le (List.length_map _).le] at hk
    have hlt : k < args.length := by
      have hk' := (List.getElem?_eq_some_iff.1 hk).1
      rwa [List.length_map, ← hargs.length] at hk'
    obtain ⟨-, -, rfl⟩ := List.mem_map.1 (List.mem_of_getElem? hk)
    obtain ⟨a, ha, heq, hglobal⟩ := hargs.value args[k] (List.getElem_mem hlt)
    refine ⟨a, ?_, ?_⟩
    · have harg : (OperArg.empty :: .idTypePair ⟨f.id, .ptr .func⟩ :: args)[k + 2]? = some (.idTypePair a) := by
        rw [← heq]
        exact List.getElem?_eq_getElem hlt
      unfold OperationArgs.getOperand OperationArgs.memberAt
      rw [harg]
      rfl
    · exact (if_pos hglobal).trans (h.arguments a ha)
  have hmoves := Program.Moves.call (m := c.image t call) (by rw [ModuleMachine.image, hc]; exact hx) hxk rfl hvid hfunc
    hpasses rfl hnext
  rw [parameters_handle, registers_none] at hmoves
  exact hmoves

/-- An instruction of the body becomes a node that leads to the next one. -/
theorem File.Parsed.body (h : F.Parsed t call) (hc : F.At c p i) (hin : F.module.Reachable p.1)
    (hplain : i.isTerminator = false) : SameOperands F (F.program t) i ∧ ∀ {op : Operation} {args : OperationArgs},
      translate i = .ok (.inner op args i i.hasBreakpoint) → ∃ x, t.nodes[(c.image t call).node]? = some x ∧
        x.kind = .inner op args i i.hasBreakpoint ∧ x.next = some (t.nodeFor (p.1, p.2 + 1)) := by
  obtain ⟨b, first, hat, -⟩ := h.atNode hin hc.2 (Or.inl hplain)
  refine ⟨h.operands b first hat.stands i hat.mem, fun htranslate => ?_⟩
  obtain ⟨x, hx, hxk, hlinks⟩ := hat.node_eq h htranslate
  exact ⟨x, by rw [ModuleMachine.image, hc.1]; exact hx, hxk, (hlinks 0).trans (hat.next h hplain)⟩

theorem simulates_call (h : F.Parsed t call) (hc : F.At c p i) (hin : F.module.Reachable p.1) {f : Function}
    {name : String} {entry : BasicBlock} (hopc : i.opcode = .call (.function f.id name false))
    (hname : isReserved name = false) (hf : F.module.Defines f entry) (hlength : f.args.length ≤ i.operands.length) :
    (F.program t).Moves (c.image t call) ((F.enter c p i f entry).image t call) := by
  have hplain : i.isTerminator = false := by rw [Instruction.isTerminator, hopc]; rfl
  obtain ⟨hsame, hnode⟩ := h.body hc hin hplain
  obtain ⟨x, hx, hxk, hnext⟩ := hnode (translate_opcode hopc (operationForCall_program hname) rfl)
  obtain ⟨vid, hvid, hfunc, -⟩ := h.function hf
  obtain ⟨target, htarget, hid, -⟩ := getTarget_exists i (.idTypePair ⟨f.id, .ptr .func⟩)
  have hpasses : (F.program t).Passes (i.args (.idTypePair ⟨f.id, .ptr .func⟩)) (c.image t call).store
      (f.handle (t.nodeFor (entry.id, 0))).params ((i.operands.map (F.value c.store)).take f.args.length) := by
    refine ⟨by simp [Function.handle, hlength], fun k d hk => ?_⟩
    obtain ⟨y, hy, rfl⟩ : ∃ y, i.operands[k]? = some y ∧ F.value c.store y = d := by
      rw [List.getElem?_take] at hk
      split at hk
      · rw [List.getElem?_map] at hk
        exact Option.map_eq_some_iff.1 hk
      · cases hk
    exact ⟨_, getOperand_args hy, hsame.operand hy rfl _⟩
  have hmoves := Program.Moves.call hx hxk rfl hvid hfunc hpasses htarget hnext
  rw [parameters_handle, hid] at hmoves
  exact hmoves

/-- The node of a branch or a return, which leads to the places of its blocks. -/
theorem File.Parsed.terminator (h : F.Parsed t call) (hc : F.At c p i) (hin : F.module.Reachable p.1)
    (hplaced : i.opcode.isPlaced = true) {op : Operation} {args : OperationArgs}
    (htranslate : translate i = .ok (.inner op args i i.hasBreakpoint)) :
    SameOperands F (F.program t) i ∧ ∃ x, t.nodes[(c.image t call).node]? = some x ∧
      x.kind = .inner op args i i.hasBreakpoint ∧ ∀ (k : ℕ) (target : BlockId), i.opcode.followed[k]? = some target →
        x.target k = some (t.nodeFor (target, 0)) ∧ F.module.Reachable target := by
  obtain ⟨b, first, hat, hlast⟩ := h.atNode hin hc.2 (Or.inr hplaced)
  have hterm : i.isTerminator = true := by
    unfold Instruction.isTerminator
    cases hopc : i.opcode <;> rw [hopc] at hplaced <;> first | rfl | cases hplaced
  obtain ⟨x, hx, hxk, hlinks⟩ := hat.node_eq h htranslate
  refine ⟨h.operands b first hat.stands i hat.mem, x, by rw [ModuleMachine.image, hc.1]; exact hx, hxk,
    fun k target htarget => ?_⟩
  rw [hlinks]
  exact hat.out h (hlast hterm) htarget

theorem simulates_ret (h : F.Parsed t call) (hc : F.At c p i) (hin : F.module.Reachable p.1) (hopc : i.opcode = .ret)
    {x : Llvm.Value} {frame : Activation Place} {calls : List (Activation Place)} (hops : i.operands = [x])
    (hcalls : c.store.calls = frame :: calls) :
    (F.program t).Moves (c.image t call) (ModuleMachine.image t call ⟨frame.back, { c.store with
      registers := Function.update frame.registers frame.target (F.value c.store x)
      calls := calls }⟩) := by
  have hlength : 2 < (i.args OperArg.empty).length := by
    rw [Instruction.args, hops]
    exact Nat.lt_succ_self 2
  obtain ⟨hsame, y, hy, hyk, -⟩ := h.terminator hc hin (by rw [hopc]; rfl) (translate_opcode hopc rfl rfl)
  have hmoves := Program.Moves.ret (P := F.program t) (m := c.image t call) hy hyk (congrArg (List.map _) hcalls) hlength
    (getOperand_first hops)
  rw [show (F.program t).value (c.image t call).store ⟨x.id, x.type⟩ = F.value c.store x from
    hsame.first hops rfl (t.place call)] at hmoves
  exact hmoves

theorem simulates_retVoid (h : F.Parsed t call) (hc : F.At c p i) (hin : F.module.Reachable p.1) (hopc : i.opcode = .ret)
    {frame : Activation Place} {calls : List (Activation Place)} (hops : i.operands = [])
    (hcalls : c.store.calls = frame :: calls) :
    (F.program t).Moves (c.image t call) (ModuleMachine.image t call ⟨frame.back, { c.store with
      registers := frame.registers
      calls := calls }⟩) := by
  have hlength : ¬ 2 < (i.args OperArg.empty).length := by
    rw [Instruction.args, hops]
    exact Nat.lt_irrefl 2
  obtain ⟨-, y, hy, hyk, -⟩ := h.terminator hc hin (by rw [hopc]; rfl) (translate_opcode hopc rfl rfl)
  exact Program.Moves.retVoid (m := c.image t call) hy hyk (congrArg (List.map _) hcalls) hlength

theorem ModuleMachine.Inside.reachable (hc : c.Inside F.module) (hat : F.At c p i) : F.module.Reachable p.1 := by
  have hplace := hc.place
  rw [hat.1] at hplace
  exact hplace

/-- **A move of the module is a move of its nodes**, and leads into a block that can be reached. -/
theorem simulates (h : F.Parsed t call) (hc : c.Inside F.module) (hm : F.Moves c c') :
    (F.program t).Moves (c.image t call) (c'.image t call) ∧ c'.Inside F.module := by
  cases hm with
  | main hentry hmain hhead =>
    obtain ⟨-, -, -, hreach⟩ := h.function ⟨getFunction_mem hmain, hhead⟩
    exact ⟨simulates_main h hentry hmain hhead, hreach, List.forall_mem_cons.2 ⟨trivial, hc.calls⟩⟩
  | @next p i st hat hdoes =>
    have hp := hc.reachable hat
    obtain ⟨hsame, hnode⟩ := h.body hat hp (does_body hdoes)
    obtain ⟨op, args, htranslate, hdoes'⟩ := does_translated hsame hdoes (t.place call)
    obtain ⟨x, hx, hxk, hnext⟩ := hnode htranslate
    exact ⟨.basic hx hxk hnext hdoes', hp, fun frame hframe => hc.calls frame (does_calls hdoes ▸ hframe)⟩
  | br hat hopc =>
    obtain ⟨-, x, hx, hxk, hlinks⟩ :=
      h.terminator hat (hc.reachable hat) (by rw [hopc]; rfl) (translate_opcode hopc rfl rfl)
    obtain ⟨hnext, hreach⟩ := hlinks 0 _ (by rw [hopc]; rfl)
    exact ⟨.basic hx hxk hnext .noop, hreach, hc.calls⟩
  | @condBr p i ifTrue ifFalse x labels b hat hopc hops hb =>
    obtain ⟨hsame, y, hy, hyk, hlinks⟩ :=
      h.terminator hat (hc.reachable hat) (by rw [hopc]; rfl) (translate_opcode hopc rfl rfl)
    obtain ⟨htrue, hreachTrue⟩ := hlinks 0 ifTrue (by rw [hopc]; rfl)
    obtain ⟨hfalse, hreachFalse⟩ := hlinks 1 ifFalse (by rw [hopc]; rfl)
    refine ⟨.branch hy hyk (getOperand_first hops) (hsame.first hops hb _) ?_, ?_, hc.calls⟩
    · split
      · exact htrue
      · exact hfalse
    · show F.module.Reachable (if b = 1 then ifTrue else ifFalse)
      split
      · exact hreachTrue
      · exact hreachFalse
  | call hat hopc hname hf hlength =>
    have hp := hc.reachable hat
    obtain ⟨-, -, -, hreach⟩ := h.function hf
    exact ⟨simulates_call h hat hp hopc hname hf hlength, hreach, List.forall_mem_cons.2 ⟨hp, hc.calls⟩⟩
  | @ret p i x frame calls hat hopc hops hcalls =>
    obtain ⟨hback, hrest⟩ := List.forall_mem_cons.1 (hcalls ▸ hc.calls)
    exact ⟨simulates_ret h hat (hc.reachable hat) hopc hops hcalls, hback, hrest⟩
  | @retVoid p i frame calls hat hopc hops hcalls =>
    obtain ⟨hback, hrest⟩ := List.forall_mem_cons.1 (hcalls ▸ hc.calls)
    exact ⟨simulates_retVoid h hat (hc.reachable hat) hopc hops hcalls, hback, hrest⟩

/-- Where the language goes on otherwise, it does so at the node. -/
theorem simulates_departs (h : F.Parsed t call) (hc : c.Inside F.module) (hm : F.Departs c c') :
    (F.program t).Departs (c.image t call) (c'.image t call) ∧ c'.Inside F.module := by
  cases hm with
  | @next p i st hat hdiffers =>
    have hp := hc.reachable hat
    obtain ⟨hsame, hnode⟩ := h.body hat hp (differs_body hdiffers)
    obtain ⟨op, args, htranslate, hdiffers'⟩ := differs_translated hsame hdiffers (t.place call)
    obtain ⟨x, hx, hxk, hnext⟩ := hnode htranslate
    exact ⟨.basic hx hxk hnext hdiffers', hp, fun frame hframe => hc.calls frame (differs_calls hdiffers ▸ hframe)⟩
  | @condBr p i ifTrue ifFalse x labels target hat hopc hops hnone htarget =>
    obtain ⟨hsame, y, hy, hyk, hlinks⟩ :=
      h.terminator hat (hc.reachable hat) (by rw [hopc]; rfl) (translate_opcode hopc rfl rfl)
    have hbranch : y.next = some (t.nodeFor (target, 0)) ∨ y.nextFalse = some (t.nodeFor (target, 0)) →
        (F.program t).Departs (c.image t call) (ModuleMachine.image t call ⟨.instruction (target, 0), c.store⟩) :=
      .branch hy hyk (getOperand_first hops) (hsame.first hops hnone _)
    rcases htarget with rfl | rfl
    · obtain ⟨htrue, hreach⟩ := hlinks 0 target (by rw [hopc]; rfl)
      exact ⟨hbranch (Or.inl htrue), hreach, hc.calls⟩
    · obtain ⟨hfalse, hreach⟩ := hlinks 1 target (by rw [hopc]; rfl)
      exact ⟨hbranch (Or.inr hfalse), hreach, hc.calls⟩
  | @callOutside p i f name st hat hopc hname hf hdeclared hcalls =>
    have hp := hc.reachable hat
    obtain ⟨-, hnode⟩ := h.body hat hp (plain_opcode hopc rfl)
    obtain ⟨x, hx, hxk, hnext⟩ := hnode (translate_opcode hopc (operationForCall_program hname) rfl)
    refine ⟨.callOutside hx hxk rfl (fun vid hvid => ?_) hnext (congrArg (List.map _) hcalls), hp,
      fun frame hframe => hc.calls frame (hcalls ▸ hframe)⟩
    -- only what has a body was given a value
    have hvid : t.mapper[f.id]? = some vid := hvid
    obtain ⟨entry, -, hentry⟩ := h.valued f hf (by rw [Std.TreeMap.contains_eq_isSome_getElem?, hvid]; rfl)
    rw [(Function.isDeclaration_iff f).1 hdeclared] at hentry
    cases hentry

theorem simulates_fails (h : F.Parsed t call) (hc : c.Inside F.module) (hfails : F.Fails c) :
    (F.program t).Fails (c.image t call) := by
  obtain ⟨p, i, hat, hdoes⟩ := hfails
  obtain ⟨hsame, hnode⟩ := h.body hat (hc.reachable hat) (does_body hdoes)
  obtain ⟨op, args, htranslate, hdoes'⟩ := does_translated hsame hdoes (t.place call)
  obtain ⟨x, hx, hxk, -⟩ := hnode htranslate
  exact ⟨x, op, args, _, _, hx, hxk, hdoes'⟩

theorem start_inside (m : Module) : ModuleMachine.start.Inside m := ⟨trivial, nofun⟩

/-- A run of the module is inside, up to where control goes behind what has no node that leads there. -/
theorem run_inside (h : F.Parsed t call) {cs : List ModuleMachine} (hrun : F.Run .start cs) :
    (List.IsChain (fun x y => F.Moves x y ∨ F.Departs x y) (.start :: cs) ∧ ∀ c ∈ .start :: cs, c.Inside F.module) ∨
      ∃ c c', [c, c'] <:+: .start :: cs ∧ F.Drops c c' ∧ ¬ (F.Moves c c' ∨ F.Departs c c') :=
  stays_inside (fun _ _ hin hm => hm.elim (fun hm => (simulates h hin hm).2) fun hm => (simulates_departs h hin hm).2)
    cs (start_inside _) (hrun.imp fun _ _ => or_assoc.2)

/-- A run that the interpreter follows, it follows in the nodes. -/
theorem follows_run (h : F.Parsed t call) {cs : List ModuleMachine} (hrun : List.IsChain F.Moves (.start :: cs)) :
    List.IsChain (F.program t).Moves (Machine.start call :: cs.map (·.image t call)) ∧
      ∀ c ∈ .start :: cs, c.Inside F.module := by
  have hkeeps : ∀ x y : ModuleMachine, x.Inside F.module → F.Moves x y → y.Inside F.module :=
    fun _ _ hin hm => (simulates h hin hm).2
  have hrun : List.IsChain (fun x y => F.Moves x y ∨ False) (.start :: cs) := hrun.imp fun _ _ => Or.inl
  rcases stays_inside hkeeps cs (start_inside F.module) hrun with ⟨hrun, hinside⟩ | ⟨_, _, -, hfalse, -⟩
  · refine ⟨(List.isChain_map (·.image t call)).2 (hrun.imp_of_mem_imp fun c _ hc _ hm => ?_), hinside⟩
    exact (simulates h (hinside c hc) hm).1
  · exact hfalse.elim

end Simulation

section Modules

variable [DataLayout] {F : File} {s : VcState} {t : ParserState}

/-- **The parser preserves what a module means.** Over whichever container `ParseModule` runs to its end, the entry is
set, and every run of the machine of the module is one of the nodes from there, up to where control goes behind what has
no node that leads there. What the interpreter follows in the module it follows in the nodes, where the language goes on
otherwise it does so at the nodes, and where the module fails the nodes do. -/
theorem parseWholeModule_simulates {n : ℕ} (hs : FilesLeave s) (hF : F.Apart)
    (h : parseWholeModule F.constantAt F.module F.entryFunction n (.new s) = .ok () t)
    (hempty : t.parseAndLinkTogether = []) : ∃ call, t.entryPointCfg = some call ∧ ∀ cs, F.Run .start cs →
      ((F.program t).Run (Machine.start call) (cs.map (·.image t call)) ∧
        (∀ c c', [c, c'] <:+: .start :: cs →
          (F.Moves c c' → (F.program t).Moves (c.image t call) (c'.image t call)) ∧
            (F.Departs c c' → (F.program t).Departs (c.image t call) (c'.image t call))) ∧
        ∀ c ∈ .start :: cs, F.Fails c → (F.program t).Fails (c.image t call)) ∨
      ∃ c c', [c, c'] <:+: .start :: cs ∧ F.Drops c c' ∧ ¬ (F.Moves c c' ∨ F.Departs c c') := by
  obtain ⟨call, hparsed⟩ := parseWholeModule_parsed (prepared_files hs) hF h hempty
  refine ⟨call, hparsed.entered.entry, fun cs hcs => ?_⟩
  rcases run_inside hparsed hcs with ⟨hrun, hinside⟩ | hdrops
  · refine Or.inl ⟨?_, fun c c' hstep => ?_, fun c hc => simulates_fails hparsed (hinside c hc)⟩
    · refine (List.isChain_map (·.image t call)).2 (hrun.imp_of_mem_imp fun x y hx _ hm => ?_)
      exact hm.imp (fun hm => (simulates hparsed (hinside x hx) hm).1)
        fun hm => (simulates_departs hparsed (hinside x hx) hm).1
    · have hin := hinside c (hstep.subset List.mem_cons_self)
      exact ⟨fun hm => (simulates hparsed hin hm).1, fun hm => (simulates_departs hparsed hin hm).1⟩
  · exact Or.inr hdrops

end Modules

/-! ### An example -/

section Example

attribute [local instance] Ty.x86

/-- The function `main` stores an unknown number and one in a block that it has allocated, frees the block if this comes
to five, and reads from it. -/
def freedFile : File where
  module :=
    { functions :=
        [{ id := 100
           name := "main"
           args := []
           blocks :=
            [⟨1,
                [⟨10, .ptr (.int 8), .call (.function 101 "malloc" false), [⟨90, .int 64, true⟩], false⟩,
                  ⟨11, .ptr (.int 32), .cast .bitCast, [⟨10, .ptr (.int 8), false⟩], false⟩,
                  ⟨12, .int 32, .call (.function 103 "__ANGIE_CREATE_UNKNOWN_INT" false), [], false⟩,
                  ⟨13, .int 32, .binary .add true false false, [⟨12, .int 32, false⟩, ⟨91, .int 32, true⟩], false⟩,
                  ⟨14, .void, .store, [⟨13, .int 32, false⟩, ⟨11, .ptr (.int 32), false⟩], false⟩,
                  ⟨15, .int 1, .iCmp .eq, [⟨13, .int 32, false⟩, ⟨92, .int 32, true⟩], false⟩],
                ⟨16, .void, .condBr 2 3, [⟨15, .int 1, false⟩], false⟩, by decide, rfl⟩,
              ⟨2, [⟨17, .void, .call (.function 102 "free" false), [⟨10, .ptr (.int 8), false⟩], false⟩],
                ⟨18, .void, .br 3, [], false⟩, by decide, rfl⟩,
              ⟨3, [⟨19, .int 32, .load, [⟨11, .ptr (.int 32), false⟩], false⟩],
                ⟨20, .void, .ret, [⟨19, .int 32, false⟩], false⟩, by decide, rfl⟩]
           args_nodup := List.nodup_nil },
          ⟨101, "malloc", [⟨30, .int 64⟩], [], by decide⟩, ⟨102, "free", [⟨31, .ptr (.int 8)⟩], [], by decide⟩,
          ⟨103, "__ANGIE_CREATE_UNKNOWN_INT", [], [], List.nodup_nil⟩]
      functions_nodup := by decide
      blocks_nodup := by decide
      closed := by decide }
  constantAt id :=
    if id = 90 then .int ⟨64, 4⟩ else if id = 91 then .int ⟨32, 1⟩ else if id = 92 then .int ⟨32, 5⟩ else .function
  entryFunction :=
    { argc := 80
      argv := 81
      mainCall := ⟨82, .int 32, .call (.function 100 "main" false), [], false⟩
      finCall := ⟨83, .void, .call (.function 84 "__ANGIE_fin" false), [], false⟩ }

def freedStart : VcState := final (createConstIntVals [7] (VcState.new {}))

def freedParsed : ParserState :=
  final (parseWholeModule freedFile.constantAt freedFile.module freedFile.entryFunction 9 (.new freedStart))

theorem freedStart_leaves : FilesLeave freedStart := by
  have hrun : createConstIntVals [7] (VcState.new {}) = .ok () freedStart := ok_final (by decide +kernel)
  exact .constants hrun

theorem freedFile_apart : freedFile.Apart where
  function := by
    intro f hf
    have hid : f.id = 100 ∨ f.id = 101 ∨ f.id = 102 ∨ f.id = 103 := by
      have hids : f.id ∈ freedFile.module.functions.map (·.id) := List.mem_map_of_mem hf
      simpa [freedFile] using hids
    rcases hid with hid | hid | hid | hid <;> rw [hid] <;> rfl
  constant := by decide +kernel
  register := by decide +kernel
  argument := by decide +kernel
  entry := by decide +kernel

theorem freedFile_parsed : parseWholeModule freedFile.constantAt freedFile.module freedFile.entryFunction 9
    (.new freedStart) = .ok () freedParsed := ok_final (by decide +kernel)

theorem freedFile_linked : freedParsed.parseAndLinkTogether = [] := by decide +kernel

/-- A block of the heap for a number. -/
def freedBlock : Block where
  shape :=
    { size := 4
      field := fun f => if f = 0 then some (.int .dword) else none
      within := by
        intro f k hk
        split at hk
        · subst f
          cases hk
          decide
        · cases hk
      apart := by
        intro f g k l hne hk hl
        split at hk
        · split at hl
          · subst f g
            exact absurd rfl hne
          · cases hl
        · cases hk }
  space := .heap
  freed := false
  contents := fun _ => .int .dword 0
  typed := by
    intro f k hk
    simp only at hk
    split at hk
    · cases hk
      rfl
    · cases hk

theorem freedBlock_new : freedBlock.IsNew 4 .heap where
  size := rfl
  space := rfl
  freed := rfl
  unset := by
    intro f hf
    simp only [freedBlock] at hf
    split at hf <;> cases hf

/-- A run where the unknown number is four, up to the access to the freed block. -/
def freedRun : List ModuleMachine :=
  let st₀ : StoreOver Place := ⟨fun _ => none, [⟨fun _ => none, 0, .fin⟩], [], 0⟩
  let st₁ := st₀.allocate freedBlock ⟨10, .ptr (.int 8)⟩
  let st₂ := st₁.assign ⟨11, .ptr (.int 32)⟩ (.ptr 0 0 0)
  let st₃ := st₂.assign ⟨12, .int 32⟩ (.int .dword 4)
  let st₄ := st₃.assign ⟨13, .int 32⟩ (.int .dword 5)
  let st₅ := st₄.setBlock 0 (freedBlock.write 0 (.int .dword 5) rfl)
  let st₆ := st₅.assign ⟨15, .int 1⟩ (.int .bit 1)
  let st₇ := st₆.setBlock 0 (freedBlock.write 0 (.int .dword 5) rfl).free
  [⟨.instruction (1, 0), st₀⟩, ⟨.instruction (1, 1), st₁⟩, ⟨.instruction (1, 2), st₂⟩, ⟨.instruction (1, 3), st₃⟩,
    ⟨.instruction (1, 4), st₄⟩, ⟨.instruction (1, 5), st₅⟩, ⟨.instruction (1, 6), st₆⟩, ⟨.instruction (2, 0), st₆⟩,
    ⟨.instruction (2, 1), st₇⟩, ⟨.instruction (3, 0), st₇⟩]

theorem freedRun_moves : List.IsChain freedFile.Moves (.start :: freedRun) := by
  have hlibrary {i : Instruction} {id : FrontendId} {name : String} (hid : id = 101 ∨ id = 102 ∨ id = 103)
      (hopc : i.opcode = .call (.function id name false)) : freedFile.CallsLibrary i name := by
    refine ⟨id, hopc, ?_⟩
    rcases hid with rfl | rfl | rfl <;> decide
  have hat {p : Module.Pos} {st : StoreOver Place} {i : Instruction} (h : freedFile.module.instructionAt p = some i) :
      freedFile.At ⟨.instruction p, st⟩ p i := ⟨rfl, h⟩
  have hmain : freedFile.Moves .start _ := .main (c := .start) rfl rfl rfl
  have hmalloc := hlibrary (i := ⟨10, .ptr (.int 8), .call (.function 101 "malloc" false), [⟨90, .int 64, true⟩], false⟩)
    (Or.inl rfl) rfl
  have hunknown := hlibrary (i := ⟨12, .int 32, .call (.function 103 "__ANGIE_CREATE_UNKNOWN_INT" false), [], false⟩)
    (Or.inr (Or.inr rfl)) rfl
  have hfree := hlibrary (i := ⟨17, .void, .call (.function 102 "free" false), [⟨10, .ptr (.int 8), false⟩], false⟩)
    (Or.inr (Or.inl rfl)) rfl
  refine .cons_cons hmain ?_
  refine .cons_cons (.next (hat rfl) (.malloc (n := 4) (w := ⟨64, by decide, by decide⟩) hmalloc rfl rfl rfl
    freedBlock_new)) ?_
  refine .cons_cons (.next (hat rfl) (.bitCast rfl rfl rfl rfl rfl)) ?_
  refine .cons_cons (.next (hat rfl) (.createUnknown (k := .int .dword) hunknown (by decide +kernel) rfl rfl nofun)) ?_
  refine .cons_cons (.next (hat rfl) (.binary (w := .dword) (a := 4) (b := 1) rfl rfl rfl rfl rfl rfl nofun rfl)) ?_
  refine .cons_cons (.next (hat rfl) (.store rfl rfl rfl rfl rfl rfl rfl rfl)) ?_
  refine .cons_cons (.next (hat rfl) (.iCmp (p := .eq) (w := .dword) (a := 5) (b := 5) rfl rfl rfl rfl rfl rfl)) ?_
  refine .cons_cons (.condBr (b := 1) (hat rfl) rfl rfl rfl) ?_
  refine .cons_cons (.next (hat rfl) (.free hfree rfl rfl rfl rfl rfl)) ?_
  exact .cons_cons (.br (hat rfl) rfl) (.singleton _)

theorem freedRun_fails : freedFile.Fails ((ModuleMachine.start :: freedRun).getLast (List.cons_ne_nil _ _)) :=
  ⟨(3, 0), ⟨19, .int 32, .load, [⟨11, .ptr (.int 32), false⟩], false⟩, ⟨rfl, rfl⟩,
    .loadInvalid (d := .ptr 0 0 0) rfl rfl rfl ⟨_, rfl, rfl⟩⟩

/-- The nodes run there as well, and fail. -/
theorem parseWholeModule_simulates_freed : ∃ call, freedParsed.entryPointCfg = some call ∧
    (freedFile.program freedParsed).Run (Machine.start call) (freedRun.map (·.image freedParsed call)) ∧
    ∃ c ∈ freedRun, (freedFile.program freedParsed).Fails (c.image freedParsed call) := by
  obtain ⟨call, hentry, hsimulates⟩ := parseWholeModule_simulates freedStart_leaves freedFile_apart freedFile_parsed
    freedFile_linked
  refine ⟨call, hentry, ?_⟩
  rcases hsimulates freedRun (freedRun_moves.imp fun _ _ => Or.inl) with ⟨hrun, -, hfails⟩ | ⟨c, c', hstep, -, hnot⟩
  · have hlast : freedRun.getLast nofun ∈ freedRun := List.getLast_mem _
    exact ⟨hrun, _, hlast, hfails _ (List.mem_cons_of_mem _ hlast) freedRun_fails⟩
  · exact absurd (Or.inl (step_of_run freedRun_moves hstep)) hnot

end Example

end Angie
