import Angie.Frontend.Faithful
import Angie.Interp.Refusals

/-!
# Control transfers that are dropped

The graph keeps the control transfer of a block (`Transferred`) when the end of the block leads to the first node of
every successor or raises `NotSupportedException` whenever it is executed. `transferred_iff`: the parser keeps it for
branches and where there are no successors, but a `switch`, an `invoke` or any other terminator with successors becomes
no node, so that the end of its block leads to a terminal node, unless the last instruction before happens to be one
that is not supported.
-/

namespace Angie

open Exec Llvm Relation

/-- The terminator is a return or a branch, has no successors, or stands behind an instruction that is not supported. -/
def Llvm.BasicBlock.Kept (b : BasicBlock) : Prop :=
  b.terminator.opcode.isPlaced = true ∨ b.terminator.successors = [] ∨
    ∃ i, b.body.getLast? = some i ∧ getOperationFor i = .ok .notSupportedInstr

namespace ParserState

variable (s : ParserState)

/-- The last node of a block, the terminal one of a block without any. -/
def endOf (b : BasicBlock) : NodeId := s.nodeOf (b.id, b.placed.length - 1)

/-- Executing the node raises `NotSupportedException`, whatever the mapping has. -/
def Raises [DataLayout] (n : NodeId) : Prop := ∀ mapping, (Context.mk s.nodes mapping s.fmap).Raises n

end ParserState

/-- The graph has the control transfer of the block. -/
structure Transferred [DataLayout] (s : ParserState) (b : BasicBlock) : Prop where
  /-- There is an edge to the first node of every successor, or else a node that raises. -/
  handled : (∀ t ∈ b.terminator.successors, ∃ (f : NodeId), s.copyMapping[t]? = some f ∧ f ∈ s.succs (s.endOf b)) ∨
    s.Raises (s.endOf b)
  /-- A path that goes on does not end at a terminal node without an exception. -/
  loud : b.terminator.successors ≠ [] → ¬ s.nodes.Terminal (s.endOf b) ∧
    ∀ e ∈ s.succs (s.endOf b), s.nodes.Terminal e →
      (∃ t ∈ b.terminator.successors, s.copyMapping[t]? = some e) ∨ s.Raises (s.endOf b)

/-! ## The end of a block -/

section Ends

variable {m : Module} {s : ParserState} {b : BasicBlock} {first : NodeId}

theorem mem_succs {n e : NodeId} : e ∈ s.succs n ↔ s.nodes.target n 0 = some e ∨ s.nodes.target n 1 = some e := by
  unfold ParserState.succs
  simp [Option.mem_toList, eq_comm]

theorem endOf_eq (hst : Stands m s b first) : s.endOf b = first + (b.placed.length - 1) := by
  unfold ParserState.endOf ParserState.nodeOf
  rw [hst.2]
  rfl

/-- A node that is there raises when nothing is implemented for it. -/
theorem raises_kind [DataLayout] {n : NodeId} {k : NodeKind} (hk : s.nodes.kindAt n = some k) :
    s.Raises n ↔ k.isNotSupported = true := by
  unfold Cfg.kindAt at hk
  obtain ⟨node, hn, rfl⟩ := Option.map_eq_some_iff.1 hk
  exact raises_iff hn

theorem operationForCall_supported {name : String} {isIntrinsic : Bool} {op : Operation}
    (h : operationForCall name isIntrinsic = .ok op) : op.isNotSupported = false := by
  unfold operationForCall at h
  repeat' split at h
  all_goals cases h
  all_goals rfl

/-- Of the instructions before a terminator, those with one operation are not supported. -/
theorem getOperationFor_notSupported {i : Instruction} (hplain : i.isTerminator = false) {op : Operation}
    (h : getOperationFor i = .ok op) (hop : op.isNotSupported = true) : op = .notSupportedInstr := by
  unfold getOperationFor at h
  unfold Instruction.isTerminator at hplain
  cases hopc : i.opcode with
  | call callee =>
    rw [hopc] at h
    cases callee with
    | function id name isIntrinsic =>
      rw [operationForCall_supported h] at hop
      cases hop
    | value id type => cases h; cases hop
  | invoke targets => rw [hopc] at hplain; cases hplain
  | _ => rw [hopc] at h; cases h; first | rfl | cases hop

theorem translate_notSupported {i : Instruction} (hplain : i.isTerminator = false) {k : NodeKind}
    (h : translate i = .ok k) : k.isNotSupported = true ↔ getOperationFor i = .ok .notSupportedInstr := by
  cases hop : getOperationFor i with
  | error e => rw [translate_error (.inl hop)] at h; cases h
  | ok op =>
    cases hargs : operArgsFor i with
    | error e => rw [translate_error (.inr ⟨⟨op, hop⟩, hargs⟩)] at h; cases h
    | ok args =>
      rw [translate_plain hplain hop hargs] at h
      cases h
      constructor
      · intro hk
        rw [getOperationFor_notSupported hplain hop hk]
      · rintro ⟨⟩
        rfl

/-- The end of a block whose terminator is a branch leads to its successors, that of a return to none. -/
theorem transferred_of_placed [DataLayout] (h : ParserOk m [] s) (hst : Stands m s b first)
    (hp : b.terminator.opcode.isPlaced = true) : Transferred s b := by
  obtain ⟨hplaced, hfollowed⟩ := BasicBlock.instructions_of_placed hp
  have hlaid := h.laid b first hst
  have hlen : b.placed.length = b.body.length + 1 := by
    rw [hplaced]
    simp [BasicBlock.instructions]
  have hend : s.endOf b = first + b.body.length := by
    rw [endOf_eq hst, hlen, Nat.add_sub_cancel]
  have hout : ∀ {i : ℕ} {t : BlockId}, b.terminator.successors[i]? = some t →
      ∃ (f : NodeId), s.copyMapping[t]? = some f ∧ s.nodes.target (s.endOf b) i = some f := fun {i t} hi => by
    rw [hend]
    rcases hlaid.out i t (by rw [hfollowed]; exact hi) with hf | hpend
    · exact hf
    · cases hpend
  have hcount := b.followed_length
  rw [hfollowed] at hcount
  refine ⟨Or.inl fun t ht => ?_, fun hne => ⟨fun hterm => ?_, fun e he _ => Or.inl ?_⟩⟩
  · obtain ⟨i, hi⟩ := List.mem_iff_getElem?.1 ht
    obtain ⟨f, hf, htarget⟩ := hout hi
    refine ⟨f, hf, mem_succs.2 ?_⟩
    have hi2 := (List.getElem?_eq_some_iff.1 hi).1
    rcases i with _ | _ | i
    · exact Or.inl htarget
    · exact Or.inr htarget
    · omega
  · obtain ⟨k, hk, hkind⟩ := hlaid.kind b.body.length b.terminator (by rw [hplaced]; simp [BasicBlock.instructions])
    obtain ⟨op, args, rfl⟩ := translate_inner hk
    rw [← hend, hterm.kind] at hkind
    cases hkind
  · have hsome : ∀ {i : ℕ}, i < b.terminator.successors.length → s.nodes.target (s.endOf b) i = some e →
        ∃ t ∈ b.terminator.successors, s.copyMapping[t]? = some e := fun {i} hi htarget => by
      obtain ⟨f, hf, htarget'⟩ := hout (List.getElem?_eq_getElem hi)
      rw [htarget'] at htarget
      cases htarget
      exact ⟨_, List.getElem_mem hi, hf⟩
    have hpos := List.length_pos_iff.2 hne
    rcases mem_succs.1 he with he | he
    · exact hsome hpos he
    · by_cases h2 : b.terminator.successors.length = 2
      · exact hsome (by omega) he
      · have hnone := hlaid.single b.body.length (by omega) (fun _ => by rwa [hfollowed])
        rw [← hend, he] at hnone
        cases hnone

theorem placed_of_unplaced (hp : b.terminator.opcode.isPlaced = false) : b.placed = b.body ∧ b.followed = [] := by
  constructor
  · unfold BasicBlock.placed
    rw [hp]
    simp
  · unfold BasicBlock.followed Opcode.followed
    cases hop : b.terminator.opcode <;> first | rfl | (rw [hop] at hp; cases hp)

/-- The end of a block whose terminator is not placed is the terminal node of a block without any other, or else the
last instruction before the terminator, which leads to a terminal node. -/
theorem end_of_unplaced (h : ParserOk m [] s) (hst : Stands m s b first)
    (hp : b.terminator.opcode.isPlaced = false) :
    (b.body = [] ∧ s.nodes.Terminal (s.endOf b)) ∨
      ∃ i k, b.body.getLast? = some i ∧ i.isTerminator = false ∧ translate i = .ok k ∧
        s.nodes.kindAt (s.endOf b) = some k ∧ s.Ends (s.endOf b) ∧ s.nodes.target (s.endOf b) 1 = none := by
  obtain ⟨hplaced, hfollowed⟩ := placed_of_unplaced hp
  have hlaid := h.laid b first hst
  have hend := endOf_eq hst
  rw [hplaced] at hend
  by_cases hbody : b.body = []
  · refine Or.inl ⟨hbody, ?_⟩
    rw [hend, hbody]
    exact hlaid.empty (hplaced.trans hbody)
  · have hpos := List.length_pos_iff.2 hbody
    have hlast : b.body.getLast? = some b.body[b.body.length - 1] := by
      rw [List.getLast?_eq_getElem?]
      exact List.getElem?_eq_getElem (by omega)
    obtain ⟨k, hk, hkind⟩ := hlaid.kind (b.body.length - 1) b.body[b.body.length - 1]
      (by rw [hplaced]; exact List.getElem?_eq_getElem (by omega))
    refine Or.inr ⟨_, k, hlast, b.body_plain _ (List.getElem_mem _), hk, ?_, ?_, ?_⟩
    · rw [hend]
      exact hkind
    · rw [hend]
      exact hlaid.last hfollowed _ (by rw [hplaced]; omega)
    · rw [hend]
      exact hlaid.single _ (by rw [hplaced]; omega) (fun _ => by simp [hfollowed])

/-- A terminator that is not placed drops its successors, unless the node before it raises. -/
theorem transferred_of_unplaced [DataLayout] (h : ParserOk m [] s) (hst : Stands m s b first)
    (hp : b.terminator.opcode.isPlaced = false) :
    Transferred s b ↔ b.terminator.successors = [] ∨
      ∃ i, b.body.getLast? = some i ∧ getOperationFor i = .ok .notSupportedInstr := by
  rcases end_of_unplaced h hst hp with ⟨hbody, hterm⟩ | ⟨i, k, hlast, hplain, hk, hkind, ⟨e, he, hterm, hno⟩, hnone⟩
  · have hquiet : ¬ s.Raises (s.endOf b) := fun hr => by
      have := (raises_kind hterm.kind).1 hr
      cases this
    constructor
    · intro ht
      by_contra hc
      exact (ht.loud fun hne => hc (Or.inl hne)).1 hterm
    · rintro (hne | ⟨i, hi, -⟩)
      · exact ⟨Or.inl (by rw [hne]; exact nofun), fun h => absurd hne h⟩
      · rw [hbody] at hi
        cases hi
  · have hraises := (raises_kind hkind).trans (translate_notSupported hplain hk)
    constructor
    · intro ht
      by_contra hc
      rcases (ht.loud fun hne => hc (Or.inl hne)).2 e (mem_succs.2 (Or.inl he)) hterm with ⟨t, -, hf⟩ | hr
      · exact hno t e hf rfl
      · exact hc (Or.inr ⟨i, hlast, hraises.1 hr⟩)
    · rintro (hne | ⟨j, hj, hop⟩)
      · exact ⟨Or.inl (by rw [hne]; exact nofun), fun h => absurd hne h⟩
      · obtain rfl : i = j := Option.some.inj (hlast.symm.trans hj)
        have hr := hraises.2 hop
        refine ⟨Or.inr hr, fun _ => ⟨fun hend => ?_, fun _ _ _ => Or.inr hr⟩⟩
        rw [hend.next 0] at he
        cases he

/-- Whether the transfer of a block that stands is kept depends on its last two instructions. -/
theorem transferred_of_parserOk [DataLayout] (h : ParserOk m [] s) (hst : Stands m s b first) :
    Transferred s b ↔ b.Kept := by
  unfold BasicBlock.Kept
  cases hp : b.terminator.opcode.isPlaced with
  | true => exact ⟨fun _ => Or.inl rfl, fun _ => transferred_of_placed h hst hp⟩
  | false =>
    rw [transferred_of_unplaced h hst hp]
    simp

end Ends

/-! ## The graph of a module -/

/-- A block that branches reach stands in the graph when no link is pending, and no other does. -/
theorem stands_iff {m : Module} {s : ParserState} (h : ParserOk m [] s)
    (hreg : ∀ f entry, m.Defines f entry → Registered s f entry) {b : BasicBlock} (hb : b ∈ m.blocks) :
    (∃ first, Stands m s b first) ↔ m.Reachable b.id := by
  constructor
  · rintro ⟨first, hst⟩
    exact h.mapped b.id first hst.2
  · intro hr
    obtain ⟨first, hfirst⟩ := mapped_of_reachable h hreg hr
    exact ⟨first, Module.block?_of_mem hb, hfirst⟩

/-- **Dropped transfers.** In the graph of a module, a block has its control transfer if and only if the parser does not
reach it through branches, or its terminator is a return or a branch, or has no successors, or comes after an
instruction that is not supported. -/
theorem transferred_iff [DataLayout] (m : Module) (e : EntryFunction) (vc : VcState) (n : ℕ)
    (hn : 3 * m.blocks.length ≤ n) {s : ParserState} (hrun : parseModule m e n (ParserState.new vc) = .ok () s)
    {b : BasicBlock} (hb : b ∈ m.blocks) :
    ((∃ (first : NodeId), s.copyMapping[b.id]? = some first) → Transferred s b) ↔ (m.Reachable b.id → b.Kept) := by
  obtain ⟨hok, hreg⟩ : ParserOk m [] s ∧ ∀ f entry, m.Defines f entry → Registered s f entry := by
    rcases parseModule_cases m e vc n hn with ⟨t, ht, -, hok, hreg⟩ | ⟨x, t, ht, -⟩
    · rw [hrun] at ht
      cases ht
      exact ⟨hok, hreg⟩
    · rw [hrun] at ht
      cases ht
  have hstands := stands_iff hok hreg hb
  constructor
  · intro ht hr
    obtain ⟨first, hst⟩ := hstands.2 hr
    exact (transferred_of_parserOk hok hst).1 (ht ⟨first, hst.2⟩)
  · rintro hk ⟨first, hfirst⟩
    have hst : Stands m s b first := ⟨Module.block?_of_mem hb, hfirst⟩
    exact (transferred_of_parserOk hok hst).2 (hk (hstands.1 ⟨first, hst⟩))

section Example

attribute [local instance] Ty.x86

theorem transferred_loop : ∃ s, parseModule loopModule loopEntry 9 (ParserState.new (VcState.new {})) = .ok () s ∧
    ∀ b ∈ loopModule.blocks, (∃ (first : NodeId), s.copyMapping[b.id]? = some first) → Transferred s b := by
  have hrun : (match parseModule loopModule loopEntry 9 (ParserState.new (VcState.new {})) with
      | .ok _ _ => true
      | .error _ _ => false) = true := by decide +kernel
  have hkept : ∀ b ∈ loopModule.blocks, b.Kept := fun b hb => Or.inl (by revert b; decide)
  cases h : parseModule loopModule loopEntry 9 (ParserState.new (VcState.new {})) with
  | error x s => rw [h] at hrun; cases hrun
  | ok u s =>
    exact ⟨s, rfl, fun b hb =>
      (transferred_iff loopModule loopEntry (VcState.new {}) 9 (by decide) h hb).2 fun _ => hkept b hb⟩

/-- A local variable before a `switch` with two targets, which read it. -/
def switchBlock : BasicBlock :=
  ⟨1, [⟨21, .ptr (.int 8), .alloca, [⟨93, .int 32, true⟩], false⟩], ⟨22, .void, .switch [2, 3], [], false⟩, by decide, rfl⟩

def switchModule : Module where
  functions :=
    [{ id := 100
       name := "main"
       args := []
       blocks :=
        [switchBlock,
         ⟨2, [⟨25, .int 8, .load, [⟨21, .ptr (.int 8), false⟩], false⟩], ⟨23, .void, .ret, [⟨25, .int 8, false⟩], false⟩,
          by decide, rfl⟩,
         ⟨3, [⟨26, .int 8, .load, [⟨21, .ptr (.int 8), false⟩], false⟩], ⟨24, .void, .ret, [⟨26, .int 8, false⟩], false⟩,
          by decide, rfl⟩]
       args_nodup := List.nodup_nil }]
  functions_nodup := by decide
  blocks_nodup := by decide
  closed := by decide

/-- The `switch` becomes no node: the local variable leads to a terminal node. -/
theorem not_transferred_switch :
    ∃ s, parseModule switchModule loopEntry 9 (ParserState.new (VcState.new {})) = .ok () s ∧
      ¬ ∀ b ∈ switchModule.blocks, (∃ (first : NodeId), s.copyMapping[b.id]? = some first) → Transferred s b := by
  have hmem : switchBlock ∈ switchModule.blocks := List.mem_cons_self
  have hreach : switchModule.Reachable switchBlock.id :=
    ⟨_, switchBlock, ⟨List.mem_cons_self, rfl⟩, .refl⟩
  have hdropped : ¬ switchBlock.Kept := by
    rintro (hp | hs | ⟨i, hi, hop⟩)
    · cases hp
    · cases hs
    · cases hi
      cases hop
  have hrun : (match parseModule switchModule loopEntry 9 (ParserState.new (VcState.new {})) with
      | .ok _ _ => true
      | .error _ _ => false) = true := by decide +kernel
  rcases parseModule_cases switchModule loopEntry (VcState.new {}) 9 (by decide) with
    ⟨s, hs, -, hok, hreg⟩ | ⟨x, s, hs, -⟩
  · refine ⟨s, hs, fun hall => ?_⟩
    obtain ⟨first, hst⟩ := (stands_iff hok hreg hmem).2 hreach
    exact hdropped ((transferred_of_parserOk hok hst).1 (hall switchBlock hmem ⟨first, hst.2⟩))
  · rw [hs] at hrun
    cases hrun

end Example

end Angie
