import Angie.Lib.FlowGraph
import Angie.Frontend.Functions

/-!
# The control flow graph is the flow of the module

The flow of a module runs through positions, an instruction of a block each: from one instruction to the next and from
a branch to the first instruction of each successor (`Module.flow`). `Faithful m s` says that the parser has laid the
positions reached from the entries of the functions out as nodes, one to one, that `next` and `nextFalse` follow the
flow, and that the walk from the first node of a function visits the instructions reached from its entry and nothing
else but the terminal nodes behind its returns.

`parseModule_faithful`: for every module whose blocks end in returns and branches, the loop over the queue ends with a
faithful graph, unless the module is rejected for a reason of its own.
-/

namespace Angie

open Exec Llvm Relation FlowGraph

namespace Llvm.Module

variable (m : Module)

/-- Every block ends in a return or a branch. -/
def BranchesOnly : Prop := ∀ b ∈ m.blocks, b.terminator.opcode.isPlaced = true

/-- An instruction, by its block and its place in it. -/
abbrev Pos := BlockId × ℕ

def instructionAt (p : Pos) : Option Instruction := (m.block? p.1).bind fun b => b.instructions[p.2]?

/-- Where control goes from an instruction. -/
def flow (p : Pos) : List Pos :=
  match m.block? p.1 with
  | none => []
  | some b => if p.2 < b.body.length then [(p.1, p.2 + 1)] else b.terminator.successors.map (·, 0)

/-- Reached from the first instruction of a function that is defined. -/
def Visits (p : Pos) : Prop := ∃ f entry, m.Defines f entry ∧ Reach m.flow (entry.id, 0) p

end Llvm.Module

namespace ParserState

variable (s : ParserState)

/-- The node of an instruction: its block's first node and as many further. -/
def nodeOf (p : Module.Pos) : NodeId := (s.copyMapping[p.1]?).getD 0 + p.2

/-- `next` and `nextFalse`. -/
def succs (n : NodeId) : List NodeId := (s.nodes.target n 0).toList ++ (s.nodes.target n 1).toList

end ParserState

structure Faithful (m : Module) (s : ParserState) : Prop where
  /-- A defined function is registered with the node of the first instruction of its entry block. -/
  entry : ∀ f entry, m.Defines f entry → ∃ vid handle, s.mapper[f.id]? = some vid ∧ s.fmap[vid]? = some handle ∧
    handle.cfg = s.nodeOf (entry.id, 0)
  node : ∀ p, m.Visits p → ∃ i k, m.instructionAt p = some i ∧ translate i = .ok k ∧
    s.nodes.kindAt (s.nodeOf p) = some k
  /-- `next` is the way to the first successor, `nextFalse` the way to the second. -/
  next : ∀ p, m.Visits p → m.flow p ≠ [] → ∀ i, s.nodes.target (s.nodeOf p) i = ((m.flow p)[i]?).map s.nodeOf
  stop : ∀ p, m.Visits p → m.flow p = [] → s.nodes.Dangling (s.nodeOf p) 0 ∧ s.nodes.target (s.nodeOf p) 1 = none
  once : ∀ p q, m.Visits p → m.Visits q → s.nodeOf p = s.nodeOf q → p = q
  /-- There is no other node with an instruction, but the two of `__entry`. -/
  only : ∀ n op args i bp, s.nodes.kindAt n = some (.inner op args i bp) →
    (∃ p, m.Visits p ∧ n = s.nodeOf p) ∨ ∃ e, s.entryPointCfg = some e ∧ (n = e ∨ n = e + 1)
  walk : ∀ f entry, m.Defines f entry → ∀ n, Reach s.succs (s.nodeOf (entry.id, 0)) n ↔
    (∃ p, Reach m.flow (entry.id, 0) p ∧ n = s.nodeOf p) ∨
      ∃ p, Reach m.flow (entry.id, 0) p ∧ m.flow p = [] ∧ s.nodes.target (s.nodeOf p) 0 = some n ∧ s.nodes.Terminal n

/-! ## Positions -/

section Positions

variable {m : Module}

theorem Llvm.BasicBlock.instructions_of_placed {b : BasicBlock} (h : b.terminator.opcode.isPlaced = true) :
    b.placed = b.instructions ∧ b.followed = b.terminator.successors := by
  constructor
  · unfold placed instructions
    rw [if_pos h]
  · unfold followed Instruction.successors
    cases hop : b.terminator.opcode <;> first | rfl | (rw [hop] at h; cases h)

theorem Llvm.BasicBlock.length_of_placed {b : BasicBlock} (h : b.placed = b.instructions) :
    b.placed.length = b.body.length + 1 := by
  rw [h]
  simp [instructions]

/-- What the flow visits lies in reachable blocks. -/
theorem visits_block (hm : m.BranchesOnly) {p : Module.Pos} (h : m.Visits p) :
    m.Reachable p.1 ∧ ∃ b, m.block? p.1 = some b ∧ b.id = p.1 ∧ p.2 ≤ b.body.length := by
  obtain ⟨f, entry, hf, hr⟩ := h
  induction hr with
  | refl => exact ⟨⟨f, entry, hf, .refl⟩, entry, hf.block?, rfl, Nat.zero_le _⟩
  | tail _ hstep ih =>
    obtain ⟨hreach, b, hb, hid, -⟩ := ih
    unfold Module.flow at hstep
    rw [hb] at hstep
    simp only at hstep
    split at hstep
    · obtain rfl := List.mem_singleton.1 hstep
      exact ⟨hreach, b, hb, hid, by assumption⟩
    · obtain ⟨t, ht, rfl⟩ := List.mem_map.1 hstep
      rw [← (BasicBlock.instructions_of_placed (hm b (Module.block?_some hb).1)).2] at ht
      have hreach' := hreach.follow ⟨b, hb, ht⟩
      obtain ⟨b', hb', hid'⟩ := hreach'.block?
      exact ⟨hreach', b', hb', hid', Nat.zero_le _⟩

/-- The flow visits every instruction of a reachable block. -/
theorem visits_of_reachable {id : BlockId} (h : m.Reachable id) {b : BasicBlock}
    (hb : m.block? id = some b) {i : ℕ} (hi : i ≤ b.body.length) : m.Visits (id, i) := by
  obtain ⟨f, entry, hf, hr⟩ := h
  refine ⟨f, entry, hf, ?_⟩
  have hthrough : ∀ {id : BlockId} {b : BasicBlock}, m.block? id = some b → Reach m.flow (entry.id, 0) (id, 0) →
      ∀ i ≤ b.body.length, Reach m.flow (entry.id, 0) (id, i) := fun {id b} hb h0 i hi => by
    induction i with
    | zero => exact h0
    | succ i ih =>
      refine (ih (by omega)).tail ?_
      unfold Module.flow
      rw [hb]
      simp only
      rw [if_pos (by omega)]
      exact List.mem_singleton_self _
  refine hthrough hb ?_ i hi
  clear hi hb
  induction hr with
  | refl => exact .refl
  | tail _ hstep ih =>
    obtain ⟨b', hb', ht⟩ := hstep
    refine (hthrough hb' ih b'.body.length (Nat.le_refl _)).tail ?_
    unfold Module.flow
    rw [hb']
    simp only
    rw [if_neg (Nat.lt_irrefl _)]
    exact List.mem_map.2 ⟨_, BasicBlock.followed_subset ht, rfl⟩

end Positions

/-! ## The graph that the loop leaves -/

section Graph

variable {m : Module} {s : ParserState}

theorem Cfg.target_of_two_le (s : Cfg) (n : NodeId) {i : ℕ} (hi : 2 ≤ i) : s.target n i = none := by
  unfold Cfg.target
  cases s[n]? with
  | none => rfl
  | some x =>
    obtain ⟨j, rfl⟩ : ∃ j, i = j + 2 := ⟨i - 2, by omega⟩
    rfl

/-- The successors of a node whose links are known. -/
theorem succs_of_target {n : NodeId} {l : List NodeId} (h : ∀ i, s.nodes.target n i = l[i]?) : s.succs n = l := by
  have h2 := h 2
  rw [Cfg.target_of_two_le _ _ (Nat.le_refl 2)] at h2
  unfold ParserState.succs
  rw [h 0, h 1]
  match l with
  | [] => rfl
  | [a] => rfl
  | [a, b] => rfl
  | a :: b :: c :: l => simp at h2

/-- When no link is pending, every reachable block is parsed. -/
theorem mapped_of_reachable (h : ParserOk m [] s) (hreg : ∀ f entry, m.Defines f entry → Registered s f entry)
    {id : BlockId} (hr : m.Reachable id) : ∃ first, s.copyMapping[id]? = some first := by
  obtain ⟨f, entry, hf, hr⟩ := hr
  induction hr with
  | refl =>
    obtain ⟨-, first, -, -, hfirst⟩ := hreg f entry hf
    exact ⟨first, hfirst⟩
  | tail _ hstep ih =>
    obtain ⟨first, hfirst⟩ := ih
    obtain ⟨b, hb, ht⟩ := hstep
    obtain ⟨b', rfl, hst⟩ := h.stands hfirst
    rw [hst.1] at hb
    obtain rfl := Option.some.inj hb
    obtain ⟨i, hi⟩ := List.mem_iff_getElem?.1 ht
    rcases (h.laid b' first hst).out i _ hi with ⟨g, hg, -⟩ | hpend
    · exact ⟨g, hg⟩
    · cases hpend

/-- Where the position is on the heap. -/
theorem visits_stands (hm : m.BranchesOnly) (h : ParserOk m [] s)
    (hreg : ∀ f entry, m.Defines f entry → Registered s f entry) {p : Module.Pos} (hp : m.Visits p) :
    ∃ b first, m.block? p.1 = some b ∧ b.id = p.1 ∧ Stands m s b first ∧ s.nodeOf p = first + p.2 ∧
      p.2 ≤ b.body.length ∧ b.placed = b.instructions ∧ b.followed = b.terminator.successors := by
  obtain ⟨hr, b, hb, hid, hle⟩ := visits_block hm hp
  obtain ⟨first, hfirst⟩ := mapped_of_reachable h hreg hr
  obtain ⟨hplaced, hfollowed⟩ := BasicBlock.instructions_of_placed (hm b (Module.block?_some hb).1)
  refine ⟨b, first, hb, hid, ⟨by rw [hid]; exact hb, by rw [hid]; exact hfirst⟩, ?_, hle, hplaced, hfollowed⟩
  unfold ParserState.nodeOf
  rw [hfirst]
  rfl

theorem nodeOf_start {id : BlockId} {first : NodeId} (h : s.copyMapping[id]? = some first) : s.nodeOf (id, 0) = first := by
  unfold ParserState.nodeOf
  rw [h]
  rfl

/-- The links of a node follow the flow. -/
theorem next_of_parserOk (hm : m.BranchesOnly) (h : ParserOk m [] s)
    (hreg : ∀ f entry, m.Defines f entry → Registered s f entry) {p : Module.Pos} (hp : m.Visits p)
    (hflow : m.flow p ≠ []) (i : ℕ) : s.nodes.target (s.nodeOf p) i = ((m.flow p)[i]?).map s.nodeOf := by
  obtain ⟨b, first, hb, hid, hst, hnode, hle, hplaced, hfollowed⟩ := visits_stands hm h hreg hp
  have hlaid := h.laid b first hst
  have hlen := BasicBlock.length_of_placed hplaced
  have hnodeOf : ∀ {t : BlockId} {f : NodeId} {j : ℕ}, s.copyMapping[t]? = some f → s.nodeOf (t, j) = f + j :=
    fun {t f j} hf => by
      unfold ParserState.nodeOf
      rw [hf]
      rfl
  rw [hnode]
  unfold Module.flow at hflow ⊢
  rw [hb] at hflow ⊢
  simp only at hflow ⊢
  split
  · rename_i hlt
    match i with
    | 0 =>
      rw [hlaid.next p.2 (by omega)]
      simp only [List.getElem?_cons_zero, Option.map_some, Option.some.injEq]
      rw [hnodeOf (by rw [← hid]; exact hst.2)]
      rfl
    | 1 => exact hlaid.single p.2 (by omega) (fun hl => by omega)
    | i + 2 => exact Cfg.target_of_two_le _ _ (by omega)
  · rename_i hge
    rw [if_neg hge] at hflow
    obtain hp2 : p.2 = b.body.length := by omega
    rw [hp2, ← hfollowed, List.getElem?_map]
    cases hi : b.followed[i]? with
    | some t =>
      rcases hlaid.out i t hi with ⟨f, hf, ht⟩ | hpend
      · rw [ht]
        simp only [Option.map_some, Option.some.injEq]
        exact (nodeOf_start hf).symm
      · cases hpend
    | none =>
      have hlen' := List.getElem?_eq_none_iff.1 hi
      rw [← hfollowed] at hflow
      have hpos : 0 < b.followed.length := List.length_pos_iff.2 (fun he => hflow (by rw [he]; rfl))
      match i with
      | 0 => omega
      | 1 => exact hlaid.single b.body.length (by omega) (fun _ => by omega)
      | i + 2 => exact Cfg.target_of_two_le _ _ (by omega)

/-- A return leads to a terminal node. -/
theorem stop_of_parserOk (hm : m.BranchesOnly) (h : ParserOk m [] s)
    (hreg : ∀ f entry, m.Defines f entry → Registered s f entry) {p : Module.Pos} (hp : m.Visits p)
    (hflow : m.flow p = []) : s.nodes.Dangling (s.nodeOf p) 0 ∧ s.nodes.target (s.nodeOf p) 1 = none := by
  obtain ⟨b, first, hb, hid, hst, hnode, hle, hplaced, hfollowed⟩ := visits_stands hm h hreg hp
  have hlaid := h.laid b first hst
  have hlen := BasicBlock.length_of_placed hplaced
  unfold Module.flow at hflow
  rw [hb] at hflow
  simp only at hflow
  split at hflow
  · cases hflow
  · have hnil : b.followed = [] := by rw [hfollowed]; exact List.map_eq_nil_iff.1 hflow
    rw [hnode]
    exact ⟨(hlaid.last hnil p.2 (by omega)).dangling, hlaid.single p.2 (by omega) (fun _ => by simp [hnil])⟩

/-- The links carry the flow from the entry of a function to its nodes. -/
theorem carries_of_parserOk (hm : m.BranchesOnly) (h : ParserOk m [] s)
    (hreg : ∀ f entry, m.Defines f entry → Registered s f entry) {f : Function} {entry : BasicBlock}
    (hf : m.Defines f entry) : Carries m.flow s.succs s.nodeOf (entry.id, 0) := by
  refine ⟨fun p hp hflow => ?_, fun p hp hflow n hn => ?_⟩
  · refine succs_of_target fun i => ?_
    rw [next_of_parserOk hm h hreg ⟨f, entry, hf, hp⟩ hflow i, List.getElem?_map]
  · obtain ⟨⟨e, he, hterm⟩, hnone⟩ := stop_of_parserOk hm h hreg ⟨f, entry, hf, hp⟩ hflow
    unfold ParserState.succs at hn
    rw [he, hnone] at hn
    obtain rfl : n = e := by simpa using hn
    unfold ParserState.succs
    rw [hterm.next, hterm.next]
    rfl

/-- With no link pending, the graph is faithful. -/
theorem faithful_of_parserOk (hm : m.BranchesOnly) (h : ParserOk m [] s)
    (hreg : ∀ f entry, m.Defines f entry → Registered s f entry) : Faithful m s := by
  refine ⟨fun f entry hf => ?_, fun p hp => ?_, fun p hp => next_of_parserOk hm h hreg hp,
    fun p hp => stop_of_parserOk hm h hreg hp, fun p q hp hq hpq => ?_, fun n op args i bp hk => ?_, fun f entry hf n => ?_⟩
  · obtain ⟨vid, first, hvid, hhandle, hfirst⟩ := hreg f entry hf
    exact ⟨vid, _, hvid, hhandle, (nodeOf_start hfirst).symm⟩
  · obtain ⟨b, first, hb, hid, hst, hnode, hle, hplaced, -⟩ := visits_stands hm h hreg hp
    have hlt : p.2 < b.placed.length := by
      rw [BasicBlock.length_of_placed hplaced]
      omega
    obtain ⟨k, hk, hkt⟩ := (h.laid b first hst).kind p.2 _ (List.getElem?_eq_getElem hlt)
    refine ⟨b.placed[p.2], k, ?_, hk, by rw [hnode]; exact hkt⟩
    unfold Module.instructionAt
    rw [hb, Option.bind_some, ← hplaced, List.getElem?_eq_getElem hlt]
  · obtain ⟨b, first, hb, hid, hst, hnode, hle, hplaced, -⟩ := visits_stands hm h hreg hp
    obtain ⟨b', first', hb', hid', hst', hnode', hle', hplaced', -⟩ := visits_stands hm h hreg hq
    have hlen := BasicBlock.length_of_placed hplaced
    have hlen' := BasicBlock.length_of_placed hplaced'
    rw [hnode, hnode'] at hpq
    obtain ⟨rfl, rfl⟩ := h.unique hst hst' (n := first + p.2) ⟨by lia, by lia⟩ ⟨by lia, by lia⟩
    exact Prod.ext (hid.symm.trans hid') (by lia)
  · rcases h.inner n op args i bp hk with ⟨b, first, hst, hown⟩ | he
    · have hb := (Module.block?_some hst.1).1
      have hlen := BasicBlock.length_of_placed (BasicBlock.instructions_of_placed (hm b hb)).1
      have h1 := hown.1
      have h2 := hown.2
      refine .inl ⟨(b.id, n - first), visits_of_reachable (h.mapped _ _ hst.2) hst.1 (by lia), ?_⟩
      unfold ParserState.nodeOf
      rw [hst.2]
      simp only [Option.getD_some]
      lia
    · exact .inr he
  · rw [(carries_of_parserOk hm h hreg hf).reach]
    refine or_congr Iff.rfl (exists_congr fun p => and_congr_right fun hp => and_congr_right fun hflow => ?_)
    obtain ⟨⟨e, he, hterm⟩, hnone⟩ := stop_of_parserOk hm h hreg ⟨f, entry, hf, hp⟩ hflow
    unfold ParserState.succs
    rw [he, hnone]
    constructor
    · rintro hn
      obtain rfl : n = e := by simpa using hn
      exact ⟨rfl, hterm⟩
    · rintro ⟨hn, -⟩
      simpa using (Option.some.inj hn).symm

end Graph

theorem operationForCall_error {name : String} {isIntrinsic : Bool} {e : Exn}
    (h : operationForCall name isIntrinsic = .error e) : ∃ what, e = .notSupported what := by
  unfold operationForCall at h
  repeat' split at h
  all_goals cases h
  exact ⟨_, rfl⟩

theorem getOperationFor_error {i : Instruction} {e : Exn} (h : getOperationFor i = .error e) :
    ∃ what, e = .notSupported what := by
  unfold getOperationFor at h
  cases hop : i.opcode with
  | call callee =>
    rw [hop] at h
    cases callee with
    | function id name isIntrinsic => exact operationForCall_error h
    | value id type => cases h
  | _ => rw [hop] at h; cases h

theorem operArgsFor_error {i : Instruction} {e : Exn} (h : operArgsFor i = .error e) :
    e = .notImplemented "Not implemented" := by
  unfold operArgsFor at h
  cases ho : optionsFor i with
  | ok o => rw [ho] at h; cases h
  | error e' =>
    rw [ho] at h
    cases h
    unfold optionsFor at ho
    split at ho <;> first | (cases ho; rfl) | cases ho

/-- An instruction without an operation is reported as not supported or not implemented. -/
theorem translate_refuses {i : Instruction} {e : Exn} (h : translate i = .error e) :
    (∃ what, e = .notSupported what) ∨ ∃ what, e = .notImplemented what := by
  cases hop : getOperationFor i with
  | error e' =>
    rw [translate_error (.inl hop)] at h
    cases h
    exact .inl (getOperationFor_error hop)
  | ok op =>
    cases hargs : operArgsFor i with
    | ok args => rw [translate_ok hop hargs] at h; cases h
    | error e' =>
      rw [translate_error (.inr ⟨⟨op, hop⟩, hargs⟩)] at h
      cases h
      exact .inr ⟨_, operArgsFor_error hargs⟩

theorem Llvm.Module.Rejects.ne_link {m : Module} {x : Exn} (h : m.Rejects x) :
    x ≠ .runtimeError "prev Node has a successor other then terminal node" := by
  cases h with
  | noFunctions _ => simp
  | refuses h =>
    obtain ⟨b, i, -, -, -, he⟩ := h
    rcases translate_refuses he with ⟨what, rfl⟩ | ⟨what, rfl⟩ <;> simp
  | noMain _ => simp
  | mainArgs _ _ => simp

/-- With a round for every entry that the queue can ever hold, the loop over the queue empties it; else the module has
been rejected. -/
theorem parseModule_cases (m : Module) (e : EntryFunction) (vc : VcState) (n : ℕ) (hn : 3 * m.blocks.length ≤ n) :
    (∃ s, parseModule m e n (ParserState.new vc) = .ok () s ∧ s.parseAndLinkTogether = [] ∧ ParserOk m [] s ∧
      ∀ f entry, m.Defines f entry → Registered s f entry) ∨
    (∃ x s, parseModule m e n (ParserState.new vc) = .error x s ∧ m.Rejects x) := by
  unfold parseModule
  rcases parsePrologue_cases m e vc with ⟨s, hrun, hs⟩ | ⟨x, s, hrun, hx⟩
  · rw [bind_of_ok hrun]
    rcases queueLoop_cases n hs.ok (Nat.le_trans hs.bound hn) with ⟨t, hloop, hempty, ht, hsame⟩ | ⟨x, t, hloop, hx⟩
    · exact .inl ⟨t, hloop, hempty, ht, fun f entry hf => hsame.registered (hs.registered f entry hf)⟩
    · exact .inr ⟨x, t, hloop, .refuses hx⟩
  · exact .inr ⟨x, s, bind_of_error hrun, hx⟩

/-- **Faithful construction.** The loop over the queue empties it and leaves a faithful graph; else the module has been
rejected, and never because a link could not be made. -/
theorem parseModule_faithful (m : Module) (hm : m.BranchesOnly) (e : EntryFunction) (vc : VcState) (n : ℕ)
    (hn : 3 * m.blocks.length ≤ n) :
    (∃ s, parseModule m e n (ParserState.new vc) = .ok () s ∧ s.parseAndLinkTogether = [] ∧ Faithful m s) ∨
    (∃ x s, parseModule m e n (ParserState.new vc) = .error x s ∧ m.Rejects x ∧
      x ≠ .runtimeError "prev Node has a successor other then terminal node") := by
  rcases parseModule_cases m e vc n hn with ⟨s, hrun, hempty, hs, hreg⟩ | ⟨x, s, hrun, hx⟩
  · exact .inl ⟨s, hrun, hempty, faithful_of_parserOk hm hs hreg⟩
  · exact .inr ⟨x, s, hrun, hx, hx.ne_link⟩

/-! ## A loop -/

section Example

/-- A block that loops on itself. -/
def loopModule : Module where
  functions :=
    [{ id := 100
       name := "main"
       args := []
       blocks :=
        [⟨1, [⟨11, .ptr (.int 32), .alloca, [⟨90, .int 32, true⟩], false⟩], ⟨12, .void, .br 2, [], false⟩, by decide, rfl⟩,
         ⟨2, [], ⟨13, .void, .condBr 2 3, [⟨11, .int 1, false⟩], false⟩, by decide, rfl⟩,
         ⟨3, [], ⟨14, .void, .ret, [⟨91, .int 32, true⟩], false⟩, by decide, rfl⟩]
       args_nodup := by decide }]
  functions_nodup := by decide
  blocks_nodup := by decide
  closed := by decide

def loopEntry : EntryFunction where
  argc := 80
  argv := 81
  mainCall := ⟨82, .int 32, .call (.function 100 "main" false), [], false⟩
  finCall := ⟨83, .void, .call (.function 84 "__ANGIE_fin" false), [], false⟩

theorem parseModule_loop : ∃ s, parseModule loopModule loopEntry 9 (ParserState.new (VcState.new {})) = .ok () s ∧
    s.parseAndLinkTogether = [] ∧ Faithful loopModule s := by
  have hrun : (match parseModule loopModule loopEntry 9 (ParserState.new (VcState.new {})) with
      | .ok _ _ => true
      | .error _ _ => false) = true := by decide +kernel
  have hbranches : loopModule.BranchesOnly := by
    unfold Module.BranchesOnly
    decide
  rcases parseModule_faithful loopModule hbranches loopEntry (VcState.new {}) 9 (by decide) with h | ⟨x, s, herr, -⟩
  · exact h
  · rw [herr] at hrun
    cases hrun

end Example

end Angie
