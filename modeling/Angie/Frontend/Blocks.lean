import Angie.Frontend.Parser

/-!
# What parsing a block builds

A block becomes the nodes of its `placed` instructions, one after another, and is linked to the blocks it `followed`.

- `Strung`: a chain of nodes inserted between a node and the terminal one behind it;
- `Planned`: the successors of a branch are linked at once when they are parsed, else planned;
- `Parsed`: what a block that is parsed looks like afterwards, as one statement; the only exceptions are those of
  instructions that have no operation (`parseNewBlock_cases`).
-/

namespace Angie

open Exec Llvm

/-! ## Instructions that become nodes -/

/-- The node that an instruction becomes. An unconditional branch is a `Noop`. -/
def translate (instr : Instruction) : Except Exn NodeKind := do
  let op ← getOperationFor instr
  let args ← operArgsFor instr
  match instr.opcode with
  | .br _ => return .inner .noop args instr instr.hasBreakpoint
  | _ => return .inner op args instr instr.hasBreakpoint

namespace Llvm

/-- The terminators that `ParseBasicBlock` makes a node of. -/
def Opcode.isPlaced : Opcode → Bool
  | .ret | .br _ | .condBr _ _ => true
  | _ => false

/-- The successors that are linked. -/
def Opcode.followed : Opcode → List BlockId
  | .br t => [t]
  | .condBr t f => [t, f]
  | _ => []

namespace BasicBlock

variable (b : BasicBlock)

/-- The instructions of a block that become nodes. -/
def placed : List Instruction := b.body ++ if b.terminator.opcode.isPlaced then [b.terminator] else []

def followed : List BlockId := b.terminator.opcode.followed

variable {b}

theorem followed_subset {t : BlockId} (h : t ∈ b.followed) : t ∈ b.terminator.successors := by
  unfold followed Opcode.followed at h
  unfold Instruction.successors
  cases hop : b.terminator.opcode <;> rw [hop] at h <;> simp_all [Opcode.successors]

/-- The node that is linked is that of the terminator, the last one. -/
theorem placed_of_followed (h : b.followed ≠ []) : b.placed = b.body ++ [b.terminator] := by
  unfold followed Opcode.followed at h
  unfold placed Opcode.isPlaced
  cases hop : b.terminator.opcode <;> rw [hop] at h <;> simp_all

theorem length_placed_of_followed (h : b.followed ≠ []) : b.placed.length = b.body.length + 1 := by
  rw [b.placed_of_followed h, List.length_append, List.length_singleton]

end BasicBlock

end Llvm

theorem translate_ok {instr : Instruction} {op : Operation} {args : OperationArgs}
    (hop : getOperationFor instr = .ok op) (hargs : operArgsFor instr = .ok args) :
    translate instr = .ok (.inner (match instr.opcode with | .br _ => .noop | _ => op) args instr
      instr.hasBreakpoint) := by
  unfold translate
  rw [hop, hargs]
  cases instr.opcode <;> rfl

/-- An instruction before the terminator keeps its operation. -/
theorem translate_plain {instr : Instruction} (hplain : instr.isTerminator = false) {op : Operation}
    {args : OperationArgs} (hop : getOperationFor instr = .ok op) (hargs : operArgsFor instr = .ok args) :
    translate instr = .ok (.inner op args instr instr.hasBreakpoint) := by
  rw [translate_ok hop hargs]
  unfold Instruction.isTerminator Opcode.isTerminator at hplain
  cases hopc : instr.opcode <;> first | rfl | (rw [hopc] at hplain; cases hplain)

theorem translate_error {instr : Instruction} {e : Exn}
    (h : getOperationFor instr = .error e ∨ (∃ op, getOperationFor instr = .ok op) ∧ operArgsFor instr = .error e) :
    translate instr = .error e := by
  unfold translate
  rcases h with h | ⟨⟨op, hop⟩, hargs⟩
  · rw [h]; rfl
  · rw [hop, hargs]; rfl

/-- Only inner nodes come from instructions. -/
theorem translate_inner {instr : Instruction} {k : NodeKind} (h : translate instr = .ok k) :
    ∃ op args, k = .inner op args instr instr.hasBreakpoint := by
  cases hop : getOperationFor instr with
  | error e => rw [translate_error (.inl hop)] at h; cases h
  | ok op =>
    cases hargs : operArgsFor instr with
    | error e => rw [translate_error (.inr ⟨⟨op, hop⟩, hargs⟩)] at h; cases h
    | ok args =>
      rw [translate_ok hop hargs] at h
      cases h
      exact ⟨_, _, rfl⟩

/-! ## Chains -/

/-- `t` is `s` with the nodes of `is` strung between `c` and the node behind it; a branching chain ends in a node
with a terminal one of its own. -/
structure Strung (s t : Cfg) (c last : NodeId) (is : List Instruction) (branching : Bool) : Prop where
  length : t.length = s.length + is.length + if branching then 1 else 0
  oldKind : ∀ n < s.length, t.kindAt n = s.kindAt n
  oldTarget : ∀ n < s.length, ∀ i, ¬ (n = c ∧ i = 0) → t.target n i = s.target n i
  entry : t.target c 0 = some (if is = [] then last else s.length)
  kind : ∀ i instr, is[i]? = some instr → ∃ k, translate instr = .ok k ∧ t.kindAt (s.length + i) = some k
  next : ∀ i < is.length, t.target (s.length + i) 0 = some (if i + 1 = is.length then last else s.length + i + 1)
  single : ∀ i < is.length, (i + 1 = is.length → branching = false) → t.target (s.length + i) 1 = none
  branch : branching = true → ∃ e, s.length + is.length = e ∧ t.Terminal e ∧
    ∀ i, i + 1 = is.length → t.target (s.length + i) 1 = some e

namespace Strung

variable {s t : Cfg} {c last : NodeId} {is : List Instruction}

theorem nil (h : s.target c 0 = some last) : Strung s s c last [] false where
  length := by simp
  oldKind _ _ := rfl
  oldTarget _ _ _ _ := rfl
  entry := by simpa using h
  kind i instr h := by simp at h
  next i hi := by simp at hi
  single i hi := by simp at hi
  branch h := by cases h

/-- The node after which the chain goes on. -/
def tip (s : Cfg) (c : NodeId) (is : List Instruction) : NodeId :=
  if is = [] then c else s.length + (is.length - 1)

theorem target_tip (h : Strung s t c last is false) : t.target (tip s c is) 0 = some last := by
  unfold tip
  have hentry := h.entry
  split
  · rwa [if_pos ‹_›] at hentry
  · have hlen : 0 < is.length := List.length_pos_iff.2 ‹_›
    rw [h.next _ (by omega), if_pos (by omega)]

theorem tip_lt (hc : c < s.length) : tip s c is < s.length + is.length := by
  unfold tip
  split
  · lia
  · have := List.length_pos_iff.2 ‹_›
    lia

/-- The tip is an old node when the chain is empty only. -/
theorem eq_tip_iff_old {n : NodeId} (hn : n < s.length) : n = tip s c is ↔ n = c ∧ is = [] := by
  unfold tip
  split
  · simp [*]
  · constructor
    · intro h
      lia
    · exact fun h => absurd h.2 ‹_›

/-- Else it is the last node of the chain. -/
theorem eq_tip_iff_new (hc : c < s.length) {i : ℕ} : s.length + i = tip s c is ↔ i + 1 = is.length := by
  unfold tip
  split
  · rename_i h
    subst h
    constructor
    · intro h
      lia
    · intro h
      cases h
  · have := List.length_pos_iff.2 ‹_›
    omega

/-- One more node at the end of the chain, branching or not. -/
theorem extend (h : Strung s t c last is false) (hc : c < s.length) {instr : Instruction} {k : NodeKind}
    (hk : translate instr = .ok k) {t' : Cfg} {branching : Bool}
    (hlen : t'.length = t.length + 1 + if branching then 1 else 0)
    (hkind : ∀ n, t'.kindAt n =
      if n = t.length then some k else if branching ∧ n = t.length + 1 then some .terminal else t.kindAt n)
    (htarget : ∀ n j, t'.target n j =
      if n = tip s c is ∧ j = 0 then some t.length
      else if n = t.length then
        if j = 0 then some last else if branching ∧ j = 1 then some (t.length + 1) else none
      else t.target n j) : Strung s t' c last (is ++ [instr]) branching := by
  have hl : t.length = s.length + is.length := by simpa using h.length
  have hne : ∀ n < s.length, n ≠ t.length := fun n hn => by omega
  have htip : t.length ≠ tip s c is := Nat.ne_of_gt (hl ▸ tip_lt hc)
  refine ⟨?_, fun n hn => ?_, fun n hn i hi => ?_, ?_, fun i instr' hi => ?_, fun i hi => ?_, fun i hi hb => ?_,
    fun hb => ?_⟩
  · rw [hlen, hl]
    simp only [List.length_append, List.length_singleton]
    omega
  · rw [hkind, if_neg (hne n hn), if_neg (by lia)]
    exact h.oldKind n hn
  · rw [htarget, if_neg fun ⟨he, hi0⟩ => hi ⟨((eq_tip_iff_old hn).1 he).1, hi0⟩, if_neg (hne n hn)]
    exact h.oldTarget n hn i hi
  · rw [htarget]
    by_cases hnil : is = []
    · rw [if_pos ⟨(eq_tip_iff_old hc).2 ⟨rfl, hnil⟩, rfl⟩, hl]
      simp [hnil]
    · rw [if_neg fun ⟨he, _⟩ => hnil ((eq_tip_iff_old hc).1 he).2, if_neg (hne c hc), h.entry]
      simp [hnil]
  · rw [hkind]
    rcases Nat.lt_or_ge i is.length with hlt | hge
    · rw [List.getElem?_append_left hlt] at hi
      obtain ⟨k', hk', hkt⟩ := h.kind i instr' hi
      exact ⟨k', hk', by rw [if_neg (by lia), if_neg (by lia)]; exact hkt⟩
    · obtain ⟨hz, rfl⟩ : i = is.length ∧ instr = instr' := by
        obtain ⟨j, rfl⟩ := Nat.exists_eq_add_of_le hge
        cases j with
        | zero => simpa using hi
        | succ j => simp at hi
      exact ⟨k, hk, by rw [if_pos (by lia)]⟩
  · simp only [List.length_append, List.length_singleton] at hi ⊢
    rw [htarget]
    rcases Nat.lt_or_ge i is.length with hlt | hge
    · rw [if_neg (show i + 1 ≠ is.length + 1 by omega)]
      by_cases ht : i + 1 = is.length
      · rw [if_pos ⟨(eq_tip_iff_new hc).2 ht, rfl⟩, hl, ← ht]
        rfl
      · rw [if_neg fun ⟨he, _⟩ => ht ((eq_tip_iff_new hc).1 he), if_neg (by lia), h.next i hlt, if_neg ht]
    · rw [if_neg fun ⟨he, _⟩ => htip (by rw [← he]; lia), if_pos (by lia), if_pos rfl, if_pos (by lia)]
  · simp only [List.length_append, List.length_singleton] at hi hb
    rw [htarget, if_neg (by simp)]
    rcases Nat.lt_or_ge i is.length with hlt | hge
    · rw [if_neg (by lia)]
      exact h.single i hlt (fun _ => rfl)
    · have : branching = false := hb (by omega)
      rw [if_pos (by lia), if_neg Nat.one_ne_zero, if_neg (by simp [this])]
  · refine ⟨t.length + 1, by simp [hl]; omega, ⟨?_, fun i => ?_⟩, fun i hi => ?_⟩
    · rw [hkind, if_neg (by lia), if_pos ⟨hb, rfl⟩]
    · rw [htarget, if_neg, if_neg (by lia)]
      · exact Cfg.target_of_le (by omega) i
      · have : tip s c is < s.length + is.length := tip_lt hc
        lia
    · simp only [List.length_append, List.length_singleton] at hi
      rw [htarget, if_neg (by simp), if_pos (by lia), if_neg Nat.one_ne_zero, if_pos ⟨hb, rfl⟩]

/-- `InsertNewAfter` at the end of the chain. -/
theorem insertNewAfter (h : Strung s t c last is false) (hc : c < s.length) {instr : Instruction} {op : Operation}
    {args : OperationArgs} {bp : Bool} (hk : translate instr = .ok (.inner op args instr bp)) :
    ∃ t', Angie.insertNewAfter (tip s c is) op args instr bp t = .ok t.length t' ∧
      Strung s t' c last (is ++ [instr]) false := by
  obtain ⟨t', hrun, hlen, hkind, htarget⟩ := insertNewAfter_ok h.target_tip op args instr bp
  exact ⟨t', hrun, h.extend hc hk (by simpa using hlen) (fun n => by simp [hkind]) (fun n j => by simp [htarget])⟩

/-- `InsertNewBranchAfter` at the end of the chain. -/
theorem insertNewBranchAfter (h : Strung s t c last is false) (hc : c < s.length) {instr : Instruction}
    {op : Operation} {args : OperationArgs} {bp : Bool} (hk : translate instr = .ok (.inner op args instr bp)) :
    ∃ t', Angie.insertNewBranchAfter (tip s c is) op args instr bp t = .ok t.length t' ∧
      Strung s t' c last (is ++ [instr]) true := by
  have htip := h.target_tip
  have hlt := Cfg.target_lt htip
  refine ⟨_, insertNewBranchAfter_eq htip .., h.extend hc hk (by simp) (fun n => ?_) (fun n j => ?_)⟩
  · rw [Cfg.kindAt_setTarget, Cfg.kindAt_setTarget, Cfg.kindAt_append, Cfg.kindAt_append]
    simp only [List.length_append, List.length_singleton, true_and]
    by_cases hn : n = t.length
    · rw [if_pos hn, if_pos hn, if_neg (by lia)]
    · rw [if_neg hn, if_neg hn]
  · rw [Cfg.target_setTarget (by simp; lia) _ (by lia), Cfg.target_setTarget (by simp) _ (by lia), Cfg.target_append,
      Cfg.target_append]
    simp only [List.length_append, List.length_singleton, true_and]
    refine if_congr Iff.rfl rfl ?_
    by_cases hn : n = t.length
    · rw [if_pos hn]
      match j with
      | 0 => rw [if_neg (by simp), if_neg (by lia), if_pos hn]; rfl
      | 1 => rw [if_pos ⟨hn, rfl⟩, if_pos hn]; rfl
      | j + 2 => rw [if_neg (by simp), if_neg (by lia), if_pos hn]; rfl
    · rw [if_neg (fun h => hn h.1), if_neg hn]
      split
      · rw [Cfg.target_of_le (by lia)]
        unfold Node.target
        split <;> rfl
      · rfl

theorem length_eq_tip (h : Strung s t c last is false) (instr : Instruction) : t.length = tip s c (is ++ [instr]) := by
  have hl := h.length
  unfold tip
  simp only [List.append_ne_nil_of_right_ne_nil is (List.cons_ne_nil instr []), if_false, List.length_append,
    List.length_singleton]
  simpa using hl

end Strung

/-! ## The body of a block -/

section Parser

variable {s : ParserState}

theorem callCfg_ok {α : Type} {m : CfgM α} {a : α} {t : Cfg} (h : m s.nodes = .ok a t) :
    ParserM.callCfg m s = .ok a { s with nodes := t } := by
  unfold ParserM.callCfg zoom
  rw [h]

theorem getOperArgsForInstr_ok {instr : Instruction} {args : OperationArgs} (h : operArgsFor instr = .ok args) :
    ∃ cs, getOperArgsForInstr instr s = .ok args { s with constantValuesToBeCreated := cs } := by
  unfold getOperArgsForInstr
  rw [h]
  exact ⟨_, rfl⟩

/-- Looking an instruction up: its operation and its arguments, or the exception. -/
theorem lookUp_cases (instr : Instruction) (s : ParserState) :
    (∃ op args cs, getOperationFor instr = .ok op ∧ operArgsFor instr = .ok args ∧
      getOperArgsForInstr instr s = .ok args { s with constantValuesToBeCreated := cs }) ∨
    (∃ e, translate instr = .error e ∧
      (getOperationFor instr = .error e ∨
        (∃ op, getOperationFor instr = .ok op) ∧ getOperArgsForInstr instr s = .error e s)) := by
  cases hop : getOperationFor instr with
  | error e => exact .inr ⟨e, translate_error (.inl hop), .inl rfl⟩
  | ok op =>
    cases hargs : operArgsFor instr with
    | error e =>
      refine .inr ⟨e, translate_error (.inr ⟨⟨op, hop⟩, hargs⟩), .inr ⟨⟨op, rfl⟩, ?_⟩⟩
      unfold getOperArgsForInstr
      rw [hargs]
      rfl
    | ok args =>
      obtain ⟨cs, hcs⟩ := getOperArgsForInstr_ok (s := s) hargs
      exact .inl ⟨op, args, cs, rfl, rfl, hcs⟩

/-- The loop strings the nodes of its instructions, or meets one that has no operation. -/
theorem parseBody_cases {s₀ : Cfg} {c last : NodeId} (hc : c < s₀.length) :
    ∀ (instrs is : List Instruction) (s : ParserState), (∀ i ∈ instrs, i.isTerminator = false) →
      Strung s₀ s.nodes c last is false →
      (∃ t cs, parseBody instrs (Strung.tip s₀ c is) s =
          .ok (Strung.tip s₀ c (is ++ instrs)) { s with nodes := t, constantValuesToBeCreated := cs } ∧
        Strung s₀ t c last (is ++ instrs) false) ∨
      (∃ i ∈ instrs, ∃ e t, translate i = .error e ∧ parseBody instrs (Strung.tip s₀ c is) s = .error e t)
  | [], is, s, _, h => .inl ⟨s.nodes, s.constantValuesToBeCreated, by rw [List.append_nil]; exact ⟨rfl, h⟩⟩
  | instr :: rest, is, s, hplain, h => by
    unfold parseBody
    rcases lookUp_cases instr s with ⟨op, args, cs, hop, hargs, hcs⟩ | ⟨e, he, hlook⟩
    · have hk := translate_plain (hplain instr List.mem_cons_self) hop hargs
      obtain ⟨t', hins, hstr⟩ := h.insertNewAfter hc hk
      rw [hop, bind_of_ok (ofExcept_ok op s), bind_of_ok hcs,
        bind_of_ok (callCfg_ok (s := { s with constantValuesToBeCreated := cs }) hins), h.length_eq_tip instr]
      rcases parseBody_cases hc rest (is ++ [instr]) { s with nodes := t', constantValuesToBeCreated := cs }
        (fun i hi => hplain i (List.mem_cons_of_mem _ hi)) hstr with ⟨t, cs', hrun, hstr'⟩ | ⟨i, hi, e, t, he, hrun⟩
      · refine .inl ⟨t, cs', ?_, ?_⟩
        · rw [hrun, List.append_assoc, List.singleton_append]
        · rwa [List.append_assoc, List.singleton_append] at hstr'
      · exact .inr ⟨i, List.mem_cons_of_mem _ hi, e, t, he, hrun⟩
    · refine .inr ⟨instr, List.mem_cons_self, e, s, he, ?_⟩
      rcases hlook with hop | ⟨⟨op, hop⟩, hargs⟩
      · rw [hop, bind_of_error (ofExcept_error e s)]
      · rw [hop, bind_of_ok (ofExcept_ok op s), bind_of_error hargs]

end Parser

/-! ## The successors of a block -/

/-- The link leads to a terminal node so far. -/
def Cfg.Dangling (s : Cfg) (n : NodeId) (i : ℕ) : Prop := ∃ e, s.target n i = some e ∧ s.Terminal e

/-- What a planned link is identified by. -/
def Link.key (l : Link) : NodeId × ℕ := (l.node, l.targetIndex)

/-- `u` is `s` with the links `j`, `j + 1`, … of `n` made to the blocks `ts` or, for the links in `new`, planned. -/
structure Planned (s u : ParserState) (n : NodeId) (j : ℕ) (ts : List BlockId) (new : List Link) : Prop where
  state : u = { s with nodes := u.nodes, parseAndLinkTogether := s.parseAndLinkTogether ++ new }
  length : u.nodes.length = s.nodes.length
  kind : ∀ k, u.nodes.kindAt k = s.nodes.kindAt k
  target : ∀ k i, ¬ (k = n ∧ j ≤ i ∧ i < j + ts.length) → u.nodes.target k i = s.nodes.target k i
  linked : ∀ i t, ts[i]? = some t →
    (∃ f, s.copyMapping[t]? = some f ∧ u.nodes.target n (j + i) = some f) ∨ ⟨t, n, j + i⟩ ∈ new
  planned : ∀ l ∈ new, ∃ i, l.node = n ∧ l.targetIndex = j + i ∧ ts[i]? = some l.block ∧ u.nodes.Dangling n (j + i)
  nodup : (new.map Link.key).Nodup

namespace Cfg

variable {s u : Cfg}

/-- Terminal nodes stay terminal when nothing but the links of another node changes. -/
theorem Terminal.keep {e n : NodeId} (h : s.Terminal e) (hn : e ≠ n) (hk : ∀ k, u.kindAt k = s.kindAt k)
    (ht : ∀ k i, k ≠ n → u.target k i = s.target k i) : u.Terminal e :=
  ⟨by rw [hk, h.kind], fun i => by rw [ht e i hn, h.next i]⟩

theorem Terminal.ne {e n : NodeId} (h : s.Terminal e) {i : ℕ} {t : NodeId} (hn : s.target n i = some t) : e ≠ n := by
  rintro rfl
  rw [h.next i] at hn
  cases hn

end Cfg

section Plans

variable {s u v : ParserState} {n : NodeId} {j : ℕ}

/-- One successor. -/
theorem linkWithOrPlanProcessing_ok (hj : j < 2) (hd : s.nodes.Dangling n j) (t : BlockId)
    (hmap : ∀ f, s.copyMapping[t]? = some f → f < s.nodes.length) :
    ∃ u new, linkWithOrPlanProcessing n t j s = .ok () u ∧ Planned s u n j [t] new := by
  obtain ⟨e, he, hterm⟩ := hd
  unfold linkWithOrPlanProcessing
  rw [bind_of_ok (get_apply s)]
  have hone : ∀ {i : ℕ} {t' : BlockId}, [t][i]? = some t' → i = 0 ∧ t = t' := fun {i t'} hi => by
    cases i with
    | zero => exact ⟨rfl, by simpa using hi⟩
    | succ i => simp at hi
  cases ht : s.copyMapping[t]? with
  | some f =>
    refine ⟨_, [], callCfg_ok (linkTogether_eq he hj hterm (hmap f ht)), ?_⟩
    refine ⟨by simp, by simp, fun k => by simp, fun k i hki => ?_, fun i t' hi => .inl ?_, by simp, by simp⟩
    · rw [Cfg.target_addPrev, Cfg.target_setTarget (Cfg.target_lt he) f hj, if_neg]
      rintro ⟨rfl, rfl⟩
      exact hki ⟨rfl, Nat.le_refl _, by simp⟩
    · obtain ⟨rfl, rfl⟩ := hone hi
      exact ⟨f, ht, by rw [Cfg.target_addPrev, Cfg.target_setTarget (Cfg.target_lt he) f hj, if_pos ⟨rfl, rfl⟩]⟩
  | none =>
    refine ⟨_, [⟨t, n, j⟩], rfl, rfl, rfl, fun _ => rfl, fun _ _ _ => rfl, fun i t' hi => .inr ?_, fun l hl => ?_, by simp⟩
    · obtain ⟨rfl, rfl⟩ := hone hi
      exact List.mem_singleton_self _
    · obtain rfl := List.mem_singleton.1 hl
      exact ⟨0, rfl, rfl, rfl, e, he, hterm⟩

/-- One successor after another. -/
theorem Planned.cons {t : BlockId} {ts : List BlockId} {new new' : List Link} (h : Planned s u n j [t] new)
    (h' : Planned u v n (j + 1) ts new') : Planned s v n j (t :: ts) (new ++ new') := by
  have hcopy : u.copyMapping = s.copyMapping := by rw [h.state]
  have hfirst : ∀ i, v.nodes.target n i = u.nodes.target n i ∨ j + 1 ≤ i := fun i => by
    by_cases hi : j + 1 ≤ i
    · exact .inr hi
    · exact .inl (h'.target n i (by omega))
  refine ⟨?_, h'.length.trans h.length, fun k => (h'.kind k).trans (h.kind k), fun k i hki => ?_, fun i t' hi => ?_,
    fun l hl => ?_, ?_⟩
  · have hu := h.state
    have hv := h'.state
    rw [hu] at hv
    rw [hv]
    simp
  · simp only [List.length_cons] at hki
    rw [h'.target k i (by lia), h.target k i (by simp only [List.length_singleton]; lia)]
  · cases i with
    | zero =>
      rcases h.linked 0 t' (by simpa using hi) with ⟨f, hf, htarget⟩ | hnew
      · exact .inl ⟨f, hf, by rw [h'.target n _ (by lia)]; exact htarget⟩
      · exact .inr (List.mem_append_left _ hnew)
    | succ i =>
      rw [show j + (i + 1) = j + 1 + i by omega]
      rcases h'.linked i t' (by simpa using hi) with ⟨f, hf, htarget⟩ | hnew
      · exact .inl ⟨f, by rwa [hcopy] at hf, htarget⟩
      · exact .inr (List.mem_append_right _ hnew)
  · rcases List.mem_append.1 hl with hl | hl
    · obtain ⟨i, hnode, hidx, ht, e, he, hterm⟩ := h.planned l hl
      obtain rfl : i = 0 := by
        cases i with
        | zero => rfl
        | succ i => simp at ht
      refine ⟨0, hnode, hidx, by simpa using ht, e, by rw [h'.target n _ (by omega)]; exact he, ?_⟩
      exact hterm.keep (hterm.ne he) h'.kind (fun k i hk => h'.target k i (fun hc => hk hc.1))
    · obtain ⟨i, hnode, hidx, ht, hd⟩ := h'.planned l hl
      rw [show j + 1 + i = j + (i + 1) by omega] at hidx hd
      exact ⟨i + 1, hnode, hidx, by simpa using ht, hd⟩
  · rw [List.map_append]
    refine List.nodup_append.2 ⟨h.nodup, h'.nodup, fun a ha b hb hab => ?_⟩
    obtain ⟨l, hl, rfl⟩ := List.mem_map.1 ha
    obtain ⟨l', hl', rfl⟩ := List.mem_map.1 hb
    obtain ⟨i, -, hidx, ht, -⟩ := h.planned l hl
    obtain ⟨i', -, hidx', -⟩ := h'.planned l' hl'
    have hi : i = 0 := by
      cases i with
      | zero => rfl
      | succ i => simp at ht
    have := congrArg Prod.snd hab
    simp only [Link.key] at this
    omega

theorem Planned.nil (s : ParserState) (n : NodeId) (j : ℕ) : Planned s s n j [] [] :=
  ⟨by simp, rfl, fun _ => rfl, fun _ _ _ => rfl, fun i t hi => by simp at hi, fun l hl => by simp at hl, by simp⟩

end Plans

/-! ## The terminator of a block -/

namespace Strung

variable {s t : Cfg} {c last : NodeId} {is : List Instruction} {branching : Bool}

theorem terminal_last (h : Strung s t c last is branching) (hlast : s.Terminal last) (hc : last ≠ c) : t.Terminal last := by
  have hlt := Cfg.kindAt_lt hlast.kind
  exact ⟨by rw [h.oldKind last hlt, hlast.kind], fun i => by rw [h.oldTarget last hlt i (fun hi => hc hi.1), hlast.next i]⟩

theorem dangling_next (h : Strung s t c last is branching) (hlast : s.Terminal last) (hc : last ≠ c) {i : ℕ}
    (hi : i + 1 = is.length) : t.Dangling (s.length + i) 0 :=
  ⟨last, by rw [h.next i (by omega), if_pos hi], h.terminal_last hlast hc⟩

end Strung

/-- No terminator is refused. -/
theorem lookUp_terminator {instr : Instruction} (h : instr.isTerminator = true) (s : ParserState) :
    ∃ op args cs, getOperationFor instr = .ok op ∧ operArgsFor instr = .ok args ∧
      getOperArgsForInstr instr s = .ok args { s with constantValuesToBeCreated := cs } := by
  have hargs : ∃ args, operArgsFor instr = .ok args := by
    unfold Instruction.isTerminator at h
    unfold operArgsFor optionsFor
    cases hop : instr.opcode <;> first | exact ⟨_, rfl⟩ | (rw [hop] at h; cases h)
  have hop : ∃ op, getOperationFor instr = .ok op := by
    unfold Instruction.isTerminator at h
    unfold getOperationFor
    cases hop : instr.opcode <;> first | exact ⟨_, rfl⟩ | (rw [hop] at h; cases h)
  obtain ⟨args, hargs⟩ := hargs
  obtain ⟨op, hop⟩ := hop
  obtain ⟨cs, hcs⟩ := getOperArgsForInstr_ok (s := s) hargs
  exact ⟨op, args, cs, hop, hargs, hcs⟩

section Parser

variable {s₀ : Cfg} {c last : NodeId} {s : ParserState} {b : BasicBlock}

/-- The terminator ends the chain, when it is placed, and its successors are linked or planned. -/
theorem parseTerminator_ok (hc : c < s₀.length) (hlast : s₀.Terminal last) (hne : last ≠ c)
    (hstr : Strung s₀ s.nodes c last b.body false)
    (hmap : ∀ (t : BlockId) (f : NodeId), s.copyMapping[t]? = some f → f < s.nodes.length) :
    ∃ w cs u new, parseTerminator b.terminator (Strung.tip s₀ c b.body) s = .ok () u ∧
      Strung s₀ w c last b.placed (decide (b.followed.length = 2)) ∧
      Planned { s with nodes := w, constantValuesToBeCreated := cs } u (s₀.length + b.body.length) 0 b.followed new := by
  obtain ⟨op, args, cs, hop, hargs, hcs⟩ := lookUp_terminator b.terminator_ends s
  have hk := translate_ok hop hargs
  have hlen : s₀.length + b.body.length = s.nodes.length := by simpa using hstr.length.symm
  have hgrown : ∀ {w : Cfg} {is : List Instruction} {br : Bool}, Strung s₀ w c last (b.body ++ is) br →
      ∀ (t : BlockId) (f : NodeId), s.copyMapping[t]? = some f → f < w.length := fun {w is br} hw t f hf => by
    have h1 := hw.length
    have h2 := hmap t f hf
    simp only [List.length_append] at h1
    lia
  unfold parseTerminator BasicBlock.placed BasicBlock.followed
  rw [hop, bind_of_ok (ofExcept_ok op s), bind_of_ok hcs]
  cases hopc : b.terminator.opcode with
  | ret =>
    rw [hopc] at hk
    obtain ⟨w, hins, hw⟩ := hstr.insertNewAfter hc hk
    exact ⟨w, cs, _, [], bind_of_ok (callCfg_ok (s := { s with constantValuesToBeCreated := cs }) hins), hw,
      Planned.nil _ _ _⟩
  | br target =>
    rw [hopc] at hk
    obtain ⟨w, hins, hw⟩ := hstr.insertNewAfter hc hk
    have hd : w.Dangling (s₀.length + b.body.length) 0 := hw.dangling_next hlast hne (by simp)
    rw [hlen] at hd ⊢
    obtain ⟨u, new, hrun, hplan⟩ := linkWithOrPlanProcessing_ok
      (s := { s with nodes := w, constantValuesToBeCreated := cs }) (by omega) hd target (hgrown hw target)
    refine ⟨w, cs, u, new, ?_, hw, hplan⟩
    simp only
    rw [bind_of_ok (callCfg_ok (s := { s with constantValuesToBeCreated := cs }) hins)]
    exact hrun
  | condBr ifTrue ifFalse =>
    rw [hopc] at hk
    obtain ⟨w, hins, hw⟩ := hstr.insertNewBranchAfter hc hk
    have hd0 : w.Dangling (s₀.length + b.body.length) 0 := hw.dangling_next hlast hne (by simp)
    have hd1 : w.Dangling (s₀.length + b.body.length) 1 := by
      obtain ⟨e, -, hterm, he⟩ := hw.branch rfl
      exact ⟨e, he _ (by simp), hterm⟩
    rw [hlen] at hd0 hd1 ⊢
    obtain ⟨u, new, hrun, hplan⟩ := linkWithOrPlanProcessing_ok
      (s := { s with nodes := w, constantValuesToBeCreated := cs }) (by omega) hd0 ifTrue (hgrown hw ifTrue)
    have hd1' : u.nodes.Dangling s.nodes.length 1 := by
      obtain ⟨e, he, hterm⟩ := hd1
      exact ⟨e, by rw [hplan.target _ _ (by simp)]; exact he,
        hterm.keep (hterm.ne he) hplan.kind (fun k i hk => hplan.target k i (fun h => hk h.1))⟩
    obtain ⟨v, new', hrun', hplan'⟩ := linkWithOrPlanProcessing_ok (s := u) (by omega) hd1' ifFalse (fun f hf => by
      rw [hplan.length]
      rw [hplan.state] at hf
      exact hgrown hw ifFalse f hf)
    refine ⟨w, cs, v, new ++ new', ?_, hw, hplan.cons hplan'⟩
    simp only
    rw [bind_of_ok (callCfg_ok (s := { s with constantValuesToBeCreated := cs }) hins), bind_of_ok hrun]
    exact hrun'
  | _ =>
    exact ⟨s.nodes, cs, _, [], rfl, by simpa [Opcode.isPlaced, Opcode.followed] using hstr, Planned.nil _ _ _⟩

end Parser

/-! ## A whole block -/

/-- The node leads to a terminal one, which is the first node of no block. -/
def ParserState.Ends (s : ParserState) (n : NodeId) : Prop :=
  ∃ e, s.nodes.target n 0 = some e ∧ s.nodes.Terminal e ∧
    ∀ (id : BlockId) (f : NodeId), s.copyMapping[id]? = some f → f ≠ e

theorem ParserState.Ends.dangling {s : ParserState} {n : NodeId} (h : s.Ends n) : s.nodes.Dangling n 0 := by
  obtain ⟨e, he, hterm, -⟩ := h
  exact ⟨e, he, hterm⟩

/-- The block `b` stands from `first` on, with the links in `pend` still to be made: one node after another, the
terminator leading to the first nodes of the blocks followed, a block without any leading to a terminal node. -/
structure Laid (s : ParserState) (pend : List Link) (b : BasicBlock) (first : NodeId) : Prop where
  kind : ∀ i instr, b.placed[i]? = some instr → ∃ k, translate instr = .ok k ∧ s.nodes.kindAt (first + i) = some k
  next : ∀ i, i + 1 < b.placed.length → s.nodes.target (first + i) 0 = some (first + i + 1)
  single : ∀ i < b.placed.length, (i + 1 = b.placed.length → b.followed.length ≠ 2) →
    s.nodes.target (first + i) 1 = none
  out : ∀ (i : ℕ) (t : BlockId), b.followed[i]? = some t →
    (∃ f, s.copyMapping[t]? = some f ∧ s.nodes.target (first + b.body.length) i = some f) ∨
      ⟨t, first + b.body.length, i⟩ ∈ pend
  last : b.followed = [] → ∀ i, i + 1 = b.placed.length → s.Ends (first + i)
  empty : b.placed = [] → s.nodes.Terminal first

/-- Whatever is on the heap stays as it is. -/
structure Cfg.Keeps (s t : Cfg) : Prop where
  length : s.length ≤ t.length
  kind : ∀ n < s.length, t.kindAt n = s.kindAt n
  target : ∀ n < s.length, ∀ i, t.target n i = s.target n i

/-- `t` is `s` with the block `b`, which has been parsed to the node `first`; `new` are the links it planned. -/
structure Parsed (s t : ParserState) (b : BasicBlock) (first : NodeId) (new : List Link) : Prop where
  state : t =
    { s with
      nodes := t.nodes
      constantValuesToBeCreated := t.constantValuesToBeCreated
      parseAndLinkTogether := s.parseAndLinkTogether ++ new
      copyMapping := s.copyMapping.insert b.id first }
  keeps : s.nodes.Keeps t.nodes
  fresh : s.nodes.length ≤ first ∧ first < t.nodes.length ∧ first + b.placed.length ≤ t.nodes.length
  laid : Laid t new b first
  planned : ∀ l ∈ new, l.node = first + b.body.length ∧ b.followed[l.targetIndex]? = some l.block ∧
    t.nodes.Dangling l.node l.targetIndex
  nodup : (new.map Link.key).Nodup
  inner : ∀ n op args instr bp, s.nodes.length ≤ n → t.nodes.kindAt n = some (.inner op args instr bp) →
    first ≤ n ∧ n < first + b.placed.length

/-- `s₀` is `s` with a start node before a terminal one. -/
structure Cfg.Started (s s₀ : Cfg) : Prop where
  keeps : s.Keeps s₀
  length : s₀.length = s.length + 2
  start : s₀.kindAt s.length = some .start
  target : s₀.target s.length 0 = some (s.length + 1)
  terminal : s₀.Terminal (s.length + 1)

theorem createEmpty_ok (s : Cfg) : ∃ s₀, createEmpty s = .ok s.length s₀ ∧ s.Started s₀ := by
  have hkind : ∀ n, ((Cfg.setTarget (s ++ [⟨.start, none, none, []⟩] ++ [⟨.terminal, none, none, []⟩]) s.length
      (s.length + 1) 0).addPrev (s.length + 1) s.length).kindAt n =
      if n = s.length + 1 then some .terminal else if n = s.length then some .start else s.kindAt n := fun n => by
    rw [Cfg.kindAt_addPrev, Cfg.kindAt_setTarget, Cfg.kindAt_append, Cfg.kindAt_append]
    simp
  have htarget : ∀ n i, ((Cfg.setTarget (s ++ [⟨.start, none, none, []⟩] ++ [⟨.terminal, none, none, []⟩]) s.length
      (s.length + 1) 0).addPrev (s.length + 1) s.length).target n i =
      if n = s.length ∧ i = 0 then some (s.length + 1) else s.target n i := fun n i => by
    rw [Cfg.target_addPrev, Cfg.target_setTarget (by simp) _ (by omega), Cfg.target_append, Cfg.target_append]
    refine if_congr Iff.rfl rfl ?_
    have hnone : ∀ k : NodeKind, (⟨k, none, none, []⟩ : Node).target i = none := fun k => by
      unfold Node.target; split <;> rfl
    simp only [List.length_append, List.length_singleton, hnone]
    split
    · exact (Cfg.target_of_le (by lia) i).symm
    · split
      · exact (Cfg.target_of_le (by lia) i).symm
      · rfl
  refine ⟨_, createEmpty_eq s, ⟨by simp, fun n hn => ?_, fun n hn i => ?_⟩, by simp, ?_, ?_, ?_, fun i => ?_⟩
  · rw [hkind, if_neg (by lia), if_neg (by lia)]
  · rw [htarget, if_neg (by lia)]
  · rw [hkind, if_neg (by lia), if_pos rfl]
  · rw [htarget, if_pos ⟨rfl, rfl⟩]
  · rw [hkind, if_pos rfl]
  · rw [htarget, if_neg (by lia)]
    exact Cfg.target_of_le (by lia) i

theorem Llvm.BasicBlock.followed_length (b : BasicBlock) : b.followed.length ≤ 2 := by
  unfold followed Opcode.followed
  split <;> simp

theorem Llvm.BasicBlock.placed_length (b : BasicBlock) : b.placed.length ≤ b.body.length + 1 := by
  unfold placed
  split <;> simp

section Parser

variable {s : ParserState} {b : BasicBlock} {s₀ w : Cfg} {cs : List Llvm.Value} {u : ParserState} {new : List Link}

/-- The strung and linked nodes are the block. -/
theorem laid_of_strung (h₀ : s.nodes.Started s₀)
    (hstr : Strung s₀ w s.nodes.length (s.nodes.length + 1) b.placed (decide (b.followed.length = 2)))
    (hplan : Planned { s with nodes := w, constantValuesToBeCreated := cs } u (s₀.length + b.body.length) 0 b.followed
      new)
    (hb : s.copyMapping[b.id]? = none)
    (hmap : ∀ (t : BlockId) (f : NodeId), s.copyMapping[t]? = some f → f < s.nodes.length) {first : NodeId}
    (hfirst : first = if b.placed = [] then s.nodes.length + 1 else s₀.length) :
    Laid { u with copyMapping := u.copyMapping.insert b.id first } new b first := by
  have hpl := b.placed_length
  have hat : ∀ {i : ℕ}, i < b.placed.length → first = s₀.length := fun {i} hi => by
    rw [hfirst, if_neg (by rintro h; simp [h] at hi)]
  have hcopy : u.copyMapping = s.copyMapping := by rw [hplan.state]
  have hlast : s₀.Terminal (s.nodes.length + 1) := h₀.terminal
  refine ⟨fun i instr hi => ?_, fun i hi => ?_, fun i hi h2 => ?_, fun i t hi => ?_, fun hf i hi => ?_, fun he => ?_⟩
  · obtain ⟨k, hk, hkt⟩ := hstr.kind i instr hi
    refine ⟨k, hk, ?_⟩
    rw [hat (List.getElem?_eq_some_iff.1 hi).1, hplan.kind]
    exact hkt
  · rw [hat hi, hplan.target _ _ (by lia)]
    simp only
    rw [hstr.next i (by omega), if_neg (by omega)]
  · rw [hat hi, hplan.target]
    · exact hstr.single i hi fun hl => by simpa using h2 hl
    · rintro ⟨heq, -, hf⟩
      have hlen := b.followed_length
      have hpl' := b.length_placed_of_followed (by rintro he; simp [he] at hf)
      exact h2 (by lia) (by lia)
  · have hpl' := b.length_placed_of_followed (by rintro he; simp [he] at hi)
    rw [hat (i := b.body.length) (by omega)]
    rcases hplan.linked i t hi with ⟨f, hf, ht⟩ | hnew
    · refine .inl ⟨f, ?_, by simpa using ht⟩
      have hne : b.id ≠ t := by
        rintro rfl
        rw [hb] at hf
        cases hf
      simp only [hcopy]
      rw [Std.TreeMap.getElem?_insert, if_neg (by simpa using hne)]
      exact hf
    · exact .inr (by simpa using hnew)
  · have hterm := hstr.terminal_last hlast (by lia)
    have hsame : ∀ k i, u.nodes.target k i = w.target k i := fun k i => hplan.target k i (by simp [hf])
    refine ⟨s.nodes.length + 1, ?_, ?_, fun id f hid => ?_⟩
    · rw [hat (i := i) (by omega)]
      refine (hsame _ _).trans ?_
      rw [hstr.next i (by omega), if_pos hi]
    · exact ⟨(hplan.kind _).trans hterm.kind, fun i => (hsame _ i).trans (hterm.next i)⟩
    · -- the blocks parsed before lie below, and this one begins behind its own terminal node
      simp only [hcopy] at hid
      rw [Std.TreeMap.getElem?_insert] at hid
      split at hid
      · have h1 := hat (i := i) (by omega)
        have h2 := h₀.length
        cases hid
        lia
      · have := hmap id f hid
        lia
  · have hterm := hstr.terminal_last hlast (by lia)
    have hf : b.followed = [] := by
      by_contra hf
      rw [b.placed_of_followed hf] at he
      simp at he
    rw [hfirst, if_pos he]
    exact ⟨(hplan.kind _).trans hterm.kind, fun i => (hplan.target _ i (by simp [hf])).trans (hterm.next i)⟩

/-- The inner nodes behind the old heap are those of the placed instructions. -/
theorem inner_of_strung (h₀ : s.nodes.Started s₀)
    (hstr : Strung s₀ w s.nodes.length (s.nodes.length + 1) b.placed (decide (b.followed.length = 2))) {n : NodeId}
    (hn : s.nodes.length ≤ n) {op : Operation} {args : OperationArgs} {instr : Instruction} {bp : Bool}
    (hk : w.kindAt n = some (.inner op args instr bp)) : s₀.length ≤ n ∧ n < s₀.length + b.placed.length := by
  have hl₀ := h₀.length
  have hlw := hstr.length
  have hlt := Cfg.kindAt_lt hk
  have hne1 : n ≠ s.nodes.length := by
    rintro rfl
    rw [hstr.oldKind _ (by omega), h₀.start] at hk
    cases hk
  have hne2 : n ≠ s.nodes.length + 1 := by
    rintro rfl
    rw [hstr.oldKind _ (by omega), h₀.terminal.kind] at hk
    cases hk
  refine ⟨by lia, ?_⟩
  by_contra hge
  -- what follows the instructions of a branching chain is a terminal node
  have hbr : (decide (b.followed.length = 2)) = true := by
    by_contra hbr
    rw [if_neg hbr] at hlw
    lia
  obtain ⟨e, he, hterm, -⟩ := hstr.branch hbr
  rw [if_pos hbr] at hlw
  obtain rfl : n = e := by lia
  rw [hterm.kind] at hk
  cases hk

/-- The heap behind the strung and linked nodes. -/
theorem parsed_of_strung (h₀ : s.nodes.Started s₀)
    (hstr : Strung s₀ w s.nodes.length (s.nodes.length + 1) b.placed (decide (b.followed.length = 2)))
    (hplan : Planned { s with nodes := w, constantValuesToBeCreated := cs } u (s₀.length + b.body.length) 0 b.followed
      new)
    (hb : s.copyMapping[b.id]? = none)
    (hmap : ∀ (t : BlockId) (f : NodeId), s.copyMapping[t]? = some f → f < s.nodes.length) :
    ∃ first, u.nodes.target s.nodes.length 0 = some first ∧
      Parsed s { u with copyMapping := u.copyMapping.insert b.id first } b first new := by
  have hl₀ := h₀.length
  have hlw := hstr.length
  have hlu : u.nodes.length = w.length := hplan.length
  have hpl := b.placed_length
  have hentry : u.nodes.target s.nodes.length 0 =
      some (if b.placed = [] then s.nodes.length + 1 else s₀.length) := by
    rw [hplan.target _ _ (by lia)]
    exact hstr.entry
  refine ⟨_, hentry, ?_, ⟨?_, fun n hn => ?_, fun n hn i => ?_⟩, ?_, laid_of_strung h₀ hstr hplan hb hmap rfl, fun l hl => ?_,
    hplan.nodup, fun n op args instr bp hn hk => ?_⟩
  · have hu := hplan.state
    rw [hu]
  · simp only
    omega
  · simp only
    rw [hplan.kind]
    exact (hstr.oldKind n (by omega)).trans (h₀.keeps.kind n hn)
  · simp only
    rw [hplan.target n i (by lia)]
    exact (hstr.oldTarget n (by omega) i (by omega)).trans (h₀.keeps.target n hn i)
  · simp only
    split
    · rename_i he
      rw [he] at hlw ⊢
      simp only [List.length_nil] at hlw ⊢
      lia
    · rename_i he
      have := List.length_pos_iff.2 he
      lia
  · obtain ⟨i, hnode, hidx, ht, hd⟩ := hplan.planned l hl
    have hi := b.length_placed_of_followed (by rintro he; simp [he] at ht)
    rw [Nat.zero_add] at hidx hd
    rw [if_neg (by rintro he; simp [he] at hi), hidx]
    exact ⟨hnode, ht, by rw [hnode]; exact hd⟩
  · simp only at hk
    rw [hplan.kind] at hk
    simp only at hk
    obtain ⟨hge, hlt⟩ := inner_of_strung h₀ hstr hn hk
    have hpos : b.placed ≠ [] := by
      rintro he
      simp only [he, List.length_nil] at hlt
      lia
    rw [if_neg hpos]
    lia

/-- A block that is not parsed yet is parsed now, unless an instruction before its terminator has no operation. -/
theorem parseNewBlock_cases (hmap : ∀ (t : BlockId) (f : NodeId), s.copyMapping[t]? = some f → f < s.nodes.length)
    (hb : s.copyMapping[b.id]? = none) :
    (∃ first new t, parseNewBlock b s = .ok first t ∧ Parsed s t b first new) ∨
      (∃ i ∈ b.body, ∃ e t, translate i = .error e ∧ parseNewBlock b s = .error e t) := by
  obtain ⟨s₀, hempty, h₀⟩ := createEmpty_ok s.nodes
  have hl₀ := h₀.length
  have hc : s.nodes.length < s₀.length := by omega
  unfold parseNewBlock
  rw [bind_of_ok (callCfg_ok hempty)]
  rcases parseBody_cases hc b.body [] { s with nodes := s₀ } b.body_plain (Strung.nil h₀.target) with
    ⟨t, cs, hrun, hstr⟩ | ⟨i, hi, e, t, he, hrun⟩
  · obtain ⟨w, cs', u, new, hterm, hstr', hplan⟩ := parseTerminator_ok (s := { s with nodes := t, constantValuesToBeCreated := cs })
      hc h₀.terminal (by lia) hstr (fun t' f hf => by
        have h1 := hmap t' f hf
        have h2 := hstr.length
        simp only at h2 ⊢
        lia)
    obtain ⟨first, hfirst, hparsed⟩ := parsed_of_strung h₀ hstr' hplan hb hmap
    obtain ⟨x, hx, hnext⟩ := exists_of_target hfirst
    have hget : getNext s.nodes.length u.nodes = .ok first u.nodes := by
      unfold getNext
      rw [bind_of_ok (nodeAt_ok hx), show x.next = some first from hnext]
      rfl
    refine .inl ⟨first, new, _, ?_, hparsed⟩
    rw [List.nil_append] at hrun
    rw [show Strung.tip s₀ s.nodes.length [] = s.nodes.length from rfl] at hrun
    rw [bind_of_ok hrun, bind_of_ok hterm, bind_of_ok (callCfg_ok hget)]
    rfl
  · exact .inr ⟨i, hi, e, t, he, bind_of_error hrun⟩

end Parser

end Angie
