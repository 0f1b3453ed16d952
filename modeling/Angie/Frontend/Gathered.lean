import Angie.Frontend.Invariants

/-!
# What the parser has gathered

When `ParseModule` has worked off its queue, the blocks stand on the heap and the functions are registered
(`ParserOk`, `Registered`). Besides, the constants that it has collected are those among the operands of the blocks
that it parsed, nothing but functions and the arguments of `__entry` has a value (`Gathered`), and the first node of
`__entry` still calls `main` and leads to the second (`Entered`). This is what a parsed module and its graph have to do
with each other (`parseModule_ok`).
-/

namespace Angie

open Exec Llvm

/-! ## Constants and values -/

/-- In the midst of a block, `is` are its instructions that were looked at. -/
structure Gathered (m : Module) (e : EntryFunction) (is : List Instruction) (s : ParserState) : Prop where
  block : ∀ b ∈ m.blocks, s.copyMapping.contains b.id = true → ∀ i ∈ b.instructions, ∀ x ∈ i.operands,
    x.isConstant = true → x ∈ s.constantValuesToBeCreated
  seen : ∀ i ∈ is, ∀ x ∈ i.operands, x.isConstant = true → x ∈ s.constantValuesToBeCreated
  constants : ∀ x ∈ s.constantValuesToBeCreated, x.isConstant = true ∧ ∃ i, m.Contains i ∧ x ∈ i.operands
  keys : ∀ id : FrontendId, s.mapper.contains id = true → m.Names e id
  handles : ∀ (vid : ValueId) handle, s.fmap[vid]? = some handle → ∃ f entry, m.Defines f entry ∧
    s.mapper[f.id]? = some vid

section Gathered

variable {m : Module} {e : EntryFunction} {is : List Instruction} {s t : ParserState}

theorem gathered_new (vc : VcState) : Gathered m e [] (.new vc) where
  block := by simp [ParserState.new]
  seen := nofun
  constants := nofun
  keys := by simp [ParserState.new]
  handles := by simp [ParserState.new]

/-- One more instruction is looked at. -/
theorem Gathered.instruction (h : Gathered m e is s) {i : Instruction} (hi : m.Contains i) :
    Gathered m e (is ++ [i])
      { s with constantValuesToBeCreated := s.constantValuesToBeCreated ++ i.operands.filter (·.isConstant) } where
  block b hb hid j hj x hx hconst := List.mem_append_left _ (h.block b hb hid j hj x hx hconst)
  seen := by
    intro j hj x hx hconst
    rcases List.mem_append.1 hj with hj | hj
    · exact List.mem_append_left _ (h.seen j hj x hx hconst)
    · obtain rfl := List.mem_singleton.1 hj
      exact List.mem_append_right _ (List.mem_filter.2 ⟨hx, hconst⟩)
  constants := by
    intro x hx
    rcases List.mem_append.1 hx with hx | hx
    · exact h.constants x hx
    · obtain ⟨hx, hconst⟩ := List.mem_filter.1 hx
      exact ⟨hconst, i, hi, hx⟩
  keys := h.keys
  handles := h.handles

/-- The block has been looked at to its end. -/
theorem Gathered.parsed {b : BasicBlock} (h : Gathered m e b.instructions s) (hb : m.block? b.id = some b)
    (first : NodeId) : Gathered m e [] { s with copyMapping := s.copyMapping.insert b.id first } where
  block := by
    intro b' hb' hid
    rw [Std.TreeMap.contains_insert] at hid
    rcases Bool.or_eq_true_iff.1 hid with hid | hid
    · have heq : b.id = b'.id := by simpa using hid
      have hsame := Module.block?_of_mem hb'
      rw [← heq, hb] at hsame
      cases hsame
      exact h.seen
    · exact h.block b' hb' hid
  seen := nofun
  constants := h.constants
  keys := h.keys
  handles := h.handles

/-- Only what has a name gets a value. -/
theorem Gathered.value {arg : FrontendIdTypePair} {v : ValueId} (h : Gathered m e [] s) (harg : m.Names e arg.id)
    (hrun : createOrGetValueId arg s = .ok v t) : Gathered m e [] t := by
  rcases createOrGetValueId_cases arg s with ⟨w, -, heq⟩ | ⟨hnone, heq⟩
  · cases heq.symm.trans hrun
    exact h
  · cases heq.symm.trans hrun
    refine ⟨h.block, h.seen, h.constants, fun id hid => ?_, fun vid handle hhandle => ?_⟩
    · rw [Std.TreeMap.contains_insert] at hid
      rcases Bool.or_eq_true_iff.1 hid with hid | hid
      · have heq : arg.id = id := by simpa using hid
        exact heq ▸ harg
      · exact h.keys id hid
    · obtain ⟨f, entry, hf, hvid⟩ := h.handles vid handle hhandle
      refine ⟨f, entry, hf, ?_⟩
      dsimp only
      rw [Std.TreeMap.getElem?_insert, if_neg]
      · exact hvid
      · intro heq
        have hid : arg.id = f.id := by simpa using heq
        rw [← hid, hnone] at hvid
        cases hvid

/-- Only what is defined gets a handle. -/
theorem Gathered.function {f : Function} {entry : BasicBlock} {vid : ValueId} (h : Gathered m e [] s)
    (hf : m.Defines f entry) (hvid : s.mapper[f.id]? = some vid) (first : NodeId) :
    Gathered m e [] { s with fmap := s.fmap.insertIfNew vid (f.handle first) } where
  block := h.block
  seen := h.seen
  constants := h.constants
  keys := h.keys
  handles := by
    intro v handle hhandle
    dsimp only at hhandle ⊢
    rw [Std.TreeMap.getElem?_insertIfNew] at hhandle
    split at hhandle
    · rename_i hv
      obtain rfl : vid = v := by simpa using hv.1
      exact ⟨f, entry, hf, hvid⟩
    · exact h.handles v handle hhandle

theorem gathered_invariant : ParserInvariant m e (Gathered m e) where
  nodes h _ := ⟨h.block, h.seen, h.constants, h.keys, h.handles⟩
  queue h _ := ⟨h.block, h.seen, h.constants, h.keys, h.handles⟩
  instruction h _ hi := h.instruction hi
  block h hb first := h.parsed hb first
  value h harg hrun := h.value harg hrun
  function h hf hvid first := h.function hf hvid first
  main h _ := ⟨h.block, h.seen, h.constants, h.keys, h.handles⟩
  entry h _ := ⟨h.block, h.seen, h.constants, h.keys, h.handles⟩

end Gathered

/-! ## The entry -/

/-- Every parameter of `main` has an argument of `__entry`, in whose place it is. -/
structure MainArgs (e : EntryFunction) (s : ParserState) (params : List Param) (args : OperationArgs) : Prop where
  length : args.length = params.length
  value : ∀ arg ∈ args, ∃ a ∈ e.args, arg = .idTypePair a ∧ s.mapper.contains a.id = true

/-- The node `call` calls `main`, and leads to the node behind it. -/
structure Entered (m : Module) (e : EntryFunction) (s : ParserState) (call : NodeId) : Prop where
  entry : s.entryPointCfg = some call
  main : ∃ f args, m.getFunction "main" = some f ∧ s.mapper.contains f.id = true ∧ MainArgs e s f.args args ∧
    s.nodes.kindAt call = some (.inner .call (OperArg.empty :: .idTypePair ⟨f.id, .ptr .func⟩ :: args) e.mainCall false)
  next : s.nodes.target call 0 = some (call + 1)
  fin : s.nodes.kindAt (call + 1) = some (.inner .terminate [OperArg.empty] e.finCall false)
  stop : ∀ k n, s.nodes.target (call + 1) k = some n → s.nodes.kindAt n = some .terminal

section Entered

variable {m : Module} {e : EntryFunction} {s t : ParserState} {call : NodeId}

/-- It stays as it is while the nodes and the values do. -/
theorem Entered.keep (h : Entered m e s call) (he : t.entryPointCfg = s.entryPointCfg)
    (hkind : ∀ n k, s.nodes.kindAt n = some k → t.nodes.kindAt n = some k)
    (htarget : ∀ n, n = call ∨ n = call + 1 → ∀ k, t.nodes.target n k = s.nodes.target n k)
    (hm : ∀ id : FrontendId, s.mapper.contains id = true → t.mapper.contains id = true) : Entered m e t call where
  entry := he.trans h.entry
  main := by
    obtain ⟨f, args, hf, hvalue, hargs, hk⟩ := h.main
    refine ⟨f, args, hf, hm _ hvalue, ⟨hargs.length, fun arg harg => ?_⟩, hkind _ _ hk⟩
    obtain ⟨a, ha, heq, hid⟩ := hargs.value arg harg
    exact ⟨a, ha, heq, hm _ hid⟩
  next := (htarget call (Or.inl rfl) 0).trans h.next
  fin := hkind _ _ h.fin
  stop k n hn := hkind _ _ (h.stop k n ((htarget _ (Or.inr rfl) k).symm.trans hn))

theorem Cfg.Keeps.kind_some {s t : Cfg} (h : s.Keeps t) {n : NodeId} {k : NodeKind} (hk : s.kindAt n = some k) :
    t.kindAt n = some k := (h.kind n (Cfg.kindAt_lt hk)).trans hk

theorem Entered.node_next (h : Entered m e s call) {x : Node} (hx : s.nodes[call]? = some x) :
    x.next = some (call + 1) := by
  obtain ⟨y, hy, hnext⟩ := exists_of_target h.next
  cases hx.symm.trans hy
  exact hnext

/-- A pending link begins at a branch. -/
theorem Pending.branch {l : Link} {b : BasicBlock} {first : NodeId} {pend : List Link} (hl : Pending m s l b first)
    (hok : ParserOk m pend s) : ∃ op args i bp, s.nodes.kindAt l.node = some (.inner op args i bp) ∧
      (op = .noop ∨ op = .br) := by
  have hlast : b.placed[b.body.length]? = some b.terminator := by
    rw [b.placed_of_followed (by rintro he; have := hl.block; simp [he] at this)]
    simp
  obtain ⟨k, hk, hkind⟩ := (hok.laid b first hl.stands).kind _ _ hlast
  rw [hl.node]
  have hblock := hl.block
  unfold BasicBlock.followed at hblock
  cases hopc : b.terminator.opcode with
  | br | condBr =>
    simp only [translate, getOperationFor, operArgsFor, optionsFor, hopc] at hk
    cases hk
    exact ⟨_, _, _, _, hkind, by simp⟩
  | _ => rw [hopc] at hblock; cases hblock

/-- A pending link does not begin there. -/
theorem Entered.link {l : Link} {b : BasicBlock} {first f : NodeId} {pend : List Link} (h : Entered m e s call)
    (hok : ParserOk m pend s) (hl : Pending m s l b first) : Entered m e (s.link l f) call := by
  obtain ⟨op, args, i, bp, hkind, hop⟩ := hl.branch hok
  refine h.keep rfl (fun n k hk => (kindAt_link s l f n).trans hk) (fun n hn k => ?_) fun _ hid => hid
  rw [hl.target_link, if_neg]
  rintro ⟨rfl, -⟩
  rcases hn with hn | hn
  · obtain ⟨f, args', -, -, -, hcall⟩ := h.main
    rw [hn, hcall] at hkind
    cases hkind
    exact hop.elim nofun nofun
  · rw [hn, h.fin] at hkind
    cases hkind
    exact hop.elim nofun nofun

theorem mainArgs_ok : ∀ (params : List Param) (args : List FrontendIdTypePair) {s t : ParserState} {ops : OperationArgs},
    args ⊆ e.args → mainArgs params args s = .ok ops t → MainArgs e t params ops ∧
      ∀ id : FrontendId, s.mapper.contains id = true → t.mapper.contains id = true
  | [], _, s, t, ops, _, h => by
    cases h
    exact ⟨⟨rfl, nofun⟩, fun _ hid => hid⟩
  | _ :: _, [], _, _, _, _, h => by cases h
  | _ :: params, arg :: args, s, t, ops, hsub, h => by
    unfold mainArgs at h
    obtain ⟨v, u, hrun, h⟩ := bind_ok h
    obtain ⟨rest, u', hrest, h⟩ := bind_ok h
    cases h
    obtain ⟨hargs, hmono⟩ := mainArgs_ok params args (fun _ ha => hsub (List.mem_cons_of_mem _ ha)) hrest
    obtain ⟨hself, hold⟩ : u.mapper.contains arg.id = true ∧
        ∀ id : FrontendId, s.mapper.contains id = true → u.mapper.contains id = true := by
      rcases createOrGetValueId_cases arg s with ⟨w, hw, heq⟩ | ⟨-, heq⟩
      · cases heq.symm.trans hrun
        exact ⟨by rw [Std.TreeMap.contains_eq_isSome_getElem?, hw]; rfl, fun _ hid => hid⟩
      · cases heq.symm.trans hrun
        exact ⟨by simp, fun id hid => by simp [hid]⟩
    refine ⟨⟨by rw [List.length_cons, List.length_cons, hargs.length], fun a ha => ?_⟩, fun id hid => hmono id (hold id hid)⟩
    rcases List.mem_cons.1 ha with rfl | ha
    · exact ⟨arg, hsub List.mem_cons_self, rfl, hmono _ hself⟩
    · exact hargs.value a ha

theorem findMain_ok {f : Function} {handle : FunctionHandle} (h : findMain m s = .ok (f, handle) t) :
    m.getFunction "main" = some f ∧ t.mapper.contains f.id = true := by
  unfold findMain at h
  cases hf : m.getFunction "main" with
  | none => rw [hf] at h; cases h
  | some g =>
    rw [hf] at h
    dsimp only at h
    rw [bind_of_ok (get_apply s)] at h
    cases hvid : s.mapper[g.id]? with
    | none => rw [hvid] at h; cases h
    | some vid =>
      rw [hvid] at h
      dsimp only at h
      rw [bind_of_ok (get_apply s)] at h
      cases hfmap : s.fmap[vid]? with
      | none => rw [hfmap] at h; cases h
      | some handle =>
        rw [hfmap] at h
        cases h
        exact ⟨rfl, by rw [Std.TreeMap.contains_eq_isSome_getElem?, hvid]; rfl⟩

/-- What `prependEntry` leaves. -/
theorem prependEntry_ok {f : Function} (hf : m.getFunction "main" = some f) (hvalue : s.mapper.contains f.id = true)
    (h : prependEntry e f s = .ok () t) : ∃ call, Entered m e t call := by
  unfold prependEntry at h
  obtain ⟨args, u, hargs, h⟩ := bind_ok h
  obtain ⟨s₁, hempty, h₁⟩ := createEmpty_ok u.nodes
  rw [bind_of_ok (callCfg_ok hempty)] at h
  obtain ⟨s₂, hcall, hl₂, hk₂, ht₂⟩ := insertNewAfter_ok h₁.target .call
    (OperArg.empty :: .idTypePair ⟨f.id, .ptr .func⟩ :: args) e.mainCall false
  have hnext : s₂.target s₁.length 0 = some (u.nodes.length + 1) := by
    rw [ht₂, if_neg (by have := h₁.length; lia), if_pos rfl, if_pos rfl]
  obtain ⟨s₃, hfin, hl₃, hk₃, ht₃⟩ := insertNewAfter_ok hnext .terminate [OperArg.empty] e.finCall false
  rw [bind_of_ok (callCfg_ok hcall), bind_of_ok (modify_apply _ _), bind_of_ok (callCfg_ok hfin)] at h
  cases h
  obtain ⟨hmain, hmono⟩ := mainArgs_ok _ _ (List.Subset.refl _) hargs
  refine ⟨s₁.length, rfl, ⟨f, args, hf, hmono _ hvalue, ⟨hmain.length, hmain.value⟩, ?_⟩, ?_, ?_, ?_⟩
  · dsimp only
    rw [hk₃, if_neg (by lia), hk₂, if_pos rfl]
  · dsimp only
    rw [ht₃, if_pos ⟨rfl, rfl⟩, hl₂]
  · dsimp only
    rw [hk₃, if_pos hl₂.symm]
  · intro k n hn
    dsimp only at hn ⊢
    rw [ht₃, if_neg (by lia), if_pos hl₂.symm] at hn
    split at hn
    · cases hn
      have hl₁ := h₁.length
      rw [hk₃, if_neg (by lia), hk₂, if_neg (by lia), h₁.terminal.kind]
    · cases hn

/-! ## Modules -/

theorem parsePrologue_ok {vc : VcState} (h : parsePrologue m e (.new vc) = .ok () t) :
    Begun m t ∧ ∃ call, Entered m e t call := by
  constructor
  · rcases parsePrologue_cases m e vc with ⟨t', hrun, hbegun⟩ | ⟨x, t', hrun, -⟩
    · cases hrun.symm.trans h
      exact hbegun
    · cases hrun.symm.trans h
  · unfold parsePrologue at h
    split at h
    · cases h
    · obtain ⟨_, u, -, h⟩ := bind_ok h
      obtain ⟨⟨f, handle⟩, u', hfind, h⟩ := bind_ok h
      obtain ⟨hf, hvalue⟩ := findMain_ok hfind
      obtain ⟨_, w, hmodify, h⟩ := bind_ok h
      cases (modify_apply _ u').symm.trans hmodify
      refine prependEntry_ok hf ?_ h
      exact hvalue

theorem parseBasicBlock_keeps {pend : List Link} (h : ParserOk m pend s) {id : BlockId} {first : NodeId}
    (hrun : parseBasicBlock m id s = .ok first t) : s.nodes.Keeps t.nodes := by
  unfold parseBasicBlock at hrun
  rw [bind_of_ok (get_apply s)] at hrun
  cases hid : s.copyMapping[id]? with
  | some node =>
    rw [hid] at hrun
    cases hrun
    exact Cfg.Keeps.refl _
  | none =>
    rw [hid] at hrun
    cases hb : m.block? id with
    | none => rw [hb] at hrun; cases hrun
    | some b =>
      rw [hb] at hrun
      obtain ⟨-, rfl⟩ := Module.block?_some hb
      rcases parseNewBlock_cases (fun _ _ hf => h.mapped_lt hf) hid with ⟨_, _, t', hrun', hp⟩ | ⟨_, _, _, t', -, hrun'⟩
      · cases hrun'.symm.trans hrun
        exact hp.keeps
      · cases hrun'.symm.trans hrun

/-- The loop over the queue, however many rounds it takes. -/
theorem queueLoop_ok : ∀ (n : ℕ) {s t : ParserState}, ParserOk m s.parseAndLinkTogether s → Entered m e s call →
    queueLoop m n s = .ok () t → ParserOk m t.parseAndLinkTogether t ∧ Entered m e t call ∧ SameFunctions s t
  | 0, s, t, h, he, hrun => by
    cases hrun
    exact ⟨h, he, SameFunctions.refl s⟩
  | n + 1, s, t, h, he, hrun => by
    unfold queueLoop at hrun
    rw [bind_of_ok (get_apply s)] at hrun
    cases hq : s.parseAndLinkTogether with
    | nil =>
      rw [hq] at hrun
      cases hrun
      exact ⟨h, he, SameFunctions.refl s⟩
    | cons l rest =>
      rw [hq] at hrun h
      obtain ⟨b, first, hl⟩ := h.pending l List.mem_cons_self
      have hpop : ParserOk m (l :: rest) { s with parseAndLinkTogether := rest } := h.congr rfl rfl rfl
      have hpop' : Entered m e { s with parseAndLinkTogether := rest } call := he.keep rfl (fun _ _ hk => hk)
        (fun _ _ _ => rfl) fun _ hid => hid
      dsimp only at hrun
      rw [bind_of_ok (modify_apply _ s)] at hrun
      obtain ⟨f, u, hblock, hrun⟩ := bind_ok hrun
      have hkeeps := parseBasicBlock_keeps hpop hblock
      rcases parseBasicBlock_cases hpop (hl.reachable h) with
        ⟨f', new, u', hblock', hok, hqueue, hf, hsame, -⟩ | ⟨_, u', hblock', -⟩
      · cases hblock'.symm.trans hblock
        obtain ⟨b', first', hl'⟩ := hok.pending l List.mem_cons_self
        have hu : Entered m e u call := hpop'.keep hsame.entryPointCfg (fun _ _ hk => hkeeps.kind_some hk)
          (fun n hn k => hkeeps.target n (hn.elim (· ▸ Cfg.target_lt hpop'.next) (· ▸ Cfg.kindAt_lt hpop'.fin)) k)
          fun _ hid => hsame.mapper ▸ hid
        have hok' : ParserOk m (u.link l f).parseAndLinkTogether (u.link l f) := by
          rw [show (u.link l f).parseAndLinkTogether = rest ++ new from hqueue]
          exact hok.link hf
        rw [bind_of_ok (hl'.linkTogether (hok.mapped_lt hf))] at hrun
        obtain ⟨ht, ht', hsame'⟩ := queueLoop_ok n hok' (hu.link hok hl') hrun
        have hlinked : SameFunctions u (u.link l f) := ⟨rfl, rfl, rfl, rfl, rfl, fun _ _ hc => hc⟩
        have hpopped : SameFunctions s { s with parseAndLinkTogether := rest } :=
          ⟨rfl, rfl, rfl, rfl, rfl, fun _ _ hc => hc⟩
        exact ⟨ht, ht', hpopped.trans (hsame.trans (hlinked.trans hsame'))⟩
      · cases hblock'.symm.trans hblock

/-- A module that was parsed, with its graph. -/
structure ModuleParsed (m : Module) (e : EntryFunction) (t : ParserState) : Prop where
  ok : ParserOk m [] t
  registered : ∀ f entry, m.Defines f entry → Registered t f entry
  entered : ∃ call, Entered m e t call
  gathered : Gathered m e [] t

/-- A handle is the one of a function that is defined. -/
theorem ModuleParsed.handle (h : ModuleParsed m e t) {vid : ValueId} {handle : FunctionHandle}
    (hhandle : t.fmap[vid]? = some handle) : ∃ f entry first, m.Defines f entry ∧
      t.copyMapping[entry.id]? = some first ∧ handle = f.handle first := by
  obtain ⟨f, entry, hf, hvid⟩ := h.gathered.handles vid handle hhandle
  obtain ⟨vid', first, hvid', hfunc, hfirst⟩ := h.registered f entry hf
  cases hvid'.symm.trans hvid
  cases hfunc.symm.trans hhandle
  exact ⟨f, entry, first, hf, hfirst, rfl⟩

theorem parseModule_ok {vc : VcState} {n : ℕ} (h : parseModule m e n (.new vc) = .ok () t)
    (hempty : t.parseAndLinkTogether = []) : ModuleParsed m e t := by
  have hgathered := (gathered_invariant.parseModule n).ok (gathered_new vc) h
  obtain ⟨_, s, hprologue, hloop⟩ := bind_ok h
  obtain ⟨hbegun, call, hentered⟩ := parsePrologue_ok hprologue
  obtain ⟨hok, hentered', hsame⟩ := queueLoop_ok n hbegun.ok hentered hloop
  exact ⟨hempty ▸ hok, fun f entry hf => hsame.registered (hbegun.registered f entry hf), ⟨call, hentered'⟩, hgathered⟩

end Entered

end Angie
