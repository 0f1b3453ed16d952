import Angie.Frontend.Worklist
import Angie.Values.Constants

/-!
# Functions and the entry

What precedes the loop over the queue: every defined function is registered under a value id of its own with the first
node of its entry block (`Registered`, `parseFunctions_cases`), `main` is found (`findMain_cases`) and called from an
entry of its own (`prependEntry_cases`). What goes wrong is `Module.Rejects`, a property of the module.
-/

namespace Angie

open Exec Llvm

/-- A function without blocks is a declaration. -/
theorem Llvm.Function.isDeclaration_iff (f : Function) : f.isDeclaration = true ↔ f.blocks.head? = none := by
  unfold isDeclaration
  cases f.blocks <;> simp

/-- The function can be looked up by its value, and leads to its entry block. -/
def Registered (s : ParserState) (f : Function) (entry : BasicBlock) : Prop :=
  ∃ vid first, s.mapper[f.id]? = some vid ∧ s.fmap[vid]? = some (f.handle first) ∧
    s.copyMapping[entry.id]? = some first

/-- The state after the functions `done`. -/
structure Registering (m : Module) (done : List Function) (s : ParserState) : Prop where
  ok : ParserOk m s.parseAndLinkTogether s
  keys : ∀ (id : FrontendId) (v : ValueId), s.mapper[id]? = some v → ∃ f ∈ done, f.id = id ∧ f.blocks.head? ≠ none
  ids : ∀ (v : ValueId) (h : FunctionHandle), s.fmap[v]? = some h → v < s.statics.nextIdToGive
  registered : ∀ f ∈ done, ∀ entry, f.blocks.head? = some entry → Registered s f entry
  bound : potential m s ≤ 3 * m.blocks.length
  entry : s.entryPointCfg = none

section Functions

variable {m : Module} {s t : ParserState}

theorem Registered.mono {f : Function} {entry : BasicBlock} (h : Registered s f entry)
    (hm : ∀ (id : FrontendId) (v : ValueId), s.mapper[id]? = some v → t.mapper[id]? = some v)
    (hf : ∀ (v : ValueId) (h : FunctionHandle), s.fmap[v]? = some h → t.fmap[v]? = some h)
    (hc : ∀ (id : BlockId) (n : NodeId), s.copyMapping[id]? = some n → t.copyMapping[id]? = some n) :
    Registered t f entry := by
  obtain ⟨vid, first, h1, h2, h3⟩ := h
  exact ⟨vid, first, hm _ _ h1, hf _ _ h2, hc _ _ h3⟩

theorem SameFunctions.registered (h : SameFunctions s t) {f : Function} {entry : BasicBlock}
    (hr : Registered s f entry) : Registered t f entry :=
  hr.mono (fun _ _ hv => h.mapper ▸ hv) (fun _ _ hv => h.fmap ▸ hv) h.copyMapping

/-- A frontend id keeps its value, or takes the next one. -/
theorem createOrGetValueId_cases (arg : FrontendIdTypePair) (s : ParserState) :
    (∃ v, s.mapper[arg.id]? = some v ∧ createOrGetValueId arg s = .ok v s) ∨
    (s.mapper[arg.id]? = none ∧ createOrGetValueId arg s = .ok s.statics.nextIdToGive
      { s with
        statics := { s.statics with nextIdToGive := s.statics.nextIdToGive + 1 }
        mapper := s.mapper.insert arg.id s.statics.nextIdToGive }) := by
  unfold createOrGetValueId
  rw [bind_of_ok (get_apply s)]
  cases hid : s.mapper[arg.id]? with
  | some v => exact .inl ⟨v, rfl, rfl⟩
  | none => exact .inr ⟨rfl, rfl⟩

/-! ## The loop over the functions -/

/-- `emplace` at a key that is free. -/
theorem getElem?_emplace {fmap : FuncMapper} {vid : ValueId} (hfree : fmap[vid]? = none) (g : FunctionHandle)
    (v : ValueId) : (fmap.insertIfNew vid g)[v]? = if vid = v then some g else fmap[v]? := by
  rw [Std.TreeMap.getElem?_insertIfNew]
  by_cases hv : vid = v
  · subst hv
    have hmem : vid ∉ fmap := by
      rw [Std.TreeMap.mem_iff_isSome_getElem?, hfree]
      simp
    simp [hmem]
  · simp [hv]

/-- A function whose id is new has no value yet. -/
theorem Registering.mapper_none {done : List Function} {f : Function} (h : Registering m done s)
    (hf : ∀ f' ∈ done, f'.id ≠ f.id) : s.mapper[f.id]? = none := by
  cases hv : s.mapper[f.id]? with
  | none => rfl
  | some v =>
    obtain ⟨f', hf', hid, -⟩ := h.keys f.id v hv
    exact absurd hid (hf f' hf')

/-- The next value is not the one of a function. -/
theorem Registering.fmap_none {done : List Function} (h : Registering m done s) :
    s.fmap[s.statics.nextIdToGive]? = none := by
  cases hv : s.fmap[s.statics.nextIdToGive]? with
  | none => rfl
  | some v =>
    have := h.ids _ v hv
    lia

/-- A function that is registered for the first time gets a value id that no other function has. -/
theorem Registering.register {done : List Function} {f : Function} {entry : BasicBlock} {first : NodeId}
    (h : Registering m done s) (hf : ∀ f' ∈ done, f'.id ≠ f.id) (he : f.blocks.head? = some entry)
    (hfirst : s.copyMapping[entry.id]? = some first) :
    ∃ t, (do
        let vid ← createOrGetValueId ⟨f.id, .ptr .func⟩
        modify fun s => { s with fmap := s.fmap.insertIfNew vid (f.handle first) } : ParserM Unit) s = .ok () t ∧
      Registering m (done ++ [f]) t := by
  have hnone := h.mapper_none hf
  have hfree := h.fmap_none
  rcases createOrGetValueId_cases ⟨f.id, .ptr .func⟩ s with ⟨v, hv, -⟩ | ⟨-, hrun⟩
  · rw [hnone] at hv
    cases hv
  have hfmap := getElem?_emplace hfree (f.handle first)
  have hmapper : ∀ id : FrontendId, (s.mapper.insert f.id s.statics.nextIdToGive)[id]? =
      if f.id = id then some s.statics.nextIdToGive else s.mapper[id]? := fun id => by
    rw [Std.TreeMap.getElem?_insert]
    simp
  refine ⟨_, (bind_of_ok hrun).trans (modify_apply _ _), ?_⟩
  refine ⟨h.ok.congr rfl rfl rfl, fun id v hv => ?_, fun v g hg => ?_, fun f' hf' entry' he' => ?_, h.bound, h.entry⟩
  · simp only at hv
    rw [hmapper] at hv
    split at hv
    · exact ⟨f, List.mem_append_right _ (List.mem_singleton_self _), ‹_›, by simp [he]⟩
    · obtain ⟨f', hf', hid⟩ := h.keys id v hv
      exact ⟨f', List.mem_append_left _ hf', hid⟩
  · simp only at hg ⊢
    rw [hfmap] at hg
    split at hg
    · lia
    · have := h.ids v g hg
      lia
  · rcases List.mem_append.1 hf' with hf' | hf'
    · refine (h.registered f' hf' entry' he').mono (fun id v hv => ?_) (fun v g hg => ?_) (fun _ _ hc => hc)
      · simp only
        rw [hmapper, if_neg]
        · exact hv
        · rintro rfl
          rw [hnone] at hv
          cases hv
      · simp only
        rw [hfmap, if_neg]
        · exact hg
        · rintro rfl
          rw [hfree] at hg
          cases hg
    · obtain rfl := List.mem_singleton.1 hf'
      rw [he] at he'
      obtain rfl := Option.some.inj he'
      refine ⟨s.statics.nextIdToGive, first, ?_, ?_, hfirst⟩
      · simp only
        rw [hmapper, if_pos rfl]
      · simp only
        rw [hfmap, if_pos rfl]

/-- The functions are registered one after another, unless a reachable instruction has no operation. -/
theorem parseFunctions_cases : ∀ (rest done : List Function) {s : ParserState}, done ++ rest = m.functions →
    Registering m done s →
    (∃ t, parseFunctions m rest s = .ok () t ∧ Registering m m.functions t) ∨
    (∃ e t, parseFunctions m rest s = .error e t ∧ m.Refuses e)
  | [], done, s, hsplit, h => by
    rw [List.append_nil] at hsplit
    exact .inl ⟨s, rfl, hsplit ▸ h⟩
  | f :: rest, done, s, hsplit, h => by
    have hsplit' : (done ++ [f]) ++ rest = m.functions := by rw [← hsplit]; simp
    have hmem : f ∈ m.functions := by rw [← hsplit]; simp
    unfold parseFunctions
    split
    · rename_i hd
      refine parseFunctions_cases rest (done ++ [f]) hsplit' ?_
      refine ⟨h.ok, fun id v hv => ?_, h.ids, fun f' hf' entry he => ?_, h.bound, h.entry⟩
      · obtain ⟨f', hf', hid⟩ := h.keys id v hv
        exact ⟨f', List.mem_append_left _ hf', hid⟩
      · rcases List.mem_append.1 hf' with hf' | hf'
        · exact h.registered f' hf' entry he
        · obtain rfl := List.mem_singleton.1 hf'
          rw [(Function.isDeclaration_iff f').1 hd] at he
          cases he
    · rename_i hd
      obtain ⟨entry, he⟩ : ∃ entry, f.blocks.head? = some entry := by
        cases hhd : f.blocks.head? with
        | none => exact absurd ((Function.isDeclaration_iff f).2 hhd) hd
        | some entry => exact ⟨entry, rfl⟩
      have hids : ∀ f' ∈ done, f'.id ≠ f.id := fun f' hf' hid => by
        have hn := m.functions_nodup
        rw [← hsplit, List.map_append, List.map_cons] at hn
        have := (List.nodup_append.1 hn).2.2 f'.id (List.mem_map.2 ⟨f', hf', rfl⟩) f.id List.mem_cons_self
        exact this hid
      have hfun : parseFunction m f = parseBasicBlock m entry.id := by
        unfold parseFunction
        rw [he]
      have hr : m.Reachable entry.id := ⟨f, entry, ⟨hmem, he⟩, .refl⟩
      rw [hfun]
      rcases parseBasicBlock_cases h.ok hr with ⟨first, new, t, hrun, hok, hq, hfirst, hsame, hle⟩ | ⟨e, t, hrun, href⟩
      · have ht : Registering m done t := by
          refine ⟨by rwa [hq], fun id v hv => ?_, fun v g hg => ?_, fun f' hf' entry' he' => ?_, Nat.le_trans hle h.bound,
            hsame.entryPointCfg.trans h.entry⟩
          · exact h.keys id v (hsame.mapper ▸ hv)
          · rw [hsame.statics]
            exact h.ids v g (hsame.fmap ▸ hg)
          · exact hsame.registered (h.registered f' hf' entry' he')
        obtain ⟨u, hreg, hu⟩ := ht.register hids he hfirst
        rw [bind_of_ok hrun]
        obtain ⟨vid, t', hvid, hmod⟩ := bind_ok hreg
        rw [bind_of_ok hvid, bind_of_ok hmod]
        exact parseFunctions_cases rest (done ++ [f]) hsplit' hu
      · exact .inr ⟨e, t, bind_of_error hrun, href⟩

/-! ## The entry -/

/-- What `ParseModule` throws for a module: it has no functions, a reachable instruction has no operation, there is no
`main` with a body, or `main` takes more than two parameters. -/
inductive Llvm.Module.Rejects (m : Module) : Exn → Prop
  | noFunctions : m.functions = [] → Rejects m (.runtimeError
      "The input LLVM IR module contains zero functions -- compilation probably failed")
  | refuses {e : Exn} : m.Refuses e → Rejects m e
  | noMain : (∀ f entry, m.getFunction "main" = some f → f.blocks.head? ≠ some entry) → Rejects m .outOfRange
  | mainArgs {f : Function} : m.getFunction "main" = some f → 2 < f.args.length →
      Rejects m (.undefinedBehaviour "argument past the end")

theorem getFunction_mem {name : String} {f : Function} (h : m.getFunction name = some f) : f ∈ m.functions :=
  List.mem_of_find?_eq_some h

/-- `main` is found when it has a body. -/
theorem findMain_cases (h : Registering m m.functions s) :
    (∃ f handle, m.getFunction "main" = some f ∧ findMain m s = .ok (f, handle) s) ∨
    (∃ e, findMain m s = .error e s ∧ m.Rejects e) := by
  unfold findMain
  cases hmain : m.getFunction "main" with
  | none => exact .inr ⟨_, rfl, .noMain fun f entry hf => by rw [hmain] at hf; cases hf⟩
  | some f =>
    have hmem := getFunction_mem hmain
    simp only
    rw [bind_of_ok (get_apply s)]
    cases hhead : f.blocks.head? with
    | some entry =>
      obtain ⟨vid, first, hvid, hfmap, -⟩ := h.registered f hmem entry hhead
      refine .inl ⟨f, f.handle first, rfl, ?_⟩
      simp only [hvid]
      rw [bind_of_ok (get_apply s)]
      simp only [hfmap]
      rfl
    | none =>
      have hnone : s.mapper[f.id]? = none := by
        cases hv : s.mapper[f.id]? with
        | none => rfl
        | some v =>
          obtain ⟨f', hf', hid, hne⟩ := h.keys f.id v hv
          rw [List.inj_on_of_nodup_map m.functions_nodup hf' hmem hid] at hne
          exact absurd hhead hne
      simp only [hnone]
      refine .inr ⟨_, rfl, .noMain fun f' entry hf' he => ?_⟩
      rw [hmain] at hf'
      obtain rfl := Option.some.inj hf'
      rw [hhead] at he
      cases he

/-- What precedes the loop over the queue has been done. -/
structure Begun (m : Module) (s : ParserState) : Prop where
  ok : ParserOk m s.parseAndLinkTogether s
  registered : ∀ f entry, m.Defines f entry → Registered s f entry
  bound : potential m s ≤ 3 * m.blocks.length

/-- Values are added for the arguments of `__entry`. -/
theorem mainArgs_cases : ∀ (params : List Param) (args : List FrontendIdTypePair) (s : ParserState),
    (∃ ops t, mainArgs params args s = .ok ops t ∧ params.length ≤ args.length ∧
      t = { s with statics := t.statics, mapper := t.mapper } ∧
      ∀ (id : FrontendId) (v : ValueId), s.mapper[id]? = some v → t.mapper[id]? = some v) ∨
    (∃ t, mainArgs params args s = .error (.undefinedBehaviour "argument past the end") t ∧ args.length < params.length)
  | [], args, s => .inl ⟨[], s, rfl, Nat.zero_le _, rfl, fun _ _ h => h⟩
  | _ :: params, [], s => .inr ⟨s, rfl, Nat.succ_pos _⟩
  | _ :: params, arg :: args, s => by
    unfold mainArgs
    obtain ⟨v, t, hrun, ht, hmono⟩ : ∃ v t, createOrGetValueId arg s = .ok v t ∧
        t = { s with statics := t.statics, mapper := t.mapper } ∧
        ∀ (id : FrontendId) (v : ValueId), s.mapper[id]? = some v → t.mapper[id]? = some v := by
      rcases createOrGetValueId_cases arg s with ⟨v, -, hrun⟩ | ⟨hnone, hrun⟩
      · exact ⟨v, s, hrun, rfl, fun _ _ h => h⟩
      · refine ⟨_, _, hrun, rfl, fun id v hv => ?_⟩
        simp only
        rw [Std.TreeMap.getElem?_insert, if_neg]
        · exact hv
        · rintro heq
          obtain rfl : arg.id = id := by simpa using heq
          rw [hnone] at hv
          cases hv
    rw [bind_of_ok hrun]
    rcases mainArgs_cases params args t with ⟨ops, u, hrest, hlen, hu, hmono'⟩ | ⟨u, hrest, hlen⟩
    · refine .inl ⟨_, u, by rw [bind_of_ok hrest]; rfl, Nat.succ_le_succ hlen, ?_,
        fun id v hv => hmono' id v (hmono id v hv)⟩
      rw [ht] at hu
      rw [hu]
    · exact .inr ⟨u, bind_of_error hrest, Nat.succ_lt_succ hlen⟩

/-- The two nodes of `__entry`. -/
theorem entryNodes_ok (s : Cfg) (args args' : OperationArgs) (call fin : Instruction) :
    ∃ s₁ s₂ s₃ start e e', createEmpty s = .ok start s₁ ∧
      insertNewAfter start .call args call false s₁ = .ok e s₂ ∧
      insertNewAfter e .terminate args' fin false s₂ = .ok e' s₃ ∧ s.Keeps s₃ ∧
      ∀ n op args instr bp, s.length ≤ n → s₃.kindAt n = some (.inner op args instr bp) → n = e ∨ n = e + 1 := by
  obtain ⟨s₁, hempty, h₁⟩ := createEmpty_ok s
  have hl₁ := h₁.length
  obtain ⟨s₂, hcall, hl₂, hk₂, ht₂⟩ := insertNewAfter_ok h₁.target .call args call false
  have hnext : s₂.target s₁.length 0 = some (s.length + 1) := by
    rw [ht₂, if_neg (by lia), if_pos rfl, if_pos rfl]
  obtain ⟨s₃, hfin, hl₃, hk₃, ht₃⟩ := insertNewAfter_ok hnext .terminate args' fin false
  refine ⟨s₁, s₂, s₃, _, _, _, hempty, hcall, hfin, ⟨by omega, fun n hn => ?_, fun n hn i => ?_⟩,
    fun n op args instr bp hn hk => ?_⟩
  · rw [hk₃, if_neg (by lia), hk₂, if_neg (by lia)]
    exact h₁.keeps.kind n hn
  · rw [ht₃, if_neg (by lia), if_neg (by lia), ht₂, if_neg (by lia), if_neg (by lia)]
    exact h₁.keeps.target n hn i
  · rcases Nat.lt_or_ge n s₁.length with hlt | hge
    · rw [hk₃, if_neg (by lia), hk₂, if_neg (by lia)] at hk
      obtain rfl | rfl : n = s.length ∨ n = s.length + 1 := by lia
      · rw [h₁.start] at hk
        cases hk
      · rw [h₁.terminal.kind] at hk
        cases hk
    · have := Cfg.kindAt_lt hk
      lia

theorem prependEntry_cases (h : Registering m m.functions s) {f : Function} (hf : m.getFunction "main" = some f)
    (e : EntryFunction) :
    (∃ t, prependEntry e f s = .ok () t ∧ Begun m t) ∨ (∃ x t, prependEntry e f s = .error x t ∧ m.Rejects x) := by
  unfold prependEntry
  rcases mainArgs_cases f.args e.args s with ⟨ops, t, hrun, -, ht, hmono⟩ | ⟨t, hrun, hlen⟩
  · rw [bind_of_ok hrun]
    obtain ⟨s₁, s₂, s₃, start, n, n', h₁, h₂, h₃, hkeeps, hinner⟩ := entryNodes_ok t.nodes
      (OperArg.empty :: .idTypePair ⟨f.id, .ptr .func⟩ :: ops) [OperArg.empty] e.mainCall e.finCall
    rw [bind_of_ok (callCfg_ok h₁), bind_of_ok (callCfg_ok h₂), bind_of_ok (modify_apply _ _),
      bind_of_ok (callCfg_ok h₃)]
    refine .inl ⟨_, rfl, ?_, fun g entry hg => ?_, ?_⟩
    · have hok : ParserOk m t.parseAndLinkTogether t := by
        rw [ht]
        exact h.ok.congr rfl rfl rfl
      refine hok.keep hkeeps rfl (fun e he => ?_) fun n op args instr bp hn hk => ⟨_, rfl, hinner n op args instr bp hn hk⟩
      rw [ht, h.entry] at he
      cases he
    · refine (h.registered g hg.1 entry hg.2).mono hmono (fun v x hv => ?_) (fun id x hx => ?_)
      · simp only
        rw [ht]
        exact hv
      · simp only
        rw [ht]
        exact hx
    · have hb := h.bound
      unfold potential unparsed at hb ⊢
      simp only
      rw [ht]
      exact hb
  · exact .inr ⟨_, t, bind_of_error hrun, .mainArgs hf hlen⟩

/-- The prologue succeeds, or the module is rejected. -/
theorem parsePrologue_cases (m : Module) (e : EntryFunction) (vc : VcState) :
    (∃ t, parsePrologue m e (ParserState.new vc) = .ok () t ∧ Begun m t) ∨
    (∃ x t, parsePrologue m e (ParserState.new vc) = .error x t ∧ m.Rejects x) := by
  have hnew : Registering m [] (ParserState.new vc) := by
    have hempty : ∀ id : BlockId, (ParserState.new vc).copyMapping[id]? = none := fun id => by
      simp [ParserState.new]
    refine ⟨⟨fun id f hf => ?_, fun b f hb => ?_, fun b f hb => ?_, fun b b' f f' n hb => ?_, fun l hl => ?_, List.nodup_nil,
      fun n op args instr bp hk => ?_⟩, fun id v hv => ?_, fun v g hg => ?_, fun f hf => ?_, ?_, rfl⟩
    · rw [hempty] at hf
      cases hf
    · rw [Stands, hempty] at hb
      cases hb.2
    · rw [Stands, hempty] at hb
      cases hb.2
    · rw [Stands, hempty] at hb
      cases hb.2
    · cases hl
    · simp [ParserState.new, Cfg.kindAt] at hk
    · simp [ParserState.new] at hv
    · simp [ParserState.new] at hg
    · cases hf
    · have : unparsed m (ParserState.new vc) ≤ m.blocks.length := List.countP_le_length
      unfold potential
      simp only [ParserState.new, List.length_nil] at this ⊢
      omega
  unfold parsePrologue
  split
  · rename_i hnone
    exact .inr ⟨_, _, rfl, .noFunctions (List.isEmpty_iff.1 hnone)⟩
  · rcases parseFunctions_cases m.functions [] (List.nil_append _) hnew with ⟨t, hrun, ht⟩ | ⟨x, t, hrun, hx⟩
    · rw [bind_of_ok hrun]
      rcases findMain_cases ht with ⟨f, handle, hf, hmain⟩ | ⟨x, hmain, hx⟩
      · rw [bind_of_ok hmain]
        exact prependEntry_cases (s := { t with mainCfg := some handle.cfg })
          ⟨ht.ok.congr rfl rfl rfl, ht.keys, ht.ids, ht.registered, ht.bound, ht.entry⟩ hf e
      · exact .inr ⟨x, _, bind_of_error hmain, hx⟩
    · exact .inr ⟨x, t, bind_of_error hrun, .refuses hx⟩

end Functions

end Angie
