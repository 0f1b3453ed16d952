import Mathlib.Logic.Relation
import Mathlib.Data.List.Perm.Subperm
import Angie.Frontend.Blocks

/-!
# The queue of planned links

`ParserOk m pend s`: the blocks in `copyMapping` stand on the heap, apart from each other, and every link of theirs is
made or is in `pend`, once. Parsing a block keeps this (`ParserOk.parsed`) and so does making a pending link
(`ParserOk.link`), which finds its node still dangling. Every round of the loop removes a link and adds at most two for
a block not parsed before, so that `potential` bounds the rounds (`queueLoop_cases`).
-/

namespace Angie

open Exec Llvm Relation

/-! ## Reachable blocks -/

namespace Llvm.Module

variable (m : Module)

/-- A branch of the block at the first address leads to the second. -/
def Follows (id t : BlockId) : Prop := ∃ b, m.block? id = some b ∧ t ∈ b.followed

/-- Reached from the entry block of a function that is defined. -/
def Reachable (id : BlockId) : Prop := ∃ f entry, m.Defines f entry ∧ ReflTransGen m.Follows entry.id id

variable {m}

theorem Reachable.follow {id t : BlockId} (h : m.Reachable id) (ht : m.Follows id t) : m.Reachable t := by
  obtain ⟨f, entry, hf, hr⟩ := h
  exact ⟨f, entry, hf, hr.tail ht⟩

theorem Reachable.block? {id : BlockId} (h : m.Reachable id) : ∃ b, m.block? id = some b ∧ b.id = id := by
  obtain ⟨f, entry, hf, hr⟩ := h
  cases hr with
  | refl => exact ⟨entry, hf.block?, rfl⟩
  | tail _ ht =>
    obtain ⟨b, hb, hbt⟩ := ht
    obtain ⟨b', hb'⟩ := block?_successor (block?_some hb).1 (BasicBlock.followed_subset hbt)
    exact ⟨b', hb', (block?_some hb').2⟩

/-- The exceptions of the instructions of reachable blocks that have no operation. -/
def Refuses (m : Module) (e : Exn) : Prop :=
  ∃ b i, m.Reachable b.id ∧ m.block? b.id = some b ∧ i ∈ b.body ∧ translate i = .error e

end Llvm.Module

/-! ## The invariant -/

/-- The block `b` has been parsed to the node `first`. -/
def Stands (m : Module) (s : ParserState) (b : BasicBlock) (first : NodeId) : Prop :=
  m.block? b.id = some b ∧ s.copyMapping[b.id]? = some first

/-- The nodes of the block. -/
def Llvm.BasicBlock.Owns (b : BasicBlock) (first n : NodeId) : Prop := first ≤ n ∧ n < first + b.placed.length

/-- A link that is still to be made. -/
structure Pending (m : Module) (s : ParserState) (l : Link) (b : BasicBlock) (first : NodeId) : Prop where
  stands : Stands m s b first
  node : l.node = first + b.body.length
  block : b.followed[l.targetIndex]? = some l.block
  dangling : s.nodes.Dangling l.node l.targetIndex

structure ParserOk (m : Module) (pend : List Link) (s : ParserState) : Prop where
  mapped : ∀ (id : BlockId) (first : NodeId), s.copyMapping[id]? = some first → m.Reachable id
  fits : ∀ b first, Stands m s b first → first < s.nodes.length ∧ first + b.placed.length ≤ s.nodes.length
  laid : ∀ b first, Stands m s b first → Laid s pend b first
  apart : ∀ b b' first first' n, Stands m s b first → Stands m s b' first' → b.Owns first n → b'.Owns first' n → b = b'
  pending : ∀ l ∈ pend, ∃ b first, Pending m s l b first
  nodup : (pend.map Link.key).Nodup
  inner : ∀ n op args instr bp, s.nodes.kindAt n = some (.inner op args instr bp) →
    (∃ b first, Stands m s b first ∧ b.Owns first n) ∨ ∃ e, s.entryPointCfg = some e ∧ (n = e ∨ n = e + 1)

/-! ## What the heap keeps -/

namespace Cfg.Keeps

variable {s t : Cfg}

theorem refl (s : Cfg) : s.Keeps s := ⟨Nat.le_refl _, fun _ _ => rfl, fun _ _ _ => rfl⟩

theorem trans {u : Cfg} (h : s.Keeps t) (h' : t.Keeps u) : s.Keeps u where
  length := Nat.le_trans h.length h'.length
  kind n hn := (h'.kind n (Nat.lt_of_lt_of_le hn h.length)).trans (h.kind n hn)
  target n hn i := (h'.target n (Nat.lt_of_lt_of_le hn h.length) i).trans (h.target n hn i)

theorem terminal (h : s.Keeps t) {n : NodeId} (hn : s.Terminal n) : t.Terminal n := by
  have hlt := Cfg.kindAt_lt hn.kind
  exact ⟨(h.kind n hlt).trans hn.kind, fun i => (h.target n hlt i).trans (hn.next i)⟩

theorem dangling (h : s.Keeps t) {n : NodeId} {i : ℕ} (hd : s.Dangling n i) : t.Dangling n i := by
  obtain ⟨e, he, hterm⟩ := hd
  exact ⟨e, (h.target n (Cfg.target_lt he) i).trans he, h.terminal hterm⟩

end Cfg.Keeps

section Invariant

variable {m : Module} {s t : ParserState} {pend : List Link} {b : BasicBlock} {first : NodeId}

theorem owns_last {i : ℕ} {id : BlockId} (h : b.followed[i]? = some id) (first : NodeId) :
    b.Owns first (first + b.body.length) ∧ b.placed.length = b.body.length + 1 := by
  have hl := b.length_placed_of_followed (by rintro he; simp [he] at h)
  exact ⟨⟨by lia, by lia⟩, hl⟩

/-- A block stays laid while its nodes are kept and more blocks and links come in. -/
theorem Laid.keep (h : Laid s pend b first) (hk : s.nodes.Keeps t.nodes)
    (hfit : first + b.placed.length ≤ s.nodes.length)
    (hcopy : ∀ (id : BlockId) (f : NodeId), s.copyMapping[id]? = some f → t.copyMapping[id]? = some f)
    (hfresh : ∀ (id : BlockId) (f : NodeId), t.copyMapping[id]? = some f → s.copyMapping[id]? = some f ∨ s.nodes.length ≤ f)
    {pend' : List Link} (hpend : ∀ l ∈ pend, l ∈ pend') : Laid t pend' b first := by
  refine ⟨fun i instr hi => ?_, fun i hi => ?_, fun i hi h2 => ?_, fun i id hi => ?_, fun hf i hi => ?_, fun he => ?_⟩
  · have hlt := (List.getElem?_eq_some_iff.1 hi).1
    obtain ⟨k, hk', hkt⟩ := h.kind i instr hi
    exact ⟨k, hk', (hk.kind _ (by lia)).trans hkt⟩
  · exact (hk.target _ (by lia) 0).trans (h.next i hi)
  · exact (hk.target _ (by lia) 1).trans (h.single i hi h2)
  · obtain ⟨⟨-, hlt⟩, -⟩ := owns_last hi first
    rcases h.out i id hi with ⟨f, hf, ht⟩ | hl
    · exact .inl ⟨f, hcopy id f hf, (hk.target _ (by lia) i).trans ht⟩
    · exact .inr (hpend _ hl)
  · obtain ⟨e, he, hterm, hno⟩ := h.last hf i hi
    have hlt := Cfg.kindAt_lt hterm.kind
    refine ⟨e, (hk.target _ (Cfg.target_lt he) 0).trans he, hk.terminal hterm, fun id f hf => ?_⟩
    rcases hfresh id f hf with hf | hf
    · exact hno id f hf
    · lia
  · exact hk.terminal (h.empty he)

theorem Stands.eq (h : Stands m s b first) {first' : NodeId} {b' : BasicBlock} (h' : Stands m s b' first')
    (hid : b.id = b'.id) : b = b' ∧ first = first' := by
  have hb := h.1
  rw [hid, h'.1] at hb
  have hf := h.2
  rw [hid, h'.2] at hf
  exact ⟨(Option.some.inj hb).symm, (Option.some.inj hf).symm⟩

theorem ParserOk.unique (h : ParserOk m pend s) {b' : BasicBlock} {first' n : NodeId} (hb : Stands m s b first)
    (hb' : Stands m s b' first') (hn : b.Owns first n) (hn' : b'.Owns first' n) : b = b' ∧ first = first' := by
  obtain rfl := h.apart b b' first first' n hb hb' hn hn'
  exact ⟨rfl, (hb.eq hb' rfl).2⟩

theorem ParserOk.stands (h : ParserOk m pend s) {id : BlockId} (hid : s.copyMapping[id]? = some first) :
    ∃ b, b.id = id ∧ Stands m s b first := by
  obtain ⟨b, hb, rfl⟩ := (h.mapped id first hid).block?
  exact ⟨b, rfl, hb, hid⟩

/-- Every link of a parsed block that stands leads into the heap. -/
theorem ParserOk.mapped_lt (h : ParserOk m pend s) {id : BlockId} (hid : s.copyMapping[id]? = some first) :
    first < s.nodes.length := by
  obtain ⟨b, -, hb⟩ := h.stands hid
  exact (h.fits b first hb).1

theorem Pending.owns {l : Link} (h : Pending m s l b first) : b.Owns first l.node := by
  rw [h.node]
  exact (owns_last h.block first).1

theorem Pending.reachable {l : Link} (h : Pending m s l b first) (hm : ParserOk m pend s) : m.Reachable l.block :=
  (hm.mapped _ _ h.stands.2).follow ⟨b, h.stands.1, List.mem_of_getElem? h.block⟩

/-- Nodes that belong to no block leave the blocks as they are. -/
theorem ParserOk.keep (h : ParserOk m pend s) (hk : s.nodes.Keeps t.nodes) (hc : t.copyMapping = s.copyMapping)
    (he : ∀ e, s.entryPointCfg = some e → t.entryPointCfg = some e)
    (hinner : ∀ n op args instr bp, s.nodes.length ≤ n → t.nodes.kindAt n = some (.inner op args instr bp) →
      ∃ e, t.entryPointCfg = some e ∧ (n = e ∨ n = e + 1)) : ParserOk m pend t := by
  have hst : ∀ {b : BasicBlock} {f : NodeId}, Stands m t b f → Stands m s b f := fun hb => ⟨hb.1, hc ▸ hb.2⟩
  have hts : ∀ {b : BasicBlock} {f : NodeId}, Stands m s b f → Stands m t b f := fun hb => ⟨hb.1, hc.symm ▸ hb.2⟩
  have hlen := hk.length
  refine ⟨fun id f hf => h.mapped id f (hc ▸ hf), fun b f hb => ?_, fun b f hb => ?_, fun b b' f f' n hb hb' => ?_,
    fun l hl => ?_, h.nodup, fun n op args instr bp hin => ?_⟩
  · have := h.fits b f (hst hb)
    exact ⟨by lia, by lia⟩
  · exact (h.laid b f (hst hb)).keep hk (h.fits b f (hst hb)).2 (fun _ _ hf => hc.symm ▸ hf) (fun _ _ hf => .inl (hc ▸ hf))
      (fun _ hl => hl)
  · exact h.apart b b' f f' n (hst hb) (hst hb')
  · obtain ⟨b, f, hp⟩ := h.pending l hl
    exact ⟨b, f, hts hp.stands, hp.node, hp.block, hk.dangling hp.dangling⟩
  · rcases Nat.lt_or_ge n s.nodes.length with hn | hn
    · rw [hk.kind n hn] at hin
      rcases h.inner n op args instr bp hin with ⟨b, f, hb, hown⟩ | ⟨e, hentry, hn⟩
      · exact .inl ⟨b, f, hts hb, hown⟩
      · exact .inr ⟨e, he e hentry, hn⟩
    · exact .inr (hinner n op args instr bp hn hin)

/-- The invariant is about the nodes and the blocks parsed. -/
theorem ParserOk.congr (h : ParserOk m pend s) (hn : t.nodes = s.nodes) (hc : t.copyMapping = s.copyMapping)
    (he : t.entryPointCfg = s.entryPointCfg) : ParserOk m pend t := by
  refine h.keep (hn.symm ▸ Cfg.Keeps.refl _) hc (fun e hentry => he.trans hentry) fun n op args instr bp hlen hk => ?_
  rw [hn, Cfg.kindAt_of_le hlen] at hk
  cases hk

/-! ## Parsing a block keeps the invariant -/

/-- A parsed block is mapped, and the others are as they were. -/
theorem Parsed.copyMapping {new : List Link} (h : Parsed s t b first new) (id : BlockId) :
    t.copyMapping[id]? = if b.id = id then some first else s.copyMapping[id]? := by
  rw [h.state]
  simp only
  rw [Std.TreeMap.getElem?_insert]
  simp

theorem Parsed.copyMapping_mono {new : List Link} (h : Parsed s t b first new) (hnone : s.copyMapping[b.id]? = none)
    (id : BlockId) (f : NodeId) (hf : s.copyMapping[id]? = some f) : t.copyMapping[id]? = some f := by
  rw [h.copyMapping, if_neg]
  · exact hf
  · rintro rfl
    rw [hnone] at hf
    cases hf

/-- What stands after a block was parsed is the block, or stood before. -/
theorem Parsed.stands_cases {new : List Link} (h : Parsed s t b first new) (hb : m.block? b.id = some b)
    {b' : BasicBlock} {f : NodeId} (hb' : Stands m t b' f) : (b' = b ∧ f = first) ∨ Stands m s b' f := by
  by_cases hid : b.id = b'.id
  · have hself : Stands m t b first := ⟨hb, by rw [h.copyMapping, if_pos rfl]⟩
    obtain ⟨h1, h2⟩ := hself.eq hb' hid
    exact .inl ⟨h1.symm, h2.symm⟩
  · have := hb'.2
    rw [h.copyMapping, if_neg hid] at this
    exact .inr ⟨hb'.1, this⟩

theorem ParserOk.parsed (h : ParserOk m pend s) {new : List Link} (hp : Parsed s t b first new)
    (hb : m.block? b.id = some b) (hr : m.Reachable b.id) (hnone : s.copyMapping[b.id]? = none) :
    ParserOk m (pend ++ new) t := by
  have hcopy := hp.copyMapping
  have hmono := hp.copyMapping_mono hnone
  have hfresh : ∀ (id : BlockId) (f : NodeId), t.copyMapping[id]? = some f →
      s.copyMapping[id]? = some f ∨ s.nodes.length ≤ f := fun id f hf => by
    rw [hcopy] at hf
    split at hf
    · exact .inr (by cases hf; exact hp.fresh.1)
    · exact .inl hf
  have hself : Stands m t b first := ⟨hb, by rw [hcopy, if_pos rfl]⟩
  have hgrow : ∀ {b' : BasicBlock} {f : NodeId}, Stands m s b' f → Stands m t b' f := fun hb' =>
    ⟨hb'.1, hmono _ _ hb'.2⟩
  have hlen := hp.keeps.length
  have hnew := hp.fresh
  -- the old nodes lie below the heap of `s`, the new ones above
  have hold : ∀ {b' : BasicBlock} {f n : NodeId}, Stands m s b' f → b'.Owns f n → n < s.nodes.length := fun hb' hn => by
    have := (h.fits _ _ hb').2
    exact Nat.lt_of_lt_of_le hn.2 this
  refine ⟨fun id f hf => ?_, fun b' f hb' => ?_, fun b' f hb' => ?_, fun b₁ b₂ f₁ f₂ n h₁ h₂ hn₁ hn₂ => ?_, fun l hl => ?_,
    ?_, fun n op args instr bp hk => ?_⟩
  · rw [hcopy] at hf
    split at hf
    · rename_i hid
      rwa [← hid]
    · exact h.mapped id f hf
  · rcases hp.stands_cases hb hb' with ⟨rfl, rfl⟩ | hb'
    · exact ⟨hnew.2.1, hnew.2.2⟩
    · have := h.fits b' f hb'
      exact ⟨by lia, by lia⟩
  · rcases hp.stands_cases hb hb' with ⟨rfl, rfl⟩ | hb'
    · exact hp.laid.keep (Cfg.Keeps.refl _) hnew.2.2 (fun _ _ hf => hf) (fun _ _ hf => .inl hf) (fun l hl => List.mem_append_right _ hl)
    · exact (h.laid b' f hb').keep hp.keeps (h.fits b' f hb').2 hmono hfresh (fun l hl => List.mem_append_left _ hl)
  · rcases hp.stands_cases hb h₁ with ⟨rfl, rfl⟩ | h₁ <;> rcases hp.stands_cases hb h₂ with ⟨rfl, rfl⟩ | h₂
    · rfl
    · have := hold h₂ hn₂
      have := hn₁.1
      lia
    · have := hold h₁ hn₁
      have := hn₂.1
      lia
    · exact h.apart b₁ b₂ f₁ f₂ n h₁ h₂ hn₁ hn₂
  · rcases List.mem_append.1 hl with hl | hl
    · obtain ⟨b', f, hl'⟩ := h.pending l hl
      exact ⟨b', f, hgrow hl'.stands, hl'.node, hl'.block, hp.keeps.dangling hl'.dangling⟩
    · obtain ⟨hnode, hblock, hd⟩ := hp.planned l hl
      exact ⟨b, first, hself, hnode, hblock, hd⟩
  · rw [List.map_append]
    refine List.nodup_append.2 ⟨h.nodup, hp.nodup, fun x hx y hy hxy => ?_⟩
    obtain ⟨l, hl, rfl⟩ := List.mem_map.1 hx
    obtain ⟨l', hl', rfl⟩ := List.mem_map.1 hy
    obtain ⟨b', f, hl''⟩ := h.pending l hl
    have h1 := hold hl''.stands hl''.owns
    have h2 := (hp.planned l' hl').1
    have h3 := congrArg Prod.fst hxy
    simp only [Link.key] at h3
    lia
  · rcases Nat.lt_or_ge n s.nodes.length with hn | hn
    · rw [hp.keeps.kind n hn] at hk
      rcases h.inner n op args instr bp hk with ⟨b', f, hb', hown⟩ | he
      · exact .inl ⟨b', f, hgrow hb', hown⟩
      · rw [show s.entryPointCfg = t.entryPointCfg by rw [hp.state]] at he
        exact .inr he
    · exact .inl ⟨b, first, hself, hp.inner n op args instr bp hn hk⟩

/-! ## Making a link keeps the invariant -/

/-- The state in which a link is made. -/
def ParserState.link (s : ParserState) (l : Link) (f : NodeId) : ParserState :=
  { s with nodes := (s.nodes.setTarget l.node f l.targetIndex).addPrev f f }

theorem Pending.index_lt {l : Link} (h : Pending m s l b first) : l.targetIndex < 2 :=
  Nat.lt_of_lt_of_le (List.getElem?_eq_some_iff.1 h.block).1 b.followed_length

/-- A pending link can be made. -/
theorem Pending.linkTogether {l : Link} (h : Pending m s l b first) {f : NodeId} (hf : f < s.nodes.length) :
    ParserM.callCfg (linkTogether l.node f l.targetIndex) s = .ok () (s.link l f) := by
  obtain ⟨e, he, hterm⟩ := h.dangling
  exact callCfg_ok (linkTogether_eq he h.index_lt hterm hf)

@[simp] theorem kindAt_link (s : ParserState) (l : Link) (f k : NodeId) :
    (s.link l f).nodes.kindAt k = s.nodes.kindAt k := by
  simp [ParserState.link]

@[simp] theorem length_link (s : ParserState) (l : Link) (f : NodeId) : (s.link l f).nodes.length = s.nodes.length := by
  simp [ParserState.link]

section Link

variable {l : Link} {f : NodeId}

/-- Nothing but the link itself changes. -/
theorem Pending.target_link (h : Pending m s l b first) (f k : NodeId) (i : ℕ) : (s.link l f).nodes.target k i =
    if k = l.node ∧ i = l.targetIndex then some f else s.nodes.target k i := by
  obtain ⟨last, hlast, -⟩ := h.dangling
  unfold ParserState.link
  rw [Cfg.target_addPrev, Cfg.target_setTarget (Cfg.target_lt hlast) f h.index_lt]

theorem Pending.terminal_link (h : Pending m s l b first) {e : NodeId} (he : s.nodes.Terminal e) :
    (s.link l f).nodes.Terminal e := by
  obtain ⟨last, hlast, -⟩ := h.dangling
  exact he.keep (he.ne hlast) (kindAt_link s l f)
    fun k i hk => by rw [h.target_link, if_neg (fun hc => hk hc.1)]

theorem Pending.dangling_link (h : Pending m s l b first) {n : NodeId} {i : ℕ} (hni : (n, i) ≠ l.key)
    (hd : s.nodes.Dangling n i) : (s.link l f).nodes.Dangling n i := by
  obtain ⟨e, he, hte⟩ := hd
  refine ⟨e, ?_, h.terminal_link hte⟩
  rw [h.target_link, if_neg]
  · exact he
  · rintro ⟨rfl, rfl⟩
    exact hni rfl

/-- The node of the link belongs to the block that plans it. -/
theorem ParserOk.target_link (h : ParserOk m (l :: pend) s) (hl : Pending m s l b first) {b' : BasicBlock}
    {first' i j : ℕ} (hb' : Stands m s b' first') (hi : b'.Owns first' (first' + i))
    (hd : i + 1 = b'.placed.length → b'.followed[j]? ≠ some l.block ∨ l.targetIndex ≠ j) :
    (s.link l f).nodes.target (first' + i) j = s.nodes.target (first' + i) j := by
  rw [hl.target_link, if_neg]
  rintro ⟨hnode, rfl⟩
  obtain ⟨rfl, rfl⟩ := h.unique hl.stands hb' hl.owns (by rwa [← hnode])
  have hnode' := hl.node
  obtain ⟨-, hpl⟩ := owns_last hl.block first
  rcases hd (by lia) with hd | hd
  · exact hd hl.block
  · exact hd rfl

/-- Every block stays laid when a link is made. -/
theorem ParserOk.laid_link (h : ParserOk m (l :: pend) s) (hl : Pending m s l b first)
    (hf : s.copyMapping[l.block]? = some f) {b' : BasicBlock} {f' : NodeId} (hb' : Stands m s b' f') :
    Laid (s.link l f) pend b' f' := by
  have hlaid := h.laid b' f' hb'
  refine ⟨fun i instr hi => ?_, fun i hi => ?_, fun i hi h2 => ?_, fun i id hi => ?_, fun hfol i hi => ?_, fun he => ?_⟩
  · obtain ⟨k, hk, hkt⟩ := hlaid.kind i instr hi
    exact ⟨k, hk, (kindAt_link s l f _).trans hkt⟩
  · rw [h.target_link hl hb' ⟨by lia, by lia⟩ (fun hi' => by lia)]
    exact hlaid.next i hi
  · rw [h.target_link hl hb' ⟨by lia, by lia⟩ (fun hi' => .inl fun hfol => ?_)]
    · exact hlaid.single i hi h2
    · have h1 := (List.getElem?_eq_some_iff.1 hfol).1
      have h3 := b'.followed_length
      exact h2 hi' (by lia)
  · obtain ⟨hown, hpl⟩ := owns_last hi f'
    by_cases hkey : (f' + b'.body.length, i) = l.key
    · have hnode : f' + b'.body.length = l.node := congrArg Prod.fst hkey
      have hidx : i = l.targetIndex := congrArg Prod.snd hkey
      obtain ⟨rfl, rfl⟩ := h.unique hl.stands hb' hl.owns (by rw [← hnode]; exact hown)
      rw [hidx, hl.block] at hi
      refine .inl ⟨f, by rw [← Option.some.inj hi]; exact hf, ?_⟩
      rw [hl.target_link, if_pos ⟨hnode, hidx⟩]
    · rcases hlaid.out i id hi with ⟨g, hg, ht⟩ | hmem
      · refine .inl ⟨g, hg, ?_⟩
        rw [hl.target_link, if_neg]
        · exact ht
        · rintro ⟨h1, h2⟩
          exact hkey (Prod.ext h1 h2)
      · rcases List.mem_cons.1 hmem with heq | hmem
        · exact absurd (congrArg Link.key heq) hkey
        · exact .inr hmem
  · obtain ⟨e, he, hte, hno⟩ := hlaid.last hfol i hi
    refine ⟨e, ?_, hl.terminal_link hte, hno⟩
    rw [h.target_link hl hb' ⟨by lia, by lia⟩ (fun _ => .inl (by simp [hfol]))]
    exact he
  · exact hl.terminal_link (hlaid.empty he)

theorem ParserOk.link (h : ParserOk m (l :: pend) s) (hf : s.copyMapping[l.block]? = some f) :
    ParserOk m pend (s.link l f) := by
  obtain ⟨b, first, hl⟩ := h.pending l List.mem_cons_self
  have hkey := List.nodup_cons.1 (List.map_cons ▸ h.nodup)
  refine ⟨h.mapped, fun b' f' hb' => ?_, fun b' f' hb' => h.laid_link hl hf hb', h.apart, fun l' hl' => ?_, hkey.2,
    fun n op args instr bp hk => ?_⟩
  · rw [length_link]
    exact h.fits b' f' hb'
  · obtain ⟨b', first', hl''⟩ := h.pending l' (List.mem_cons_of_mem _ hl')
    refine ⟨b', first', hl''.stands, hl''.node, hl''.block, hl.dangling_link (fun hk => ?_) hl''.dangling⟩
    exact hkey.1 (List.mem_map.2 ⟨l', hl', hk⟩)
  · rw [kindAt_link] at hk
    exact h.inner n op args instr bp hk

end Link

end Invariant

/-! ## The rounds of the loop -/

/-- The mappings of functions and values are left alone, and parsed blocks stay parsed. -/
structure SameFunctions (s t : ParserState) : Prop where
  mapper : t.mapper = s.mapper
  fmap : t.fmap = s.fmap
  statics : t.statics = s.statics
  entryPointCfg : t.entryPointCfg = s.entryPointCfg
  mainCfg : t.mainCfg = s.mainCfg
  copyMapping : ∀ (id : BlockId) (f : NodeId), s.copyMapping[id]? = some f → t.copyMapping[id]? = some f

/-- The blocks of the module that are not parsed. -/
def unparsed (m : Module) (s : ParserState) : ℕ := m.blocks.countP fun b => (s.copyMapping[b.id]?).isNone

/-- A bound on the rounds left. -/
def potential (m : Module) (s : ParserState) : ℕ := 3 * unparsed m s + s.parseAndLinkTogether.length

section Loop

variable {m : Module} {s t u : ParserState}

theorem SameFunctions.refl (s : ParserState) : SameFunctions s s := ⟨rfl, rfl, rfl, rfl, rfl, fun _ _ h => h⟩

theorem SameFunctions.trans (h : SameFunctions s t) (h' : SameFunctions t u) : SameFunctions s u :=
  ⟨h'.mapper.trans h.mapper, h'.fmap.trans h.fmap, h'.statics.trans h.statics, h'.entryPointCfg.trans h.entryPointCfg,
    h'.mainCfg.trans h.mainCfg, fun id f hf => h'.copyMapping id f (h.copyMapping id f hf)⟩

theorem countP_lt {α : Type} {p q : α → Bool} : ∀ {l : List α}, (∀ a ∈ l, p a = true → q a = true) →
    (∃ a ∈ l, p a = false ∧ q a = true) → l.countP p < l.countP q
  | [], _, h => by simp at h
  | a :: l, hpq, ⟨x, hx, hpx, hqx⟩ => by
    have hle : l.countP p ≤ l.countP q := List.countP_mono_left fun b hb => hpq b (List.mem_cons_of_mem _ hb)
    rw [List.countP_cons, List.countP_cons]
    rcases List.mem_cons.1 hx with rfl | hx
    · simp only [hpx, hqx, if_true]
      simp
      omega
    · have ih := countP_lt (fun b hb => hpq b (List.mem_cons_of_mem _ hb)) ⟨x, hx, hpx, hqx⟩
      have ha : p a = true → q a = true := hpq a List.mem_cons_self
      split
      · rw [if_pos (ha ‹_›)]
        omega
      · split <;> omega

/-- A block plans one link for each successor at most. -/
theorem Parsed.new_length {b : BasicBlock} {first : NodeId} {new : List Link} (h : Parsed s t b first new) :
    new.length ≤ 2 := by
  have hnodup : (new.map (·.targetIndex)).Nodup := by
    refine List.Nodup.map_on (fun l hl l' hl' heq => ?_) (List.Nodup.of_map _ h.nodup)
    have hk : l.key = l'.key := by
      unfold Link.key
      rw [(h.planned l hl).1, (h.planned l' hl').1, heq]
    exact List.inj_on_of_nodup_map h.nodup hl hl' hk
  have hsub : new.map (·.targetIndex) ⊆ List.range 2 := fun i hi => by
    obtain ⟨l, hl, rfl⟩ := List.mem_map.1 hi
    have h1 := (List.getElem?_eq_some_iff.1 (h.planned l hl).2.1).1
    have h2 := b.followed_length
    exact List.mem_range.2 (by omega)
  simpa using (List.subperm_of_subset hnodup hsub).length_le

/-- Parsing a block never raises the bound. -/
theorem Parsed.potential_le {b : BasicBlock} {first : NodeId} {new : List Link} (h : Parsed s t b first new)
    (hb : b ∈ m.blocks) (hnone : s.copyMapping[b.id]? = none) : potential m t ≤ potential m s := by
  have hcopy := h.copyMapping
  have hlt : unparsed m t < unparsed m s := by
    refine countP_lt (fun a _ ha => ?_) ⟨b, hb, by rw [hcopy, if_pos rfl]; rfl, by rw [hnone]; rfl⟩
    rw [hcopy] at ha
    split at ha
    · cases ha
    · exact ha
  have hq : t.parseAndLinkTogether = s.parseAndLinkTogether ++ new := by rw [h.state]
  have h2 := h.new_length
  unfold potential
  rw [hq, List.length_append]
  omega

/-- `ParseBasicBlock` of a reachable block. -/
theorem parseBasicBlock_cases {pend : List Link} (h : ParserOk m pend s) {id : BlockId} (hr : m.Reachable id) :
    (∃ first new t, parseBasicBlock m id s = .ok first t ∧ ParserOk m (pend ++ new) t ∧
      t.parseAndLinkTogether = s.parseAndLinkTogether ++ new ∧ t.copyMapping[id]? = some first ∧ SameFunctions s t ∧
      potential m t ≤ potential m s) ∨
    (∃ e t, parseBasicBlock m id s = .error e t ∧ m.Refuses e) := by
  unfold parseBasicBlock
  rw [bind_of_ok (get_apply s)]
  cases hid : s.copyMapping[id]? with
  | some first =>
    exact .inl ⟨first, [], s, rfl, by rw [List.append_nil]; exact h, (List.append_nil _).symm, hid, SameFunctions.refl s,
      Nat.le_refl _⟩
  | none =>
    obtain ⟨b, hb, rfl⟩ := hr.block?
    simp only [hb]
    rcases parseNewBlock_cases (fun t f hf => h.mapped_lt hf) hid with ⟨first, new, t, hrun, hp⟩ | ⟨i, hi, e, t, he, hrun⟩
    · refine .inl ⟨first, new, t, hrun, h.parsed hp hb hr hid, by rw [hp.state], ?_, ?_,
        hp.potential_le (Module.block?_some hb).1 hid⟩
      · rw [hp.copyMapping, if_pos rfl]
      · exact ⟨by rw [hp.state], by rw [hp.state], by rw [hp.state], by rw [hp.state], by rw [hp.state],
          hp.copyMapping_mono hid⟩
    · exact .inr ⟨e, t, hrun, b, i, hr, hb, hi, he⟩

/-- The loop ends within the bound with every link made, or with an instruction that has no operation. -/
theorem queueLoop_cases : ∀ (n : ℕ) {s : ParserState}, ParserOk m s.parseAndLinkTogether s → potential m s ≤ n →
    (∃ t, queueLoop m n s = .ok () t ∧ t.parseAndLinkTogether = [] ∧ ParserOk m [] t ∧ SameFunctions s t) ∨
    (∃ e t, queueLoop m n s = .error e t ∧ m.Refuses e)
  | 0, s, h, hn => by
    have hq : s.parseAndLinkTogether = [] := List.length_eq_zero_iff.1 (by unfold potential at hn; omega)
    exact .inl ⟨s, rfl, hq, by rwa [hq] at h, SameFunctions.refl s⟩
  | n + 1, s, h, hn => by
    unfold queueLoop
    rw [bind_of_ok (get_apply s)]
    cases hq : s.parseAndLinkTogether with
    | nil => exact .inl ⟨s, rfl, hq, by rwa [hq] at h, SameFunctions.refl s⟩
    | cons l rest =>
      rw [hq] at h
      obtain ⟨b, first, hl⟩ := h.pending l List.mem_cons_self
      -- the link is off the queue but still pending while its block is parsed
      have hpop : ParserOk m (l :: rest) { s with parseAndLinkTogether := rest } := h.congr rfl rfl rfl
      have hpot : potential m { s with parseAndLinkTogether := rest } ≤ n := by
        unfold potential unparsed at hn ⊢
        rw [hq] at hn
        simp only [List.length_cons] at hn ⊢
        omega
      simp only
      rw [bind_of_ok (modify_apply _ s)]
      rcases parseBasicBlock_cases hpop (hl.reachable h) with ⟨f, new, t, hrun, hok, htq, hf, hsame, hle⟩ | ⟨e, t, hrun, he⟩
      · obtain ⟨b', first', hl'⟩ := hok.pending l List.mem_cons_self
        have hlink := hl'.linkTogether (hok.mapped_lt hf)
        have hok' : ParserOk m (t.link l f).parseAndLinkTogether (t.link l f) := by
          have := hok.link hf
          rw [show (t.link l f).parseAndLinkTogether = rest ++ new from htq]
          exact this
        rw [bind_of_ok hrun, bind_of_ok hlink]
        rcases queueLoop_cases n hok' (Nat.le_trans hle hpot) with ⟨u, hrun', hu, huok, hsame'⟩ | ⟨e, u, hrun', he⟩
        · refine .inl ⟨u, hrun', hu, huok, ?_⟩
          exact ⟨hsame'.mapper.trans hsame.mapper, hsame'.fmap.trans hsame.fmap, hsame'.statics.trans hsame.statics,
            hsame'.entryPointCfg.trans hsame.entryPointCfg, hsame'.mainCfg.trans hsame.mainCfg,
            fun id g hg => hsame'.copyMapping id g (hsame.copyMapping id g hg)⟩
        · exact .inr ⟨e, u, hrun', he⟩
      · exact .inr ⟨e, t, bind_of_error hrun, he⟩

end Loop

end Angie
