import Mathlib.Data.List.Basic

/-!
# Lists searched by a key

A list of entries each of which carries a key, read through the first entry with a given key (`lookup`), and changed
by rewriting that entry in place (`modifyFirst`) or by rewriting it when it exists and appending otherwise (`upsert`).
Several entries may share a key; the ones behind the first are shadowed.

- what a changed list holds (`mem_modifyFirst`, `mem_upsert`);
- what a lookup in a changed list finds (`lookup_upsert_self`, `lookup_upsert_ne`, `lookup_modifyFirst_ne`,
  `lookup_append_ne`);
- lists whose keys are distinct except for a reserved one (`KeysNodup`), under which hiding the first entry of a key
  hides the key (`lookup_modifyFirst_hide`).
-/

namespace KeyedList

variable {ε κ : Type} [DecidableEq κ] {key : ε → κ}

/-- The first entry under the key `k`. -/
def lookup (key : ε → κ) (k : κ) : List ε → Option ε
  | [] => none
  | e :: l => if key e = k then some e else lookup key k l

/-- Rewrite the first entry under the key `k`. -/
def modifyFirst (key : ε → κ) (k : κ) (f : ε → ε) : List ε → List ε
  | [] => []
  | e :: l => if key e = k then f e :: l else e :: modifyFirst key k f l

/-- Rewrite the first entry under the key `k`, or append `new` when there is none. -/
def upsert (key : ε → κ) (k : κ) (f : ε → ε) (new : ε) : List ε → List ε
  | [] => [new]
  | e :: l => if key e = k then f e :: l else e :: upsert key k f new l

/-- Distinct keys, except that the key `d` may occur any number of times. -/
def KeysNodup (key : ε → κ) (d : κ) (l : List ε) : Prop :=
  l.Pairwise fun a b => key a = key b → key a = d

/-! ## Lookups -/

@[simp] theorem lookup_nil (k : κ) : lookup key k [] = none := rfl

theorem lookup_some {k : κ} {e : ε} : ∀ {l : List ε}, lookup key k l = some e → e ∈ l ∧ key e = k
  | [], h => by cases h
  | a :: l, h => by
    unfold lookup at h
    split at h
    · cases h; exact ⟨List.mem_cons_self, ‹_›⟩
    · have := lookup_some h
      exact ⟨List.mem_cons_of_mem _ this.1, this.2⟩

theorem lookup_eq_none {k : κ} : ∀ {l : List ε}, lookup key k l = none ↔ ∀ e ∈ l, key e ≠ k
  | [] => by simp
  | a :: l => by
    unfold lookup
    split
    · rename_i h; simp [h]
    · rename_i h; simp [lookup_eq_none (l := l), h]

theorem lookup_isSome {k : κ} {l : List ε} {e : ε} (he : e ∈ l) (hk : key e = k) : ∃ e', lookup key k l = some e' := by
  cases h : lookup key k l with
  | some e' => exact ⟨e', rfl⟩
  | none => exact absurd hk (lookup_eq_none.1 h e he)

theorem lookup_append (k : κ) (l m : List ε) : lookup key k (l ++ m) = (lookup key k l).or (lookup key k m) := by
  induction l with
  | nil => rfl
  | cons a l ih =>
    simp only [List.cons_append, lookup]
    split
    · rfl
    · exact ih

theorem lookup_append_ne {k : κ} {new : ε} (h : key new ≠ k) (l : List ε) :
    lookup key k (l ++ [new]) = lookup key k l := by
  simp [lookup_append, lookup, h]

theorem lookup_append_self {k : κ} {new : ε} (hk : key new = k) {l : List ε} (h : lookup key k l = none) :
    lookup key k (l ++ [new]) = some new := by
  simp [lookup_append, lookup, h, hk]

theorem lookup_map {k : κ} {f : ε → ε} (hf : ∀ e, key (f e) = key e) :
    ∀ l : List ε, lookup key k (l.map f) = (lookup key k l).map f
  | [] => rfl
  | a :: l => by
    simp only [List.map_cons, lookup, hf]
    split
    · rfl
    · exact lookup_map hf l

/-! ## Changed lists -/

theorem mem_modifyFirst {k : κ} {f : ε → ε} {e : ε} : ∀ {l : List ε}, e ∈ modifyFirst key k f l →
    e ∈ l ∨ ∃ a ∈ l, key a = k ∧ e = f a
  | [], h => by cases h
  | a :: l, h => by
    unfold modifyFirst at h
    split at h
    · rename_i hk
      rcases List.mem_cons.1 h with rfl | h
      · exact Or.inr ⟨a, List.mem_cons_self, hk, rfl⟩
      · exact Or.inl (List.mem_cons_of_mem _ h)
    · rcases List.mem_cons.1 h with rfl | h
      · exact Or.inl List.mem_cons_self
      · rcases mem_modifyFirst h with h | ⟨b, hb, hk, rfl⟩
        · exact Or.inl (List.mem_cons_of_mem _ h)
        · exact Or.inr ⟨b, List.mem_cons_of_mem _ hb, hk, rfl⟩

theorem upsert_of_lookup {k : κ} {f : ε → ε} {new : ε} : ∀ {l : List ε} {e : ε}, lookup key k l = some e →
    upsert key k f new l = modifyFirst key k f l
  | [], _, h => by cases h
  | a :: l, _, h => by
    unfold lookup at h
    unfold upsert modifyFirst
    split
    · rfl
    · rename_i hk
      rw [if_neg hk] at h
      rw [upsert_of_lookup h]

theorem upsert_of_none {k : κ} {f : ε → ε} {new : ε} : ∀ {l : List ε}, lookup key k l = none →
    upsert key k f new l = l ++ [new]
  | [], _ => rfl
  | a :: l, h => by
    unfold lookup at h
    split at h
    · cases h
    · rename_i hk
      rw [upsert, if_neg hk, upsert_of_none h, List.cons_append]

theorem mem_upsert {k : κ} {f : ε → ε} {new e : ε} {l : List ε} (h : e ∈ upsert key k f new l) :
    e ∈ l ∨ (∃ a ∈ l, key a = k ∧ e = f a) ∨ e = new := by
  cases hl : lookup key k l with
  | some a =>
    rw [upsert_of_lookup hl] at h
    rcases mem_modifyFirst h with h | h
    · exact Or.inl h
    · exact Or.inr (Or.inl h)
  | none =>
    rw [upsert_of_none hl, List.mem_append, List.mem_singleton] at h
    rcases h with h | h
    · exact Or.inl h
    · exact Or.inr (Or.inr h)

theorem lookup_modifyFirst_self {k : κ} {f : ε → ε} (hf : ∀ e, key e = k → key (f e) = k) :
    ∀ l : List ε, lookup key k (modifyFirst key k f l) = (lookup key k l).map f
  | [] => rfl
  | a :: l => by
    by_cases hk : key a = k
    · simp [modifyFirst, lookup, hk, hf a hk]
    · simp only [modifyFirst, lookup, if_neg hk]; exact lookup_modifyFirst_self hf l

/-- Rewriting an entry of `k`, whether it keeps its key or takes a key other than `k'`, leaves `k'` alone. -/
theorem lookup_modifyFirst_ne {k k' : κ} {f : ε → ε} (hk : k ≠ k') (hf : ∀ e, key e = k → key (f e) ≠ k') :
    ∀ l : List ε, lookup key k' (modifyFirst key k f l) = lookup key k' l
  | [] => rfl
  | a :: l => by
    unfold modifyFirst
    split
    · rename_i ha
      have h1 : key a ≠ k' := fun h => hk (ha.symm.trans h)
      simp [lookup, hf a ha, h1]
    · simp only [lookup, lookup_modifyFirst_ne hk hf l]

theorem lookup_upsert_self {k : κ} {f : ε → ε} {new : ε} (hf : ∀ e, key e = k → key (f e) = k) (hn : key new = k)
    (l : List ε) : lookup key k (upsert key k f new l) = some (((lookup key k l).map f).getD new) := by
  cases hl : lookup key k l with
  | some a => rw [upsert_of_lookup hl, lookup_modifyFirst_self hf, hl]; rfl
  | none => rw [upsert_of_none hl, lookup_append_self hn hl]; rfl

theorem lookup_upsert_ne {k k' : κ} {f : ε → ε} {new : ε} (hk : k ≠ k') (hf : ∀ e, key e = k → key (f e) = k)
    (hn : key new = k) (l : List ε) : lookup key k' (upsert key k f new l) = lookup key k' l := by
  cases hl : lookup key k l with
  | some a =>
    rw [upsert_of_lookup hl, lookup_modifyFirst_ne hk]
    intro e he
    rw [hf e he]; exact hk
  | none => rw [upsert_of_none hl, lookup_append_ne (by rw [hn]; exact hk)]

/-! ## Distinct keys -/

section KeysNodup

variable {d : κ}

theorem keysNodup_append {l : List ε} {new : ε} (hl : KeysNodup key d l)
    (h : lookup key (key new) l = none) : KeysNodup key d (l ++ [new]) := by
  refine List.pairwise_append.2 ⟨hl, List.pairwise_singleton _ _, fun a ha b hb hab => ?_⟩
  rw [List.mem_singleton] at hb
  subst hb
  exact absurd hab (lookup_eq_none.1 h a ha)

omit [DecidableEq κ] in
theorem keysNodup_map {l : List ε} {f : ε → ε} (hl : KeysNodup key d l) (hf : ∀ e, key (f e) = key e) :
    KeysNodup key d (l.map f) := by
  refine List.pairwise_map.2 (hl.imp fun h hab => ?_)
  rw [hf, hf] at hab
  rw [hf]; exact h hab

/-- Rewriting the first entry of `k` keeps the keys distinct when it keeps its key or takes the reserved one. -/
theorem keysNodup_modifyFirst {k : κ} {f : ε → ε} (hf : ∀ e, key e = k → key (f e) = k ∨ key (f e) = d) :
    ∀ {l : List ε}, KeysNodup key d l → KeysNodup key d (modifyFirst key k f l)
  | [], h => h
  | a :: l, h => by
    obtain ⟨ha, hl⟩ := List.pairwise_cons.1 h
    unfold modifyFirst
    split
    · rename_i hk
      refine List.pairwise_cons.2 ⟨fun b hb hab => ?_, hl⟩
      rcases hf a hk with h1 | h1
      · rw [h1] at hab ⊢
        rw [← hk]; exact ha b hb (hk.trans hab)
      · exact h1
    · rename_i hk
      refine List.pairwise_cons.2 ⟨fun b hb hab => ?_, keysNodup_modifyFirst hf hl⟩
      rcases mem_modifyFirst hb with hb | ⟨c, hc, hck, rfl⟩
      · exact ha b hb hab
      · rcases hf c hck with h1 | h1
        · exact absurd (hab.trans h1) hk
        · exact hab.trans h1

theorem keysNodup_upsert {k : κ} {f : ε → ε} {new : ε} (hf : ∀ e, key e = k → key (f e) = k) (hn : key new = k)
    {l : List ε} (h : KeysNodup key d l) : KeysNodup key d (upsert key k f new l) := by
  cases hl : lookup key k l with
  | some a =>
    rw [upsert_of_lookup hl]
    exact keysNodup_modifyFirst (fun e he => Or.inl (hf e he)) h
  | none =>
    rw [upsert_of_none hl]
    exact keysNodup_append h (by rw [hn]; exact hl)

omit [DecidableEq κ] in
/-- Keys that are distinct whichever key is reserved are distinct. -/
theorem nodup_map_iff [Nontrivial κ] {l : List ε} : (l.map key).Nodup ↔ ∀ d, KeysNodup key d l := by
  rw [List.Nodup, List.pairwise_map]
  constructor
  · intro h d
    exact h.imp fun hne heq => absurd heq hne
  · intro h
    obtain ⟨d, d', hd⟩ := exists_pair_ne κ
    refine ((h d).and (h d')).imp fun h heq => ?_
    exact hd ((h.1 heq).symm.trans (h.2 heq))

/-- Moving the only entry of `k` to the reserved key leaves no entry of `k`. -/
theorem lookup_modifyFirst_hide {k : κ} {f : ε → ε} (hkd : k ≠ d) (hf : ∀ e, key e = k → key (f e) = d) :
    ∀ {l : List ε}, KeysNodup key d l → lookup key k (modifyFirst key k f l) = none
  | [], _ => rfl
  | a :: l, h => by
    obtain ⟨ha, hl⟩ := List.pairwise_cons.1 h
    unfold modifyFirst
    split
    · rename_i hk
      have h1 : key (f a) ≠ k := by rw [hf a hk]; exact hkd.symm
      have h2 : lookup key k l = none := lookup_eq_none.2 fun b hb hbk =>
        hkd (hk ▸ ha b hb (hk.trans hbk.symm))
      simp [lookup, h1, h2]
    · rename_i hk
      simp only [lookup, if_neg hk]
      exact lookup_modifyFirst_hide hkd hf hl

end KeysNodup

end KeyedList
