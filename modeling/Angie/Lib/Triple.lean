import Angie.Lib.Exec

/-!
# Triples

`Triple pre m post raised`: from a state that satisfies `pre`, `m` returns an answer and a state that satisfy `post`, or
throws an exception and leaves a state that satisfy `raised`. The rules follow the structure of the program, so that a
triple of a program is put together from those of its parts.
-/

namespace Exec

variable {ε σ τ α β : Type}

def Triple (pre : σ → Prop) (m : EStateM ε σ α) (post : α → σ → Prop) (raised : ε → σ → Prop) : Prop :=
  ∀ s, pre s → match m s with
    | .ok a t => post a t
    | .error e t => raised e t

section Rules

variable {pre : σ → Prop} {post : α → σ → Prop} {raised : ε → σ → Prop}

theorem Triple.ok {m : EStateM ε σ α} (h : Triple pre m post raised) {s t : σ} {a : α} (hs : pre s)
    (hm : m s = .ok a t) : post a t := by
  have := h s hs
  rwa [hm] at this

theorem Triple.error {m : EStateM ε σ α} (h : Triple pre m post raised) {s t : σ} {e : ε} (hs : pre s)
    (hm : m s = .error e t) : raised e t := by
  have := h s hs
  rwa [hm] at this

theorem triple_pure {a : α} (h : ∀ s, pre s → post a s) : Triple pre (pure a : EStateM ε σ α) post raised := h

theorem triple_throw {e : ε} (h : ∀ s, pre s → raised e s) : Triple pre (throw e : EStateM ε σ α) post raised := h

/-- The rule of sequences: what the first part ends with is what the second starts from. -/
theorem triple_bind {mid : α → σ → Prop} {post : β → σ → Prop} {m : EStateM ε σ α} {f : α → EStateM ε σ β}
    (hm : Triple pre m mid raised) (hf : ∀ a, Triple (mid a) (f a) post raised) : Triple pre (m >>= f) post raised := by
  intro s hs
  have h := hm s hs
  rw [bind_apply]
  cases hms : m s with
  | ok a t => rw [hms] at h; exact hf a t h
  | error e t => rw [hms] at h; exact h

theorem triple_ofExcept {x : Except ε α} (ha : ∀ a, x = .ok a → ∀ s, pre s → post a s)
    (he : ∀ e, x = .error e → ∀ s, pre s → raised e s) : Triple pre (ofExcept x : EStateM ε σ α) post raised := by
  cases x with
  | ok a => exact ha a rfl
  | error e => exact he e rfl

/-- The state that is read is the one at hand. -/
theorem triple_get {post : β → σ → Prop} {f : σ → EStateM ε σ β}
    (hf : ∀ s, pre s → Triple (· = s) (f s) post raised) : Triple pre (get >>= f) post raised :=
  fun s hs => hf s hs s rfl

theorem triple_modify {f : σ → σ} {post : PUnit → σ → Prop} (h : ∀ s, pre s → post ⟨⟩ (f s)) :
    Triple pre (modify f : EStateM ε σ PUnit) post raised := h

theorem triple_ite {c : Prop} [Decidable c] {m n : EStateM ε σ α} (hm : c → Triple pre m post raised)
    (hn : ¬ c → Triple pre n post raised) : Triple pre (if c then m else n) post raised := by
  split
  · rename_i hc
    exact hm hc
  · rename_i hc
    exact hn hc

/-- The rule of consequence. -/
theorem Triple.weaken {pre' : σ → Prop} {post' : α → σ → Prop} {raised' : ε → σ → Prop} {m : EStateM ε σ α}
    (h : Triple pre m post raised) (hpre : ∀ s, pre' s → pre s) (hpost : ∀ a t, post a t → post' a t)
    (hraised : ∀ e t, raised e t → raised' e t) : Triple pre' m post' raised' := by
  intro s hs
  have hm := h s (hpre s hs)
  cases hr : m s with
  | ok a t => rw [hr] at hm; exact hpost a t hm
  | error e t => rw [hr] at hm; exact hraised e t hm

/-- A program on a part of the state. -/
theorem triple_zoom {part : σ → τ} {put : τ → σ → σ} {m : EStateM ε τ α}
    (h : ∀ s, pre s → (∀ a t, m (part s) = .ok a t → post a (put t s)) ∧
      ∀ e t, m (part s) = .error e t → raised e (put t s)) : Triple pre (zoom part put m) post raised := by
  intro s hs
  obtain ⟨hok, herror⟩ := h s hs
  unfold zoom
  cases hr : m (part s) with
  | ok a t => exact hok a t hr
  | error e t => exact herror e t hr

end Rules

end Exec
