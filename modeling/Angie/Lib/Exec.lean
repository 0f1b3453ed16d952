import Mathlib.Order.Defs.Unbundled

/-!
# Programs with exceptions that keep their state

Rules for `EStateM ε σ`, where a throw leaves the state as it stands.

- `final`: the state in which a program ended, `ok_final` that of a program that is seen to return;
- `bind_ok`, `bind_error`: what a sequence did, from what its parts did;
- `Steps R m`: whichever way `m` ends, it leads from its initial to its final state by `R`. For a preorder `R` this
  composes (`steps_pure`, `steps_throw`, `steps_bind`, `steps_ite`), so that a relation that holds of the primitive
  steps holds of every program built from them;
- `Throws pre P m`: every exception that `m` ends with satisfies `P` (`throws_bind` and its like);
- `zoom`: a program run on a part of a larger state.
-/

namespace Exec

variable {ε σ α β : Type}

/-- The state in which a program ended. -/
def final : EStateM.Result ε σ α → σ
  | .ok _ s => s
  | .error _ s => s

@[simp] theorem final_ok (a : α) (s : σ) : final (.ok a s : EStateM.Result ε σ α) = s := rfl

@[simp] theorem final_error (e : ε) (s : σ) : final (.error e s : EStateM.Result ε σ α) = s := rfl

/-- To be run: the program returns, and where is computed. -/
theorem ok_final {m : EStateM ε σ Unit} {s : σ}
    (h : (match m s with | .ok _ _ => true | .error _ _ => false) = true) : m s = .ok () (final (m s)) := by
  cases hm : m s with
  | ok a t => rfl
  | error e t =>
    rw [hm] at h
    cases h

/-! ## Sequences -/

theorem bind_apply (m : EStateM ε σ α) (f : α → EStateM ε σ β) (s : σ) :
    (m >>= f) s = match m s with
      | .ok a t => f a t
      | .error e t => .error e t := rfl

theorem bind_ok {m : EStateM ε σ α} {f : α → EStateM ε σ β} {s u : σ} {b : β} (h : (m >>= f) s = .ok b u) :
    ∃ a t, m s = .ok a t ∧ f a t = .ok b u := by
  rw [bind_apply] at h
  cases hm : m s with
  | ok a t => rw [hm] at h; exact ⟨a, t, rfl, h⟩
  | error e t => rw [hm] at h; cases h

theorem bind_error {m : EStateM ε σ α} {f : α → EStateM ε σ β} {s u : σ} {e : ε} (h : (m >>= f) s = .error e u) :
    m s = .error e u ∨ ∃ a t, m s = .ok a t ∧ f a t = .error e u := by
  rw [bind_apply] at h
  cases hm : m s with
  | ok a t => rw [hm] at h; exact Or.inr ⟨a, t, rfl, h⟩
  | error e' t => rw [hm] at h; cases h; exact Or.inl rfl

theorem bind_of_ok {m : EStateM ε σ α} {f : α → EStateM ε σ β} {s t : σ} {a : α} (h : m s = .ok a t) :
    (m >>= f) s = f a t := by
  rw [bind_apply, h]

theorem bind_of_error {m : EStateM ε σ α} {f : α → EStateM ε σ β} {s t : σ} {e : ε} (h : m s = .error e t) :
    (m >>= f) s = .error e t := by
  rw [bind_apply, h]

/-- Changing the answer leaves the final state alone. -/
theorem final_map (f : α → β) (m : EStateM ε σ α) (s : σ) : final ((f <$> m) s) = final (m s) := by
  change final ((EStateM.map f m) s) = final (m s)
  unfold EStateM.map
  cases m s <;> rfl

theorem map_ok {f : α → β} {m : EStateM ε σ α} {s t : σ} {b : β} (h : (f <$> m) s = .ok b t) :
    ∃ a, m s = .ok a t ∧ f a = b := by
  change EStateM.map f m s = .ok b t at h
  unfold EStateM.map at h
  cases hm : m s with
  | ok a u => rw [hm] at h; cases h; exact ⟨a, rfl, rfl⟩
  | error e u => rw [hm] at h; cases h

/-- Nor does it decide whether there is one. -/
theorem map_returns_iff (f : α → β) (m : EStateM ε σ α) (s : σ) :
    (∃ b t, (f <$> m) s = .ok b t) ↔ ∃ a t, m s = .ok a t := by
  change (∃ b t, EStateM.map f m s = .ok b t) ↔ _
  unfold EStateM.map
  cases m s with
  | ok a t => exact iff_of_true ⟨f a, t, rfl⟩ ⟨a, t, rfl⟩
  | error e t => exact iff_of_false (fun ⟨_, _, h⟩ => by cases h) (fun ⟨_, _, h⟩ => by cases h)

@[simp] theorem pure_apply (a : α) (s : σ) : (pure a : EStateM ε σ α) s = .ok a s := rfl

@[simp] theorem throw_apply (e : ε) (s : σ) : (throw e : EStateM ε σ α) s = .error e s := rfl

@[simp] theorem get_apply (s : σ) : (get : EStateM ε σ σ) s = .ok s s := rfl

@[simp] theorem set_apply (t s : σ) : (set t : EStateM ε σ PUnit) s = .ok ⟨⟩ t := rfl

@[simp] theorem modify_apply (f : σ → σ) (s : σ) : (modify f : EStateM ε σ PUnit) s = .ok ⟨⟩ (f s) := rfl

@[simp] theorem ofExcept_ok (a : α) (s : σ) : (ofExcept (.ok a : Except ε α) : EStateM ε σ α) s = .ok a s := rfl

@[simp] theorem ofExcept_error (e : ε) (s : σ) :
    (ofExcept (.error e : Except ε α) : EStateM ε σ α) s = .error e s := rfl

/-- An answer that needs no state. -/
theorem bind_ofExcept_ok {x : Except ε α} {f : α → EStateM ε σ β} {s t : σ} {b : β}
    (h : (ofExcept x >>= f) s = .ok b t) : ∃ a, x = .ok a ∧ f a s = .ok b t := by
  cases x with
  | ok a => exact ⟨a, rfl, h⟩
  | error e => cases h

theorem ofExcept_bind {x : Except ε α} {a : α} (h : x = .ok a) (f : α → EStateM ε σ β) (s : σ) :
    (ofExcept x >>= f) s = f a s := by
  rw [h]
  rfl

/-! ## Steps -/

/-- Whichever way `m` ends, `R` leads from its initial to its final state. -/
def Steps (R : σ → σ → Prop) (m : EStateM ε σ α) : Prop := ∀ s, R s (final (m s))

section Steps

variable {R : σ → σ → Prop}

theorem Steps.ok {m : EStateM ε σ α} (h : Steps R m) {s t : σ} {a : α} (hm : m s = .ok a t) : R s t := by
  have := h s
  rwa [hm] at this

theorem Steps.error {m : EStateM ε σ α} (h : Steps R m) {s t : σ} {e : ε} (hm : m s = .error e t) : R s t := by
  have := h s
  rwa [hm] at this

theorem steps_pure [IsPreorder σ R] (a : α) : Steps R (pure a : EStateM ε σ α) := fun s => Std.Refl.refl s

theorem steps_throw [IsPreorder σ R] (e : ε) : Steps R (throw e : EStateM ε σ α) := fun s => Std.Refl.refl s

theorem steps_bind [IsPreorder σ R] {m : EStateM ε σ α} {f : α → EStateM ε σ β} (hm : Steps R m)
    (hf : ∀ a, Steps R (f a)) : Steps R (m >>= f) := by
  intro s
  rw [bind_apply]
  cases h : m s with
  | ok a t => exact IsTrans.trans s t _ (hm.ok h) (hf a t)
  | error e t => exact hm.error h

/-- Reading the state costs nothing: the rest may be proved for the state that was read. -/
theorem steps_get {f : σ → EStateM ε σ β} (hf : ∀ s, R s (final (f s s))) : Steps R (get >>= f) := fun s => hf s

theorem steps_ite {c : Prop} [Decidable c] {m n : EStateM ε σ α} (hm : Steps R m) (hn : Steps R n) :
    Steps R (if c then m else n) := by
  split
  · exact hm
  · exact hn

end Steps

/-! ## Exceptions -/

/-- From a state that satisfies `pre`, every exception that `m` ends with satisfies `P`. -/
def Throws (pre : σ → Prop) (P : ε → Prop) (m : EStateM ε σ α) : Prop := ∀ s, pre s → ∀ e t, m s = .error e t → P e

section Throws

variable {pre post : σ → Prop} {P : ε → Prop}

theorem throws_pure (a : α) : Throws pre P (pure a : EStateM ε σ α) := fun _ _ _ _ h => by cases h

theorem throws_throw {e : ε} (h : P e) : Throws pre P (throw e : EStateM ε σ α) := fun _ _ _ _ ht => by cases ht; exact h

theorem throws_ofExcept {x : Except ε α} (h : ∀ e, x = .error e → P e) : Throws pre P (ofExcept x : EStateM ε σ α) := by
  cases x with
  | ok a => exact throws_pure a
  | error e => exact throws_throw (h e rfl)

theorem throws_bind {m : EStateM ε σ α} {f : α → EStateM ε σ β} (hm : Throws pre P m)
    (hpost : ∀ s, pre s → ∀ a t, m s = .ok a t → post t) (hf : ∀ a, Throws post P (f a)) : Throws pre P (m >>= f) := by
  intro s hs e t h
  rcases bind_error h with h | ⟨a, u, hok, h⟩
  · exact hm s hs e t h
  · exact hf a u (hpost s hs a u hok) e t h

/-- An answer that needs no state leaves the precondition. -/
theorem throws_ofExcept_bind {x : Except ε α} {f : α → EStateM ε σ β} (h : ∀ e, x = .error e → P e)
    (hf : ∀ a, Throws pre P (f a)) : Throws pre P (ofExcept x >>= f) := by
  refine throws_bind (throws_ofExcept h) (fun s hs a t hok => ?_) hf
  cases x with
  | ok b => cases hok; exact hs
  | error e => cases hok

end Throws

/-! ## Parts of a state -/

section Zoom

variable {τ : Type} (part : σ → τ) (put : τ → σ → σ)

/-- Run a program on a part of the state. -/
def zoom (m : EStateM ε τ α) : EStateM ε σ α := fun s =>
  match m (part s) with
  | .ok a t => .ok a (put t s)
  | .error e t => .error e (put t s)

end Zoom

end Exec
