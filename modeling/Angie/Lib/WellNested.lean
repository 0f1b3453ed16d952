import Mathlib.Logic.Relation

/-!
# Calls and returns over a stack

A system whose steps leave a stack alone (`plain`), push one frame (`call`) or pop one (`ret`).

- `Balanced`: a run in which every call has returned; it leaves the stack as it found it (`Balanced.stack_eq`);
- `Pending`: a run from a start, through the calls that have not returned; every run is of this shape (`pending_of_run`)
  as long as it began with an empty stack;
- `ret_matched`: so every return of such a run belongs to one call, with a balanced run between the two, and pops the
  very frame that this call pushed (`matched_stack`).
-/

namespace WellNested

open Relation

variable {σ φ : Type*}

/-- The three kinds of steps. -/
structure System (σ : Type*) where
  plain : σ → σ → Prop
  call : σ → σ → Prop
  ret : σ → σ → Prop

namespace System

variable (S : System σ)

/-- A step of any kind. -/
def Step (s t : σ) : Prop := S.plain s t ∨ S.call s t ∨ S.ret s t

/-- A run in which every call has returned. -/
inductive Balanced : σ → σ → Prop
  | refl (s : σ) : Balanced s s
  | plain {s t u : σ} : Balanced s t → S.plain t u → Balanced s u
  | nested {s c e r t : σ} : Balanced s c → S.call c e → Balanced e r → S.ret r t → Balanced s t

/-- A run from `s₀` with the calls that have not returned. -/
inductive Pending (s₀ : σ) : σ → Prop
  | base {s : σ} : S.Balanced s₀ s → Pending s₀ s
  | inner {c e s : σ} : Pending s₀ c → S.call c e → S.Balanced e s → Pending s₀ s

/-- What the steps do to the stack. -/
structure Disciplined (stack : σ → List φ) : Prop where
  plain : ∀ {s t : σ}, S.plain s t → stack t = stack s
  call : ∀ {s t : σ}, S.call s t → ∃ frame, stack t = frame :: stack s
  ret : ∀ {s t : σ}, S.ret s t → ∃ frame, stack s = frame :: stack t

variable {S}

/-! ## Balanced runs -/

theorem Balanced.trans {s t u : σ} (h : S.Balanced s t) (h' : S.Balanced t u) : S.Balanced s u := by
  induction h' with
  | refl => exact h
  | plain _ hp ih => exact .plain (ih h) hp
  | nested _ hc hb hr ihs _ => exact .nested (ihs h) hc hb hr

/-- A balanced run is a run. -/
theorem Balanced.run {s t : σ} (h : S.Balanced s t) : ReflTransGen S.Step s t := by
  induction h with
  | refl => exact .refl
  | plain _ hp ih => exact ih.tail (Or.inl hp)
  | nested _ hc _ hr ihs ihb => exact ((ihs.tail (Or.inr (Or.inl hc))).trans ihb).tail (Or.inr (Or.inr hr))

theorem Pending.run {s₀ s : σ} (h : S.Pending s₀ s) : ReflTransGen S.Step s₀ s := by
  induction h with
  | base hb => exact hb.run
  | inner _ hc hb ih => exact (ih.tail (Or.inr (Or.inl hc))).trans hb.run

section Disciplined

variable {stack : σ → List φ} (hd : S.Disciplined stack)

include hd

/-- What is between a call and its return leaves the stack alone. -/
theorem Balanced.stack_eq {s t : σ} (h : S.Balanced s t) : stack t = stack s := by
  induction h with
  | refl => rfl
  | plain _ hp ih => rw [hd.plain hp, ih]
  | nested _ hc _ hr ihs ihb =>
    obtain ⟨frame, hpush⟩ := hd.call hc
    obtain ⟨frame', hpop⟩ := hd.ret hr
    rw [ihb, hpush] at hpop
    rw [← (List.cons.inj hpop).2, ihs]

/-- A return pops the frame that its call pushed. -/
theorem matched_stack {c e r k : σ} {frame : φ} (hpush : stack e = frame :: stack c) (hb : S.Balanced e r)
    (hr : S.ret r k) : stack r = frame :: stack c ∧ stack k = stack c := by
  have hstack : stack r = frame :: stack c := by rw [hb.stack_eq hd, hpush]
  obtain ⟨frame', hpop⟩ := hd.ret hr
  rw [hstack] at hpop
  exact ⟨hstack, (List.cons.inj hpop).2.symm⟩

/-! ## Runs -/

/-- A return with no call pending would pop from the stack of the start. -/
theorem Pending.matched {s₀ r k : σ} (hempty : stack s₀ = []) (h : S.Pending s₀ r) (hr : S.ret r k) :
    ∃ c e, S.Pending s₀ c ∧ S.call c e ∧ S.Balanced e r := by
  cases h with
  | base hb =>
    obtain ⟨frame, hpop⟩ := hd.ret hr
    rw [hb.stack_eq hd, hempty] at hpop
    cases hpop
  | inner hp hc hb => exact ⟨_, _, hp, hc, hb⟩

theorem Pending.step {s₀ s t : σ} (hempty : stack s₀ = []) (h : S.Pending s₀ s) (hs : S.Step s t) :
    S.Pending s₀ t := by
  rcases hs with hp | hc | hr
  · cases h with
    | base hb => exact .base (.plain hb hp)
    | inner hpc hc hb => exact .inner hpc hc (.plain hb hp)
  · exact .inner h hc (.refl t)
  · obtain ⟨c, e, hpc, hc, hb⟩ := h.matched hd hempty hr
    -- the call and its return are one balanced step of the run around them
    cases hpc with
    | base hb' => exact .base (.nested hb' hc hb hr)
    | inner hpc' hc' hb' => exact .inner hpc' hc' (.nested hb' hc hb hr)

theorem pending_of_run {s₀ s : σ} (hempty : stack s₀ = []) (h : ReflTransGen S.Step s₀ s) : S.Pending s₀ s := by
  induction h with
  | refl => exact .base (.refl s₀)
  | tail _ hs ih => exact ih.step hd hempty hs

/-- Every return of a run has its call. -/
theorem ret_matched {s₀ r k : σ} (hempty : stack s₀ = []) (h : ReflTransGen S.Step s₀ r) (hr : S.ret r k) :
    ∃ c e, ReflTransGen S.Step s₀ c ∧ S.call c e ∧ S.Balanced e r := by
  obtain ⟨c, e, hp, hc, hb⟩ := (pending_of_run hd hempty h).matched hd hempty hr
  exact ⟨c, e, hp.run, hc, hb⟩

end Disciplined

end System

end WellNested
