import Mathlib.Data.List.Basic

/-!
# Runs of a machine and their histories

A machine answers every operation with an output and a next state (`exec`). A run applies operations one after
another, each admissible in the state it meets (`Adm`), and keeps its history: the events, latest first, each with the
state before it (`Run`).

- `Run.invariant`: what holds initially and is kept by every admissible step holds, together with the history, after
  every run;
- `play`: the history and state that given operations lead to, a run when they are admissible (`Run.play`);
- `Run.mono`: what an event's state satisfied, and every step keeps, still holds at the end of the run;
- `latest`: the latest entry of a history that has a property.
-/

namespace Trace

variable {σ Op Out : Type}

/-- One step of a run: the state it met, the operation, its output and the state it left. -/
structure Event (σ Op Out : Type) where
  pre : σ
  op : Op
  out : Out
  post : σ

/-- The event of executing `op` in `s`. -/
def step (exec : Op → σ → Out × σ) (s : σ) (op : Op) : Event σ Op Out :=
  ⟨s, op, (exec op s).1, (exec op s).2⟩

/-- Runs from an initial state, with the events so far, latest first. -/
inductive Run (exec : Op → σ → Out × σ) (Adm : σ → Op → Prop) (init : σ → Prop) : List (Event σ Op Out) → σ → Prop
  | start {s : σ} : init s → Run exec Adm init [] s
  | step {es : List (Event σ Op Out)} {s : σ} (op : Op) : Run exec Adm init es s → Adm s op →
      Run exec Adm init (step exec s op :: es) (step exec s op).post

variable {exec : Op → σ → Out × σ} {Adm : σ → Op → Prop} {init : σ → Prop}

/-- Execute operations one after another, adding to a history. -/
def play (exec : Op → σ → Out × σ) : List (Event σ Op Out) → σ → List Op → List (Event σ Op Out) × σ
  | es, s, [] => (es, s)
  | es, s, op :: ops => play exec (step exec s op :: es) (exec op s).2 ops

/-- Every operation is admissible in the state it meets. -/
def Admissible (exec : Op → σ → Out × σ) (Adm : σ → Op → Prop) : σ → List Op → Prop
  | _, [] => True
  | s, op :: ops => Adm s op ∧ Admissible exec Adm (exec op s).2 ops

instance decidableAdmissible [∀ s op, Decidable (Adm s op)] :
    ∀ (s : σ) (ops : List Op), Decidable (Admissible exec Adm s ops)
  | _, [] => .isTrue trivial
  | s, op :: ops =>
    have := decidableAdmissible (exec op s).2 ops
    inferInstanceAs (Decidable (Adm s op ∧ _))

/-- Admissible operations prolong a run. -/
theorem Run.play : ∀ {ops : List Op} {es : List (Event σ Op Out)} {s : σ}, Run exec Adm init es s →
    Admissible exec Adm s ops → Run exec Adm init (Trace.play exec es s ops).1 (Trace.play exec es s ops).2
  | [], _, _, h, _ => h
  | op :: _, _, _, h, ha => by
    have hrest := Run.play (Run.step op h ha.1) ha.2
    exact hrest

/-- What admissible operations keep holds at the end of any number of them. -/
theorem Admissible.invariant {I : σ → Prop} (hI : ∀ s op, Adm s op → I s → I (exec op s).2) :
    ∀ {ops : List Op} (es : List (Event σ Op Out)) {s : σ}, Admissible exec Adm s ops → I s →
      I (Trace.play exec es s ops).2
  | [], _, _, _, h => h
  | op :: _, es, s, ha, h => by
    have hrest := Admissible.invariant hI (Trace.step exec s op :: es) ha.2 (hI s op ha.1 h)
    exact hrest

/-- An invariant of states and histories. -/
theorem Run.invariant {I : List (Event σ Op Out) → σ → Prop} (h0 : ∀ s, init s → I [] s)
    (hs : ∀ es s op, Run exec Adm init es s → Adm s op → I es s → I (Trace.step exec s op :: es) (exec op s).2)
    {es : List (Event σ Op Out)} {s : σ} (h : Run exec Adm init es s) : I es s := by
  induction h with
  | start h => exact h0 _ h
  | step op hr ha ih => exact hs _ _ op hr ha ih

/-- Every event of a run met a state that a run reached, and was admissible there. -/
theorem Run.event {es : List (Event σ Op Out)} {s : σ} (h : Run exec Adm init es s) :
    ∀ e ∈ es, (∃ es', Run exec Adm init es' e.pre) ∧ Adm e.pre e.op ∧ e = Trace.step exec e.pre e.op := by
  induction h with
  | start h => simp
  | step op hr ha ih =>
    intro e he
    rcases List.mem_cons.1 he with rfl | he
    · exact ⟨⟨_, hr⟩, ha, rfl⟩
    · exact ih e he

/-- A property of states that every admissible step keeps holds at the end of a run when it held after an event. -/
theorem Run.mono {P : σ → Prop}
    (hP : ∀ es s op, Run exec Adm init es s → Adm s op → P s → P (exec op s).2)
    {es : List (Event σ Op Out)} {s : σ} (h : Run exec Adm init es s) : ∀ e ∈ es, P e.post → P s := by
  induction h with
  | start h => simp
  | step op hr ha ih =>
    intro e he hp
    rcases List.mem_cons.1 he with rfl | he
    · exact hp
    · exact hP _ _ op hr ha (ih e he hp)

/-! ## The latest entry -/

section Latest

variable {α : Type} {p : α → Bool} {a : α} {l : List α}

/-- The latest entry with a property, with the entries after it. -/
def latest (p : α → Bool) : List α → Option (List α × α)
  | [] => none
  | a :: l => if p a then some ([], a) else (latest p l).map fun r => (a :: r.1, r.2)

theorem latest_cons_pos (h : p a = true) (l : List α) : latest p (a :: l) = some ([], a) := if_pos h

theorem latest_cons_neg (h : p a = false) (l : List α) :
    latest p (a :: l) = (latest p l).map fun r => (a :: r.1, r.2) := if_neg (by simp [h])

theorem latest_some {later : List α} (h : latest p l = some (later, a)) :
    p a = true ∧ ∃ earlier, l = later ++ a :: earlier := by
  induction l generalizing later with
  | nil => cases h
  | cons b l ih =>
    cases hb : p b with
    | true =>
      rw [latest_cons_pos hb] at h
      cases h
      exact ⟨hb, l, rfl⟩
    | false =>
      rw [latest_cons_neg hb] at h
      obtain ⟨⟨later', a'⟩, hr, heq⟩ := Option.map_eq_some_iff.1 h
      cases heq
      obtain ⟨ha, earlier, rfl⟩ := ih hr
      exact ⟨ha, earlier, rfl⟩

end Latest

end Trace
