import Angie.Lib.KeyedList
import Angie.Values.Calls

/-!
# Families of containers

All containers draw from the same counters, and `Clone` copies one with everything it knows. A family is what calls
and clones make of one new container.

- `FamilyOk`: every container keeps its own invariant, and no two of them store different constraints under one id
  (`run_familyOk`). An id below the counter means the same ever after (`Means`, `run_means`), and a container that
  does not have it will not get it, nor will its clones (`Heir.absent`).
- A constant stays bound in the container and its clones (`Heir.bound`); an id that no container binds stays unbound
  everywhere (`Unbound`, `exec_unbound`).

`constraint_store` and `constants_interned` put this together.
-/

namespace Angie

open Trace

/-- The containers that live side by side, with the counters they share. -/
structure Family where
  statics : Statics
  containers : List ValueContainer

inductive FamilyOp where
  | call (container : ℕ) (op : VcOp)
  | clone (container : ℕ)

namespace Family

/-- A container as the state of its calls. -/
def state (f : Family) (vc : ValueContainer) : VcState := ⟨f.statics, vc⟩

/-- One container, right after its constructor. -/
def IsNew (f : Family) : Prop := ∃ s : VcState, Angie.IsNew s ∧ f = ⟨s.statics, [s.vc]⟩

end Family

section Runs

variable [DataLayout]

/-- A step of the family. Nothing happens where there is no such container. -/
def FamilyOp.exec : FamilyOp → Family → Except Exn (Option ValueId) × Family
  | .call i op, f =>
    match f.containers[i]? with
    | some vc =>
      ((op.exec (f.state vc)).1, ⟨(op.exec (f.state vc)).2.statics, f.containers.set i (op.exec (f.state vc)).2.vc⟩)
    | none => (.ok none, f)
  | .clone i, f =>
    match f.containers[i]? with
    | some vc => (.ok none, { f with containers := f.containers ++ [vc] })
    | none => (.ok none, f)

/-- The runs from one new container. -/
abbrev FamilyRun := Run FamilyOp.exec (fun _ _ => True) Family.IsNew

/-- What a step does: nothing, a call of one container, or a copy. -/
theorem FamilyOp.exec_cases (op : FamilyOp) (f : Family) :
    op.exec f = (.ok none, f) ∨
    (∃ i vc o, op = .call i o ∧ f.containers[i]? = some vc ∧ op.exec f = ((o.exec (f.state vc)).1,
      ⟨(o.exec (f.state vc)).2.statics, f.containers.set i (o.exec (f.state vc)).2.vc⟩)) ∨
    ∃ i vc, op = .clone i ∧ f.containers[i]? = some vc ∧
      op.exec f = (.ok none, { f with containers := f.containers ++ [vc] }) := by
  cases op with
  | call i o =>
    cases h : f.containers[i]? with
    | none => exact Or.inl (by simp only [FamilyOp.exec, h])
    | some vc => exact Or.inr (Or.inl ⟨i, vc, o, rfl, h, by simp only [FamilyOp.exec, h]⟩)
  | clone i =>
    cases h : f.containers[i]? with
    | none => exact Or.inl (by simp only [FamilyOp.exec, h])
    | some vc => exact Or.inr (Or.inr ⟨i, vc, rfl, h, by simp only [FamilyOp.exec, h]⟩)

/-- A container after a step: a copy of one before it, with the counters counted up, or one a call has led to. -/
theorem exec_container {op : FamilyOp} {f : Family} {vc' : ValueContainer}
    (h : vc' ∈ (op.exec f).2.containers) :
    ∃ vc ∈ f.containers, vc' = vc ∨ ∃ o : VcOp, (op.exec f).2.state vc' = (o.exec (f.state vc)).2 := by
  rcases op.exec_cases f with heq | ⟨i, vc, o, _, hi, heq⟩ | ⟨i, vc, _, hi, heq⟩
  · rw [heq] at h
    exact ⟨vc', h, Or.inl rfl⟩
  · rw [heq] at h ⊢
    rcases List.mem_or_eq_of_mem_set h with h | rfl
    · exact ⟨vc', h, Or.inl rfl⟩
    · exact ⟨vc, List.mem_of_getElem? hi, Or.inr ⟨o, rfl⟩⟩
  · rw [heq] at h
    rcases List.mem_append.1 h with h | h
    · exact ⟨vc', h, Or.inl rfl⟩
    · rw [List.mem_singleton] at h
      exact ⟨vc, List.mem_of_getElem? hi, Or.inl h⟩

/-- No counter goes back. -/
theorem exec_counters (op : FamilyOp) (f : Family) (vc : ValueContainer) :
    Grows (f.state vc) ((op.exec f).2.state vc) := by
  rcases op.exec_cases f with heq | ⟨i, vc', o, _, _, heq⟩ | ⟨i, vc', _, _, heq⟩
  · rw [heq]; exact Grows.refl _
  · rw [heq]
    have h := exec_extends o (f.state vc')
    exact grows_statics h.nextId h.nextConstraintId h.nextObjectId
  · rw [heq]; exact Grows.refl _

/-- A container keeps its place: it is the same after the step, or a call has led there. -/
theorem exec_getElem? (op : FamilyOp) {f : Family} {j : ℕ} {vc : ValueContainer} (h : f.containers[j]? = some vc) :
    ∃ vc', (op.exec f).2.containers[j]? = some vc' ∧
      (vc' = vc ∨ ∃ o : VcOp, (op.exec f).2.state vc' = (o.exec (f.state vc)).2) := by
  rcases op.exec_cases f with heq | ⟨i, vc', o, _, hi, heq⟩ | ⟨i, vc', _, _, heq⟩
  · rw [heq]
    exact ⟨vc, h, Or.inl rfl⟩
  · rw [heq]
    by_cases hij : i = j
    · subst hij
      rw [h] at hi
      cases hi
      have hlt := (List.getElem?_eq_some_iff.1 h).1
      exact ⟨_, by rw [List.getElem?_set_self hlt], Or.inr ⟨o, rfl⟩⟩
    · exact ⟨vc, by rw [List.getElem?_set_ne hij, h], Or.inl rfl⟩
  · rw [heq]
    have hlt := (List.getElem?_eq_some_iff.1 h).1
    exact ⟨vc, by rw [List.getElem?_append_left hlt, h], Or.inl rfl⟩

/-! ## The invariant -/

structure FamilyOk (f : Family) : Prop where
  container : ∀ vc ∈ f.containers, VcOk (f.state vc)
  /-- One id, one constraint. -/
  agree : ∀ vc ∈ f.containers, ∀ vc' ∈ f.containers, ∀ (k : ConstraintId) c c', vc.constrContainer[k]? = some c →
    vc'.constrContainer[k]? = some c' → c' = c

theorem exec_container_ok {op : FamilyOp} {f : Family} (hf : FamilyOk f) {vc' : ValueContainer}
    (h : vc' ∈ (op.exec f).2.containers) : VcOk ((op.exec f).2.state vc') := by
  obtain ⟨vc, hvc, rfl | ⟨o, ho⟩⟩ := exec_container h
  · exact (exec_counters op f _).vcOk (hf.container _ hvc)
  · rw [ho]
    exact exec_vcOk o (hf.container vc hvc)

theorem exec_familyOk (op : FamilyOp) {f : Family} (hf : FamilyOk f) : FamilyOk (op.exec f).2 where
  container := fun _ h => exec_container_ok hf h
  agree := by
    rcases op.exec_cases f with heq | ⟨i, vc, o, _, hi, heq⟩ | ⟨i, vc, _, hi, heq⟩
    · rw [heq]
      exact hf.agree
    · rw [heq]
      have hvc := List.mem_of_getElem? hi
      -- a constraint of the changed container is an old one or has an id that no other container has
      have hnew : ∀ vc' ∈ f.containers, ∀ (k : ConstraintId) c c', vc'.constrContainer[k]? = some c →
          (o.exec (f.state vc)).2.vc.constrContainer[k]? = some c' → c' = c := by
        intro vc' h' k c c' hc hc'
        rcases exec_stores o hc' with hold | rfl
        · exact hf.agree vc' h' vc hvc k c c' hc hold
        · exact absurd ((hf.container vc' h').store.fresh _ c hc) (Nat.lt_irrefl _)
      intro vc₁ h₁ vc₂ h₂ k c c' hc hc'
      rcases List.mem_or_eq_of_mem_set h₁ with h₁ | rfl <;> rcases List.mem_or_eq_of_mem_set h₂ with h₂ | rfl
      · exact hf.agree vc₁ h₁ vc₂ h₂ k c c' hc hc'
      · exact hnew vc₁ h₁ k c c' hc hc'
      · exact (hnew vc₂ h₂ k c' c hc' hc).symm
      · rw [hc] at hc'
        cases hc'
        rfl
    · rw [heq]
      have hold : ∀ vc' ∈ f.containers ++ [vc], vc' ∈ f.containers := by
        intro vc' h'
        rcases List.mem_append.1 h' with h' | h'
        · exact h'
        · rw [List.mem_singleton.1 h']
          exact List.mem_of_getElem? hi
      exact fun vc₁ h₁ vc₂ h₂ => hf.agree vc₁ (hold vc₁ h₁) vc₂ (hold vc₂ h₂)

theorem run_familyOk {es : List (Event Family FamilyOp (Except Exn (Option ValueId)))} {f : Family}
    (h : FamilyRun es f) : FamilyOk f := by
  refine h.invariant (I := fun _ f => FamilyOk f) ?_ ?_
  · rintro f ⟨s, ⟨statics, h0, rfl⟩, rfl⟩
    have hok : ∀ vc ∈ [(VcState.new statics).vc], vc = (VcState.new statics).vc := fun _ => List.mem_singleton.1
    refine ⟨fun vc h => ?_, fun vc h vc' h' k c c' hc hc' => ?_⟩
    · rw [hok vc h]
      exact ⟨new_storeOk statics, new_constOk h0⟩
    · rw [hok vc h] at hc
      rw [hok vc' h', hc] at hc'
      cases hc'
      rfl
  · intro es f op _ _ hf
    exact exec_familyOk op hf

/-! ## Constraint ids -/

/-- No container has anything but `c` under the id, nor will one: the counter has passed it. -/
def Family.Means (f : Family) (k : ConstraintId) (c : BinaryConstraint) : Prop :=
  k < f.statics.nextConstraintIdToGive ∧ ∀ vc ∈ f.containers, ∀ d, vc.constrContainer[k]? = some d → d = c

omit [DataLayout] in
theorem FamilyOk.means {f : Family} (hf : FamilyOk f) {vc : ValueContainer} (h : vc ∈ f.containers)
    {k : ConstraintId} {c : BinaryConstraint} (hc : vc.constrContainer[k]? = some c) : f.Means k c :=
  ⟨(hf.container vc h).store.fresh k c hc, fun vc' h' d hd => hf.agree vc h vc' h' k c d hc hd⟩

theorem exec_means (op : FamilyOp) {f : Family} {k : ConstraintId} {c : BinaryConstraint} (h : f.Means k c) :
    (op.exec f).2.Means k c := by
  obtain ⟨hk, hc⟩ := h
  refine ⟨?_, fun vc' h' d hd => ?_⟩
  · exact Nat.lt_of_lt_of_le hk (exec_counters op f ⟨0, ∅, ∅, ∅⟩).nextConstraintId
  · obtain ⟨vc, hvc, rfl | ⟨o, ho⟩⟩ := exec_container h'
    · exact hc _ hvc d hd
    · have hd' : (o.exec (f.state vc)).2.vc.constrContainer[k]? = some d := by rw [← ho]; exact hd
      rcases exec_stores o hd' with hold | rfl
      · exact hc vc hvc d hold
      · exact absurd hk (Nat.lt_irrefl _)

/-- What an id named before an event it names at the end of the run, if anything. -/
theorem run_means {es : List (Event Family FamilyOp (Except Exn (Option ValueId)))} {f : Family}
    (h : FamilyRun es f) {e : Event Family FamilyOp (Except Exn (Option ValueId))} (he : e ∈ es)
    {vc : ValueContainer} (hvc : vc ∈ e.pre.containers) {k : ConstraintId} {c : BinaryConstraint}
    (hc : vc.constrContainer[k]? = some c) : f.Means k c := by
  obtain ⟨⟨es', hrun⟩, -, heq⟩ := h.event e he
  refine h.mono (P := fun f => f.Means k c) (fun _ _ op _ _ => exec_means op) e he ?_
  rw [heq]
  exact exec_means e.op ((run_familyOk hrun).means hvc hc)

/-! ## Containers and their clones -/

/-- The container `j` of a later family goes back to the container `i`: it is that container, or a clone of one that
goes back to it. -/
inductive Heir (f : Family) (i : ℕ) : Family → ℕ → Prop
  | self : Heir f i f i
  | step {g : Family} {j : ℕ} (op : FamilyOp) : Heir f i g j → Heir f i (op.exec g).2 j
  | clone {g : Family} {j : ℕ} : Heir f i g j → Heir f i (FamilyOp.exec (.clone j) g).2 g.containers.length

/-- What calls keep, and counting up keeps, holds of a container and of its clones. -/
theorem Heir.keeps {P : VcState → Prop} (hgrow : ∀ s t, Grows s t → P s → P t)
    (hcall : ∀ (o : VcOp) s, P s → P (o.exec s).2) {f g : Family} {i j : ℕ} (h : Heir f i g j)
    {vc : ValueContainer} (hvc : f.containers[i]? = some vc) (hP : P (f.state vc)) :
    ∃ vc', g.containers[j]? = some vc' ∧ P (g.state vc') := by
  induction h with
  | self => exact ⟨vc, hvc, hP⟩
  | @step g j op _ ih =>
    obtain ⟨vc₁, h₁, hP₁⟩ := ih
    obtain ⟨vc₂, h₂, rfl | ⟨o, ho⟩⟩ := exec_getElem? op h₁
    · exact ⟨_, h₂, hgrow _ _ (exec_counters op g _) hP₁⟩
    · refine ⟨vc₂, h₂, ?_⟩
      rw [ho]
      exact hcall o _ hP₁
  | @clone g j _ ih =>
    obtain ⟨vc₁, h₁, hP₁⟩ := ih
    refine ⟨vc₁, ?_, hgrow _ _ (exec_counters (.clone j) g vc₁) hP₁⟩
    simp only [FamilyOp.exec, h₁, List.getElem?_concat_length]

/-- A container that does not have a constraint of an id given out does not get one, nor do its clones. -/
theorem Heir.absent {f g : Family} {i j : ℕ} (h : Heir f i g j) {vc : ValueContainer}
    (hvc : f.containers[i]? = some vc) {k : ConstraintId} (hk : k < f.statics.nextConstraintIdToGive)
    (hn : vc.constrContainer[k]? = none) : ∃ vc', g.containers[j]? = some vc' ∧ vc'.constrContainer[k]? = none := by
  have hgrow : ∀ s t, Grows s t → (k < s.statics.nextConstraintIdToGive ∧ s.vc.constrContainer[k]? = none) →
      k < t.statics.nextConstraintIdToGive ∧ t.vc.constrContainer[k]? = none := by
    rintro s t hst ⟨hlt, hnone⟩
    exact ⟨Nat.lt_of_lt_of_le hlt hst.nextConstraintId, by rw [hst.constrs, hnone]⟩
  have hcall : ∀ (o : VcOp) s, (k < s.statics.nextConstraintIdToGive ∧ s.vc.constrContainer[k]? = none) →
      k < (o.exec s).2.statics.nextConstraintIdToGive ∧ (o.exec s).2.vc.constrContainer[k]? = none := by
    rintro o s ⟨hlt, hnone⟩
    refine ⟨Nat.lt_of_lt_of_le hlt (exec_extends o s).nextConstraintId, ?_⟩
    rw [Option.eq_none_iff_forall_ne_some]
    intro d hd
    rcases exec_stores o hd with hold | rfl
    · rw [hnone] at hold
      cases hold
    · exact absurd hlt (Nat.lt_irrefl _)
  obtain ⟨vc', hvc', -, hn'⟩ := h.keeps hgrow hcall hvc ⟨hk, hn⟩
  exact ⟨vc', hvc', hn'⟩

/-- A constant stays bound in the container and in its clones. -/
theorem Heir.bound {f g : Family} {i j : ℕ} (h : Heir f i g j) (hf : FamilyOk f) {vc : ValueContainer}
    (hvc : f.containers[i]? = some vc) {v : ValueId} {c : Word} (hc : vc.constantContainer[v]? = some c) :
    ∃ vc', g.containers[j]? = some vc' ∧ vc'.constantContainer[v]? = some c := by
  have hok := (hf.container vc (List.mem_of_getElem? hvc)).const
  have hextends : ∀ s t, Extends s t → (ConstOk s ∧ s.vc.constantContainer[v]? = some c) →
      ConstOk t ∧ t.vc.constantContainer[v]? = some c := by
    rintro s t hst ⟨hs, hb⟩
    exact ⟨hst.keeps hs, hst.bound hs hb⟩
  obtain ⟨vc', hvc', -, hc'⟩ := h.keeps (fun s t hst => hextends s t hst.toExtends)
    (fun o s => hextends s _ (exec_extends o s)) hvc ⟨hok, hc⟩
  exact ⟨vc', hvc', hc'⟩

/-! ## Ids that are no constants -/

/-- No container binds the id, nor will one: the counter has passed it. -/
def Family.Unbound (f : Family) (v : ValueId) : Prop :=
  v < f.statics.nextIdToGive ∧ ∀ vc ∈ f.containers, vc.isConstant v = false

theorem exec_unbound (op : FamilyOp) {f : Family} {v : ValueId} (h : f.Unbound v) : (op.exec f).2.Unbound v := by
  obtain ⟨hv, hc⟩ := h
  refine ⟨Int.lt_of_lt_of_le hv (exec_counters op f ⟨0, ∅, ∅, ∅⟩).nextId, fun vc' h' => ?_⟩
  obtain ⟨vc, hvc, rfl | ⟨o, ho⟩⟩ := exec_container h'
  · exact hc _ hvc
  · have hnone := isConstant_eq_false.1 (hc vc hvc)
    rw [isConstant_eq_false]
    have heq := (exec_extends o (f.state vc)).constants v (Or.inl hv)
    rw [← ho] at heq
    exact heq.trans hnone

/-- The id of a new unknown, and one returned that is no constant where it was returned, is a constant nowhere. -/
theorem exec_returns_unbound {f : Family} (hf : FamilyOk f) {i : ℕ} {o : VcOp} {v : ValueId}
    (h : (FamilyOp.exec (.call i o) f).1 = .ok (some v))
    (hu : (∃ t, o = .createVal t) ∨
      ∀ vc, (FamilyOp.exec (.call i o) f).2.containers[i]? = some vc → vc.isConstant v = false) :
    (FamilyOp.exec (.call i o) f).2.Unbound v := by
  cases hi : f.containers[i]? with
  | none =>
    simp only [FamilyOp.exec, hi] at h
    cases h
  | some vc =>
    have hlt := (List.getElem?_eq_some_iff.1 hi).1
    simp only [FamilyOp.exec, hi, List.getElem?_set_self hlt, Option.some.injEq, forall_eq'] at h hu ⊢
    have hconst := (hf.container vc (List.mem_of_getElem? hi)).const
    have hfresh := exec_fresh hconst h
    -- the container of the call does not bind the id
    have hself : (o.exec (f.state vc)).2.vc.isConstant v = false := by
      rcases hu with ⟨t, rfl⟩ | hu
      · cases h
        rw [isConstant_eq_false, Option.eq_none_iff_forall_ne_some]
        intro c hc
        exact absurd (hconst.range _ c hc).2 (Int.lt_irrefl _)
      · exact hu
    refine ⟨hfresh.given.2, fun vc' h' => ?_⟩
    rcases List.mem_or_eq_of_mem_set h' with h' | rfl
    · -- the others bind ids below the counter
      have hnew : f.statics.nextIdToGive ≤ v := by
        rcases hfresh.new with hnew | hc
        · exact hnew
        · rw [hself] at hc
          cases hc
      rw [isConstant_eq_false, Option.eq_none_iff_forall_ne_some]
      intro c hc
      have hlt := ((hf.container vc' h').const.range v c hc).2
      exact absurd hlt (Int.not_lt.2 hnew)
    · exact hself

/-! ## The results -/

omit [DataLayout] in
/-- The lists are exactly the index of the constraints. -/
theorem StoreOk.mem_iff_contains {s : VcState} (hs : StoreOk s) (v : ValueId) (k : ConstraintId) :
    k ∈ s.vc.getConstraintIdVector v ↔ ∃ c, s.vc.constrContainer[k]? = some c ∧ c.contains v = true := by
  have hcontains : ∀ c : BinaryConstraint, c.contains v = true ↔ v = c.first ∨ v = c.second := by
    intro c
    simp [BinaryConstraint.contains]
  constructor
  · intro hk
    obtain ⟨c, hc, hv⟩ := hs.stored v k hk
    exact ⟨c, hc, (hcontains c).2 hv⟩
  · rintro ⟨c, hc, hv⟩
    exact (hs.mem_list_iff hc).2 ((hcontains c).1 hv)

/-- Whatever the calls did, also those that threw: the lists are exactly the index of the constraints, two values have
one constraint at most, an id keeps its constraint through the whole family, and an id that was given out is not
given to a container that does not have it, nor to its clones. -/
theorem constraint_store {es : List (Event Family FamilyOp (Except Exn (Option ValueId)))} {f : Family}
    (h : FamilyRun es f) {i : ℕ} {vc : ValueContainer} (hvc : f.containers[i]? = some vc) :
    (∀ v k, k ∈ vc.getConstraintIdVector v ↔ ∃ c, vc.constrContainer[k]? = some c ∧ c.contains v = true) ∧
    (∀ (k k' : ConstraintId) c c', vc.constrContainer[k]? = some c → vc.constrContainer[k']? = some c' →
      c.SamePair c' → k = k') ∧
    (∀ e ∈ es, ∀ vc' ∈ e.pre.containers, ∀ (k : ConstraintId) c c', vc'.constrContainer[k]? = some c →
      vc.constrContainer[k]? = some c' → c' = c) ∧
    (∀ g j, Heir f i g j → ∀ k < f.statics.nextConstraintIdToGive, vc.constrContainer[k]? = none →
      ∃ vc', g.containers[j]? = some vc' ∧ vc'.constrContainer[k]? = none) := by
  have hmem := List.mem_of_getElem? hvc
  have hs := ((run_familyOk h).container vc hmem).store
  refine ⟨hs.mem_iff_contains, hs.single, ?_, ?_⟩
  · intro e he vc' hvc' k c c' hc hc'
    exact (run_means h he hvc' hc).2 vc hmem c' hc'
  · intro g j hj k hk hn
    exact hj.absent hvc hk hn

/-- Constants are equal exactly when their ids are, `zero` is `0`, a bound id stays bound in the container and in its
clones, and the ids of unknowns are never bound in any container of the family. -/
theorem constants_interned {es : List (Event Family FamilyOp (Except Exn (Option ValueId)))} {f : Family}
    (h : FamilyRun es f) :
    (∀ vc ∈ f.containers, vc.constantContainer[vc.zero]? = some 0 ∧
      ∀ (v v' : ValueId) c c', vc.constantContainer[v]? = some c → vc.constantContainer[v']? = some c' →
        (v = v' ↔ c = c')) ∧
    (∀ i vc g j, f.containers[i]? = some vc → Heir f i g j → ∀ (v : ValueId) c, vc.constantContainer[v]? = some c →
      ∃ vc', g.containers[j]? = some vc' ∧ vc'.constantContainer[v]? = some c) ∧
    (∀ e ∈ es, ∀ i o v, e.op = .call i o → e.out = .ok (some v) →
      ((∃ t, o = .createVal t) ∨ ∀ vc, e.post.containers[i]? = some vc → vc.isConstant v = false) →
      ∀ vc ∈ f.containers, vc.isConstant v = false) := by
  have hf := run_familyOk h
  refine ⟨fun vc hvc => ?_, fun i vc g j hvc hj v c hc => hj.bound hf hvc hc, ?_⟩
  · have hconst := (hf.container vc hvc).const
    refine ⟨hconst.zero, fun v v' c c' hc hc' => ?_⟩
    constructor
    · rintro rfl
      rw [hc] at hc'
      cases hc'
      rfl
    · rintro rfl
      exact hconst.interned v v' c hc hc'
  · intro e he i o v hop hout hu
    obtain ⟨⟨es', hrun⟩, -, heq⟩ := h.event e he
    rw [hop] at heq
    rw [heq] at hout hu
    have hpost : e.post.Unbound v := by
      rw [heq]
      exact exec_returns_unbound (run_familyOk hrun) hout hu
    exact (h.mono (P := fun f : Family => f.Unbound v) (fun _ _ op _ _ => exec_unbound op) e he hpost).2

end Runs

section Example

attribute [local instance] Ty.x86

/-- Of two containers only the clone is told that a value is not zero, and that it is zero after all. -/
def toldClone : List (Event Family FamilyOp (Except Exn (Option ValueId))) × Family :=
  play FamilyOp.exec [] ⟨(VcState.new {}).statics, [(VcState.new {}).vc]⟩
    [.call 0 (.createVal (.int 32)), .clone 0, .call 1 (.assumeTrue 1), .call 1 (.assumeFalse 1)]

theorem toldClone_run : FamilyRun toldClone.1 toldClone.2 :=
  Run.play (Run.start ⟨VcState.new {}, ⟨{}, by decide, rfl⟩, rfl⟩) ⟨trivial, trivial, trivial, trivial, trivial⟩

theorem toldClone_second :
    toldClone.2.containers[1]? = some (toldClone.2.containers.get ⟨1, by decide +kernel⟩) :=
  List.getElem?_eq_getElem _

/-- The first constraint is gone for good: the value is told to be another one under a new id. -/
theorem constraint_store_clone :
    ∃ vc, (FamilyOp.exec (.call 1 (.assumeTrue 1)) toldClone.2).2.containers[1]? = some vc ∧
      vc.constrContainer[0]? = none :=
  (constraint_store toldClone_run toldClone_second).2.2.2 _ 1 (.step _ .self) 0 (by decide +kernel) (by decide +kernel)

theorem constants_interned_clone : toldClone.2.containers.length = 2 ∧
    ∀ vc ∈ toldClone.2.containers, vc.isConstant 1 = false :=
  ⟨by decide +kernel, (constants_interned toldClone_run).2.2 _
    (List.mem_cons_of_mem _ (List.mem_cons_of_mem _ (List.mem_cons_of_mem _ List.mem_cons_self))) 0
    (.createVal (.int 32)) 1 rfl rfl (Or.inl ⟨_, rfl⟩)⟩

end Example

end Angie
