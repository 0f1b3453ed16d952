import Angie.Values.Store

/-!
# The loops of the queries

A query about an unknown goes through the constraints of the unknown and stops at the first that decides. Over the
list of a value, whose constraints exist and contain the value, no loop throws, and the answer is the first verdict
(`isCmpConstant_eq`, `isZeroLoop_eq`). Two unknowns have one constraint at most, so what is known about them is what
that constraint decides, in whichever order it has them (`isCmpUnknowns_iff`).
-/

namespace Angie

/-- The ids are those of constraints of `x`. -/
def ValueContainer.Constrains (vc : ValueContainer) (x : ValueId) (ids : List ConstraintId) : Prop :=
  ∀ id ∈ ids, ∃ c, vc.constrContainer[id]? = some c ∧ (x = c.first ∨ x = c.second)

namespace ValueContainer

variable {vc : ValueContainer}

/-! ## Constraints with constants -/

/-- What the constraint `k` of `x` says when it is one with a constant, read by `decide`. -/
def verdict (vc : ValueContainer) (decide : CmpFlags → Word → Tribool) (x : ValueId) (k : ConstraintId) : Tribool :=
  match vc.constrContainer[k]? with
  | none => none
  | some c =>
    match c.getOther x with
    | .error _ => none
    | .ok other =>
      match vc.constantContainer[other]? with
      | none => none
      | some d => decide c.relation d

theorem verdict_of_constr {decide : CmpFlags → Word → Tribool} {x other : ValueId} {k : ConstraintId}
    {c : BinaryConstraint} (hc : vc.constrContainer[k]? = some c) (ho : c.getOther x = .ok other) :
    vc.verdict decide x k = (vc.constantContainer[other]?).bind (decide c.relation) := by
  simp only [verdict, hc, ho]
  cases vc.constantContainer[other]? with
  | none => rfl
  | some d => rfl

/-- The loop of `IsCmp` for an unknown and a constant. -/
theorem isCmpConstant_eq {x : ValueId} {n : Nat} {u : Word} {q : CmpFlags} {ids : List ConstraintId}
    (h : vc.Constrains x ids) :
    vc.isCmpConstant x n u q ids =
      .ok (ids.findSome? (vc.verdict (fun rel d => decideConstant rel u (ripBits n d) q) x)) := by
  induction ids with
  | nil => rfl
  | cons id ids ih =>
    obtain ⟨c, hc, hx⟩ := h id List.mem_cons_self
    obtain ⟨other, ho⟩ := c.getOther_of_contains hx
    have hrest := ih fun k hk => h k (List.mem_cons_of_mem _ hk)
    rw [List.findSome?_cons, verdict_of_constr hc ho]
    simp only [isCmpConstant, constrAt_of_some hc, ho, bind, Except.bind, hrest]
    cases vc.constantContainer[other]? with
    | none => rfl
    | some d =>
      dsimp only [Option.bind]
      cases decideConstant c.relation u (ripBits n d) q with
      | none => rfl
      | some b => rfl

/-- The loop of `IsZero`. -/
theorem isZeroLoop_eq {x : ValueId} {ids : List ConstraintId} (h : vc.Constrains x ids) :
    vc.isZeroLoop x ids = .ok (ids.findSome? (vc.verdict decideZero x)) := by
  induction ids with
  | nil => rfl
  | cons id ids ih =>
    obtain ⟨c, hc, hx⟩ := h id List.mem_cons_self
    obtain ⟨other, ho⟩ := c.getOther_of_contains hx
    have hrest := ih fun k hk => h k (List.mem_cons_of_mem _ hk)
    rw [List.findSome?_cons, verdict_of_constr hc ho]
    simp only [isZeroLoop, constrFind_of_some hc, ho, bind, Except.bind, hrest]
    cases vc.constantContainer[other]? with
    | none => rfl
    | some d =>
      dsimp only [Option.bind]
      cases decideZero c.relation d with
      | none => rfl
      | some b => rfl

/-! ## Constraints between unknowns -/

/-- What the constraint `k` of `x` says when it is one with `y`. -/
def pairVerdict (vc : ValueContainer) (x y : ValueId) (q : CmpFlags) (k : ConstraintId) : Tribool :=
  match vc.constrContainer[k]? with
  | none => none
  | some c =>
    match c.getOther x with
    | .error _ => none
    | .ok other => if y = other then decideUnknowns c.relation q else none

/-- The loop of `IsCmp` for two unknowns. -/
theorem isCmpUnknowns_eq {x y : ValueId} {q : CmpFlags} {ids : List ConstraintId} (h : vc.Constrains x ids) :
    vc.isCmpUnknowns x y q ids = .ok (ids.findSome? (vc.pairVerdict x y q)) := by
  induction ids with
  | nil => rfl
  | cons id ids ih =>
    obtain ⟨c, hc, hx⟩ := h id List.mem_cons_self
    obtain ⟨other, ho⟩ := c.getOther_of_contains hx
    have hrest := ih fun k hk => h k (List.mem_cons_of_mem _ hk)
    have hverdict : vc.pairVerdict x y q id = if y = other then decideUnknowns c.relation q else none := by
      simp only [pairVerdict, hc, ho]
    rw [List.findSome?_cons, hverdict]
    simp only [isCmpUnknowns, constrFind_of_some hc, ho, bind, Except.bind, hrest]
    split
    · cases decideUnknowns c.relation q with
      | none => rfl
      | some b => rfl
    · rfl

end ValueContainer

/-! ## What decides -/

open ValueContainer

section Found

variable {s : VcState} {x : ValueId} {ans : Bool}

/-- A verdict comes from a constraint with a constant. -/
theorem verdict_some {decide : CmpFlags → Word → Tribool} {k : ConstraintId}
    (h : s.vc.verdict decide x k = some ans) :
    ∃ rel d z, s.Between k rel x z ∧ s.vc.constantContainer[z]? = some d ∧ decide rel d = some ans := by
  cases hc : s.vc.constrContainer[k]? with
  | none => simp only [verdict, hc] at h; cases h
  | some c =>
    cases ho : c.getOther x with
    | error e => simp only [verdict, hc, ho] at h; cases h
    | ok z =>
      rw [verdict_of_constr hc ho, Option.bind_eq_some_iff] at h
      obtain ⟨d, hd, hdec⟩ := h
      exact ⟨c.relation, d, z, between_of_getOther hc ho, hd, hdec⟩

theorem VcState.Between.verdict {k : ConstraintId} {rel : CmpFlags} {z : ValueId} (h : s.Between k rel x z)
    (decide : CmpFlags → Word → Tribool) :
    s.vc.verdict decide x k = (s.vc.constantContainer[z]?).bind (decide rel) := by
  obtain ⟨c, hc, rfl, ho⟩ := h.exists_constr
  exact verdict_of_constr hc ho

/-- What a value refers to is a constraint between it and another value. -/
theorem StoreOk.between (hs : StoreOk s) {k : ConstraintId} (hk : k ∈ s.vc.getConstraintIdVector x) :
    ∃ rel z, s.Between k rel x z := by
  obtain ⟨c, hc, hx⟩ := hs.stored x k hk
  obtain ⟨z, ho⟩ := c.getOther_of_contains hx
  exact ⟨c.relation, z, between_of_getOther hc ho⟩

theorem pairVerdict_some {y : ValueId} {q : CmpFlags} {k : ConstraintId} (h : s.vc.pairVerdict x y q k = some ans) :
    ∃ rel, s.Between k rel x y ∧ decideUnknowns rel q = some ans := by
  cases hc : s.vc.constrContainer[k]? with
  | none => simp only [pairVerdict, hc] at h; cases h
  | some c =>
    cases ho : c.getOther x with
    | error e => simp only [pairVerdict, hc, ho] at h; cases h
    | ok other =>
      simp only [pairVerdict, hc, ho] at h
      split at h
      · rename_i heq
        subst heq
        exact ⟨c.relation, between_of_getOther hc ho, h⟩
      · cases h

/-- What is known about two unknowns is what the constraint between them decides: it is the only one. -/
theorem isCmpUnknowns_iff (hs : StoreOk s) {y : ValueId} {q : CmpFlags} :
    s.vc.isCmpUnknowns x y q (s.vc.getConstraintIdVector x) = .ok (some ans) ↔
      ∃ k rel, s.Between k rel x y ∧ decideUnknowns rel q = some ans := by
  rw [isCmpUnknowns_eq (hs.stored x), Except.ok.injEq]
  constructor
  · intro h
    obtain ⟨k, -, hk⟩ := List.exists_of_findSome?_eq_some h
    exact ⟨k, pairVerdict_some hk⟩
  · rintro ⟨k, rel, hk, hdec⟩
    have hverdict : s.vc.pairVerdict x y q k = some ans := by
      obtain ⟨c, hc, rfl, ho⟩ := hk.exists_constr
      simp only [pairVerdict, hc, ho, if_true, hdec]
    cases hfirst : (s.vc.getConstraintIdVector x).findSome? (s.vc.pairVerdict x y q) with
    | none =>
      rw [List.findSome?_eq_none_iff.1 hfirst k (hk.mem hs)] at hverdict
      cases hverdict
    | some ans' =>
      obtain ⟨k', -, hk'⟩ := List.exists_of_findSome?_eq_some hfirst
      obtain ⟨rel', hbetween, hdec'⟩ := pairVerdict_some hk'
      rw [(hk.unique hs hbetween).2, hdec] at hdec'
      exact hdec'.symm

/-- What a constraint between two values says about their being equal. -/
def CmpFlags.decideRep : CmpFlags → Tribool
  | .eq => some true
  | .neq | .gt | .lt => some false
  | _ => none

/-- The loop of `IsInternalRepEq` answers from a constraint between the two values. -/
theorem isInternalRepEqLoop_found {y : ValueId} (hxy : x ≠ y) {ids : List ConstraintId}
    (hids : s.vc.Constrains x ids) (h : s.vc.isInternalRepEqLoop y ids = .ok (some ans)) :
    ∃ k rel, s.Between k rel x y ∧ rel.decideRep = some ans := by
  induction ids with
  | nil => cases h
  | cons id ids ih =>
    obtain ⟨c, hc, hx⟩ := hids id List.mem_cons_self
    have hrest := ih fun k hk => hids k (List.mem_cons_of_mem _ hk)
    simp only [isInternalRepEqLoop, constrFind_of_some hc, bind, Except.bind] at h
    by_cases hy : c.contains y = true
    · have hbetween : s.Between id c.relation x y := by
        simp only [BinaryConstraint.contains, Bool.or_eq_true, beq_iff_eq] at hy
        rcases hx with rfl | rfl <;> rcases hy with rfl | rfl
        · exact absurd rfl hxy
        · exact Or.inl hc
        · exact Or.inr hc
        · exact absurd rfl hxy
      rw [if_pos hy] at h
      cases hrel : c.relation with
      | eq | neq | gt | lt =>
        rw [hrel] at h hbetween
        cases h
        exact ⟨id, _, hbetween, rfl⟩
      | _ =>
        rw [hrel] at h
        exact hrest h
    · rw [if_neg hy] at h
      exact hrest h

end Found

end Angie
