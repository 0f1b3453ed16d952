import Angie.Values.Insertions
import Angie.Values.IsCmp

/-!
# The store after an insertion

A value refers to a constraint as often as the constraint has it as an operand (`run_counted`). After an insertion that
returned (`Inserted`), what was known about two unknowns is known unless the new constraint is one between them that
says less, or equates one of them with a constant (`unknowns_replaced`, `unknowns_other`). What the constraints with
constants say about an unknown is as before when the new one is none of them (`verdict_apart`); else an equation stands
alone (`verdict_equated`), and another relation stands beside the constraints with other constants
(`verdict_replaced`).
-/

namespace Angie

open Exec Trace ValueContainer

/-! ## How often a constraint is listed -/

/-- A value refers to a constraint as often as the constraint has it as an operand. -/
def VcState.Counted (s : VcState) : Prop :=
  ∀ (k : ConstraintId) d, s.vc.constrContainer[k]? = some d → ∀ v, (s.vc.getConstraintIdVector v).count k =
    (if v = d.first then 1 else 0) + (if v = d.second then 1 else 0)

theorem Thins.counted {s t : VcState} (h : Thins s t) (hs : StoreOk s) (hc : s.Counted) : t.Counted := by
  intro k d hd v
  rw [h.lists hs v, List.count_filter, hc k d (h.constrs k d hd) v]
  exact Std.TreeMap.contains_eq_isSome_getElem?.trans (by rw [hd]; rfl)

theorem VcState.Counted.store {s : VcState} (hc : s.Counted) (hs : StoreOk s) (c : BinaryConstraint) :
    (s.store c).Counted := by
  intro k d hd v
  simp only [VcState.store, constr_withConstraint] at hd
  simp only [VcState.store, list_withConstraint, List.count_append]
  split at hd
  · rename_i hk
    cases hd
    subst hk
    rw [List.count_eq_zero_of_not_mem (hs.not_listed v)]
    split <;> split <;> simp
  · rename_i hk
    rw [hc k d hd v]
    have hzero : ∀ p : Prop, ∀ _ : Decidable p,
        (if p then [s.statics.nextConstraintIdToGive] else []).count k = 0 := by
      intro p _
      split
      · simp [hk]
      · rfl
    rw [hzero, hzero]
    simp

theorem insertUnless_counted {q : ValueContainer → Except Exn Tribool} {c : ValueContainer → BinaryConstraint}
    {s : VcState} (hs : StoreOk s) (hc : s.Counted) : (final (insertUnless q c s)).Counted := by
  unfold insertUnless
  cases q s.vc with
  | error e => exact hc
  | ok b =>
    dsimp only
    split
    · exact hc
    · rcases insertConstraint_cases (c s.vc) s with ⟨t, ht, -, heq⟩ | ⟨e, t, ht, heq⟩
      · rw [heq]
        exact (ht.counted hs hc).store (ht.keeps hs) _
      · rw [heq]
        exact ht.counted hs hc

section Runs

variable [DataLayout]

theorem exec_counted (op : VcOp) {s : VcState} (hs : StoreOk s) (hc : s.Counted) : (op.exec s).2.Counted := by
  cases h : op.assumed s.vc.zero with
  | none =>
    have hg := exec_grows h
    intro k d hd v
    rw [hg.constrs] at hd
    simp only [getConstraintIdVector, hg.lists]
    exact hc k d hd v
  | some c =>
    rw [VcOp.exec_state]
    cases op with
    | assume a b t r =>
      simp only [VcOp.run, final_map, assume_eq]
      exact insertUnless_counted hs hc
    | assumeTrue a =>
      simp only [VcOp.run, final_map, assumeTrue_eq]
      exact insertUnless_counted hs hc
    | assumeFalse a =>
      simp only [VcOp.run, final_map, assumeFalse_eq]
      exact insertUnless_counted hs hc
    | _ => cases h

theorem run_counted {Adm : VcState → VcOp → Prop} {es : VcHistory} {s : VcState} (h : VcRun Adm es s) :
    s.Counted := by
  refine h.invariant (I := fun _ s => s.Counted) ?_ ?_
  · rintro s ⟨statics, _, rfl⟩ k c hk
    simp [new_eq] at hk
  · intro es s op hrun _ hs
    exact exec_counted op (run_ok hrun).store hs

end Runs

/-! ## The store after an insertion -/

/-- `s'` is `s` after an insertion of `c` under the id `n`. -/
structure Inserted (s : VcState) (c : BinaryConstraint) (n : ConstraintId) (s' : VcState) : Prop where
  before : StoreOk s
  after : StoreOk s'
  constants : s'.vc.constantContainer = s.vc.constantContainer
  fresh : s.vc.constrContainer[n]? = none
  stored : ∀ (k : ConstraintId) d, s'.vc.constrContainer[k]? = some d ↔
    (k = n ∧ d = c) ∨ (s.vc.constrContainer[k]? = some d ∧ ¬ s.Replaces c d)
  lists : ∀ v, s'.vc.getConstraintIdVector v =
    (s.vc.getConstraintIdVector v).filter (fun k => s'.vc.constrContainer.contains k) ++
      (if v = c.first then [n] else []) ++ (if v = c.second then [n] else [])

theorem inserted_of_ok {s s' : VcState} {c : BinaryConstraint} (hs : StoreOk s)
    (h : insertConstraint c s = .ok () s') : Inserted s c s.statics.nextConstraintIdToGive s' := by
  obtain ⟨-, t, rfl, hst, hno, hstored⟩ := insertConstraint_stored hs h
  have hn : ∀ s : VcState, StoreOk s → s.vc.constrContainer[s.statics.nextConstraintIdToGive]? = none := by
    intro s hs
    rw [Option.eq_none_iff_forall_ne_some]
    intro d hd
    exact Nat.lt_irrefl _ (hs.fresh _ d hd)
  have hstored' : ∀ (k : ConstraintId) d, (t.store c).vc.constrContainer[k]? = some d ↔
      (k = s.statics.nextConstraintIdToGive ∧ d = c) ∨ (s.vc.constrContainer[k]? = some d ∧ ¬ s.Replaces c d) := by
    intro k d
    simp only [VcState.store, constr_withConstraint, hst.statics]
    split
    · rename_i hk
      subst hk
      simp [hn s hs, eq_comm]
    · rename_i hk
      simp [hstored k d, Ne.symm hk]
  refine ⟨hs, store_ok (hst.keeps hs) hno, hst.constants, hn s hs, hstored', fun v => ?_⟩
  simp only [VcState.store, list_withConstraint, hst.statics, hst.lists hs v]
  congr 2
  refine List.filter_congr fun k hk => ?_
  obtain ⟨d, hd, _⟩ := hs.stored v k hk
  have hne : s.statics.nextConstraintIdToGive ≠ k := by
    rintro rfl
    rw [hn s hs] at hd
    cases hd
  simp only [Std.TreeMap.contains_eq_isSome_getElem?, constr_withConstraint, if_neg hne]

/-- Filtering a list that is searched leaves out what it takes away. -/
theorem findSome?_filter_eq {α β : Type} {p : α → Bool} {f g : α → Option β} {l : List α}
    (h : ∀ a ∈ l, (if p a then f a else none) = g a) : (l.filter p).findSome? f = l.findSome? g := by
  induction l with
  | nil => rfl
  | cons a l ih =>
    have ha := h a List.mem_cons_self
    have hl := ih fun b hb => h b (List.mem_cons_of_mem _ hb)
    rw [List.findSome?_cons, ← hl, ← ha]
    cases hp : p a with
    | true => rw [List.filter_cons_of_pos hp, List.findSome?_cons, if_pos rfl]
    | false =>
      rw [List.filter_cons_of_neg (by simp [hp])]
      rfl

/-- Two values are `x` and `y`, in either order. -/
def SameTwo (a b x y : ValueId) : Prop := (a = x ∧ b = y) ∨ (a = y ∧ b = x)

theorem SameTwo.other {a b x y z : ValueId} (h : SameTwo a b x y) (h' : SameTwo a b x z) : z = y := by
  rcases h with ⟨rfl, rfl⟩ | ⟨rfl, rfl⟩ <;> rcases h' with ⟨h1, h2⟩ | ⟨h1, h2⟩
  · exact h2.symm
  · rw [← h1, h2]
  · rw [← h2, h1]
  · exact h1.symm

/-- A value equated with a constant stands in the constraint with that constant. -/
theorem VcState.Equates.sameTwo {s : VcState} {c : BinaryConstraint} {x : ValueId} (h : s.Equates c x) :
    ∃ z d, SameTwo c.first c.second x z ∧ s.vc.constantContainer[z]? = some d := by
  rcases h with ⟨-, ⟨hc, rfl⟩ | ⟨-, hc, rfl⟩⟩
  · obtain ⟨d, hd⟩ := isConstant_iff.1 hc
    exact ⟨_, d, Or.inr ⟨rfl, rfl⟩, hd⟩
  · obtain ⟨d, hd⟩ := isConstant_iff.1 hc
    exact ⟨_, d, Or.inl ⟨rfl, rfl⟩, hd⟩

namespace Inserted

variable {s s' : VcState} {c : BinaryConstraint} {n : ConstraintId} (h : Inserted s c n s')

include h

/-- The constraint between two values, after the insertion. -/
theorem between {k : ConstraintId} {rel : CmpFlags} {x y : ValueId} : s'.Between k rel x y ↔
    (k = n ∧ SameTwo c.first c.second x y ∧ c.relation = rel) ∨
    (s.Between k rel x y ∧ ¬ SameTwo c.first c.second x y ∧ ∀ z, s.Equates c z → z ≠ x ∧ z ≠ y) := by
  have hrep : ∀ d : BinaryConstraint, SameTwo d.first d.second x y →
      (s.Replaces c d ↔ SameTwo c.first c.second x y ∨ ∃ z, s.Equates c z ∧ (z = x ∨ z = y)) := by
    rintro ⟨d1, d2, drel⟩ (⟨rfl, rfl⟩ | ⟨rfl, rfl⟩)
    · exact Iff.rfl
    · exact or_congr Or.comm (exists_congr fun z => and_congr_right fun _ => Or.comm)
  have hkept : (¬ SameTwo c.first c.second x y ∧ ∀ z, s.Equates c z → z ≠ x ∧ z ≠ y) ↔
      ¬ (SameTwo c.first c.second x y ∨ ∃ z, s.Equates c z ∧ (z = x ∨ z = y)) := by
    simp only [not_or, not_exists, not_and, ne_eq]
  rw [hkept]
  constructor
  · rintro (hk | hk)
    · rcases (h.stored k _).1 hk with ⟨hkn, rfl⟩ | ⟨hd, hn⟩
      · exact Or.inl ⟨hkn, Or.inl ⟨rfl, rfl⟩, rfl⟩
      · exact Or.inr ⟨Or.inl hd, fun hr => hn ((hrep _ (Or.inl ⟨rfl, rfl⟩)).2 hr)⟩
    · rcases (h.stored k _).1 hk with ⟨hkn, rfl⟩ | ⟨hd, hn⟩
      · exact Or.inl ⟨hkn, Or.inr ⟨rfl, rfl⟩, rfl⟩
      · exact Or.inr ⟨Or.inr hd, fun hr => hn ((hrep _ (Or.inr ⟨rfl, rfl⟩)).2 hr)⟩
  · rintro (⟨hkn, ⟨rfl, rfl⟩ | ⟨rfl, rfl⟩, rfl⟩ | ⟨hd | hd, hn⟩)
    · exact Or.inl ((h.stored k c).2 (Or.inl ⟨hkn, rfl⟩))
    · exact Or.inr ((h.stored k c).2 (Or.inl ⟨hkn, rfl⟩))
    · exact Or.inl ((h.stored k _).2 (Or.inr ⟨hd, fun hr => hn ((hrep _ (Or.inl ⟨rfl, rfl⟩)).1 hr)⟩))
    · exact Or.inr ((h.stored k _).2 (Or.inr ⟨hd, fun hr => hn ((hrep _ (Or.inr ⟨rfl, rfl⟩)).1 hr)⟩))

/-- What was known about the two values of the new constraint is known when the new relation says so. -/
theorem unknowns_replaced {x y : ValueId} {q : CmpFlags} {ans : Bool} (hxy : SameTwo c.first c.second x y) :
    s'.vc.isCmpUnknowns x y q (s'.vc.getConstraintIdVector x) = .ok (some ans) ↔
      decideUnknowns c.relation q = some ans := by
  rw [isCmpUnknowns_iff h.after]
  constructor
  · rintro ⟨k, rel, hk, hdec⟩
    rcases h.between.1 hk with ⟨-, -, rfl⟩ | ⟨-, hn, -⟩
    · exact hdec
    · exact absurd hxy hn
  · intro hdec
    exact ⟨n, c.relation, h.between.2 (Or.inl ⟨rfl, hxy, rfl⟩), hdec⟩

/-- What was known about two other values is known unless one of them was equated with a constant. -/
theorem unknowns_other {x y : ValueId} {q : CmpFlags} {ans : Bool} (hxy : ¬ SameTwo c.first c.second x y)
    (hans : s.vc.isCmpUnknowns x y q (s.vc.getConstraintIdVector x) = .ok (some ans)) :
    s'.vc.isCmpUnknowns x y q (s'.vc.getConstraintIdVector x) = .ok (some ans) ↔
      ∀ z, s.Equates c z → z ≠ x ∧ z ≠ y := by
  rw [isCmpUnknowns_iff h.before] at hans
  rw [isCmpUnknowns_iff h.after]
  constructor
  · rintro ⟨k, rel, hk, -⟩
    rcases h.between.1 hk with ⟨-, hsame, -⟩ | ⟨-, -, hne⟩
    · exact absurd hsame hxy
    · exact hne
  · intro hne
    obtain ⟨k, rel, hk, hdec⟩ := hans
    exact ⟨k, rel, h.between.2 (Or.inr ⟨hk, hxy, hne⟩), hdec⟩

/-- A constraint says what it said before. -/
theorem verdict_kept {decide : CmpFlags → Word → Tribool} {x : ValueId} {k : ConstraintId}
    (hk : s'.vc.constrContainer.contains k = true) (hn : k ≠ n) :
    s'.vc.verdict decide x k = s.vc.verdict decide x k := by
  rw [Std.TreeMap.contains_eq_isSome_getElem?, Option.isSome_iff_exists] at hk
  obtain ⟨d, hd⟩ := hk
  rcases (h.stored k d).1 hd with ⟨hkn, -⟩ | ⟨hd', -⟩
  · exact absurd hkn hn
  · simp only [verdict, hd, hd', h.constants]

theorem verdict_new (decide : CmpFlags → Word → Tribool) {x z : ValueId} (hxz : SameTwo c.first c.second x z) :
    s'.vc.verdict decide x n = (s.vc.constantContainer[z]?).bind (decide c.relation) := by
  rw [(h.between.2 (Or.inl ⟨rfl, hxz, rfl⟩)).verdict, h.constants]

/-- The new constraint says nothing about a value that it does not put in relation to a constant. -/
theorem verdict_new_none (decide : CmpFlags → Word → Tribool) {x : ValueId}
    (hx : ∀ z, SameTwo c.first c.second x z → s.vc.constantContainer[z]? = none) :
    s'.vc.verdict decide x n = none := by
  have hnew := (h.stored n c).2 (Or.inl ⟨rfl, rfl⟩)
  cases ho : c.getOther x with
  | error e => simp only [verdict, hnew, ho]
  | ok z =>
    have hxz : SameTwo c.first c.second x z := by
      rcases BinaryConstraint.getOther_ok ho with ⟨h1, h2⟩ | ⟨h1, h2⟩
      · exact Or.inl ⟨h1.symm, h2.symm⟩
      · exact Or.inr ⟨h2.symm, h1.symm⟩
    rw [h.verdict_new decide hxz, hx z hxz, Option.bind_none]

/-- The verdict about a value, after the insertion: that of the constraints that were kept, or else that of the new
constraint. -/
theorem verdict_list (decide : CmpFlags → Word → Tribool) (x : ValueId) :
    (s'.vc.getConstraintIdVector x).findSome? (s'.vc.verdict decide x) =
      (((s.vc.getConstraintIdVector x).filter fun k => s'.vc.constrContainer.contains k).findSome?
        (s.vc.verdict decide x)).or (s'.vc.verdict decide x n) := by
  have hold : ((s.vc.getConstraintIdVector x).filter fun k => s'.vc.constrContainer.contains k).findSome?
        (s'.vc.verdict decide x) =
      ((s.vc.getConstraintIdVector x).filter fun k => s'.vc.constrContainer.contains k).findSome?
        (s.vc.verdict decide x) := by
    rw [findSome?_filter_eq fun _ _ => rfl, findSome?_filter_eq fun k hk => ?_]
    split
    · rename_i hkept
      refine (h.verdict_kept hkept ?_).symm
      rintro rfl
      obtain ⟨d, hd, _⟩ := h.before.stored x _ hk
      rw [h.fresh] at hd
      cases hd
    · rfl
  rw [h.lists x, List.findSome?_append, List.findSome?_append, hold]
  by_cases h1 : x = c.first
  · by_cases h2 : x = c.second
    · rw [if_pos h1, if_pos h2, Option.or_assoc, List.findSome?_singleton, Option.or_self]
    · rw [if_pos h1, if_neg h2, List.findSome?_singleton, List.findSome?_nil, Option.or_none]
  · by_cases h2 : x = c.second
    · rw [if_neg h1, if_pos h2, List.findSome?_singleton, List.findSome?_nil, Option.or_none]
    · rw [if_neg h1, if_neg h2, h.verdict_new_none decide]
      · simp only [List.findSome?_nil, Option.or_none]
      · rintro z (⟨hx, -⟩ | ⟨-, hx⟩)
        · exact absurd hx.symm h1
        · exact absurd hx.symm h2

/-- Which constraints of a value are kept. -/
theorem kept_iff {k : ConstraintId} {rel : CmpFlags} {x z : ValueId} (hk : s.Between k rel x z) :
    s'.vc.constrContainer.contains k = true ↔
      ¬ SameTwo c.first c.second x z ∧ ∀ y, s.Equates c y → y ≠ x ∧ y ≠ z := by
  have hkn : k ≠ n := by
    rintro rfl
    obtain ⟨d, hd, -⟩ := hk.exists_constr
    rw [h.fresh] at hd
    cases hd
  rw [Std.TreeMap.contains_eq_isSome_getElem?, Option.isSome_iff_exists]
  constructor
  · rintro ⟨d, hd⟩
    rcases (h.stored k d).1 hd with ⟨hn, -⟩ | ⟨hd', -⟩
    · exact absurd hn hkn
    · have hk' : s'.Between k rel x z := by
        rcases hk with hk | hk <;> rw [hd'] at hk <;> cases hk
        · exact Or.inl hd
        · exact Or.inr hd
      rcases h.between.1 hk' with ⟨hn, -⟩ | ⟨-, hkept⟩
      · exact absurd hn hkn
      · exact hkept
  · intro hkept
    obtain ⟨d, hd, -⟩ := (h.between.2 (Or.inr ⟨hk, hkept⟩)).exists_constr
    exact ⟨d, hd⟩

/-- The verdict about a value that the new constraint does not put in relation to a constant is as before. -/
theorem verdict_apart (decide : CmpFlags → Word → Tribool) {x : ValueId}
    (hx : ∀ z, SameTwo c.first c.second x z → s.vc.constantContainer[z]? = none)
    (hc : s.vc.constantContainer[c.first]? = none ∨ s.vc.constantContainer[c.second]? = none) :
    (s'.vc.getConstraintIdVector x).findSome? (s'.vc.verdict decide x) =
      (s.vc.getConstraintIdVector x).findSome? (s.vc.verdict decide x) := by
  rw [h.verdict_list, h.verdict_new_none decide hx, Option.or_none]
  refine findSome?_filter_eq fun k hk => ?_
  obtain ⟨rel, z, hk'⟩ := h.before.between hk
  split
  · rfl
  · rename_i hkept
    -- a constraint that goes is none with a constant
    rw [hk'.verdict]
    cases hz : s.vc.constantContainer[z]? with
    | none => rfl
    | some d =>
      refine absurd ((h.kept_iff hk').2 ⟨fun hxz => ?_, fun y hy => ⟨?_, ?_⟩⟩) hkept
      · rw [hx z hxz] at hz
        cases hz
      · rintro rfl
        obtain ⟨z', d', hsame, hz'⟩ := hy.sameTwo
        rw [hx z' hsame] at hz'
        cases hz'
      · rintro rfl
        obtain ⟨z', d', hsame | hsame, hz'⟩ := hy.sameTwo
        · rw [hsame.1, hsame.2, hz, hz'] at hc
          simp at hc
        · rw [hsame.1, hsame.2, hz, hz'] at hc
          simp at hc

/-- The verdict about a value that was equated with a constant is that of the equation. -/
theorem verdict_equated (decide : CmpFlags → Word → Tribool) {x : ValueId} (hx : s.Equates c x) {z : ValueId}
    (hxz : SameTwo c.first c.second x z) :
    (s'.vc.getConstraintIdVector x).findSome? (s'.vc.verdict decide x) =
      (s.vc.constantContainer[z]?).bind (decide c.relation) := by
  rw [h.verdict_list, findSome?_filter_eq (g := fun _ => none) fun k hk => ?_]
  · rw [List.findSome?_eq_none_iff.2 fun _ _ => rfl, Option.none_or, h.verdict_new decide hxz]
  · obtain ⟨rel, z', hk'⟩ := h.before.between hk
    rw [if_neg]
    intro hkept
    exact (((h.kept_iff hk').1 hkept).2 x hx).1 rfl

/-- The verdict about a value that is put in another relation to a constant than equality: that of its constraints
with others, or else that of the new constraint. -/
theorem verdict_replaced (decide : CmpFlags → Word → Tribool) {x z : ValueId} (hr : c.relation ≠ .eq)
    (hxz : SameTwo c.first c.second x z) {p : ConstraintId → Bool}
    (hp : ∀ k ∈ s.vc.getConstraintIdVector x, p k = true ↔ ∀ rel, ¬ s.Between k rel x z) :
    (s'.vc.getConstraintIdVector x).findSome? (s'.vc.verdict decide x) =
      (((s.vc.getConstraintIdVector x).filter p).findSome? (s.vc.verdict decide x)).or
        ((s.vc.constantContainer[z]?).bind (decide c.relation)) := by
  rw [h.verdict_list, h.verdict_new decide hxz]
  congr 2
  refine List.filter_congr fun k hk => ?_
  obtain ⟨rel, z', hk'⟩ := h.before.between hk
  rw [Bool.eq_iff_iff, h.kept_iff hk', hp k hk]
  constructor
  · rintro ⟨hn, -⟩ rel' hk''
    obtain ⟨d, hd, -, ho⟩ := hk'.exists_constr
    obtain ⟨d', hd', -, ho'⟩ := hk''.exists_constr
    rw [hd] at hd'
    cases hd'
    rw [ho] at ho'
    cases ho'
    exact hn hxz
  · intro hne
    refine ⟨fun hsame => ?_, fun y hy => absurd hy.1 hr⟩
    obtain rfl := hxz.other hsame
    exact hne rel hk'

end Inserted

end Angie
