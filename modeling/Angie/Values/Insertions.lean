import Angie.Values.Store

/-!
# What an insertion deletes

An insertion that returns deleted the constraints that the new one replaces, and no others (`insertConstraint_stored`):
those with the same two values, and all constraints of a value that is equated with a constant. It returns when it
meets what it deletes once (`insertConstraint_returns`); in particular, where no value refers to a constraint twice, a
constraint of a constant with an unknown is inserted, and only constraints of the unknown go (`insertConstraint_ok`).
-/

namespace Angie

open Exec

/-! ## The loops -/

/-- What a deletion that returns leaves, when it is done under a condition. -/
theorem deleteIf_stored {p : Prop} [Decidable p] {id : ConstraintId} {s u : VcState}
    (h : (if p then deleteConstraint id else pure () : VcM Unit) s = .ok () u) (k : ConstraintId) :
    u.vc.constrContainer[k]? = if p ∧ id = k then none else s.vc.constrContainer[k]? := by
  by_cases hp : p
  · rw [if_pos hp] at h
    rcases deleteConstraint_cases id s with ⟨c, -, h'⟩ | ⟨e, h'⟩
    · rw [h'] at h
      cases h
      simp [hp]
    · rw [h'] at h
      cases h
  · rw [if_neg hp] at h
    cases h
    simp [hp]

/-- The loop for a constraint with a constant deletes all ids it goes through, when the constraint is an equation, and
none else. It cannot return when it would delete an id twice. -/
theorem invalidateWithConstant_stored {r : CmpFlags} : ∀ {ids : List ConstraintId} {s t : VcState},
    invalidateWithConstant r ids s = .ok () t →
    (∀ id ∈ ids, s.vc.constrContainer[id]? ≠ none) ∧ (r = .eq → ids.Nodup) ∧
    ∀ k : ConstraintId, t.vc.constrContainer[k]? = if r = .eq ∧ k ∈ ids then none else s.vc.constrContainer[k]?
  | [], s, t, h => by
    cases h
    simp
  | id :: ids, s, t, h => by
    unfold invalidateWithConstant at h
    obtain ⟨old, s', h1, g1⟩ := bind_ok h
    obtain ⟨hold, rfl⟩ := query_ok h1
    have hid := ValueContainer.constrFind_ok hold
    obtain ⟨_, u, h2, g2⟩ := bind_ok g1
    obtain ⟨hex, hnd, hstored⟩ := invalidateWithConstant_stored g2
    have hdel := deleteIf_stored h2
    refine ⟨?_, fun hr => List.nodup_cons.2 ⟨fun hmem => ?_, hnd hr⟩, fun k => ?_⟩
    · intro k hk
      rcases List.mem_cons.1 hk with rfl | hk
      · simp [hid]
      · intro hnone
        refine hex k hk ?_
        rw [hdel k, hnone, ite_self]
    · refine hex id hmem ?_
      rw [hdel id, if_pos ⟨hr, rfl⟩]
    · rw [hstored k, hdel k]
      by_cases hk : id = k
      · by_cases hr : r = .eq <;> simp [hr, hk]
      · simp [hk, Ne.symm hk]

/-- Over existing constraints, each met once if it is to be deleted, the loop for a constraint with a constant
returns. -/
theorem invalidateWithConstant_ok {r : CmpFlags} : ∀ {ids : List ConstraintId} {s : VcState}, StoreOk s →
    (r = .eq → ids.Nodup) → (∀ id ∈ ids, ∃ d, s.vc.constrContainer[id]? = some d) →
    ∃ t, invalidateWithConstant r ids s = .ok () t
  | [], s, _, _, _ => ⟨s, rfl⟩
  | id :: ids, s, hs, hnd, hids => by
    obtain ⟨c, hc⟩ := hids id List.mem_cons_self
    unfold invalidateWithConstant
    rw [bind_of_ok (query_of_ok (ValueContainer.constrFind_of_some hc _))]
    by_cases hr : r = .eq
    · obtain ⟨hid, hnd'⟩ := List.nodup_cons.1 (hnd hr)
      rw [if_pos hr, bind_of_ok (deleteConstraint_ok hs hc)]
      refine invalidateWithConstant_ok ((withoutConstraint_deletes hc).keeps hs) (fun _ => hnd') fun k hk => ?_
      obtain ⟨d, h⟩ := hids k (List.mem_cons_of_mem _ hk)
      have hne : id ≠ k := fun h => hid (h ▸ hk)
      exact ⟨d, by rw [ValueContainer.constr_withoutConstraint, if_neg hne, h]⟩
    · rw [if_neg hr, bind_of_ok (pure_apply () s)]
      exact invalidateWithConstant_ok hs (fun h => absurd h hr) fun k hk => hids k (List.mem_cons_of_mem _ hk)

/-- The loop over the mutual constraints deletes no other ones. It cannot return when it would delete an id twice. -/
theorem invalidateMutual_stored {c : BinaryConstraint} : ∀ {ids : List ConstraintId} {s t : VcState},
    invalidateMutual c ids s = .ok () t →
    (∀ id ∈ ids, s.vc.constrContainer[id]? ≠ none) ∧
    ∀ (k : ConstraintId) d, s.vc.constrContainer[k]? = some d →
      (c.SamePair d → ids.count k ≤ 1) ∧ (¬ c.SamePair d → t.vc.constrContainer[k]? = some d)
  | [], s, t, h => by
    cases h
    exact ⟨nofun, fun k d hd => ⟨fun _ => by simp, fun _ => hd⟩⟩
  | id :: ids, s, t, h => by
    unfold invalidateMutual at h
    obtain ⟨old, s1, h1, g1⟩ := bind_ok h
    obtain ⟨hold, rfl⟩ := query_ok h1
    have hid := ValueContainer.constrAt_ok hold
    obtain ⟨other, s2, h2, g2⟩ := bind_ok g1
    obtain ⟨hother, rfl⟩ := query_ok h2
    obtain ⟨_, u, h3, g3⟩ := bind_ok g2
    obtain ⟨hex, hrest⟩ := invalidateMutual_stored g3
    have hdel := deleteIf_stored h3
    constructor
    · intro k hk
      rcases List.mem_cons.1 hk with rfl | hk
      · simp [hid]
      · intro hnone
        refine hex k hk ?_
        rw [hdel k, hnone, ite_self]
    · intro k d hd
      by_cases hk : id = k
      · subst hk
        rw [hid] at hd
        cases hd
        constructor
        · intro hp
          rw [getOther_of_samePair hp] at hother
          cases hother
          -- the id is deleted, so the rest of the loop cannot have it
          have hnot : id ∉ ids := fun hmem => hex id hmem (by rw [hdel id, if_pos ⟨rfl, rfl⟩])
          rw [List.count_cons_self, List.count_eq_zero_of_not_mem hnot]
        · intro hp
          -- what is deleted has the two values of `c`
          have hne : c.second ≠ other := by
            rintro rfl
            exact hp (BinaryConstraint.getOther_ok hother)
          refine (hrest id old ?_).2 hp
          rw [hdel id, if_neg fun h => hne h.1, hid]
      · rw [List.count_cons_of_ne hk]
        refine hrest k d ?_
        rw [hdel k, if_neg fun h => hk h.2, hd]

/-- Over existing constraints of the first value, the mutual one met once, the loop over the mutual ones returns. -/
theorem invalidateMutual_ok (c : BinaryConstraint) : ∀ {ids : List ConstraintId} {s : VcState}, StoreOk s →
    (∀ (k : ConstraintId) d, s.vc.constrContainer[k]? = some d → c.SamePair d → ids.count k ≤ 1) →
    (∀ id ∈ ids, ∃ d, s.vc.constrContainer[id]? = some d ∧ (c.first = d.first ∨ c.first = d.second)) →
    ∃ t, invalidateMutual c ids s = .ok () t
  | [], s, _, _, _ => ⟨s, rfl⟩
  | id :: ids, s, hs, hone, hids => by
    obtain ⟨old, hold, hcon⟩ := hids id List.mem_cons_self
    obtain ⟨other, hother⟩ := old.getOther_of_contains hcon
    unfold invalidateMutual
    rw [bind_of_ok (query_of_ok (ValueContainer.constrAt_of_some hold)), bind_of_ok (query_of_ok hother)]
    by_cases hsame : c.second = other
    · rw [if_pos hsame, bind_of_ok (deleteConstraint_ok hs hold)]
      have hid : id ∉ ids := by
        intro hmem
        have := hone id old hold (by
          subst hsame
          exact BinaryConstraint.getOther_ok hother)
        rw [List.count_cons_self] at this
        have := List.one_le_count_iff.2 hmem
        omega
      have hne : ∀ k ∈ ids, id ≠ k := fun k hk h => hid (h ▸ hk)
      refine invalidateMutual_ok c ((withoutConstraint_deletes hold).keeps hs) (fun k d hk hp => ?_) fun k hk => ?_
      · rw [ValueContainer.constr_withoutConstraint] at hk
        split at hk
        · cases hk
        · exact (List.count_le_count_cons).trans (hone k d hk hp)
      · obtain ⟨d, h, hv⟩ := hids k (List.mem_cons_of_mem _ hk)
        exact ⟨d, by rw [ValueContainer.constr_withoutConstraint, if_neg (hne k hk), h], hv⟩
    · rw [if_neg hsame, bind_of_ok (pure_apply () s)]
      refine invalidateMutual_ok c hs (fun k d hk hp => ?_) fun k hk => hids k (List.mem_cons_of_mem _ hk)
      exact (List.count_le_count_cons).trans (hone k d hk hp)

/-! ## The insertion -/

/-- The constraint `c` equates a constant with the other value, whose constraints it invalidates. -/
def VcState.Equates (s : VcState) (c : BinaryConstraint) (x : ValueId) : Prop :=
  c.relation = .eq ∧ (s.vc.isConstant c.first = true ∧ x = c.second ∨
    s.vc.isConstant c.first = false ∧ s.vc.isConstant c.second = true ∧ x = c.first)

/-- The insertion of `c` deletes `d`: it has the same two values, or it is one of a value that `c` equates with a
constant. -/
def VcState.Replaces (s : VcState) (c d : BinaryConstraint) : Prop :=
  c.SamePair d ∨ ∃ x, s.Equates c x ∧ (x = d.first ∨ x = d.second)

/-- The loop over the constraints of `x`, when `x` is the only value that `c` can equate with a constant. -/
theorem equated_stored {s u : VcState} {c : BinaryConstraint} {x : ValueId} (hs : StoreOk s)
    (hx : invalidateWithConstant c.relation (s.vc.getConstraintIdVector x) s = .ok () u)
    (heq : ∀ y, s.Equates c y ↔ c.relation = .eq ∧ y = x) :
    (∀ y, s.Equates c y → (s.vc.getConstraintIdVector y).Nodup) ∧
    ∀ (k : ConstraintId) d, u.vc.constrContainer[k]? = some d ↔
      s.vc.constrContainer[k]? = some d ∧ ¬ ∃ y, s.Equates c y ∧ (y = d.first ∨ y = d.second) := by
  obtain ⟨-, hnd, hstored⟩ := invalidateWithConstant_stored hx
  refine ⟨fun y hy => ?_, fun k d => ?_⟩
  · obtain ⟨hr, rfl⟩ := (heq y).1 hy
    exact hnd hr
  · rw [hstored k]
    constructor
    · intro hd
      split at hd
      · cases hd
      · rename_i hn
        refine ⟨hd, ?_⟩
        rintro ⟨y, hy, hyd⟩
        obtain ⟨hr, rfl⟩ := (heq y).1 hy
        exact hn ⟨hr, (hs.mem_list_iff hd).2 hyd⟩
    · rintro ⟨hd, hn⟩
      rw [if_neg, hd]
      rintro ⟨hr, hk⟩
      exact hn ⟨x, (heq x).2 ⟨hr, rfl⟩, (hs.mem_list_iff hd).1 hk⟩

/-- The first part of an insertion that returns. -/
theorem invalidateOld_stored {s u : VcState} {c : BinaryConstraint} (hs : StoreOk s)
    (h : invalidateOld c s = .ok () u) :
    (∀ x, s.Equates c x → (s.vc.getConstraintIdVector x).Nodup) ∧
    ∀ (k : ConstraintId) d, u.vc.constrContainer[k]? = some d ↔
      s.vc.constrContainer[k]? = some d ∧ ¬ ∃ x, s.Equates c x ∧ (x = d.first ∨ x = d.second) := by
  unfold invalidateOld at h
  rw [bind_of_ok (get_apply s)] at h
  cases h1 : s.vc.isConstant c.first with
  | true =>
    simp only [h1, if_true] at h
    exact equated_stored hs h fun y => by simp [VcState.Equates, h1]
  | false =>
    cases h2 : s.vc.isConstant c.second with
    | true =>
      simp only [h1, h2, if_true, Bool.false_eq_true, if_false] at h
      exact equated_stored hs h fun y => by simp [VcState.Equates, h1, h2]
    | false =>
      simp only [h1, h2, Bool.false_eq_true, if_false] at h
      cases h
      simp [VcState.Equates, h1, h2]

/-- What an insertion that returns did. -/
theorem insertConstraint_stored {s s' : VcState} {c : BinaryConstraint} (hs : StoreOk s)
    (h : insertConstraint c s = .ok () s') :
    (∀ x, s.Equates c x → (s.vc.getConstraintIdVector x).Nodup) ∧
    ∃ t, s' = t.store c ∧ Thins s t ∧ t.NoPair c ∧ ∀ (k : ConstraintId) d,
      t.vc.constrContainer[k]? = some d ↔ s.vc.constrContainer[k]? = some d ∧ ¬ s.Replaces c d := by
  unfold insertConstraint at h
  obtain ⟨_, u, h1, g1⟩ := bind_ok h
  rw [bind_of_ok (get_apply u)] at g1
  obtain ⟨_, t, h2, g2⟩ := bind_ok g1
  cases g2
  have hsu := (steps_invalidateOld c).ok h1
  have hut := (steps_invalidateMutual c _).ok h2
  have hno := invalidateMutual_noPair (hsu.keeps hs) h2
  obtain ⟨hnd, hstored⟩ := invalidateOld_stored hs h1
  refine ⟨hnd, t, rfl, hsu.trans hut, hno, fun k d => ?_⟩
  constructor
  · intro hd
    obtain ⟨hd', hn⟩ := (hstored k d).1 (hut.constrs k d hd)
    exact ⟨hd', fun hrep => hrep.elim (hno k d hd) hn⟩
  · rintro ⟨hd, hn⟩
    have hu := (hstored k d).2 ⟨hd, fun he => hn (Or.inr he)⟩
    exact ((invalidateMutual_stored h2).2 k d hu).2 fun hp => hn (Or.inl hp)

/-- An insertion that returns met a mutual constraint once, unless it was gone before. -/
theorem insertConstraint_once {s s' : VcState} {c : BinaryConstraint} (hs : StoreOk s)
    (h : insertConstraint c s = .ok () s') (hne : ∀ x, ¬ s.Equates c x) {k : ConstraintId} {d : BinaryConstraint}
    (hd : s.vc.constrContainer[k]? = some d) (hp : c.SamePair d) :
    (s.vc.getConstraintIdVector c.first).count k ≤ 1 := by
  unfold insertConstraint at h
  obtain ⟨_, u, h1, g1⟩ := bind_ok h
  rw [bind_of_ok (get_apply u)] at g1
  obtain ⟨_, t, h2, g2⟩ := bind_ok g1
  have hku := ((invalidateOld_stored hs h1).2 k d).2 ⟨hd, fun ⟨x, hx, _⟩ => hne x hx⟩
  have hcount := ((invalidateMutual_stored h2).2 k d hku).1 hp
  rw [((steps_invalidateOld c).ok h1).lists hs, List.count_filter] at hcount
  · exact hcount
  · exact Std.TreeMap.contains_eq_isSome_getElem?.trans (by rw [hku]; rfl)

/-- An insertion returns when it meets what it deletes once. -/
theorem insertConstraint_returns {s : VcState} {c : BinaryConstraint} (hs : StoreOk s)
    (hnd : ∀ x, s.Equates c x → (s.vc.getConstraintIdVector x).Nodup)
    (hone : ∀ (k : ConstraintId) d, s.vc.constrContainer[k]? = some d → c.SamePair d →
      (s.vc.getConstraintIdVector c.first).count k ≤ 1) :
    ∃ s', insertConstraint c s = .ok () s' := by
  have hex : ∀ x, ∀ id ∈ s.vc.getConstraintIdVector x, ∃ d, s.vc.constrContainer[id]? = some d := fun x id hid => by
    obtain ⟨d, hd, _⟩ := hs.stored x id hid
    exact ⟨d, hd⟩
  have hold : ∃ u, invalidateOld c s = .ok () u := by
    unfold invalidateOld
    rw [bind_of_ok (get_apply s)]
    cases h1 : s.vc.isConstant c.first with
    | true =>
      simp only [if_true]
      exact invalidateWithConstant_ok hs (fun hr => hnd _ ⟨hr, Or.inl ⟨h1, rfl⟩⟩) (hex _)
    | false =>
      cases h2 : s.vc.isConstant c.second with
      | true =>
        simp only [if_true, Bool.false_eq_true, if_false]
        exact invalidateWithConstant_ok hs (fun hr => hnd _ ⟨hr, Or.inr ⟨h1, h2, rfl⟩⟩) (hex _)
      | false =>
        simp only [Bool.false_eq_true, if_false]
        exact ⟨s, rfl⟩
  obtain ⟨u, hu⟩ := hold
  have hsu := (steps_invalidateOld c).ok hu
  obtain ⟨t, ht⟩ := invalidateMutual_ok c (hsu.keeps hs) (fun k d hk hp => by
    rw [hsu.lists hs]
    exact (List.filter_sublist.count_le k).trans (hone k d (hsu.constrs k d hk) hp)) ((hsu.keeps hs).stored c.first)
  exact ⟨_, insertConstraint_of_ok hu ht⟩

theorem VcState.ListsNodup.store {s : VcState} (hn : s.ListsNodup) (hs : StoreOk s) {c : BinaryConstraint}
    (hc : c.first ≠ c.second) : (s.store c).ListsNodup := by
  intro v
  have hnew := hs.not_listed
  simp only [VcState.store, ValueContainer.list_withConstraint]
  by_cases h1 : v = c.first
  · have h2 : v ≠ c.second := fun h => hc (h1 ▸ h)
    simp only [h1, hc, if_true, if_false, List.append_nil]
    exact List.nodup_append.2 ⟨hn c.first, List.nodup_singleton _, fun a ha b hb => by
      rw [List.mem_singleton.1 hb]
      exact fun hab => hnew _ (hab ▸ ha)⟩
  · by_cases h2 : v = c.second
    · simp only [h2, hc.symm, if_true, if_false, List.append_nil]
      exact List.nodup_append.2 ⟨hn c.second, List.nodup_singleton _, fun a ha b hb => by
        rw [List.mem_singleton.1 hb]
        exact fun hab => hnew _ (hab ▸ ha)⟩
    · simp [h1, h2, hn v]

/-- A constraint of the constant `c.first` with `c.second` is inserted, and only constraints of `c.second` go. -/
theorem insertConstraint_ok {s : VcState} (hs : StoreOk s) (hn : s.ListsNodup) {c : BinaryConstraint}
    (hc : s.vc.isConstant c.first = true) :
    ∃ t, insertConstraint c s = .ok () (t.store c) ∧ Deletes s t ∧ t.NoPair c ∧
      ∀ (k : ConstraintId) d, c.second ≠ d.first → c.second ≠ d.second → s.vc.constrContainer[k]? = some d →
        t.vc.constrContainer[k]? = some d := by
  obtain ⟨s', h⟩ := insertConstraint_returns hs (fun x _ => hn x)
    fun k d _ _ => List.nodup_iff_count_le_one.1 (hn c.first) k
  obtain ⟨-, t, rfl, hst, hno, hstored⟩ := insertConstraint_stored hs h
  refine ⟨t, h, hst.toDeletes, hno, fun k d h1 h2 hd => (hstored k d).2 ⟨hd, ?_⟩⟩
  rintro ((⟨_, hp⟩ | ⟨_, hp⟩) | ⟨x, ⟨_, ⟨_, rfl⟩ | ⟨hc', _⟩⟩, hx⟩)
  · exact h2 hp
  · exact h1 hp
  · exact hx.elim h1 h2
  · rw [hc] at hc'
    cases hc'

end Angie
