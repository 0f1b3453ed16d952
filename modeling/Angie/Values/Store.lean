import Angie.Lib.Exec
import Angie.Values.Relations

/-!
# The constraint store

`StoreOk` is the invariant of the constraint store: a constraint id is in the list of a value exactly when the
constraint exists and contains the value, ids are below the counter, and no two constraints have the same two values.

- Deleting keeps everything else (`Deletes`), also when it throws on the way (`steps_invalidateOld`,
  `steps_invalidateMutual`), and once the mutual constraints are gone the new one is the only one of its pair
  (`invalidateMutual_noPair`). Hence insertion keeps the invariant, and stores nothing but the new constraint
  (`steps_insertConstraint`).
- The lists keep their order: a deletion takes the deleted ids from them (`Thins`).
-/

namespace Angie

open Exec

namespace ValueContainer

/-! ## Lookups -/

theorem constrAt_ok {vc : ValueContainer} {id : ConstraintId} {c : BinaryConstraint} (h : vc.constrAt id = .ok c) :
    vc.constrContainer[id]? = some c := by
  unfold constrAt at h
  split at h
  · cases h; assumption
  · cases h

theorem constrAt_of_some {vc : ValueContainer} {id : ConstraintId} {c : BinaryConstraint}
    (h : vc.constrContainer[id]? = some c) : vc.constrAt id = .ok c := by
  simp only [constrAt, h]

theorem constrFind_ok {vc : ValueContainer} {what : String} {id : ConstraintId} {c : BinaryConstraint}
    (h : vc.constrFind what id = .ok c) : vc.constrContainer[id]? = some c := by
  unfold constrFind at h
  split at h
  · cases h; assumption
  · cases h

theorem constrFind_of_some {vc : ValueContainer} {id : ConstraintId} {c : BinaryConstraint}
    (h : vc.constrContainer[id]? = some c) (what : String) : vc.constrFind what id = .ok c := by
  simp only [constrFind, h]

/-! ## Single updates -/

variable (vc : ValueContainer) (id : ConstraintId) (c : BinaryConstraint)

@[simp] theorem constr_withoutConstraint (k : ConstraintId) :
    (vc.withoutConstraint id c).constrContainer[k]? = if id = k then none else vc.constrContainer[k]? := by
  simp [withoutConstraint, Std.TreeMap.getElem?_erase]

@[simp] theorem list_withoutConstraint (v : ValueId) :
    (vc.withoutConstraint id c).getConstraintIdVector v =
      if v = c.first ∨ v = c.second then (vc.getConstraintIdVector v).filter (· ≠ id)
      else vc.getConstraintIdVector v := by
  unfold getConstraintIdVector withoutConstraint
  simp only [Std.TreeMap.getElem?_modify, Std.compare_eq_iff_eq]
  rcases h : vc.constrIdContainer[v]? with _ | l <;> by_cases h1 : c.first = v <;> by_cases h2 : c.second = v <;>
    simp [h, h1, h2, Ne.symm, List.filter_filter]

@[simp] theorem constr_withConstraint (k : ConstraintId) :
    (vc.withConstraint id c).constrContainer[k]? = if id = k then some c else vc.constrContainer[k]? := by
  simp [withConstraint, Std.TreeMap.getElem?_insert]

@[simp] theorem list_withConstraint (v : ValueId) :
    (vc.withConstraint id c).getConstraintIdVector v =
      vc.getConstraintIdVector v ++ (if v = c.first then [id] else []) ++ (if v = c.second then [id] else []) := by
  unfold withConstraint getConstraintIdVector
  simp only [Std.TreeMap.getElem?_insert, Std.compare_eq_iff_eq]
  by_cases h1 : c.first = v <;> by_cases h2 : c.second = v <;> simp [h1, h2] <;> grind

end ValueContainer

/-! ## The invariant -/

/-- The constraints have the same two values, in either order. -/
def BinaryConstraint.SamePair (c d : BinaryConstraint) : Prop :=
  (c.first = d.first ∧ c.second = d.second) ∨ (c.first = d.second ∧ c.second = d.first)

/-- No constraint is stored for the two values of `c`. -/
def VcState.NoPair (s : VcState) (c : BinaryConstraint) : Prop :=
  ∀ (k : ConstraintId) d, s.vc.constrContainer[k]? = some d → ¬ c.SamePair d

theorem BinaryConstraint.SamePair.symm {c d : BinaryConstraint} (h : c.SamePair d) : d.SamePair c := by
  rcases h with ⟨h1, h2⟩ | ⟨h1, h2⟩
  · exact Or.inl ⟨h1.symm, h2.symm⟩
  · exact Or.inr ⟨h2.symm, h1.symm⟩

theorem BinaryConstraint.getOther_ok {c : BinaryConstraint} {x y : ValueId} (h : c.getOther x = .ok y) :
    (x = c.first ∧ y = c.second) ∨ (x = c.second ∧ y = c.first) := by
  unfold getOther at h
  split at h
  · cases h; exact Or.inl ⟨‹_›, rfl⟩
  · split at h
    · cases h; exact Or.inr ⟨‹_›, rfl⟩
    · cases h

theorem BinaryConstraint.getOther_of_contains {c : BinaryConstraint} {x : ValueId}
    (h : x = c.first ∨ x = c.second) : ∃ y, c.getOther x = .ok y := by
  unfold getOther
  split
  · exact ⟨_, rfl⟩
  · exact ⟨_, if_pos (h.resolve_left ‹_›)⟩

structure StoreOk (s : VcState) : Prop where
  /-- Both values of a constraint refer to it. -/
  listed : ∀ (k : ConstraintId) c, s.vc.constrContainer[k]? = some c →
    k ∈ s.vc.getConstraintIdVector c.first ∧ k ∈ s.vc.getConstraintIdVector c.second
  /-- What a value refers to exists and contains the value. -/
  stored : ∀ v, ∀ k ∈ s.vc.getConstraintIdVector v,
    ∃ c, s.vc.constrContainer[k]? = some c ∧ (v = c.first ∨ v = c.second)
  /-- At most one constraint for two values. -/
  single : ∀ (k k' : ConstraintId) c c', s.vc.constrContainer[k]? = some c →
    s.vc.constrContainer[k']? = some c' → c.SamePair c' → k = k'
  fresh : ∀ (k : ConstraintId) c, s.vc.constrContainer[k]? = some c → k < s.statics.nextConstraintIdToGive

/-- A value refers to a constraint exactly when the constraint contains it. -/
theorem StoreOk.mem_list_iff {s : VcState} (hs : StoreOk s) {k : ConstraintId} {d : BinaryConstraint}
    (hd : s.vc.constrContainer[k]? = some d) {x : ValueId} :
    k ∈ s.vc.getConstraintIdVector x ↔ x = d.first ∨ x = d.second := by
  constructor
  · intro hk
    obtain ⟨d', hd', hx⟩ := hs.stored x k hk
    rw [hd] at hd'
    cases hd'
    exact hx
  · rintro (rfl | rfl)
    · exact (hs.listed k d hd).1
    · exact (hs.listed k d hd).2

/-- No value refers to the next constraint yet. -/
theorem StoreOk.not_listed {s : VcState} (hs : StoreOk s) (v : ValueId) :
    s.statics.nextConstraintIdToGive ∉ s.vc.getConstraintIdVector v := by
  intro h
  obtain ⟨d, hd, _⟩ := hs.stored v _ h
  exact Nat.lt_irrefl _ (hs.fresh _ d hd)

/-- The constraint `k` is one between `x` and `y`, in either order. -/
def VcState.Between (s : VcState) (k : ConstraintId) (rel : CmpFlags) (x y : ValueId) : Prop :=
  s.vc.constrContainer[k]? = some ⟨x, y, rel⟩ ∨ s.vc.constrContainer[k]? = some ⟨y, x, rel⟩

namespace VcState.Between

variable {s : VcState} {k : ConstraintId} {rel : CmpFlags} {x y : ValueId}

theorem symm (h : s.Between k rel x y) : s.Between k rel y x := Or.symm h

theorem exists_constr (h : s.Between k rel x y) :
    ∃ c, s.vc.constrContainer[k]? = some c ∧ c.relation = rel ∧ c.getOther x = .ok y := by
  rcases h with h | h
  · exact ⟨_, h, rfl, by simp [BinaryConstraint.getOther]⟩
  · refine ⟨_, h, rfl, ?_⟩
    simp only [BinaryConstraint.getOther, if_true]
    split
    · rename_i hxy
      rw [hxy]
    · rfl

/-- Both values refer to the constraint. -/
theorem mem (hs : StoreOk s) (h : s.Between k rel x y) : k ∈ s.vc.getConstraintIdVector x := by
  rcases h with h | h
  · exact (hs.listed k _ h).1
  · exact (hs.listed k _ h).2

/-- Two values have one constraint at most. -/
theorem unique (hs : StoreOk s) {k' : ConstraintId} {rel' : CmpFlags} (h : s.Between k rel x y)
    (h' : s.Between k' rel' x y) : k' = k ∧ rel' = rel := by
  have hk : k' = k := by
    rcases h with h | h <;> rcases h' with h' | h'
    · exact hs.single k' k _ _ h' h (Or.inl ⟨rfl, rfl⟩)
    · exact hs.single k' k _ _ h' h (Or.inr ⟨rfl, rfl⟩)
    · exact hs.single k' k _ _ h' h (Or.inr ⟨rfl, rfl⟩)
    · exact hs.single k' k _ _ h' h (Or.inl ⟨rfl, rfl⟩)
  subst hk
  refine ⟨rfl, ?_⟩
  obtain ⟨c, hc, rfl, _⟩ := h.exists_constr
  obtain ⟨c', hc', rfl, _⟩ := h'.exists_constr
  rw [hc] at hc'
  cases hc'
  rfl

end VcState.Between

theorem between_of_getOther {s : VcState} {k : ConstraintId} {c : BinaryConstraint} {x y : ValueId}
    (hc : s.vc.constrContainer[k]? = some c) (ho : c.getOther x = .ok y) : s.Between k c.relation x y := by
  rcases BinaryConstraint.getOther_ok ho with ⟨rfl, rfl⟩ | ⟨rfl, rfl⟩
  · exact Or.inl hc
  · exact Or.inr hc

/-- No value refers to a constraint twice. A constraint of a value with itself would break this. -/
def VcState.ListsNodup (s : VcState) : Prop := ∀ v, (s.vc.getConstraintIdVector v).Nodup

/-- `t` is `s` after deleting some constraints. -/
structure Deletes (s t : VcState) : Prop where
  statics : t.statics = s.statics
  zero : t.vc.zero = s.vc.zero
  constants : t.vc.constantContainer = s.vc.constantContainer
  constrs : ∀ (k : ConstraintId) c, t.vc.constrContainer[k]? = some c → s.vc.constrContainer[k]? = some c
  keeps : StoreOk s → StoreOk t
  nodup : s.ListsNodup → t.ListsNodup

theorem Deletes.refl (s : VcState) : Deletes s s := ⟨rfl, rfl, rfl, fun _ _ h => h, id, id⟩

theorem Deletes.trans {s t u : VcState} (h : Deletes s t) (h' : Deletes t u) : Deletes s u where
  statics := h'.statics.trans h.statics
  zero := h'.zero.trans h.zero
  constants := h'.constants.trans h.constants
  constrs := fun k c hk => h.constrs k c (h'.constrs k c hk)
  keeps := fun hs => h'.keeps (h.keeps hs)
  nodup := fun hs => h'.nodup (h.nodup hs)

instance : IsPreorder VcState Deletes where
  refl := Deletes.refl
  trans := fun _ _ _ => Deletes.trans

theorem Deletes.isConstant {s t : VcState} (h : Deletes s t) (v : ValueId) :
    t.vc.isConstant v = s.vc.isConstant v := by
  simp only [ValueContainer.isConstant, h.constants]

/-- A deletion that leaves the lists in order: they lose the ids of the deleted constraints. -/
structure Thins (s t : VcState) : Prop extends Deletes s t where
  lists : StoreOk s → ∀ v, t.vc.getConstraintIdVector v =
    (s.vc.getConstraintIdVector v).filter fun k => t.vc.constrContainer.contains k

/-- The lists refer to existing constraints only. -/
theorem StoreOk.filter_list {s : VcState} (hs : StoreOk s) (v : ValueId) :
    (s.vc.getConstraintIdVector v).filter (fun k => s.vc.constrContainer.contains k) =
      s.vc.getConstraintIdVector v := by
  rw [List.filter_eq_self]
  intro k hk
  obtain ⟨c, hc, _⟩ := hs.stored v k hk
  exact Std.TreeMap.contains_eq_isSome_getElem?.trans (by rw [hc]; rfl)

theorem Thins.refl (s : VcState) : Thins s s := ⟨Deletes.refl s, fun hs v => (hs.filter_list v).symm⟩

theorem Thins.trans {s t u : VcState} (h : Thins s t) (h' : Thins t u) : Thins s u where
  toDeletes := h.toDeletes.trans h'.toDeletes
  lists := by
    intro hs v
    rw [h'.lists (h.keeps hs) v, h.lists hs v, List.filter_filter]
    refine List.filter_congr fun k _ => ?_
    rw [Bool.and_eq_left_iff_imp]
    intro hk
    rw [Std.TreeMap.contains_eq_isSome_getElem?, Option.isSome_iff_exists] at hk ⊢
    obtain ⟨c, hc⟩ := hk
    exact ⟨c, h'.constrs k c hc⟩

instance : IsPreorder VcState Thins where
  refl := Thins.refl
  trans := fun _ _ _ => Thins.trans

/-! ## Deleting -/

theorem constr_of_without {vc : ValueContainer} {id k : ConstraintId} {c d : BinaryConstraint}
    (h : (vc.withoutConstraint id c).constrContainer[k]? = some d) : id ≠ k ∧ vc.constrContainer[k]? = some d := by
  rw [ValueContainer.constr_withoutConstraint] at h
  split at h
  · cases h
  · exact ⟨‹_›, h⟩

theorem withoutConstraint_storeOk {s : VcState} {id : ConstraintId} {c : BinaryConstraint}
    (hc : s.vc.constrContainer[id]? = some c) (hs : StoreOk s) :
    StoreOk { s with vc := s.vc.withoutConstraint id c } := by
  refine ⟨?_, ?_, ?_, ?_⟩
  · intro k d hk
    obtain ⟨hne, hk⟩ := constr_of_without hk
    have := hs.listed k d hk
    simp only [ValueContainer.list_withoutConstraint]
    constructor <;> split <;> simp [this, Ne.symm hne]
  · intro v k hk
    simp only [ValueContainer.list_withoutConstraint] at hk
    split at hk
    · obtain ⟨hk, hne⟩ := List.mem_filter.1 hk
      obtain ⟨d, hd, hv⟩ := hs.stored v k hk
      refine ⟨d, ?_, hv⟩
      have : id ≠ k := fun h => by simp [h] at hne
      simp [this, hd]
    · rename_i hv
      obtain ⟨d, hd, hvd⟩ := hs.stored v k hk
      refine ⟨d, ?_, hvd⟩
      -- `v` is no value of `c`, so its constraint is another one
      have : id ≠ k := by
        rintro rfl
        rw [hc] at hd
        cases hd
        exact hv hvd
      simp [this, hd]
  · intro k k' d d' hk hk' hp
    exact hs.single k k' d d' (constr_of_without hk).2 (constr_of_without hk').2 hp
  · intro k d hk
    exact hs.fresh k d (constr_of_without hk).2

theorem withoutConstraint_deletes {s : VcState} {id : ConstraintId} {c : BinaryConstraint}
    (hc : s.vc.constrContainer[id]? = some c) : Deletes s { s with vc := s.vc.withoutConstraint id c } where
  statics := rfl
  zero := rfl
  constants := rfl
  constrs _ _ hk := (constr_of_without hk).2
  keeps := withoutConstraint_storeOk hc
  nodup := by
    intro hs v
    simp only [ValueContainer.list_withoutConstraint]
    split
    · exact (hs v).filter _
    · exact hs v

theorem withoutConstraint_thins {s : VcState} {id : ConstraintId} {c : BinaryConstraint}
    (hc : s.vc.constrContainer[id]? = some c) : Thins s { s with vc := s.vc.withoutConstraint id c } where
  toDeletes := withoutConstraint_deletes hc
  lists := by
    intro hs v
    rw [ValueContainer.list_withoutConstraint]
    have hcontains : ∀ k ∈ s.vc.getConstraintIdVector v,
        (s.vc.withoutConstraint id c).constrContainer.contains k = decide (k ≠ id) := by
      intro k hk
      obtain ⟨d, hd, _⟩ := hs.stored v k hk
      rw [Std.TreeMap.contains_eq_isSome_getElem?, ValueContainer.constr_withoutConstraint, hd]
      by_cases h : k = id <;> simp [h, Ne.symm]
    rw [List.filter_congr hcontains]
    split
    · rfl
    · rename_i hv
      -- `v` is no value of `c`, so its list does not have `id`
      refine (List.filter_eq_self.2 fun k hk => ?_).symm
      rw [decide_eq_true_iff]
      rintro rfl
      exact hv ((hs.mem_list_iff hc).1 hk)

theorem query_apply {α : Type} (q : ValueContainer → Except Exn α) (s : VcState) :
    VcM.query q s = match q s.vc with
      | .ok a => .ok a s
      | .error e => .error e s := rfl

theorem query_of_ok {α : Type} {q : ValueContainer → Except Exn α} {s : VcState} {a : α} (h : q s.vc = .ok a) :
    VcM.query q s = .ok a s := by
  rw [query_apply, h]

theorem query_ok {α : Type} {q : ValueContainer → Except Exn α} {s t : VcState} {a : α}
    (h : VcM.query q s = .ok a t) : q s.vc = .ok a ∧ s = t := by
  rw [query_apply] at h
  split at h <;> cases h
  exact ⟨‹_›, rfl⟩

theorem steps_query {R : VcState → VcState → Prop} [IsPreorder VcState R] {α : Type}
    (q : ValueContainer → Except Exn α) : Steps R (VcM.query q) := by
  intro s
  rw [query_apply]
  split <;> exact Std.Refl.refl s

/-- A deletion that returns deleted its constraint, one that throws changed nothing. -/
theorem deleteConstraint_cases (id : ConstraintId) (s : VcState) :
    (∃ c, s.vc.constrContainer[id]? = some c ∧
      deleteConstraint id s = .ok () { s with vc := s.vc.withoutConstraint id c }) ∨
    ∃ e, deleteConstraint id s = .error e s := by
  unfold deleteConstraint
  rw [bind_of_ok (get_apply s)]
  cases hc : s.vc.constrContainer[id]? with
  | none =>
    have : s.vc.constrFind "Trying to delete constraint that does not exist" id =
        .error (.runtimeError "Trying to delete constraint that does not exist") := by
      simp only [ValueContainer.constrFind, hc]
    exact Or.inr ⟨_, by rw [bind_apply, query_apply, this]⟩
  | some c =>
    rw [bind_of_ok (query_of_ok (ValueContainer.constrFind_of_some hc _))]
    split
    · exact Or.inl ⟨c, rfl, rfl⟩
    · exact Or.inr ⟨_, rfl⟩

theorem steps_deleteConstraint (id : ConstraintId) : Steps Thins (deleteConstraint id) := by
  intro s
  rcases deleteConstraint_cases id s with ⟨c, hc, h⟩ | ⟨e, h⟩
  · rw [h]; exact withoutConstraint_thins hc
  · rw [h]; exact Thins.refl s

/-- The store lists every constraint, so that deleting one that exists does not throw. -/
theorem deleteConstraint_ok {s : VcState} (hs : StoreOk s) {id : ConstraintId} {c : BinaryConstraint}
    (hc : s.vc.constrContainer[id]? = some c) :
    deleteConstraint id s = .ok () { s with vc := s.vc.withoutConstraint id c } := by
  have hmem : ∀ v, id ∈ s.vc.getConstraintIdVector v → s.vc.constrIdContainer.contains v = true := by
    intro v hv
    unfold ValueContainer.getConstraintIdVector at hv
    cases h : s.vc.constrIdContainer[v]? with
    | none => rw [h] at hv; cases hv
    | some l => exact Std.TreeMap.contains_eq_isSome_getElem?.trans (by rw [h]; rfl)
  have h1 := hmem _ (hs.listed id c hc).1
  have h2 := hmem _ (hs.listed id c hc).2
  unfold deleteConstraint
  rw [bind_of_ok (get_apply s), bind_of_ok (query_of_ok (ValueContainer.constrFind_of_some hc _))]
  simp only [h1, h2, Bool.and_self, if_true]
  rfl

theorem steps_invalidateWithConstant (r : CmpFlags) : ∀ ids, Steps Thins (invalidateWithConstant r ids)
  | [] => steps_pure ()
  | id :: ids => by
    refine steps_bind (steps_query _) fun _ => ?_
    refine steps_bind ?_ fun _ => steps_invalidateWithConstant r ids
    exact steps_ite (steps_deleteConstraint id) (steps_pure _)

theorem steps_invalidateMutual (c : BinaryConstraint) : ∀ ids, Steps Thins (invalidateMutual c ids)
  | [] => steps_pure ()
  | id :: ids => by
    refine steps_bind (steps_query _) fun _ => ?_
    refine steps_bind (steps_query _) fun _ => ?_
    refine steps_bind ?_ fun _ => steps_invalidateMutual c ids
    exact steps_ite (steps_deleteConstraint id) (steps_pure _)

/-- A constraint with the same two values has the second value as the other of the first. -/
theorem getOther_of_samePair {c d : BinaryConstraint} (h : c.SamePair d) : d.getOther c.first = .ok c.second := by
  unfold BinaryConstraint.getOther
  rcases h with ⟨h1, h2⟩ | ⟨h1, h2⟩
  · rw [if_pos h1, h2]
  · split
    · rename_i h3
      rw [← h1, h3, h2]
    · rw [h2]

/-- After the loop over the mutual constraints, none of the ids it went through is one. -/
theorem invalidateMutual_gone {c : BinaryConstraint} : ∀ {ids : List ConstraintId} {s t : VcState},
    invalidateMutual c ids s = .ok () t → ∀ k ∈ ids, ∀ d, t.vc.constrContainer[k]? = some d → ¬ c.SamePair d
  | [], _, _, _, _, hk, _, _ => by cases hk
  | id :: ids, s, t, h, k, hk, d, hd => by
    intro hp
    unfold invalidateMutual at h
    obtain ⟨old, s1, h1, g1⟩ := bind_ok h
    obtain ⟨hold, rfl⟩ := query_ok h1
    obtain ⟨other, s2, h2, g2⟩ := bind_ok g1
    obtain ⟨hother, rfl⟩ := query_ok h2
    obtain ⟨_, u, h3, hr⟩ := bind_ok g2
    rcases List.mem_cons.1 hk with rfl | hk
    · -- `k` survives the whole loop, so its constraint is `old`, which was deleted first
      have hdu := ((steps_invalidateMutual c ids).ok hr).constrs k d hd
      have hsd : s.vc.constrContainer[k]? = some d := by
        refine ((steps_ite (steps_deleteConstraint k) (steps_pure _)).ok h3).constrs k d hdu
      have hod : old = d := by
        have := ValueContainer.constrAt_ok hold
        rw [hsd] at this
        cases this; rfl
      subst hod
      rw [getOther_of_samePair hp] at hother
      cases hother
      rw [if_pos rfl] at h3
      rcases deleteConstraint_cases k s with ⟨c', _, h4⟩ | ⟨e, h4⟩
      · rw [h4] at h3
        cases h3
        simp at hdu
      · rw [h4] at h3; cases h3
    · exact invalidateMutual_gone hr k hk d hd hp

/-! ## Inserting -/

/-- What an insertion leaves: old constraints, and the new one unless it threw. -/
structure Inserts (c : BinaryConstraint) (s t : VcState) : Prop where
  zero : t.vc.zero = s.vc.zero
  constants : t.vc.constantContainer = s.vc.constantContainer
  nextId : t.statics.nextIdToGive = s.statics.nextIdToGive
  nextConstraintId : s.statics.nextConstraintIdToGive ≤ t.statics.nextConstraintIdToGive
  nextObjectId : t.statics.nextObjectIdToGive = s.statics.nextObjectIdToGive
  constrs : ∀ (k : ConstraintId) d, t.vc.constrContainer[k]? = some d → s.vc.constrContainer[k]? = some d ∨ d = c
  keeps : StoreOk s → StoreOk t

theorem Deletes.inserts {s t : VcState} (h : Deletes s t) (c : BinaryConstraint) : Inserts c s t where
  zero := h.zero
  constants := h.constants
  nextId := by rw [h.statics]
  nextConstraintId := by rw [h.statics]
  nextObjectId := by rw [h.statics]
  constrs := fun k d hk => Or.inl (h.constrs k d hk)
  keeps := h.keeps

/-- The state after the new constraint is stored. -/
def VcState.store (s : VcState) (c : BinaryConstraint) : VcState :=
  { statics := { s.statics with nextConstraintIdToGive := s.statics.nextConstraintIdToGive + 1 }
    vc := s.vc.withConstraint s.statics.nextConstraintIdToGive c }

theorem store_ok {s : VcState} {c : BinaryConstraint} (hs : StoreOk s)
    (hnew : s.NoPair c) : StoreOk (s.store c) := by
  have hlt : ∀ (k : ConstraintId) d, s.vc.constrContainer[k]? = some d →
      s.statics.nextConstraintIdToGive ≠ k := fun k d hk => by
    have := hs.fresh k d hk; lia
  have hold : ∀ k d, (s.store c).vc.constrContainer[k]? = some d →
      (k = s.statics.nextConstraintIdToGive ∧ d = c) ∨ s.vc.constrContainer[k]? = some d := by
    intro k d hk
    simp only [VcState.store, ValueContainer.constr_withConstraint] at hk
    split at hk
    · cases hk; exact Or.inl ⟨by lia, rfl⟩
    · exact Or.inr hk
  refine ⟨?_, ?_, ?_, ?_⟩
  · intro k d hk
    rcases hold k d hk with ⟨rfl, rfl⟩ | hk
    · simp [VcState.store]
    · have := hs.listed k d hk
      simp [VcState.store, this]
  · intro v k hk
    simp only [VcState.store, ValueContainer.list_withConstraint, List.mem_append] at hk
    rcases hk with (hk | hk) | hk
    · obtain ⟨d, hd, hv⟩ := hs.stored v k hk
      exact ⟨d, by simp [VcState.store, hlt k d hd, hd], hv⟩
    · split at hk
      · rw [List.mem_singleton] at hk; subst hk
        exact ⟨c, by simp [VcState.store], Or.inl ‹_›⟩
      · cases hk
    · split at hk
      · rw [List.mem_singleton] at hk; subst hk
        exact ⟨c, by simp [VcState.store], Or.inr ‹_›⟩
      · cases hk
  · intro k k' d d' hk hk' hp
    rcases hold k d hk with ⟨rfl, rfl⟩ | hk1 <;> rcases hold k' d' hk' with ⟨rfl, rfl⟩ | hk1'
    · rfl
    · exact absurd hp (hnew k' d' hk1')
    · exact absurd hp.symm (hnew k d hk1)
    · exact hs.single k k' d d' hk1 hk1' hp
  · intro k d hk
    rcases hold k d hk with ⟨rfl, rfl⟩ | hk
    · simp [VcState.store]
    · have := hs.fresh k d hk
      simp only [VcState.store]; lia

theorem steps_invalidateOld (c : BinaryConstraint) : Steps Thins (invalidateOld c) :=
  steps_get fun s => steps_ite (steps_invalidateWithConstant _ _)
    (steps_ite (steps_invalidateWithConstant _ _) (steps_pure _)) s

/-- When both loops return, the constraint is stored. -/
theorem insertConstraint_of_ok {c : BinaryConstraint} {s u t : VcState} (h1 : invalidateOld c s = .ok () u)
    (h2 : invalidateMutual c (u.vc.getConstraintIdVector c.first) u = .ok () t) :
    insertConstraint c s = .ok () (t.store c) := by
  unfold insertConstraint
  rw [bind_of_ok h1, bind_of_ok (get_apply u), bind_of_ok h2]
  rfl

/-- What survives the loop over the mutual constraints was in the list that the loop went through, unless it has other
values. -/
theorem invalidateMutual_noPair {c : BinaryConstraint} {u t : VcState} (hu : StoreOk u)
    (h : invalidateMutual c (u.vc.getConstraintIdVector c.first) u = .ok () t) : t.NoPair c := by
  intro k d hd hp
  have hl := hu.listed k d (((steps_invalidateMutual c _).ok h).constrs k d hd)
  have hk : k ∈ u.vc.getConstraintIdVector c.first := by
    rcases hp with ⟨h1, _⟩ | ⟨h1, _⟩
    · rw [h1]; exact hl.1
    · rw [h1]; exact hl.2
  exact invalidateMutual_gone h k hk d hd hp

/-- An insertion that returns stored the constraint after deletions that left none with the same two values; one that
throws only deleted. -/
theorem insertConstraint_cases (c : BinaryConstraint) (s : VcState) :
    (∃ t, Thins s t ∧ (StoreOk s → t.NoPair c) ∧ insertConstraint c s = .ok () (t.store c)) ∨
    ∃ e t, Thins s t ∧ insertConstraint c s = .error e t := by
  cases h1 : invalidateOld c s with
  | error e t => exact Or.inr ⟨e, t, (steps_invalidateOld c).error h1, bind_of_error h1⟩
  | ok _ u =>
    have hsu := (steps_invalidateOld c).ok h1
    cases h2 : invalidateMutual c (u.vc.getConstraintIdVector c.first) u with
    | error e t =>
      refine Or.inr ⟨e, t, hsu.trans ((steps_invalidateMutual c _).error h2), ?_⟩
      unfold insertConstraint
      rw [bind_of_ok h1, bind_of_ok (get_apply u), bind_of_error h2]
    | ok _ t =>
      exact Or.inl ⟨t, hsu.trans ((steps_invalidateMutual c _).ok h2),
        fun hs => invalidateMutual_noPair (hsu.keeps hs) h2, insertConstraint_of_ok h1 h2⟩

theorem store_inserts {s t : VcState} {c : BinaryConstraint} (h : Deletes s t)
    (hnew : StoreOk s → t.NoPair c) : Inserts c s (t.store c) where
  zero := h.zero
  constants := h.constants
  nextId := by simp only [VcState.store, h.statics]
  nextConstraintId := by simp only [VcState.store, h.statics]; lia
  nextObjectId := by simp only [VcState.store, h.statics]
  constrs := by
    intro k d hk
    simp only [VcState.store, ValueContainer.constr_withConstraint] at hk
    split at hk
    · cases hk; exact Or.inr rfl
    · exact Or.inl (h.constrs k d hk)
  keeps := fun hs => store_ok (h.keeps hs) (hnew hs)

theorem steps_insertConstraint (c : BinaryConstraint) : Steps (Inserts c) (insertConstraint c) := by
  intro s
  rcases insertConstraint_cases c s with ⟨t, h, hnew, heq⟩ | ⟨e, t, h, heq⟩
  · rw [heq]; exact store_inserts h.toDeletes hnew
  · rw [heq]; exact h.inserts c

/-- What an insertion stores has the next id. -/
theorem insertConstraint_stores {c d : BinaryConstraint} {s : VcState} {k : ConstraintId}
    (h : (final (insertConstraint c s)).vc.constrContainer[k]? = some d) :
    s.vc.constrContainer[k]? = some d ∨ k = s.statics.nextConstraintIdToGive := by
  rcases insertConstraint_cases c s with ⟨t, ht, _, heq⟩ | ⟨e, t, ht, heq⟩
  · rw [heq] at h
    simp only [final, VcState.store, ValueContainer.constr_withConstraint] at h
    split at h
    · rename_i hk
      exact Or.inr (hk.symm.trans (by rw [ht.statics]))
    · exact Or.inl (ht.constrs k d h)
  · rw [heq] at h
    exact Or.inl (ht.constrs k d h)

end Angie
