import Angie.Values.Store

/-!
# Ids and constants

`ConstOk` is the invariant of the constants: they are bound to ids below the counter, one id for each constant, and
`zero` is the id of `0`. Every call only adds ids and constants (`Extends`), also when it throws, and the assumptions
apart leaves the constraints alone (`Grows`); the id it returns is given out (`Given`), and new unless it names a
constant (`Fresh`).
-/

namespace Angie

open Exec

/-! ## The invariant -/

structure ConstOk (s : VcState) : Prop where
  counter : 0 ≤ s.statics.nextIdToGive
  zero : s.vc.constantContainer[s.vc.zero]? = some 0
  range : ∀ (v : ValueId) c, s.vc.constantContainer[v]? = some c → 0 ≤ v ∧ v < s.statics.nextIdToGive
  interned : ∀ (v v' : ValueId) c, s.vc.constantContainer[v]? = some c → s.vc.constantContainer[v']? = some c →
    v = v'

/-- The id was given out by the counter. -/
def VcState.Given (s : VcState) (v : ValueId) : Prop := 0 ≤ v ∧ v < s.statics.nextIdToGive

instance (s : VcState) (v : ValueId) : Decidable (s.Given v) := inferInstanceAs (Decidable (_ ∧ _))

/-- `t` is `s` after counting up, with some of the new ids bound to constants. -/
structure Extends (s t : VcState) : Prop where
  zero : t.vc.zero = s.vc.zero
  nextId : s.statics.nextIdToGive ≤ t.statics.nextIdToGive
  nextConstraintId : s.statics.nextConstraintIdToGive ≤ t.statics.nextConstraintIdToGive
  nextObjectId : s.statics.nextObjectIdToGive ≤ t.statics.nextObjectIdToGive
  constants : ∀ v : ValueId, v < s.statics.nextIdToGive ∨ t.statics.nextIdToGive ≤ v →
    t.vc.constantContainer[v]? = s.vc.constantContainer[v]?
  keeps : ConstOk s → ConstOk t

/-- `t` extends `s` and has the same constraints. -/
structure Grows (s t : VcState) : Prop extends Extends s t where
  constrs : t.vc.constrContainer = s.vc.constrContainer
  lists : t.vc.constrIdContainer = s.vc.constrIdContainer

theorem Extends.refl (s : VcState) : Extends s s :=
  ⟨rfl, Int.le_refl _, Nat.le_refl _, Int.le_refl _, fun _ _ => rfl, id⟩

theorem Extends.trans {s t u : VcState} (h : Extends s t) (h' : Extends t u) : Extends s u where
  zero := h'.zero.trans h.zero
  nextId := Int.le_trans h.nextId h'.nextId
  nextConstraintId := Nat.le_trans h.nextConstraintId h'.nextConstraintId
  nextObjectId := Int.le_trans h.nextObjectId h'.nextObjectId
  constants := by
    intro v hv
    have h1 := h.nextId
    have h2 := h'.nextId
    rw [h'.constants v (by lia), h.constants v (by lia)]
  keeps := fun hs => h'.keeps (h.keeps hs)

theorem Grows.refl (s : VcState) : Grows s s := ⟨Extends.refl s, rfl, rfl⟩

theorem Grows.trans {s t u : VcState} (h : Grows s t) (h' : Grows t u) : Grows s u :=
  ⟨h.toExtends.trans h'.toExtends, h'.constrs.trans h.constrs, h'.lists.trans h.lists⟩

instance : IsPreorder VcState Extends where
  refl := Extends.refl
  trans := fun _ _ _ => Extends.trans

instance : IsPreorder VcState Grows where
  refl := Grows.refl
  trans := fun _ _ _ => Grows.trans

section Extends

variable {s t : VcState}

theorem Extends.given (h : Extends s t) {v : ValueId} (hv : s.Given v) : t.Given v := by
  have := h.nextId
  unfold VcState.Given at *
  lia

theorem Extends.constant (h : Extends s t) {v : ValueId} (hv : s.Given v) :
    t.vc.constantContainer[v]? = s.vc.constantContainer[v]? :=
  h.constants v (Or.inl hv.2)

theorem Extends.isConstant (h : Extends s t) {v : ValueId} (hv : s.Given v) :
    t.vc.isConstant v = s.vc.isConstant v := by
  simp only [ValueContainer.isConstant, Std.TreeMap.contains_eq_isSome_getElem?, h.constant hv]

theorem Extends.bound (h : Extends s t) (hs : ConstOk s) {v : ValueId} {c : Word}
    (hv : s.vc.constantContainer[v]? = some c) : t.vc.constantContainer[v]? = some c := by
  rw [h.constant (hs.range v c hv), hv]

theorem Inserts.extends {c : BinaryConstraint} (h : Inserts c s t) : Extends s t where
  zero := h.zero
  nextId := Int.le_of_eq h.nextId.symm
  nextConstraintId := h.nextConstraintId
  nextObjectId := Int.le_of_eq h.nextObjectId.symm
  constants := fun _ _ => by rw [h.constants]
  keeps := by
    intro hs
    refine ⟨?_, ?_, ?_, ?_⟩
    · rw [h.nextId]; exact hs.counter
    · rw [h.constants, h.zero]; exact hs.zero
    · rw [h.constants, h.nextId]; exact hs.range
    · rw [h.constants]; exact hs.interned

end Extends

theorem isConstant_iff {vc : ValueContainer} {v : ValueId} :
    vc.isConstant v = true ↔ ∃ c, vc.constantContainer[v]? = some c := by
  rw [ValueContainer.isConstant, Std.TreeMap.contains_eq_isSome_getElem?, Option.isSome_iff_exists]

theorem isConstant_eq_false {vc : ValueContainer} {v : ValueId} :
    vc.isConstant v = false ↔ vc.constantContainer[v]? = none := by
  rw [ValueContainer.isConstant, Std.TreeMap.contains_eq_isSome_getElem?, Option.isSome_eq_false_iff,
    Option.isNone_iff_eq_none]

/-- What a call returns that led from `s` to `t`: an id that is new or names a constant. -/
structure Fresh (s t : VcState) (v : ValueId) : Prop where
  given : t.Given v
  new : s.statics.nextIdToGive ≤ v ∨ t.vc.isConstant v = true

/-! ## The calls -/

/-- Counting up changes nothing else. -/
theorem grows_statics {s : VcState} {statics : Statics} (h1 : s.statics.nextIdToGive ≤ statics.nextIdToGive)
    (h2 : s.statics.nextConstraintIdToGive ≤ statics.nextConstraintIdToGive)
    (h3 : s.statics.nextObjectIdToGive ≤ statics.nextObjectIdToGive) : Grows s { s with statics := statics } where
  constrs := rfl
  lists := rfl
  zero := rfl
  nextId := h1
  nextConstraintId := h2
  nextObjectId := h3
  constants := fun _ _ => rfl
  keeps := by
    intro hs
    refine ⟨Int.le_trans hs.counter h1, hs.zero, fun v c hv => ?_, hs.interned⟩
    have := hs.range v c hv
    exact ⟨this.1, Int.lt_of_lt_of_le this.2 h1⟩

theorem grows_next (s : VcState) :
    Grows s { s with statics.nextIdToGive := s.statics.nextIdToGive + 1 } :=
  grows_statics (by simp only; lia) (Nat.le_refl _) (Int.le_refl _)

/-- The state after a new id is bound to a constant. -/
def VcState.bind (s : VcState) (value : Word) : VcState :=
  { statics := { s.statics with nextIdToGive := s.statics.nextIdToGive + 1 }
    vc := { s.vc with constantContainer := s.vc.constantContainer.insert s.statics.nextIdToGive value } }

theorem bind_constant (s : VcState) (value : Word) (v : ValueId) :
    (s.bind value).vc.constantContainer[v]? =
      if s.statics.nextIdToGive = v then some value else s.vc.constantContainer[v]? := by
  simp [VcState.bind, Std.TreeMap.getElem?_insert]

theorem grows_bind {s : VcState} {value : Word}
    (hv : ∀ v : ValueId, s.vc.constantContainer[v]? ≠ some value) : Grows s (s.bind value) where
  zero := rfl
  constrs := rfl
  lists := rfl
  nextId := by simp only [VcState.bind]; lia
  nextConstraintId := Nat.le_refl _
  nextObjectId := Int.le_refl _
  constants := by
    intro v h
    simp only [VcState.bind] at h
    rw [bind_constant, if_neg (by lia)]
  keeps := by
    intro hs
    have hnew : ∀ v c, (s.bind value).vc.constantContainer[v]? = some c →
        (s.statics.nextIdToGive = v ∧ value = c) ∨ s.vc.constantContainer[v]? = some c := by
      intro v c h
      rw [bind_constant] at h
      split at h
      · cases h; exact Or.inl ⟨‹_›, rfl⟩
      · exact Or.inr h
    refine ⟨?_, ?_, ?_, ?_⟩
    · have := hs.counter
      simp only [VcState.bind]; lia
    · have := hs.range _ _ hs.zero
      have hz : (s.bind value).vc.zero = s.vc.zero := rfl
      rw [hz, bind_constant, if_neg (by lia), hs.zero]
    · intro v c h
      have := hs.counter
      simp only [VcState.bind]
      rcases hnew v c h with ⟨rfl, _⟩ | h
      · lia
      · have := hs.range v c h
        lia
    · intro v v' c h h'
      rcases hnew v c h with ⟨rfl, rfl⟩ | h <;> rcases hnew v' _ h' with ⟨rfl, h2⟩ | h'
      · rfl
      · exact absurd h' (hv v')
      · subst h2; exact absurd h (hv v)
      · exact hs.interned v v' c h h'

theorem createVal_apply (type : Ty) (s : VcState) :
    createVal type s = .ok s.statics.nextIdToGive
      { s with statics.nextIdToGive := s.statics.nextIdToGive + 1 } := rfl

/-- A constant that is bound already keeps its id, another one takes the next id. -/
theorem createConstIntVal_cases (value : Word) (s : VcState) :
    (∃ v, s.vc.constantContainer[v]? = some value ∧ createConstIntVal value s = .ok v s) ∨
    ((∀ v : ValueId, s.vc.constantContainer[v]? ≠ some value) ∧
      createConstIntVal value s = .ok s.statics.nextIdToGive (s.bind value)) := by
  unfold createConstIntVal
  rw [bind_of_ok (get_apply s)]
  cases h : s.vc.constantContainer.toList.find? (·.2 == value) with
  | some item =>
    have hmem := List.mem_of_find?_eq_some h
    have hval := List.find?_some h
    refine Or.inl ⟨item.1, ?_, rfl⟩
    rw [← eq_of_beq hval]
    exact Std.TreeMap.mem_toList_iff_getElem?_eq_some.1 hmem
  | none =>
    refine Or.inr ⟨fun v hv => ?_, rfl⟩
    have hmem := Std.TreeMap.mem_toList_iff_getElem?_eq_some.2 hv
    have := List.find?_eq_none.1 h (v, value) hmem
    simp at this

theorem createConstIntVal_spec (value : Word) (s : VcState) :
    ∃ v t, createConstIntVal value s = .ok v t ∧ Grows s t ∧ t.vc.constantContainer[v]? = some value := by
  rcases createConstIntVal_cases value s with ⟨v, hv, h⟩ | ⟨hv, h⟩
  · exact ⟨v, s, h, Grows.refl s, hv⟩
  · exact ⟨_, _, h, grows_bind hv, by rw [bind_constant, if_pos rfl]⟩

theorem createConstIntVal_ok {value : Word} {s t : VcState} {v : ValueId}
    (h : createConstIntVal value s = .ok v t) : Grows s t ∧ t.vc.constantContainer[v]? = some value := by
  obtain ⟨v', t', h', hg, hv⟩ := createConstIntVal_spec value s
  rw [h'] at h
  cases h
  exact ⟨hg, hv⟩

/-- A call that only grows the container, and whose result is new or names a constant. -/
structure Yields (m : VcM ValueId) : Prop where
  steps : Steps Grows m
  fresh : ∀ {s t v}, ConstOk s → m s = .ok v t → Fresh s t v

theorem yields_createVal (type : Ty) : Yields (createVal type) where
  steps := fun s => grows_next s
  fresh := by
    intro s t v hs h
    rw [createVal_apply] at h
    cases h
    have := hs.counter
    refine ⟨?_, Or.inl (Int.le_refl _)⟩
    unfold VcState.Given
    simp only; lia

theorem yields_createConstIntVal (value : Word) : Yields (createConstIntVal value) where
  steps := by
    intro s
    obtain ⟨v, t, h, hg, _⟩ := createConstIntVal_spec value s
    rw [h]; exact hg
  fresh := by
    intro s t v hs h
    obtain ⟨hg, hv⟩ := createConstIntVal_ok h
    exact ⟨(hg.keeps hs).range v _ hv, Or.inr (isConstant_iff.2 ⟨_, hv⟩)⟩

/-- Reading the container first changes nothing. -/
theorem Yields.query_bind {α : Type} {q : ValueContainer → Except Exn α} {f : α → VcM ValueId}
    (hf : ∀ a, Yields (f a)) : Yields (VcM.query q >>= f) where
  steps := steps_bind (steps_query q) fun a => (hf a).steps
  fresh := by
    intro s t v hs h
    obtain ⟨a, u, h1, h2⟩ := bind_ok h
    obtain ⟨_, rfl⟩ := query_ok h1
    exact (hf a).fresh hs h2

theorem Yields.get_bind {f : VcState → VcM ValueId} (hf : ∀ s, Yields (f s)) : Yields (get >>= f) where
  steps := steps_get fun s => (hf s).steps s
  fresh := fun {s} {_ _} hs h => (hf s).fresh hs h

section Typed

variable [DataLayout]

theorem yields_cmp (a b : ValueId) (type : Ty) (r : CmpFlags) : Yields (cmp a b type r) :=
  Yields.query_bind fun
    | none => yields_createVal _
    | some _ => yields_createConstIntVal _

theorem yields_binOp (a b : ValueId) (type : Ty) (options : BinaryOpOptions) : Yields (binOp a b type options) := by
  refine Yields.get_bind fun s => ?_
  dsimp only
  split
  · refine Yields.query_bind fun
      | none => yields_createVal _
      | some _ => yields_createConstIntVal _
  · exact yields_createVal _

section OnConstants

variable {s : VcState} {a b : ValueId} {x y : Word} {type : Ty} {w : ℕ} {o : BinaryOpOptions}
  (hw : type.getBitWidth = w) (ha : s.vc.constantContainer[a]? = some x) (hb : s.vc.constantContainer[b]? = some y)

include hw ha hb

/-- On two constants the operation is its evaluation. -/
theorem binOp_of_some {z : Word} (h : evalBinOp w o x y = .ok (some z)) :
    binOp a b type o s = createConstIntVal z s := by
  unfold binOp
  rw [bind_of_ok (get_apply s)]
  simp only [ha, hb, hw]
  rw [bind_of_ok (query_of_ok h)]

theorem binOp_of_none (h : evalBinOp w o x y = .ok none) : binOp a b type o s = createVal type s := by
  unfold binOp
  rw [bind_of_ok (get_apply s)]
  simp only [ha, hb, hw]
  rw [bind_of_ok (query_of_ok h)]

theorem binOp_of_error {e : Exn} (h : evalBinOp w o x y = .error e) : binOp a b type o s = .error e s := by
  unfold binOp
  rw [bind_of_ok (get_apply s)]
  simp only [ha, hb, hw]
  rw [bind_apply, query_apply, h]

end OnConstants

/-- Adding two constants at the width of a pointer wraps at 64 bits. -/
theorem add_constants {s : VcState} {a b : ValueId} {x y : Word} (ha : s.vc.constantContainer[a]? = some x)
    (hb : s.vc.constantContainer[b]? = some y) :
    add a b Ty.charPointer ArithFlags.default s = createConstIntVal (x + y) s := by
  have hx : ∀ w : Word, ripBits 64 w = w := fun w => rfl
  have heval : evalBinOp 64 ⟨.add, ArithFlags.default⟩ x y = .ok (some (x + y)) := by
    have h1 : checkFlag ArithFlags.default ArithFlags.noUnsignedWrap = false := by decide
    have h2 : checkFlag ArithFlags.default ArithFlags.noSignedWrap = false := by decide
    simp [evalBinOp, h1, h2, hx]
  exact binOp_of_some Ty.getBitWidth_charPointer ha hb heval

/-- Adding an unknown gives a new unknown. -/
theorem add_unknown {s : VcState} {a b : ValueId}
    (h : s.vc.constantContainer[a]? = none ∨ s.vc.constantContainer[b]? = none) :
    add a b Ty.charPointer ArithFlags.default s = createVal Ty.charPointer s := by
  unfold add binOp
  rw [bind_of_ok (get_apply s)]
  rcases h with h | h
  · simp only [h]
  · cases s.vc.constantContainer[a]? <;> simp only [h]

/-- Pointer arithmetic does not throw. -/
theorem add_ok (a b : ValueId) (s : VcState) :
    ∃ v t, add a b Ty.charPointer ArithFlags.default s = .ok v t := by
  cases ha : s.vc.constantContainer[a]? with
  | none => exact ⟨_, _, (add_unknown (Or.inl ha)).trans (createVal_apply _ s)⟩
  | some x =>
    cases hb : s.vc.constantContainer[b]? with
    | none => exact ⟨_, _, (add_unknown (Or.inr hb)).trans (createVal_apply _ s)⟩
    | some y =>
      obtain ⟨v, t, h, _⟩ := createConstIntVal_spec (x + y) s
      exact ⟨v, t, (add_constants ha hb).trans h⟩

omit [DataLayout] in
theorem yields_bitNot (a : ValueId) (type : Ty) : Yields (bitNot a type) := by
  refine Yields.get_bind fun s => ?_
  split
  · exact yields_createVal _
  · exact yields_createConstIntVal _

theorem yields_extendInt (a : ValueId) (source target : Ty) (flags : ArithFlags) :
    Yields (extendInt a source target flags) := by
  refine Yields.get_bind fun s => ?_
  split
  · exact yields_createVal _
  · split
    · exact yields_createConstIntVal _
    · exact yields_createConstIntVal _

omit [DataLayout] in
theorem yields_truncateInt (a : ValueId) (source target : Ty) : Yields (truncateInt a source target) where
  steps := by
    refine steps_get fun s => ?_
    cases s.vc.constantContainer[a]? with
    | none => exact grows_next s
    | some _ => exact Grows.refl s
  fresh := by
    intro s t v hs h
    unfold truncateInt at h
    rw [bind_of_ok (get_apply s)] at h
    cases hc : s.vc.constantContainer[a]? with
    | none =>
      rw [hc] at h
      exact (yields_createVal target).fresh hs h
    | some c =>
      rw [hc] at h
      cases h
      exact ⟨hs.range _ _ hc, Or.inr (isConstant_iff.2 ⟨c, hc⟩)⟩

end Typed

/-! ## A new container -/

/-- The container right after its constructor: only `0` is bound. -/
theorem new_eq (statics : Statics) :
    VcState.new statics =
      { statics := { statics with nextIdToGive := statics.nextIdToGive + 1 }
        vc := ⟨statics.nextIdToGive, (∅ : Std.TreeMap ValueId Word).insert statics.nextIdToGive 0, ∅, ∅⟩ } := rfl

theorem new_constOk {statics : Statics} (h : 0 ≤ statics.nextIdToGive) : ConstOk (VcState.new statics) := by
  rw [new_eq]
  have hget : ∀ v : ValueId, ((∅ : Std.TreeMap ValueId Word).insert statics.nextIdToGive 0)[v]? =
      if statics.nextIdToGive = v then some 0 else none := by
    intro v
    simp [Std.TreeMap.getElem?_insert]
  refine ⟨?_, ?_, ?_, ?_⟩
  · simp only; lia
  · simp only [hget, if_true]
  · intro v c hv
    simp only [hget] at hv
    split at hv
    · simp only; lia
    · cases hv
  · intro v v' c hv hv'
    simp only [hget] at hv hv'
    split at hv
    · split at hv'
      · lia
      · cases hv'
    · cases hv

theorem new_storeOk (statics : Statics) : StoreOk (VcState.new statics) := by
  rw [new_eq]
  refine ⟨?_, ?_, ?_, ?_⟩ <;> intros <;> simp_all [ValueContainer.getConstraintIdVector]

end Angie
