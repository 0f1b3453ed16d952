import Angie.Values.Inserted

/-!
# Which calls return

The queries of a container that calls reach never throw, and neither do the calls that create values
(`isCmp_returns`, `isZero_returns`, `isInternalRepEq_returns`). An assumption throws when the loops of its insertion
meet an id twice that they delete the first time. A value refers to a constraint twice when it is one of the value with
itself; so the insertion returns exactly when no such constraint is in its way (`insertConstraint_returns_iff`). Over
whole runs, no call throws exactly when none trips over a constraint of a value with itself (`calls_return_iff`), in
particular when no assumption relates a value to itself (`not_selfRelated`).
-/

namespace Angie

open Exec Trace ValueContainer

/-! ## Queries -/

section Queries

variable [DataLayout] {s : VcState}

theorem isCmp_returns (hs : StoreOk s) (a b : ValueId) (t : Ty) {r : CmpFlags} (hr : r.isRelation = true) :
    ∃ ans, s.vc.isCmp a b t r = .ok ans := by
  unfold isCmp
  cases s.vc.constantContainer[a]? with
  | some c =>
    cases s.vc.constantContainer[b]? with
    | some d =>
      cases r with
      | default | unsigned | float | unordered => cases hr
      | _ => exact ⟨_, rfl⟩
    | none => exact ⟨_, isCmpConstant_eq (hs.stored b)⟩
  | none =>
    cases s.vc.constantContainer[b]? with
    | some d => exact ⟨_, isCmpConstant_eq (hs.stored a)⟩
    | none => exact ⟨_, isCmpUnknowns_eq (hs.stored a)⟩

omit [DataLayout] in
theorem isZero_returns (hs : StoreOk s) (a : ValueId) : ∃ ans, s.vc.isZero a = .ok ans := by
  unfold isZero
  split
  · exact ⟨_, rfl⟩
  · cases s.vc.constantContainer[a]? with
    | some c => exact ⟨_, rfl⟩
    | none => exact ⟨_, isZeroLoop_eq (hs.stored a)⟩

omit [DataLayout] in
/-- The loop of `IsInternalRepEq` only looks at the constraints. -/
theorem isInternalRepEqLoop_returns (x y : ValueId) {ids : List ConstraintId} (h : s.vc.Constrains x ids) :
    ∃ ans, s.vc.isInternalRepEqLoop y ids = .ok ans := by
  induction ids with
  | nil => exact ⟨none, rfl⟩
  | cons id ids ih =>
    obtain ⟨c, hc, -⟩ := h id List.mem_cons_self
    have hrest := ih fun k hk => h k (List.mem_cons_of_mem _ hk)
    simp only [isInternalRepEqLoop, constrFind_of_some hc, bind, Except.bind]
    split
    · cases c.relation with
      | eq | neq | gt | lt => exact ⟨_, rfl⟩
      | _ => exact hrest
    · exact hrest

omit [DataLayout] in
theorem isInternalRepEq_returns (hs : StoreOk s) (a b : ValueId) : ∃ ans, s.vc.isInternalRepEq a b = .ok ans := by
  unfold isInternalRepEq
  split
  · exact ⟨_, rfl⟩
  · split
    · exact ⟨_, rfl⟩
    · split
      · exact isInternalRepEqLoop_returns b a (hs.stored b)
      · exact isInternalRepEqLoop_returns a b (hs.stored a)

end Queries

/-! ## Insertions -/

/-- A constraint of the value with itself is stored. -/
def VcState.SelfRelated (s : VcState) (x : ValueId) : Prop :=
  ∃ (k : ConstraintId) (rel : CmpFlags), s.vc.constrContainer[k]? = some ⟨x, x, rel⟩

/-- The insertion of `c` is to delete a constraint of a value with itself: of the value that `c` equates with a
constant, or of the one that `c` relates to itself. -/
def VcState.Trips (s : VcState) (c : BinaryConstraint) : Prop :=
  (∃ x, s.Equates c x ∧ s.SelfRelated x) ∨ (c.first = c.second ∧ s.SelfRelated c.first)

section Insertions

variable {s : VcState} {c : BinaryConstraint}

/-- A value without a constraint with itself refers to each of its constraints once. -/
theorem list_nodup (hs : StoreOk s) (hcount : s.Counted) {x : ValueId} (hx : ¬ s.SelfRelated x) :
    (s.vc.getConstraintIdVector x).Nodup := by
  refine List.nodup_iff_count_le_one.2 fun k => ?_
  by_cases hk : k ∈ s.vc.getConstraintIdVector x
  · obtain ⟨⟨d1, d2, rel⟩, hd, -⟩ := hs.stored x k hk
    have htwo : ¬ (x = d1 ∧ x = d2) := by
      rintro ⟨rfl, rfl⟩
      exact hx ⟨k, rel, hd⟩
    rw [hcount k _ hd x]
    show (if x = d1 then 1 else 0) + (if x = d2 then 1 else 0) ≤ 1
    split <;> split <;> simp_all
  · rw [List.count_eq_zero_of_not_mem hk]
    omega

/-- A constraint of a value with itself is listed twice. -/
theorem count_self (hcount : s.Counted) {x : ValueId} {k : ConstraintId} {rel : CmpFlags}
    (hk : s.vc.constrContainer[k]? = some ⟨x, x, rel⟩) : (s.vc.getConstraintIdVector x).count k = 2 := by
  rw [hcount k _ hk x]
  simp

/-- An insertion returns exactly when it deletes no constraint of a value with itself. -/
theorem insertConstraint_returns_iff (hs : StoreOk s) (hcount : s.Counted) :
    (∃ s', insertConstraint c s = .ok () s') ↔ ¬ s.Trips c := by
  constructor
  · rintro ⟨s', h⟩
    have hfirst : ∀ x, s.Equates c x → ¬ s.SelfRelated x := by
      rintro x hx ⟨k, rel, hk⟩
      have hone := List.nodup_iff_count_le_one.1 ((insertConstraint_stored hs h).1 x hx) k
      have htwo := count_self hcount hk
      omega
    rintro (⟨x, hx, hself⟩ | ⟨heq, hself⟩)
    · exact hfirst x hx hself
    · have hne : ∀ x, ¬ s.Equates c x := by
        rintro x hx
        have hx' : x = c.first := by
          rcases hx.2 with ⟨-, rfl⟩ | ⟨-, -, rfl⟩
          · exact heq.symm
          · rfl
        exact hfirst x hx (hx' ▸ hself)
      obtain ⟨k, rel, hk⟩ := hself
      have hone := insertConstraint_once hs h hne hk (Or.inl ⟨rfl, heq.symm⟩)
      have htwo := count_self hcount hk
      omega
  · intro hn
    refine insertConstraint_returns hs (fun x hx => list_nodup hs hcount fun hself => hn (Or.inl ⟨x, hx, hself⟩)) ?_
    intro k d hd hp
    by_cases heq : c.first = c.second
    · exact List.nodup_iff_count_le_one.1 (list_nodup hs hcount fun hself => hn (Or.inr ⟨heq, hself⟩)) k
    · -- a mutual constraint of different values is listed once by each
      rw [hcount k d hd]
      rcases hp with ⟨h1, h2⟩ | ⟨h1, h2⟩ <;> simp [← h1, ← h2, heq]

end Insertions

/-! ## Calls -/

/-- The calls of a container, its queries included. -/
inductive VcCall where
  | modify (op : VcOp)
  | isCmp (first second : ValueId) (type : Ty) (flags : CmpFlags)
  | isZero (first : ValueId)
  | isInternalRepEq (first second : ValueId)

/-- What a call answers: an id, if it gives one, or what is known. -/
inductive VcAnswer where
  | id (v : Option ValueId)
  | known (ans : Tribool)

/-- The calls that create values, assume and query, with the ten relations. (What is done elsewhere only draws from the
static counters.) -/
def VcCall.Listed : VcCall → Prop
  | .modify (.assume _ _ _ r) | .modify (.cmp _ _ _ r) | .isCmp _ _ _ r => r.isRelation = true
  | .modify (.createVal _) | .modify (.createConstIntVal _) | .modify (.assumeTrue _) | .modify (.assumeFalse _) => True
  | .modify (.elsewhere _ _ _) | .isZero _ | .isInternalRepEq _ _ => True
  | _ => False

section Calls

variable [DataLayout]

def VcCall.exec : VcCall → VcState → Except Exn VcAnswer × VcState
  | .modify op, s => ((op.exec s).1.map VcAnswer.id, (op.exec s).2)
  | .isCmp a b t r, s => ((s.vc.isCmp a b t r).map VcAnswer.known, s)
  | .isZero a, s => ((s.vc.isZero a).map VcAnswer.known, s)
  | .isInternalRepEq a b, s => ((s.vc.isInternalRepEq a b).map VcAnswer.known, s)

/-- The call is an assumption that is not known to hold, and whose insertion trips. -/
def VcCall.Trips (s : VcState) : VcCall → Prop
  | .modify (.assume a b t r) => s.vc.isCmp a b t r ≠ .ok (some true) ∧ s.Trips ⟨a, b, r⟩
  | .modify (.assumeTrue a) => s.vc.isTrue a (.int 64) ≠ .ok (some true) ∧ s.Trips ⟨s.vc.zero, a, .neq⟩
  | .modify (.assumeFalse a) => s.vc.isFalse a (.int 64) ≠ .ok (some true) ∧ s.Trips ⟨s.vc.zero, a, .eq⟩
  | _ => False

/-- Runs of calls and queries on a new container. -/
abbrev CallRun (Adm : VcState → VcCall → Prop) := Run VcCall.exec Adm IsNew

/-- The call gives an answer, and does not throw. -/
def Returned (e : Event VcState VcCall (Except Exn VcAnswer)) : Prop := ∃ ans, e.out = .ok ans

variable {s : VcState}

omit [DataLayout] in
theorem answer_returns_iff {α β : Type} (f : α → β) (m : Except Exn α) :
    (∃ b, m.map f = .ok b) ↔ ∃ a, m = .ok a := by
  cases m with
  | ok a => exact iff_of_true ⟨_, rfl⟩ ⟨a, rfl⟩
  | error e => exact iff_of_false (fun ⟨b, h⟩ => by cases h) (fun ⟨a, h⟩ => by cases h)

theorem exec_returns_iff (op : VcOp) : (∃ ans, (op.exec s).1 = .ok ans) ↔ ∃ v t, op.run s = .ok v t := by
  unfold VcOp.exec
  cases op.run s with
  | ok v t => exact iff_of_true ⟨v, rfl⟩ ⟨v, t, rfl⟩
  | error e t => exact iff_of_false (fun ⟨b, h⟩ => by cases h) (fun ⟨v, u, h⟩ => by cases h)

omit [DataLayout] in
theorem insertUnless_returns_iff (hs : StoreOk s) (hcount : s.Counted) {q : ValueContainer → Except Exn Tribool}
    {c : ValueContainer → BinaryConstraint} (hq : ∃ ans, q s.vc = .ok ans) :
    (∃ a t, insertUnless q c s = .ok a t) ↔ ¬ (q s.vc ≠ .ok (some true) ∧ s.Trips (c s.vc)) := by
  obtain ⟨ans, hans⟩ := hq
  unfold insertUnless
  rw [hans]
  by_cases hknown : ans = some true
  · subst hknown
    simp
  · simp [hknown, insertConstraint_returns_iff hs hcount]

/-- One call returns exactly when it does not trip. -/
theorem call_returns_iff (hs : StoreOk s) (hcount : s.Counted) {call : VcCall} (hl : call.Listed) :
    (∃ ans, (call.exec s).1 = .ok ans) ↔ ¬ call.Trips s := by
  cases call with
  | isCmp a b t r =>
    simp only [VcCall.exec, answer_returns_iff, VcCall.Trips, not_false_eq_true, iff_true]
    exact isCmp_returns hs a b t hl
  | isZero a =>
    simp only [VcCall.exec, answer_returns_iff, VcCall.Trips, not_false_eq_true, iff_true]
    exact isZero_returns hs a
  | isInternalRepEq a b =>
    simp only [VcCall.exec, answer_returns_iff, VcCall.Trips, not_false_eq_true, iff_true]
    exact isInternalRepEq_returns hs a b
  | modify op =>
    simp only [VcCall.exec, answer_returns_iff, exec_returns_iff]
    cases op with
    | assume a b t r =>
      simp only [VcOp.run, map_returns_iff, assume_eq]
      exact insertUnless_returns_iff hs hcount (isCmp_returns hs a b t hl)
    | assumeTrue a =>
      simp only [VcOp.run, map_returns_iff, assumeTrue_eq]
      exact insertUnless_returns_iff hs hcount (isCmp_returns hs a s.vc.zero (.int 64) rfl)
    | assumeFalse a =>
      simp only [VcOp.run, map_returns_iff, assumeFalse_eq]
      exact insertUnless_returns_iff hs hcount (isCmp_returns hs a s.vc.zero (.int 64) rfl)
    | createVal t =>
      simp only [VcOp.run, map_returns_iff, VcCall.Trips, not_false_eq_true, iff_true]
      exact ⟨_, _, createVal_apply t s⟩
    | createConstIntVal w =>
      simp only [VcOp.run, map_returns_iff, VcCall.Trips, not_false_eq_true, iff_true]
      obtain ⟨v, t, h, -⟩ := createConstIntVal_spec w s
      exact ⟨v, t, h⟩
    | cmp a b t r =>
      simp only [VcOp.run, map_returns_iff, VcCall.Trips, not_false_eq_true, iff_true]
      obtain ⟨ans, hans⟩ := isCmp_returns hs a b t hl
      unfold cmp
      rw [bind_of_ok (query_of_ok hans)]
      rcases ans with _ | b
      · exact ⟨_, _, createVal_apply _ s⟩
      · obtain ⟨v, t, h, -⟩ := createConstIntVal_spec (if b then 1 else 0) s
        exact ⟨v, t, h⟩
    | elsewhere n m k => exact iff_of_true ⟨none, _, rfl⟩ id
    | binOp | bitNot | extendInt | truncateInt => exact hl.elim

/-- Where no value has a constraint with itself, nothing trips. -/
theorem not_trips (h : ∀ x, ¬ s.SelfRelated x) {call : VcCall} : ¬ call.Trips s := by
  have hinsert : ∀ c, ¬ s.Trips c := by
    rintro c (⟨x, -, hx⟩ | ⟨-, hx⟩)
    · exact h x hx
    · exact h c.first hx
  cases call with
  | modify op => cases op <;> first | exact fun htrips => hinsert _ htrips.2 | exact id
  | isCmp | isZero | isInternalRepEq => exact id

/-! ## Runs -/

/-- Queries leave the container as it is, so a run of calls is a run of the modifying ones among them. -/
theorem vcRun_of_callRun {Adm : VcState → VcCall → Prop} {es : List (Event VcState VcCall (Except Exn VcAnswer))}
    (h : CallRun Adm es s) : ∃ es', VcRun (fun _ _ => True) es' s := by
  induction h with
  | start h => exact ⟨[], Run.start h⟩
  | step call hr ha ih =>
    obtain ⟨es', hrun⟩ := ih
    cases call with
    | modify op => exact ⟨_, Run.step op hrun trivial⟩
    | isCmp | isZero | isInternalRepEq => exact ⟨es', hrun⟩

/-- In every run of the listed calls, a call returns exactly when it does not trip over a constraint of a value with
itself. -/
theorem calls_return_iff {es : List (Event VcState VcCall (Except Exn VcAnswer))}
    (hrun : CallRun (fun _ call => call.Listed) es s) :
    (∀ e ∈ es, Returned e) ↔ ∀ e ∈ es, ¬ e.op.Trips e.pre := by
  refine forall₂_congr fun e he => ?_
  obtain ⟨⟨es', hr⟩, hl, heq⟩ := hrun.event e he
  obtain ⟨es'', hvc⟩ := vcRun_of_callRun hr
  rw [Returned, heq]
  exact call_returns_iff (run_ok hvc).store (run_counted hvc) hl

/-- No value has a constraint with itself after assumptions about different values only. -/
theorem not_selfRelated {es : VcHistory}
    (hrun : VcRun (fun s op => ∀ c, op.assumed s.vc.zero = some c → c.first ≠ c.second) es s) (x : ValueId) :
    ¬ s.SelfRelated x := by
  refine hrun.invariant (I := fun _ s => ¬ s.SelfRelated x) ?_ ?_
  · rintro s ⟨statics, _, rfl⟩ ⟨k, rel, hk⟩
    simp [new_eq] at hk
  · rintro es s op - hne ih ⟨k, rel, hk⟩
    cases ha : op.assumed s.vc.zero with
    | none =>
      rw [(exec_grows ha).constrs] at hk
      exact ih ⟨k, rel, hk⟩
    | some c =>
      rcases (exec_inserts ha).constrs k _ hk with hk | rfl
      · exact ih ⟨k, rel, hk⟩
      · exact hne _ ha rfl

end Calls

/-! ## A value assumed to differ from itself -/

section Examples

attribute [local instance] Ty.x86

/-- A contradictory assumption about one unknown, which is then equated with a constant. -/
def assumeUnequal : List (Event VcState VcCall (Except Exn VcAnswer)) × VcState :=
  play VcCall.exec [] (VcState.new {}) [.modify (.createVal (.int 16)), .modify (.assume 1 1 (.int 16) .neq),
    .modify (.createConstIntVal 5), .modify (.assume 1 2 (.int 16) .eq)]

theorem assumeUnequal_run : CallRun (fun _ call => call.Listed) assumeUnequal.1 assumeUnequal.2 :=
  Run.play (Run.start ⟨{}, Int.le_refl 0, rfl⟩) ⟨trivial, rfl, trivial, rfl, trivial⟩

/-- The constraint is deleted, and then looked for again. -/
theorem assumeUnequal_throws : assumeUnequal.1.map (fun e => e.out.toOption.isSome) = [false, true, true, true] := by
  decide +kernel

theorem not_calls_return : ¬ ∀ (es : List (Event VcState VcCall (Except Exn VcAnswer))) (s : VcState),
    CallRun (fun _ call => call.Listed) es s → ∀ e ∈ es, Returned e := by
  intro h
  have hmem : false ∈ assumeUnequal.1.map (fun e => e.out.toOption.isSome) := by
    rw [assumeUnequal_throws]
    exact List.mem_cons_self
  obtain ⟨e, he, hout⟩ := List.mem_map.1 hmem
  obtain ⟨ans, hans⟩ := h _ _ assumeUnequal_run e he
  rw [hans] at hout
  cases hout

/-- An unknown is assumed to be less than a constant, and then to differ from it and from another unknown. -/
def assumeLess : List (Event VcState VcCall (Except Exn VcAnswer)) × VcState :=
  play VcCall.exec [] (VcState.new {}) [.modify (.createVal (.int 16)), .modify (.createConstIntVal 5),
    .modify (.assume 1 2 (.int 16) .lt), .isCmp 1 2 (.int 16) .eq, .modify (.createVal (.int 16)),
    .modify (.assume 1 3 (.int 16) .neq), .modify (.assume 3 2 (.int 16) .eq)]

theorem assumeLess_run : CallRun (fun _ call => call.Listed) assumeLess.1 assumeLess.2 :=
  Run.play (Run.start ⟨{}, Int.le_refl 0, rfl⟩) ⟨trivial, trivial, rfl, rfl, trivial, rfl, rfl, trivial⟩

/-- No constraint of a value with itself is met. -/
theorem assumeLess_distinct : ∀ e ∈ assumeLess.1, ∀ c ∈ e.pre.vc.constrContainer.toList, c.2.first ≠ c.2.second := by
  decide +kernel

theorem assumeLess_returns : (assumeLess.1.all fun e => e.out.toOption.isSome) = true := by
  have hreturned := (calls_return_iff assumeLess_run).2 fun e he => not_trips fun x ⟨k, rel, hk⟩ =>
    assumeLess_distinct e he _ (Std.TreeMap.mem_toList_iff_getElem?_eq_some.2 hk) rfl
  refine List.all_eq_true.2 fun e he => ?_
  obtain ⟨ans, hans⟩ := hreturned e he
  rw [hans]
  rfl

end Examples

end Angie
