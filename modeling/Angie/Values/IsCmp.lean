import Angie.Values.Calls
import Angie.Values.Scans

/-!
# Soundness of `IsCmp`

A valuation satisfies a history when it gives constants their values and fulfils every relation that was assumed
(`Satisfies`). Every stored constraint was assumed (`run_assumed`), so it holds in such a valuation (`stored_holds`).
The constructor of the constraints does not normalise the order of the operands, but the query reads a constraint
between two unknowns as if its operands came in the order asked for. Hence the answers are true exactly when the
query is not settled by a constraint in the other order between values that may differ (`isCmp_sound_iff`).
-/

namespace Angie

open Exec Trace

/-- The history of calls on a container. -/
abbrev VcHistory := List (Event VcState VcOp (Except Exn (Option ValueId)))

/-- An assignment of values of `w` bits to the ids. -/
abbrev Valuation (w : ℕ) := ValueId → BitVec w

variable {w : ℕ}

/-! ## Valuations -/

/-- The valuation fulfils what the call assumes. -/
def VcOp.Fulfilled (v : Valuation w) : VcOp → Prop
  | .assume a b _ r => r.holds (v a) (v b) = true
  | .assumeTrue a => v a ≠ 0
  | .assumeFalse a => v a = 0
  | _ => True

structure Satisfies (es : VcHistory) (s : VcState) (v : Valuation w) : Prop where
  constants : ∀ (x : ValueId) c, s.vc.constantContainer[x]? = some c → v x = c.setWidth w
  assumptions : ∀ e ∈ es, e.op.Fulfilled v

/-- The relation of the constraint holds between its operands. -/
def BinaryConstraint.Holds (v : Valuation w) (c : BinaryConstraint) : Prop :=
  c.relation.holds (v c.first) (v c.second) = true

theorem holds_of_fulfilled {op : VcOp} {zero : ValueId} {c : BinaryConstraint} {v : Valuation w}
    (h : op.assumed zero = some c) (hz : v zero = 0) (hv : op.Fulfilled v) : c.Holds v := by
  cases op with
  | assume a b t r => cases h; exact hv
  | assumeTrue a =>
    cases h
    simp only [BinaryConstraint.Holds, CmpFlags.holds, hz, bne_iff_ne]
    exact fun h => hv h.symm
  | assumeFalse a =>
    cases h
    simp only [BinaryConstraint.Holds, CmpFlags.holds, hz, beq_iff_eq]
    exact hv.symm
  | _ => cases h

section Runs

variable [DataLayout] {Adm : VcState → VcOp → Prop} {es : VcHistory} {s : VcState}

/-- Every stored constraint was assumed. -/
theorem run_assumed (h : VcRun Adm es s) : ∀ (k : ConstraintId) c, s.vc.constrContainer[k]? = some c →
    ∃ e ∈ es, e.op.assumed s.vc.zero = some c := by
  refine h.invariant (I := fun es s => ∀ (k : ConstraintId) c, s.vc.constrContainer[k]? = some c →
    ∃ e ∈ es, VcOp.assumed s.vc.zero e.op = some c) ?_ ?_
  · rintro s ⟨statics, _, rfl⟩ k c hk
    simp [new_eq] at hk
  · intro es s op _ _ ih k c hk
    cases ha : op.assumed s.vc.zero with
    | none =>
      have hg := exec_grows ha
      rw [hg.constrs] at hk
      obtain ⟨e, he, hc⟩ := ih k c hk
      exact ⟨e, List.mem_cons_of_mem _ he, by rw [hg.zero]; exact hc⟩
    | some d =>
      have hi := exec_inserts ha
      rw [hi.zero]
      rcases hi.constrs k c hk with hk | rfl
      · obtain ⟨e, he, hc⟩ := ih k c hk
        exact ⟨e, List.mem_cons_of_mem _ he, hc⟩
      · exact ⟨_, List.mem_cons_self, ha⟩

theorem stored_holds (h : VcRun Adm es s) {v : Valuation w} (hv : Satisfies es s v) {k : ConstraintId}
    {c : BinaryConstraint} (hk : s.vc.constrContainer[k]? = some c) : c.Holds v := by
  obtain ⟨e, he, hc⟩ := run_assumed h k c hk
  have hz : v s.vc.zero = 0 := by
    rw [hv.constants _ _ (run_ok h).const.zero]
    simp
  exact holds_of_fulfilled hc hz (hv.assumptions e he)

end Runs

open ValueContainer

/-! ## Soundness -/

section Soundness

variable [DataLayout]

/-- Every definite answer is the truth in all valuations that satisfy the history. -/
def IsCmpSound (w : ℕ) (es : VcHistory) (s : VcState) (a b : ValueId) (r : CmpFlags) : Prop :=
  ∀ v : Valuation w, Satisfies es s v → ∀ ans, s.vc.isCmp a b (.int w) r = .ok (some ans) →
    (ans = true ↔ r.holds (v a) (v b) = true)

/-- Two unknowns that may differ are constrained in the order opposite to that of the query, by a relation that
settles it. -/
def SettledReversed (w : ℕ) (es : VcHistory) (s : VcState) (a b : ValueId) (r : CmpFlags) : Prop :=
  s.vc.constantContainer[a]? = none ∧ s.vc.constantContainer[b]? = none ∧
  (∃ (k : ConstraintId) (rel : CmpFlags), s.vc.constrContainer[k]? = some ⟨b, a, rel⟩ ∧ rel.settles r = true) ∧
  ∃ v : Valuation w, Satisfies es s v ∧ v a ≠ v b

/-- The calls of a container that is used at one integer type only. -/
def UsedAt (w : ℕ) (_ : VcState) : VcOp → Prop
  | .createVal t | .assume _ _ t _ => t = .int w
  | .createConstIntVal _ | .assumeTrue _ | .assumeFalse _ | .elsewhere _ _ _ => True
  | _ => False

variable {es : VcHistory} {s : VcState} {a b : ValueId} {r : CmpFlags}

theorem isCmp_sound_constants (h1 : 1 ≤ w) (h64 : w ≤ 64) (hr : r.isRelation = true) {c d : Word}
    (ha : s.vc.constantContainer[a]? = some c) (hb : s.vc.constantContainer[b]? = some d) :
    IsCmpSound w es s a b r := by
  intro v hv ans hans
  simp only [isCmp, ha, hb, Ty.getBitWidth_int, cmpConstants_eq h1 h64 c d hr] at hans
  cases hans
  rw [hv.constants a c ha, hv.constants b d hb]

/-- The truth about a constant and an unknown, in either order of the two. -/
theorem isCmpConstant_true (h64 : w ≤ 64) (hrun : VcRun (UsedAt w) es s) {v : Valuation w}
    (hv : Satisfies es s v) {x : ValueId} {c : Word} {ans : Bool}
    (h : s.vc.isCmpConstant x w (ripBits w c) r (s.vc.getConstraintIdVector x) = .ok (some ans)) :
    ans = r.holds (c.setWidth w) (v x) ∧ ans = r.holds (v x) (c.setWidth w) := by
  rw [isCmpConstant_eq ((run_ok hrun).store.stored x), Except.ok.injEq] at h
  obtain ⟨k, -, hk⟩ := List.exists_of_findSome?_eq_some h
  obtain ⟨rel, d, z, hbetween, hd, hdec⟩ := verdict_some hk
  refine decideConstant_sound h64 hdec ?_
  rw [← hv.constants z d hd]
  rcases hbetween with hcon | hcon
  · exact Or.inl (stored_holds hrun hv hcon)
  · exact Or.inr (stored_holds hrun hv hcon)

theorem isCmp_sound_unknowns (hrun : VcRun (UsedAt w) es s) (ha : s.vc.constantContainer[a]? = none)
    (hb : s.vc.constantContainer[b]? = none) (hn : ¬ SettledReversed w es s a b r) : IsCmpSound w es s a b r := by
  intro v hv ans hans
  simp only [isCmp, ha, hb] at hans
  obtain ⟨id, rel, hid | hid, hdec⟩ := (isCmpUnknowns_iff (run_ok hrun).store).1 hans
  · rw [decideUnknowns_sound hdec (stored_holds hrun hv hid)]
  · have hcon := stored_holds hrun hv hid
    cases hset : rel.settles r with
    | false => rw [decideUnknowns_symm hdec hcon hset]
    | true =>
      -- the answer is the opposite of the truth unless the two values are equal
      have heq : v a = v b := by
        by_contra hne
        exact hn ⟨ha, hb, ⟨id, rel, hid, hset⟩, v, hv, hne⟩
      obtain ⟨ans', hdec', hiff⟩ := decideUnknowns_reversed (w := w) hset
      rw [hdec] at hdec'
      cases hdec'
      rw [(hiff (v a) (v b) hcon).2 heq]

theorem isCmp_sound (h1 : 1 ≤ w) (h64 : w ≤ 64) (hr : r.isRelation = true) (hrun : VcRun (UsedAt w) es s)
    (hn : ¬ SettledReversed w es s a b r) : IsCmpSound w es s a b r := by
  cases ha : s.vc.constantContainer[a]? with
  | some c =>
    cases hb : s.vc.constantContainer[b]? with
    | some d => exact isCmp_sound_constants h1 h64 hr ha hb
    | none =>
      intro v hv ans hans
      simp only [isCmp, ha, hb, Ty.getBitWidth_int] at hans
      rw [hv.constants a c ha, (isCmpConstant_true h64 hrun hv hans).1]
  | none =>
    cases hb : s.vc.constantContainer[b]? with
    | some d =>
      intro v hv ans hans
      simp only [isCmp, ha, hb, Ty.getBitWidth_int] at hans
      rw [hv.constants b d hb, (isCmpConstant_true h64 hrun hv hans).2]
    | none => exact isCmp_sound_unknowns hrun ha hb hn

/-- A query that a constraint in the other order settles is answered, and wrongly where the values differ. -/
theorem not_isCmpSound_of_settledReversed (hrun : VcRun (UsedAt w) es s) (h : SettledReversed w es s a b r) :
    ¬ IsCmpSound w es s a b r := by
  obtain ⟨ha, hb, ⟨k, rel, hk, hset⟩, v, hv, hne⟩ := h
  intro hsound
  have hs := (run_ok hrun).store
  obtain ⟨ans, hdec, hiff⟩ := decideUnknowns_reversed (w := w) hset
  have hans : s.vc.isCmp a b (.int w) r = .ok (some ans) := by
    simp only [isCmp, ha, hb]
    exact (isCmpUnknowns_iff hs).2 ⟨k, rel, Or.inr hk, hdec⟩
  have htrue : ans = r.holds (v a) (v b) := by
    rw [Bool.eq_iff_iff]
    exact hsound v hv ans hans
  exact hne ((hiff _ _ (stored_holds hrun hv hk)).1 htrue)

/-- The answers of `IsCmp` are true exactly when no constraint in the other order settles the query. -/
theorem isCmp_sound_iff (h1 : 1 ≤ w) (h64 : w ≤ 64) (hr : r.isRelation = true) (hrun : VcRun (UsedAt w) es s) :
    IsCmpSound w es s a b r ↔ ¬ SettledReversed w es s a b r :=
  ⟨fun hsound h => not_isCmpSound_of_settledReversed hrun h hsound, isCmp_sound h1 h64 hr hrun⟩

end Soundness

/-! ## A constraint in the other order -/

section Reversed

attribute [local instance] Ty.x86

/-- Two unknowns, the first assumed to be greater than the second. -/
def assumeGreater : VcHistory × VcState :=
  play VcOp.exec [] (VcState.new {}) [.createVal (.int 32), .createVal (.int 32), .assume 1 2 (.int 32) .gt]

theorem assumeGreater_run : VcRun (UsedAt 32) assumeGreater.1 assumeGreater.2 :=
  Run.play (Run.start ⟨{}, Int.le_refl 0, rfl⟩) ⟨rfl, rfl, rfl, trivial⟩

/-- The second is then reported to be greater than the first. -/
theorem isCmp_assumeGreater : assumeGreater.2.vc.isCmp 2 1 (.int 32) .gt = .ok (some true) := by decide +kernel

theorem isCmp_assumeGreater_unsound : ¬ IsCmpSound 32 assumeGreater.1 assumeGreater.2 2 1 .gt := by
  intro h
  have hconst : assumeGreater.2.vc.constantContainer = (∅ : Std.TreeMap ValueId Word).insert 0 0 := rfl
  have hops : assumeGreater.1.map (·.op) =
      [.assume 1 2 (.int 32) .gt, .createVal (.int 32), .createVal (.int 32)] := rfl
  have hv : Satisfies assumeGreater.1 assumeGreater.2 (fun x : ValueId => if x = 1 then 1#32 else 0#32) := by
    refine ⟨fun x c hx => ?_, fun e he => ?_⟩
    · rw [hconst, Std.TreeMap.getElem?_insert] at hx
      split at hx
      · rename_i h0
        rw [Std.compare_eq_iff_eq] at h0
        cases hx
        subst h0
        rfl
      · simp at hx
    · have hop := List.mem_map_of_mem (f := (·.op)) he
      rw [hops] at hop
      rcases List.mem_cons.1 hop with h1 | h1
      · rw [h1]; rfl
      · have : e.op = .createVal (.int 32) := by simpa using h1
        rw [this]; trivial
  have hgt := (h _ hv true isCmp_assumeGreater).1 rfl
  exact absurd hgt (by decide)

/-- Asked in the order of the assumption, the answer is true. -/
theorem isCmp_assumeGreater_sound : IsCmpSound 32 assumeGreater.1 assumeGreater.2 1 2 .gt ↔
    ¬ SettledReversed 32 assumeGreater.1 assumeGreater.2 1 2 .gt :=
  isCmp_sound_iff (by decide) (by decide) rfl assumeGreater_run

end Reversed

end Angie
