import Angie.Values.Calls
import Angie.Values.Insertions

/-!
# Conditional branches

`BasicOperationBranch` asks whether its condition is known to be the opposite of the direction, and assumes the
direction otherwise; `OperationBranch` tries both directions, each on a copy of the container. On a path of the
interpreter no other call assumes anything, so that the constraints are the decisions on unknowns, each one a
constraint with `zero` (`PathOk`, kept by `call_pathOk` and `branch_pathOk`). Hence a direction is dropped exactly when
the constant or an earlier decision forbids it (`branch_coverage`).
-/

namespace Angie

open Exec Trace

/-! ## The operation -/

section Operation

variable [DataLayout]

/-- `BasicOperationBranch::ExecuteOnNewState`, after the condition was read. -/
def branchOn (lhs : ValueId) (br : Bool) : VcM Unit := do
  if br then
    if (← VcM.query (·.isFalse lhs (.int 1))) = some true then throw (.branch "Branch: can not go true")
    assumeTrue lhs
  else
    if (← VcM.query (·.isTrue lhs (.int 1))) = some true then throw (.branch "Branch: can not go false")
    assumeFalse lhs

/-- `SafelyExecuteAndEnque` for one direction: the successor that is enqueued, `none` when it is dropped because of an
analysis error, together with the counters. Other exceptions leave the interpreter. -/
def safelyExecuteAndEnque (s : VcState) (lhs : ValueId) (br : Bool) : Except Exn (Option VcState) × Statics :=
  match branchOn lhs br s with
  | .ok () t => (.ok (some t), t.statics)
  | .error e t => (if e.isAnalysisError then .ok none else .error e, t.statics)

/-- `OperationBranch::Execute`: first the false successor, then the true one, each on a copy of the container. -/
def executeBranch (s : VcState) (lhs : ValueId) : Except Exn (Option VcState × Option VcState) :=
  let onFalse := safelyExecuteAndEnque s lhs false
  let onTrue := safelyExecuteAndEnque { s with statics := onFalse.2 } lhs true
  match onFalse.1, onTrue.1 with
  | .ok f, .ok t => .ok (f, t)
  | .error e, _ => .error e
  | _, .error e => .error e

/-! ## Paths -/

inductive PathOp where
  | call (op : VcOp)
  | branch (lhs : ValueId) (br : Bool)

def PathOp.exec : PathOp → VcState → Except Exn (Option ValueId) × VcState
  | .call op, s => op.exec s
  | .branch lhs br, s =>
    match branchOn lhs br s with
    | .ok () t => (.ok none, t)
    | .error e t => (.error e, t)

/-- Besides branches the interpreter makes no assumptions. A path goes on in a direction that was enqueued. -/
def PathOp.Adm (s : VcState) : PathOp → Prop
  | .call op => op.assumed s.vc.zero = none
  | .branch lhs br => s.Given lhs ∧ ∃ t, branchOn lhs br s = .ok () t

abbrev Path := List (Event VcState PathOp (Except Exn (Option ValueId)))

/-- The paths of the analysis, from the construction of the container. -/
abbrev PathRun := Run PathOp.exec PathOp.Adm IsNew

omit [DataLayout]

/-- The direction was taken on the value. -/
def Taken (es : Path) (x : ValueId) (br : Bool) : Prop := ∃ e ∈ es, e.op = .branch x br

/-- The value is a constant with the opposite lowest bit, or an unknown on which the opposite was taken. -/
def Blocked (es : Path) (s : VcState) (x : ValueId) (br : Bool) : Prop :=
  (∃ c, s.vc.constantContainer[x]? = some c ∧ c.getLsbD 0 = !br) ∨
  (s.vc.constantContainer[x]? = none ∧ Taken es x !br)

/-- The valuation of the unknowns agrees with the decisions. -/
def Agrees (es : Path) (s : VcState) (v : ValueId → Bool) : Prop :=
  ∀ x br, Taken es x br → s.vc.constantContainer[x]? = none → v x = br

/-- The direction that a condition goes under a valuation of the unknowns. -/
def direction (s : VcState) (v : ValueId → Bool) (x : ValueId) : Bool :=
  match s.vc.constantContainer[x]? with
  | some c => c.getLsbD 0
  | none => v x

end Operation

/-! ## The invariant of paths -/

/-- The relation with `zero` that a direction assumes. -/
def relationOf (br : Bool) : CmpFlags := if br then .neq else .eq

structure PathOk (es : Path) (s : VcState) : Prop where
  ok : VcOk s
  nodup : s.ListsNodup
  /-- Every constraint relates `zero` to another value. -/
  star : ∀ (k : ConstraintId) c, s.vc.constrContainer[k]? = some c →
    c.first = s.vc.zero ∧ c.second ≠ s.vc.zero ∧ s.Given c.second ∧ ∃ br, c.relation = relationOf br
  given : ∀ x br, Taken es x br → s.Given x
  /-- The constraints of an unknown are the decisions on it. -/
  decided : ∀ x br, s.vc.constantContainer[x]? = none →
    (Taken es x br ↔ ∃ k : ConstraintId, s.vc.constrContainer[k]? = some ⟨s.vc.zero, x, relationOf br⟩)
  /-- The decisions on a constant follow its lowest bit. -/
  followed : ∀ x br (c : Word), Taken es x br → s.vc.constantContainer[x]? = some c → c.getLsbD 0 = br

theorem taken_cons {es : Path} {e : Event VcState PathOp (Except Exn (Option ValueId))} {x : ValueId} {br : Bool} :
    Taken (e :: es) x br ↔ e.op = .branch x br ∨ Taken es x br := by
  unfold Taken
  simp only [List.mem_cons, exists_eq_or_imp]

theorem taken_branch {es : Path} {e : Event VcState PathOp (Except Exn (Option ValueId))} {x y : ValueId}
    {br d : Bool} (he : e.op = .branch x br) : Taken (e :: es) y d ↔ (y = x ∧ d = br) ∨ Taken es y d := by
  rw [taken_cons, he]
  constructor
  · rintro (hy | hy)
    · cases hy
      exact Or.inl ⟨rfl, rfl⟩
    · exact Or.inr hy
  · rintro (⟨rfl, rfl⟩ | hy)
    · exact Or.inl rfl
    · exact Or.inr hy

section Paths

variable {es : Path} {s : VcState} {x : ValueId}

theorem PathOk.ne_zero (h : PathOk es s) (hx : s.vc.constantContainer[x]? = none) : x ≠ s.vc.zero := by
  rintro rfl
  rw [h.ok.const.zero] at hx
  cases hx

/-- No value was decided both ways. -/
theorem PathOk.consistent (h : PathOk es s) {br : Bool} (ht : Taken es x br) : ¬ Taken es x !br := by
  intro hf
  cases hx : s.vc.constantContainer[x]? with
  | some c =>
    have h1 := h.followed x _ c ht hx
    have h2 := h.followed x _ c hf hx
    rw [h1] at h2
    cases br <;> cases h2
  | none =>
    obtain ⟨k, hk⟩ := (h.decided x _ hx).1 ht
    obtain ⟨k', hk'⟩ := (h.decided x _ hx).1 hf
    have heq := h.ok.store.single k k' _ _ hk hk' (Or.inl ⟨rfl, rfl⟩)
    subst heq
    rw [hk] at hk'
    cases br <;> cases hk'

/-- An unknown has no constraint, or one, with `zero`. -/
theorem list_unknown (h : PathOk es s) (hx : s.vc.constantContainer[x]? = none) :
    (s.vc.getConstraintIdVector x = [] ∧ ∀ br, ¬ Taken es x br) ∨
    ∃ (k : ConstraintId) (br : Bool), s.vc.getConstraintIdVector x = [k] ∧ Taken es x br ∧
      s.vc.constrContainer[k]? = some ⟨s.vc.zero, x, relationOf br⟩ := by
  have hmem : ∀ k ∈ s.vc.getConstraintIdVector x, ∃ br,
      s.vc.constrContainer[k]? = some ⟨s.vc.zero, x, relationOf br⟩ := by
    intro k hk
    obtain ⟨⟨first, second, rel⟩, hc, hxc⟩ := h.ok.store.stored x k hk
    obtain ⟨h1, _, _, br, h4⟩ := h.star k _ hc
    have h2 : x = second := hxc.resolve_left fun he => h.ne_zero hx (he.trans h1)
    subst h1 h2 h4
    exact ⟨br, hc⟩
  cases hl : s.vc.getConstraintIdVector x with
  | nil =>
    refine Or.inl ⟨rfl, fun br ht => ?_⟩
    obtain ⟨k, hk⟩ := (h.decided x br hx).1 ht
    have := (h.ok.store.listed k _ hk).2
    rw [hl] at this
    cases this
  | cons k ks =>
    rw [hl] at hmem
    obtain ⟨br, hk⟩ := hmem k List.mem_cons_self
    refine Or.inr ⟨k, br, ?_, (h.decided x br hx).2 ⟨k, hk⟩, hk⟩
    -- a second one would relate the same two values
    cases ks with
    | nil => rfl
    | cons k' ks =>
      exfalso
      obtain ⟨br', hk'⟩ := hmem k' (List.mem_cons_of_mem _ List.mem_cons_self)
      have heq := h.ok.store.single k k' _ _ hk hk' (Or.inl ⟨rfl, rfl⟩)
      have hnd := h.nodup x
      rw [hl] at hnd
      subst heq
      simp at hnd

/-- The query about an unknown with one constraint, which relates it to `zero`. -/
theorem isCmpConstant_zero {vc : ValueContainer} {w : ℕ} {u : Word} {br : Bool} {k : ConstraintId}
    (hx : x ≠ vc.zero) (hz : vc.constantContainer[vc.zero]? = some 0)
    (hk : vc.constrContainer[k]? = some ⟨vc.zero, x, relationOf br⟩) (hu : u = ripBits w 0) :
    vc.isCmpConstant x w u .neq [k] = .ok (some br) ∧ vc.isCmpConstant x w u .eq [k] = .ok (some !br) := by
  have ho : BinaryConstraint.getOther ⟨vc.zero, x, relationOf br⟩ x = .ok vc.zero := by
    simp [BinaryConstraint.getOther, hx]
  subst hu
  simp only [ValueContainer.isCmpConstant, ValueContainer.constrAt_of_some hk, ho, bind, Except.bind, hz]
  cases br <;> simp [ValueContainer.decideConstant, relationOf, pure, Except.pure]

/-! ## What the queries answer -/

section Queries

variable [DataLayout]

/-- Whether the value is known to go in the direction. -/
def ValueContainer.knownAs (vc : ValueContainer) (br : Bool) (x : ValueId) (type : Ty) : Except Exn Tribool :=
  if br then vc.isTrue x type else vc.isFalse x type

theorem knownAs_undecided (h : PathOk es s) (hx : s.vc.constantContainer[x]? = none) (hn : ∀ br, ¬ Taken es x br)
    (br : Bool) (w : ℕ) : s.vc.knownAs br x (.int w) = .ok none := by
  rcases list_unknown h hx with ⟨hl, _⟩ | ⟨k, br', _, ht, _⟩
  · cases br <;> simp [ValueContainer.knownAs, ValueContainer.isTrue, ValueContainer.isFalse, ValueContainer.isCmp,
      hx, h.ok.const.zero, hl, ValueContainer.isCmpConstant]
  · exact absurd ht (hn br')

theorem knownAs_decided (h : PathOk es s) (hx : s.vc.constantContainer[x]? = none) {d : Bool} (hd : Taken es x d)
    (br : Bool) (w : ℕ) : s.vc.knownAs br x (.int w) = .ok (some (d == br)) := by
  rcases list_unknown h hx with ⟨_, hn⟩ | ⟨k, d', hl, ht, hk⟩
  · exact absurd hd (hn d)
  · obtain rfl : d = d' := by
      by_contra hne
      rw [Bool.eq_not.2 (Ne.symm hne)] at ht
      exact h.consistent hd ht
    obtain ⟨h1, h2⟩ := isCmpConstant_zero (w := w) (h.ne_zero hx) h.ok.const.zero hk rfl
    cases br with
    | true =>
      simp only [ValueContainer.knownAs, ValueContainer.isTrue, ValueContainer.isCmp, hx, h.ok.const.zero, hl,
        Ty.getBitWidth_int, if_true, beq_true]
      exact h1
    | false =>
      simp only [ValueContainer.knownAs, ValueContainer.isFalse, ValueContainer.isCmp, hx, h.ok.const.zero, hl,
        Ty.getBitWidth_int, Bool.false_eq_true, if_false, beq_false]
      exact h2

theorem knownAs_constant (h : PathOk es s) {c : Word} (hx : s.vc.constantContainer[x]? = some c) (br : Bool)
    {w : ℕ} (h1 : 1 ≤ w) (h64 : w ≤ 64) :
    s.vc.knownAs br x (.int w) = .ok (some ((c.setWidth w != 0) == br)) := by
  have h0 : (0 : Word).setWidth w = 0 := by simp
  cases br with
  | true =>
    simp only [ValueContainer.knownAs, ValueContainer.isTrue, ValueContainer.isCmp, hx, h.ok.const.zero,
      Ty.getBitWidth_int, cmpConstants_eq h1 h64 c 0 (r := .neq) rfl, CmpFlags.holds, h0, if_true, beq_true]
  | false =>
    simp only [ValueContainer.knownAs, ValueContainer.isFalse, ValueContainer.isCmp, hx, h.ok.const.zero,
      Ty.getBitWidth_int, cmpConstants_eq h1 h64 c 0 (r := .eq) rfl, CmpFlags.holds, h0, Bool.false_eq_true, if_false,
      beq_false, bne, Bool.not_not]

omit [DataLayout] in
theorem setWidth_one_ne (c : Word) : (c.setWidth 1 != 0) = c.getLsbD 0 := by
  rw [BitVec.setWidth_one]
  cases c.getLsbD 0 <;> rfl

def droppedText (br : Bool) : String := if br then "Branch: can not go true" else "Branch: can not go false"

/-- A branch throws when the opposite is known at one bit, and else assumes the direction unless it is known at 64. -/
theorem branchOn_eq (x : ValueId) (br : Bool) (s : VcState) :
    branchOn x br s =
      match s.vc.knownAs (!br) x (.int 1) with
      | .error e => .error e s
      | .ok ans =>
        if ans = some true then .error (.branch (droppedText br)) s
        else insertUnless (·.knownAs br x (.int 64)) (fun vc => ⟨vc.zero, x, relationOf br⟩) s := by
  unfold branchOn
  cases br with
  | true =>
    simp only [if_true, assumeTrue_eq, ValueContainer.knownAs, Bool.not_true, Bool.false_eq_true, if_false]
    rw [bind_apply, query_apply]
    cases s.vc.isFalse x (.int 1) with
    | error e => rfl
    | ok ans => dsimp only; split <;> rfl
  | false =>
    simp only [Bool.false_eq_true, if_false, assumeFalse_eq, ValueContainer.knownAs, Bool.not_false, if_true]
    rw [bind_apply, query_apply]
    cases s.vc.isTrue x (.int 1) with
    | error e => rfl
    | ok ans => dsimp only; split <;> rfl

/-! ## One step -/

/-- Either direction of the decision that is not blocked. -/
theorem branchOn_blocked (h : PathOk es s) {br : Bool} (hb : Blocked es s x br) :
    branchOn x br s = .error (.branch (droppedText br)) s := by
  rw [branchOn_eq]
  rcases hb with ⟨c, hc, hlow⟩ | ⟨hx, ht⟩
  · rw [knownAs_constant h hc _ (Nat.le_refl 1) (by decide), setWidth_one_ne, hlow, beq_self_eq_true]
    rfl
  · rw [knownAs_decided h hx ht, beq_self_eq_true]
    rfl

/-- A decision that is not blocked is not known at one bit to go the other way. -/
theorem knownAs_not_of_not_blocked (h : PathOk es s) {br : Bool} (hb : ¬ Blocked es s x br) :
    ∃ ans, s.vc.knownAs (!br) x (.int 1) = .ok ans ∧ ans ≠ some true := by
  cases hx : s.vc.constantContainer[x]? with
  | some c =>
    refine ⟨_, knownAs_constant h hx _ (Nat.le_refl 1) (by decide), ?_⟩
    rw [setWidth_one_ne]
    intro heq
    exact hb (Or.inl ⟨c, hx, eq_of_beq (Option.some.inj heq)⟩)
  | none =>
    by_cases ht : ∃ d, Taken es x d
    · obtain ⟨d, hd⟩ := ht
      refine ⟨_, knownAs_decided h hx hd _ 1, fun heq => ?_⟩
      have hd' := eq_of_beq (Option.some.inj heq)
      exact hb (Or.inr ⟨hx, hd' ▸ hd⟩)
    · exact ⟨none, knownAs_undecided h hx (fun d hd => ht ⟨d, hd⟩) _ 1, by simp⟩

omit [DataLayout] in
/-- Inserting a decision on an undecided unknown, or on a constant whose lowest bit it follows. -/
theorem insert_pathOk (h : PathOk es s) (hg : s.Given x) (hz : x ≠ s.vc.zero) {br : Bool}
    (hx : (s.vc.constantContainer[x]? = none ∧ ∀ d, ¬ Taken es x d) ∨
      ∃ c, s.vc.constantContainer[x]? = some c ∧ c.getLsbD 0 = br)
    {e : Event VcState PathOp (Except Exn (Option ValueId))} (he : e.op = .branch x br) :
    ∃ t, insertConstraint ⟨s.vc.zero, x, relationOf br⟩ s = .ok () t ∧ PathOk (e :: es) t := by
  have hzero : s.vc.isConstant s.vc.zero = true := isConstant_iff.2 ⟨0, h.ok.const.zero⟩
  obtain ⟨t, ht, hdel, hno, hkeep⟩ :=
    insertConstraint_ok h.ok.store h.nodup (c := ⟨s.vc.zero, x, relationOf br⟩) hzero
  have hins : Inserts ⟨s.vc.zero, x, relationOf br⟩ s (t.store ⟨s.vc.zero, x, relationOf br⟩) :=
    store_inserts hdel fun _ => hno
  refine ⟨_, ht, ?_, ?_, ?_, ?_, ?_, ?_⟩
  · exact hins.vcOk h.ok
  · exact (hdel.nodup h.nodup).store (hdel.keeps h.ok.store) (Ne.symm hz)
  · intro k c hk
    rw [hins.zero]
    unfold VcState.Given
    rw [hins.nextId]
    rcases hins.constrs k c hk with hk | rfl
    · exact h.star k c hk
    · exact ⟨rfl, hz, hg, br, rfl⟩
  · intro y d hy
    unfold VcState.Given
    rw [hins.nextId]
    rcases (taken_branch he).1 hy with ⟨rfl, _⟩ | hy
    · exact hg
    · exact h.given y d hy
  · intro y d hy
    rw [hins.constants] at hy
    rw [hins.zero, taken_branch he]
    constructor
    · rintro (⟨rfl, rfl⟩ | hyd)
      · exact ⟨t.statics.nextConstraintIdToGive, by simp [VcState.store]⟩
      · obtain ⟨k, hk⟩ := (h.decided y d hy).1 hyd
        have hyx : x ≠ y := by
          rintro rfl
          rcases hx with ⟨_, hn⟩ | ⟨c, hc, _⟩
          · exact hn d hyd
          · rw [hc] at hy; cases hy
        refine ⟨k, ?_⟩
        have hkt := hkeep k _ hz hyx hk
        have hne := (hdel.keeps h.ok.store).fresh k _ hkt
        simp [VcState.store, Nat.ne_of_gt hne, hkt]
    · rintro ⟨k, hk⟩
      simp only [VcState.store, ValueContainer.constr_withConstraint] at hk
      split at hk
      · left
        cases d <;> cases br <;> cases hk <;> exact ⟨rfl, rfl⟩
      · exact Or.inr ((h.decided y d hy).2 ⟨k, hdel.constrs k _ hk⟩)
  · intro y d c hy hc
    rw [hins.constants] at hc
    rcases (taken_branch he).1 hy with ⟨rfl, rfl⟩ | hy
    · rcases hx with ⟨hn, _⟩ | ⟨c', hc', hlow⟩
      · rw [hn] at hc; cases hc
      · rw [hc'] at hc; cases hc; exact hlow
    · exact h.followed y d c hy hc

omit [DataLayout] in
/-- Deciding again what is decided, or what the constant says, changes nothing. -/
theorem repeat_pathOk (h : PathOk es s) (hg : s.Given x) {br : Bool}
    (hx : Taken es x br ∨ ∃ c, s.vc.constantContainer[x]? = some c ∧ c.getLsbD 0 = br)
    {e : Event VcState PathOp (Except Exn (Option ValueId))} (he : e.op = .branch x br) : PathOk (e :: es) s := by
  refine ⟨h.ok, h.nodup, h.star, ?_, ?_, ?_⟩
  · intro y d hy
    rcases (taken_branch he).1 hy with ⟨rfl, _⟩ | hy
    · exact hg
    · exact h.given y d hy
  · intro y d hy
    rw [← h.decided y d hy]
    refine ⟨fun hyd => ?_, fun hyd => taken_cons.2 (Or.inr hyd)⟩
    rcases (taken_branch he).1 hyd with ⟨rfl, rfl⟩ | hyd
    · rcases hx with ht | ⟨c, hc, _⟩
      · exact ht
      · rw [hc] at hy; cases hy
    · exact hyd
  · intro y d c hy hc
    rcases (taken_branch he).1 hy with ⟨rfl, rfl⟩ | hy
    · rcases hx with ht | ⟨c', hc', hlow⟩
      · exact h.followed y d c ht hc
      · rw [hc'] at hc; cases hc; exact hlow
    · exact h.followed y d c hy hc

/-- A decision that is not blocked succeeds, and its path keeps the invariant. -/
theorem branch_pathOk (h : PathOk es s) (hg : s.Given x) {br : Bool} (hb : ¬ Blocked es s x br)
    {e : Event VcState PathOp (Except Exn (Option ValueId))} (he : e.op = .branch x br) :
    ∃ t, branchOn x br s = .ok () t ∧ PathOk (e :: es) t := by
  obtain ⟨ans, hans, hne⟩ := knownAs_not_of_not_blocked h hb
  rw [branchOn_eq, hans]
  simp only [hne, if_false, insertUnless]
  cases hx : s.vc.constantContainer[x]? with
  | some c =>
    have hlow : c.getLsbD 0 = br := by
      by_contra hn
      exact hb (Or.inl ⟨c, hx, Bool.eq_not.2 hn⟩)
    rw [knownAs_constant h hx br (by decide) (Nat.le_refl 64)]
    dsimp only
    split
    · exact ⟨s, rfl, repeat_pathOk h hg (Or.inr ⟨c, hx, hlow⟩) he⟩
    · rename_i hk
      refine insert_pathOk h hg ?_ (Or.inr ⟨c, hx, hlow⟩) he
      -- `0` itself is known to go the way of its lowest bit
      rintro rfl
      rw [h.ok.const.zero] at hx
      cases hx
      subst hlow
      exact hk rfl
  | none =>
    by_cases ht : ∃ d, Taken es x d
    · obtain ⟨d, hd⟩ := ht
      obtain rfl : d = br := by
        by_contra hn
        exact hb (Or.inr ⟨hx, Bool.eq_not.2 hn ▸ hd⟩)
      rw [knownAs_decided h hx hd]
      simp only [beq_self_eq_true, if_true]
      exact ⟨s, rfl, repeat_pathOk h hg (Or.inl hd) he⟩
    · have hn : ∀ d, ¬ Taken es x d := fun d hd => ht ⟨d, hd⟩
      rw [knownAs_undecided h hx hn]
      exact insert_pathOk h hg (h.ne_zero hx) (Or.inl ⟨hx, hn⟩) he

omit [DataLayout] in
/-- The other calls touch neither the decisions nor the constraints. -/
theorem call_pathOk (h : PathOk es s) {t : VcState} (hg : Grows s t)
    {e : Event VcState PathOp (Except Exn (Option ValueId))} {op : VcOp} (he : e.op = .call op) :
    PathOk (e :: es) t := by
  have htaken : ∀ y d, Taken (e :: es) y d ↔ Taken es y d := by
    intro y d
    rw [taken_cons, he]
    simp
  refine ⟨hg.vcOk h.ok, ?_, ?_, ?_, ?_, ?_⟩
  · intro v
    have hl : t.vc.getConstraintIdVector v = s.vc.getConstraintIdVector v := by
      simp only [ValueContainer.getConstraintIdVector, hg.lists]
    rw [hl]; exact h.nodup v
  · intro k c hk
    rw [hg.constrs] at hk
    obtain ⟨h1, h2, h3, h4⟩ := h.star k c hk
    rw [hg.zero]
    exact ⟨h1, h2, hg.given h3, h4⟩
  · intro y d hy
    exact hg.given (h.given y d ((htaken y d).1 hy))
  · intro y d hy
    rw [htaken, hg.constrs, hg.zero]
    by_cases hyg : s.Given y
    · rw [hg.constant hyg] at hy
      exact h.decided y d hy
    · -- a new id is neither decided nor constrained
      refine ⟨fun ht => absurd (h.given y d ht) hyg, ?_⟩
      rintro ⟨k, hk⟩
      exact absurd (h.star k _ hk).2.2.1 hyg
  · intro y d c hy hc
    rw [htaken] at hy
    rw [hg.constant (h.given y d hy)] at hc
    exact h.followed y d c hy hc

/-! ## Paths -/

theorem path_ok (h : PathRun es s) : PathOk es s := by
  refine h.invariant (I := PathOk) ?_ ?_
  · rintro s ⟨statics, h0, rfl⟩
    refine ⟨⟨new_storeOk statics, new_constOk h0⟩, ?_, ?_, ?_, ?_, ?_⟩
    · intro v; simp [new_eq, ValueContainer.getConstraintIdVector]
    · intro k c hk; simp [new_eq] at hk
    · rintro x br ⟨e, he, _⟩; cases he
    · intro x br _
      constructor
      · rintro ⟨e, he, _⟩; cases he
      · rintro ⟨k, hk⟩; simp [new_eq] at hk
    · rintro x br c ⟨e, he, _⟩; cases he
  · intro es s op _ hadm hs
    cases op with
    | call op => exact call_pathOk hs (exec_grows hadm) rfl
    | branch x br =>
      obtain ⟨hg, u, hu⟩ := hadm
      have hb : ¬ Blocked es s x br := fun hb => by
        rw [branchOn_blocked hs hb] at hu; cases hu
      obtain ⟨t, ht, hok⟩ := branch_pathOk hs hg hb (e := step PathOp.exec s (.branch x br)) rfl
      have : (PathOp.exec (.branch x br) s).2 = t := by simp only [PathOp.exec, ht]
      rw [this]; exact hok

omit [DataLayout] in
/-- The direction of a valuation that agrees with the path is not blocked. -/
theorem not_blocked_direction {v : ValueId → Bool} (hv : Agrees es s v) (x : ValueId) :
    ¬ Blocked es s x (direction s v x) := by
  unfold direction
  rintro (⟨c, hc, hlow⟩ | ⟨hx, ht⟩)
  · rw [hc] at hlow
    dsimp only at hlow
    cases h1 : c.getLsbD 0 <;> rw [h1] at hlow <;> cases hlow
  · rw [hx] at ht
    have := hv x _ ht hx
    cases h1 : v x <;> rw [h1] at this <;> cases this

omit [DataLayout] in
theorem not_blocked_both (h : PathOk es s) (br : Bool) : ¬ (Blocked es s x br ∧ Blocked es s x !br) := by
  rintro ⟨⟨c, hc, h1⟩ | ⟨hx, h1⟩, ⟨c', hc', h2⟩ | ⟨hx', h2⟩⟩
  · rw [hc] at hc'
    cases hc'
    rw [h1] at h2
    cases br <;> cases h2
  · rw [hc] at hx'; cases hx'
  · rw [hx] at hc'; cases hc'
  · exact h.consistent h1 h2

/-- The counters after a direction was tried. -/
theorem grows_tried (s : VcState) (x : ValueId) (br : Bool) :
    Grows s { s with statics := (final (branchOn x br s)).statics } := by
  have hi : Inserts ⟨s.vc.zero, x, relationOf br⟩ s (final (branchOn x br s)) := by
    rw [branchOn_eq]
    cases s.vc.knownAs (!br) x (.int 1) with
    | error e => exact (Deletes.refl s).inserts _
    | ok ans =>
      dsimp only
      split
      · exact (Deletes.refl s).inserts _
      · exact insertUnless_inserts _ rfl
  exact grows_statics (Int.le_of_eq hi.nextId.symm) hi.nextConstraintId (Int.le_of_eq hi.nextObjectId.symm)

/-- What becomes of the successor in one direction. -/
theorem safelyExecuteAndEnque_eq (h : PathOk es s) (hg : s.Given x) (br : Bool) :
    ∃ succ, safelyExecuteAndEnque s x br = (.ok succ, (final (branchOn x br s)).statics) ∧
      (succ = none ↔ Blocked es s x br) := by
  unfold safelyExecuteAndEnque
  by_cases hb : Blocked es s x br
  · rw [branchOn_blocked h hb]
    exact ⟨none, rfl, by simp [hb]⟩
  · obtain ⟨t, ht, _⟩ := branch_pathOk h hg hb (e := ⟨s, .branch x br, .ok none, s⟩) rfl
    rw [ht]
    exact ⟨some t, rfl, by simp [hb]⟩

/-- Both directions of a branch are tried. -/
theorem executeBranch_eq (h : PathOk es s) (hg : s.Given x) :
    ∃ f t, executeBranch s x = .ok (f, t) ∧ (f = none ↔ Blocked es s x false) ∧ (t = none ↔ Blocked es s x true) := by
  obtain ⟨f, hf, hfb⟩ := safelyExecuteAndEnque_eq h hg false
  have hgr := grows_tried s x false
  obtain ⟨t, ht, htb⟩ := safelyExecuteAndEnque_eq
    (call_pathOk h hgr (e := ⟨s, .call (.elsewhere 0 0 0), .ok none, s⟩) rfl) (hgr.given hg) true
  refine ⟨f, t, ?_, hfb, htb.trans ?_⟩
  · simp only [executeBranch, hf, ht]
  · unfold Blocked
    simp only [taken_cons, reduceCtorEq, false_or]

/-- A direction is dropped exactly when the constant or an earlier decision forbids it; both successors are never
dropped, the one of a valuation that agrees with the path never is, and no value is decided both ways. -/
theorem branch_coverage (h : PathRun es s) (hg : s.Given x) :
    (∀ br, (∃ what t, branchOn x br s = .error (.branch what) t) ↔ Blocked es s x br) ∧
    (∃ f t, executeBranch s x = .ok (f, t) ∧ (f = none ↔ Blocked es s x false) ∧ (t = none ↔ Blocked es s x true) ∧
      (f ≠ none ∨ t ≠ none) ∧
      ∀ v, Agrees es s v → (if direction s v x then t else f) ≠ none) ∧
    ∀ y, ¬ (Taken es y true ∧ Taken es y false) := by
  have hok := path_ok h
  refine ⟨fun br => ⟨?_, fun hb => ⟨_, s, branchOn_blocked hok hb⟩⟩, ?_, fun y ⟨h1, h2⟩ => hok.consistent h1 h2⟩
  · rintro ⟨what, t, herr⟩
    by_contra hb
    obtain ⟨u, hu, _⟩ := branch_pathOk hok hg hb (e := ⟨s, .branch x br, .ok none, s⟩) rfl
    rw [hu] at herr
    cases herr
  · obtain ⟨f, t, heq, hf, ht⟩ := executeBranch_eq hok hg
    refine ⟨f, t, heq, hf, ht, ?_, fun v hv => ?_⟩
    · by_contra hnone
      rw [not_or, not_not, not_not] at hnone
      exact not_blocked_both hok false ⟨hf.1 hnone.1, ht.1 hnone.2⟩
    · have hnb := not_blocked_direction hv x
      cases hd : direction s v x with
      | true => rw [hd] at hnb; exact fun hn => hnb (ht.1 hn)
      | false => rw [hd] at hnb; exact fun hn => hnb (hf.1 hn)

end Queries

end Paths

/-! ## A decided unknown -/

section Example

attribute [local instance] Ty.x86

/-- An unknown condition, on which the true direction was taken. -/
def decidedPath : Path × VcState :=
  play PathOp.exec [] (VcState.new {}) [.call (.createVal (.int 1)), .branch 1 true]

theorem decidedPath_run : PathRun decidedPath.1 decidedPath.2 :=
  Run.play (Run.start ⟨{}, Int.le_refl 0, rfl⟩) ⟨rfl, ⟨⟨by decide, by decide⟩, ⟨_, rfl⟩⟩, trivial⟩

theorem branch_coverage_decided :
    ((∃ what t, branchOn 1 false decidedPath.2 = .error (.branch what) t) ↔
      Blocked decidedPath.1 decidedPath.2 1 false) ∧
    ∀ y, ¬ (Taken decidedPath.1 y true ∧ Taken decidedPath.1 y false) :=
  have h := branch_coverage decidedPath_run (x := 1) ⟨by decide, by decide⟩
  ⟨h.1 false, h.2.2⟩

end Example

end Angie
