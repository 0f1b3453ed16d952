import Angie.Values.IsCmp

/-!
# Soundness of the untyped queries

`IsZero` and `IsInternalRepEq` take no type: they compare raw words, and read a constraint of an unknown with a constant
as if the unknown came first. A word may be zero, or equal to another one, at the width of the type only, and a
constraint may be fulfilled by zero although its raw reading excludes that. These are the cases in which the queries
err, wherever the assumptions can be met (`isZero_sound_iff`, `isInternalRepEq_sound_iff`, `untyped_sound_iff`). What
`IsInternalRepEq` reads off a constraint does not depend on the order of the operands (`decideRep_sound`).
-/

namespace Angie

open Exec Trace ValueContainer

variable {w : ℕ}

/-- The calls at one integer type, the arithmetic ones included. -/
def CalledAt (w : ℕ) (_ : VcState) : VcOp → Prop
  | .createVal t | .assume _ _ t _ | .binOp _ _ t _ | .bitNot _ t => t = .int w
  | .createConstIntVal _ | .assumeTrue _ | .assumeFalse _ | .elsewhere _ _ _ => True
  | _ => False

/-- Every definite answer of `IsZero` is the truth in all valuations that satisfy the history. -/
def IsZeroSound (w : ℕ) (es : VcHistory) (s : VcState) (x : ValueId) : Prop :=
  ∀ v : Valuation w, Satisfies es s v → ∀ ans, s.vc.isZero x = .ok (some ans) → (ans = true ↔ v x = 0)

/-- Every definite answer of `IsInternalRepEq` is the truth in all valuations that satisfy the history. -/
def IsInternalRepEqSound (w : ℕ) (es : VcHistory) (s : VcState) (x y : ValueId) : Prop :=
  ∀ v : Valuation w, Satisfies es s v → ∀ ans, s.vc.isInternalRepEq x y = .ok (some ans) → (ans = true ↔ v x = v y)

/-! ## What is misread -/

/-- The constant has a non-zero word that is zero at the width. -/
def WideZero (w : ℕ) (s : VcState) (x : ValueId) : Prop :=
  ∃ c : Word, s.vc.constantContainer[x]? = some c ∧ c ≠ 0 ∧ c.setWidth w = 0

/-- The constraint equates `x` with the word zero. -/
def SaysZero (s : VcState) (x : ValueId) (k : ConstraintId) : Prop :=
  ∃ z : ValueId, s.Between k .eq x z ∧ s.vc.constantContainer[z]? = some 0

/-- The constraint of `x` with a constant is read as excluding zero, which fulfils it at the width in the order that
its operands have. -/
def ExcludesZero (w : ℕ) (s : VcState) (x : ValueId) (k : ConstraintId) : Prop :=
  ∃ (rel : CmpFlags) (z : ValueId) (d : Word), s.vc.constantContainer[z]? = some d ∧
    decideZero rel d = some false ∧
    (s.vc.constrContainer[k]? = some ⟨x, z, rel⟩ ∧ rel.holds (0 : BitVec w) (d.setWidth w) = true ∨
      s.vc.constrContainer[k]? = some ⟨z, x, rel⟩ ∧ rel.holds (d.setWidth w) (0 : BitVec w) = true)

/-- `x` may be zero, but its word, or one of its constraints before any that equates it with the word zero, is taken to
say that it is not. -/
def ZeroMisread (w : ℕ) (es : VcHistory) (s : VcState) (x : ValueId) : Prop :=
  (∃ v : Valuation w, Satisfies es s v ∧ v x = 0) ∧
  (WideZero w s x ∨ s.vc.constantContainer[x]? = none ∧
    ∃ pre k post, s.vc.getConstraintIdVector x = pre ++ k :: post ∧ ExcludesZero w s x k ∧
      ∀ j ∈ pre, ¬ SaysZero s x j)

/-- Two constants have words that differ only above the width. -/
def WordsMisread (w : ℕ) (es : VcHistory) (s : VcState) (x y : ValueId) : Prop :=
  (∃ v : Valuation w, Satisfies es s v) ∧ x ≠ y ∧
  ∃ c d : Word, s.vc.constantContainer[x]? = some c ∧ s.vc.constantContainer[y]? = some d ∧
    c.setWidth w = d.setWidth w

/-! ## Single readings -/

/-- Only an equation with the word zero is read as saying that a value is zero. -/
theorem decideZero_true {rel : CmpFlags} {d : Word} (h : decideZero rel d = some true) : rel = .eq ∧ d = 0 := by
  cases rel with
  | eq => exact ⟨rfl, by simpa [decideZero] using h⟩
  | _ => simp [decideZero] at h

/-- A constraint that decides whether two values are equal does so in either order of them. -/
theorem decideRep_sound {rel : CmpFlags} {b : Bool} (h : rel.decideRep = some b) {x y : BitVec w}
    (hx : rel.holds x y = true) : b = true ↔ x = y := by
  obtain ⟨heq, hneq, hgt, -, hlt, -⟩ := holds_iff_toInt x y
  rw [← BitVec.toInt_inj]
  cases rel with
  | eq => cases h; simp [heq.1 hx]
  | neq => cases h; simp [hneq.1 hx]
  | gt => cases h; have := hgt.1 hx; simp; omega
  | lt => cases h; have := hlt.1 hx; simp; omega
  | _ => cases h

/-- A constraint between two values that decides the answer decides it rightly, whatever order it has them in. -/
theorem between_decideRep [DataLayout] {Adm : VcState → VcOp → Prop} {es : VcHistory} {s : VcState}
    (hrun : VcRun Adm es s) {v : Valuation w} (hv : Satisfies es s v) {k : ConstraintId} {rel : CmpFlags}
    {x y : ValueId} (hk : s.Between k rel x y) {b : Bool} (h : rel.decideRep = some b) : b = true ↔ v x = v y := by
  rcases hk with hk | hk
  · exact decideRep_sound h (stored_holds hrun hv hk)
  · rw [decideRep_sound h (stored_holds hrun hv hk)]
    exact eq_comm

/-! ## `IsZero` -/

section Soundness

variable [DataLayout] {es : VcHistory} {s : VcState} {x y : ValueId}

theorem isZero_constant (hrun : VcRun (CalledAt w) es s) {c : Word} (hx : s.vc.constantContainer[x]? = some c) :
    s.vc.isZero x = .ok (some (c == 0)) := by
  unfold isZero
  split
  · rename_i h
    have hz := (run_ok hrun).const.zero
    rw [← h, hx] at hz
    cases hz
    rfl
  · simp only [hx]

theorem isZero_unknown (hrun : VcRun (CalledAt w) es s) (hx : s.vc.constantContainer[x]? = none) :
    s.vc.isZero x = .ok ((s.vc.getConstraintIdVector x).findSome? (s.vc.verdict decideZero x)) := by
  have hne : x ≠ s.vc.zero := by
    rintro rfl
    rw [(run_ok hrun).const.zero] at hx
    cases hx
  unfold isZero
  simp only [if_neg hne, hx]
  exact isZeroLoop_eq ((run_ok hrun).store.stored x)

/-- An answer read off the constraints is true, unless the constraint that gives it is misread. -/
theorem isZero_sound_unknown (hrun : VcRun (CalledAt w) es s) (hx : s.vc.constantContainer[x]? = none)
    (hn : ¬ ZeroMisread w es s x) : IsZeroSound w es s x := by
  intro v hv ans hans
  rw [isZero_unknown hrun hx] at hans
  obtain ⟨pre, k, post, hlist, hk, hpre⟩ := List.findSome?_eq_some_iff.1 (Except.ok.inj hans)
  obtain ⟨rel, d, z, hbetween, hd, hdec⟩ := verdict_some hk
  have hz := hv.constants z d hd
  cases ans with
  | true =>
    obtain ⟨rfl, rfl⟩ := decideZero_true hdec
    have heq := (between_decideRep hrun hv hbetween rfl).1 rfl
    simp [heq, hz]
  | false =>
    refine ⟨nofun, fun h0 => absurd ⟨⟨v, hv, h0⟩, Or.inr ⟨hx, pre, k, post, hlist, ?_, ?_⟩⟩ hn⟩
    · refine ⟨rel, z, d, hd, hdec, ?_⟩
      rcases hbetween with hcon | hcon
      · have := stored_holds hrun hv hcon
        simp only [BinaryConstraint.Holds, h0, hz] at this
        exact Or.inl ⟨hcon, this⟩
      · have := stored_holds hrun hv hcon
        simp only [BinaryConstraint.Holds, h0, hz] at this
        exact Or.inr ⟨hcon, this⟩
    · rintro j hj ⟨z', hb', hz'⟩
      have := hpre j hj
      rw [hb'.verdict, hz'] at this
      cases this

theorem isZero_sound (hrun : VcRun (CalledAt w) es s) (hn : ¬ ZeroMisread w es s x) : IsZeroSound w es s x := by
  cases hx : s.vc.constantContainer[x]? with
  | none => exact isZero_sound_unknown hrun hx hn
  | some c =>
    intro v hv ans hans
    rw [isZero_constant hrun hx] at hans
    cases hans
    have hc := hv.constants x c hx
    rw [beq_iff_eq]
    constructor
    · rintro rfl
      simp [hc]
    · intro h0
      by_contra hne
      exact hn ⟨⟨v, hv, h0⟩, Or.inl ⟨c, hx, hne, hc ▸ h0⟩⟩

/-- Where something is misread, `IsZero` denies that the value is zero. -/
theorem isZero_of_misread (hrun : VcRun (CalledAt w) es s) (h : ZeroMisread w es s x) :
    s.vc.isZero x = .ok (some false) := by
  rcases h.2 with ⟨c, hx, hne, -⟩ | ⟨hx, pre, k, post, hlist, ⟨rel, z, d, hd, hdec, hk⟩, hpre⟩
  · rw [isZero_constant hrun hx, beq_eq_false_iff_ne.2 hne]
  · have hbetween : s.Between k rel x z := hk.imp And.left And.left
    rw [isZero_unknown hrun hx, hlist, List.findSome?_append, List.findSome?_cons, hbetween.verdict, hd,
      Option.bind_some, hdec]
    cases hfirst : pre.findSome? (s.vc.verdict decideZero x) with
    | none => rfl
    | some b =>
      -- what decides before `k` does not say that `x` is zero either
      obtain ⟨j, hj, hb⟩ := List.exists_of_findSome?_eq_some hfirst
      obtain ⟨rel', d', z', hbetween', hd', hdec'⟩ := verdict_some hb
      cases b with
      | false => rfl
      | true =>
        obtain ⟨rfl, rfl⟩ := decideZero_true hdec'
        exact absurd ⟨z', hbetween', hd'⟩ (hpre j hj)

/-- The answers of `IsZero` are true exactly where nothing is misread. -/
theorem isZero_sound_iff (hrun : VcRun (CalledAt w) es s) : IsZeroSound w es s x ↔ ¬ ZeroMisread w es s x := by
  refine ⟨fun hsound h => ?_, isZero_sound hrun⟩
  obtain ⟨v, hv, h0⟩ := h.1
  have := (hsound v hv false (isZero_of_misread hrun h)).2 h0
  cases this

/-! ## `IsInternalRepEq` -/

omit [DataLayout] in
theorem isInternalRepEq_self : s.vc.isInternalRepEq x x = .ok (some true) := by
  simp [isInternalRepEq]

omit [DataLayout] in
theorem isInternalRepEq_constants (hxy : x ≠ y) {c d : Word} (hx : s.vc.constantContainer[x]? = some c)
    (hy : s.vc.constantContainer[y]? = some d) : s.vc.isInternalRepEq x y = .ok (some false) := by
  simp [isInternalRepEq, hxy, isConstant_iff.2 ⟨c, hx⟩, isConstant_iff.2 ⟨d, hy⟩]

omit [DataLayout] in
/-- An answer about two values, one of which is unknown, comes from a constraint between them. -/
theorem isInternalRepEq_found (hs : StoreOk s) (hxy : x ≠ y)
    (hunknown : ¬ (s.vc.isConstant x && s.vc.isConstant y) = true) {ans : Bool}
    (h : s.vc.isInternalRepEq x y = .ok (some ans)) :
    ∃ k rel, s.Between k rel x y ∧ rel.decideRep = some ans := by
  unfold isInternalRepEq at h
  rw [if_neg hxy, if_neg hunknown] at h
  split at h
  · obtain ⟨k, rel, hk, hdec⟩ := isInternalRepEqLoop_found (Ne.symm hxy) (hs.stored y) h
    exact ⟨k, rel, hk.symm, hdec⟩
  · exact isInternalRepEqLoop_found hxy (hs.stored x) h

theorem isInternalRepEq_sound (hrun : VcRun (CalledAt w) es s) (hn : ¬ WordsMisread w es s x y) :
    IsInternalRepEqSound w es s x y := by
  intro v hv ans hans
  by_cases hxy : x = y
  · subst hxy
    rw [isInternalRepEq_self] at hans
    cases hans
    simp
  · by_cases hconst : (s.vc.isConstant x && s.vc.isConstant y) = true
    · obtain ⟨hcx, hcy⟩ := Bool.and_eq_true_iff.1 hconst
      obtain ⟨c, hx⟩ := isConstant_iff.1 hcx
      obtain ⟨d, hy⟩ := isConstant_iff.1 hcy
      rw [isInternalRepEq_constants hxy hx hy] at hans
      cases hans
      rw [hv.constants x c hx, hv.constants y d hy]
      exact ⟨nofun, fun h => absurd ⟨⟨v, hv⟩, hxy, c, d, hx, hy, h⟩ hn⟩
    · obtain ⟨k, rel, hk, hdec⟩ := isInternalRepEq_found (run_ok hrun).store hxy hconst hans
      exact between_decideRep hrun hv hk hdec

/-- The answers of `IsInternalRepEq` are true exactly where no two words differ above the width only. -/
theorem isInternalRepEq_sound_iff (hrun : VcRun (CalledAt w) es s) :
    IsInternalRepEqSound w es s x y ↔ ¬ WordsMisread w es s x y := by
  refine ⟨fun hsound h => ?_, isInternalRepEq_sound hrun⟩
  obtain ⟨⟨v, hv⟩, hxy, c, d, hx, hy, hcd⟩ := h
  have heq : v x = v y := by rw [hv.constants x c hx, hv.constants y d hy, hcd]
  have := (hsound v hv false (isInternalRepEq_constants hxy hx hy)).2 heq
  cases this

/-- Both untyped queries answer truly exactly where neither a word nor a constraint is misread. -/
theorem untyped_sound_iff (hrun : VcRun (CalledAt w) es s) (x y : ValueId) :
    IsZeroSound w es s x ∧ IsInternalRepEqSound w es s x y ↔ ¬ (ZeroMisread w es s x ∨ WordsMisread w es s x y) := by
  rw [isZero_sound_iff hrun, isInternalRepEq_sound_iff hrun, not_or]

end Soundness

/-! ## A carry out of a byte -/

section Carry

attribute [local instance] Ty.x86

/-- An unknown byte, the bytes 255 and 1 with their sum, and the assumption that 1 is greater than the unknown. -/
def carriedByte : VcHistory × VcState :=
  play VcOp.exec [] (VcState.new {}) [.createVal (.int 8), .createConstIntVal 255, .createConstIntVal 1,
    .binOp 2 3 (.int 8) ⟨.add, .default⟩, .assume 3 1 (.int 8) .gt]

theorem carriedByte_run : VcRun (CalledAt 8) carriedByte.1 carriedByte.2 :=
  Run.play (Run.start ⟨{}, Int.le_refl 0, rfl⟩) ⟨rfl, trivial, trivial, rfl, rfl, trivial⟩

/-- The unknown may be zero. -/
def carriedByteValues : Valuation 8 := fun x => if x = 2 then 255 else if x = 3 then 1 else 0

theorem carriedByte_satisfies : Satisfies carriedByte.1 carriedByte.2 carriedByteValues := by
  have hconst : carriedByte.2.vc.constantContainer =
      ((((∅ : Std.TreeMap ValueId Word).insert 0 0).insert 2 255).insert 3 1).insert 4 256 := rfl
  have hops : carriedByte.1.map (·.op) = [.assume 3 1 (.int 8) .gt, .binOp 2 3 (.int 8) ⟨.add, .default⟩,
      .createConstIntVal 1, .createConstIntVal 255, .createVal (.int 8)] := rfl
  constructor
  · intro x c hx
    rw [hconst] at hx
    simp only [Std.TreeMap.getElem?_insert, Std.compare_eq_iff_eq] at hx
    split at hx
    · subst_vars; cases hx; rfl
    · split at hx
      · subst_vars; cases hx; rfl
      · split at hx
        · subst_vars; cases hx; rfl
        · split at hx
          · subst_vars; cases hx; rfl
          · simp at hx
  · intro e he
    have hop := List.mem_map_of_mem (f := (·.op)) he
    rw [hops] at hop
    simp only [List.mem_cons, List.not_mem_nil, or_false] at hop
    rcases hop with h | h | h | h | h <;> rw [h]
    · rfl
    all_goals trivial

/-- The unknown and the sum are denied to be zero, and the sum to equal zero. -/
theorem carriedByte_unsound : ¬ IsZeroSound 8 carriedByte.1 carriedByte.2 1 ∧
    ¬ IsZeroSound 8 carriedByte.1 carriedByte.2 4 ∧ ¬ IsInternalRepEqSound 8 carriedByte.1 carriedByte.2 0 4 := by
  refine ⟨fun h => ?_, fun h => ?_, fun h => ?_⟩
  · exact absurd ((h _ carriedByte_satisfies false rfl).2 rfl) nofun
  · exact absurd ((h _ carriedByte_satisfies false rfl).2 rfl) nofun
  · exact absurd ((h _ carriedByte_satisfies false rfl).2 rfl) nofun

/-- The byte 1 is read for what it is. -/
theorem carriedByte_sound : IsZeroSound 8 carriedByte.1 carriedByte.2 3 ∧
    IsInternalRepEqSound 8 carriedByte.1 carriedByte.2 3 1 ↔
    ¬ (ZeroMisread 8 carriedByte.1 carriedByte.2 3 ∨ WordsMisread 8 carriedByte.1 carriedByte.2 3 1) :=
  untyped_sound_iff carriedByte_run 3 1

end Carry

end Angie
