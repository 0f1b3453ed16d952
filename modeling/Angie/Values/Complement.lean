import Angie.Values.Relations

/-!
# Complementary relations

`CmpFlags.negate` takes a relation to its complement (`holds_negate`). The two queries about a relation and its complement
walk the same constraints and stop at the same one, where each table gives the opposite answer
(`decideConstant_negate`, `decideUnknowns_negate`). So the whole query gives the opposite answer, or none for both
(`isCmp_negate`), whatever the container holds.
-/

namespace Angie

/-! ## Complements -/

/-- The complement of a relation; the flags that are no relation stay. -/
def CmpFlags.negate : CmpFlags → CmpFlags
  | .eq => .neq
  | .neq => .eq
  | .gt => .ltEq
  | .gtEq => .lt
  | .lt => .gtEq
  | .ltEq => .gt
  | .unsigGt => .unsigLtEq
  | .unsigGtEq => .unsigLt
  | .unsigLt => .unsigGtEq
  | .unsigLtEq => .unsigGt
  | r => r

/-- The opposite answer. -/
def Tribool.not (b : Tribool) : Tribool := b.map Bool.not

@[simp] theorem Tribool.not_none : Tribool.not none = none := rfl

@[simp] theorem Tribool.not_some (b : Bool) : Tribool.not (some b) = some !b := rfl

/-- The complement holds of the words of which the relation does not. -/
theorem CmpFlags.holds_negate {w : ℕ} {r : CmpFlags} (hr : r.isRelation = true) (x y : BitVec w) :
    r.negate.holds x y = !r.holds x y := by
  cases r with
  | eq | neq => simp [negate, holds, bne]
  | gt | gtEq | lt | ltEq => simp [negate, holds, BitVec.sle_eq_not_slt]
  | unsigGt | unsigGtEq | unsigLt | unsigLtEq => simp [negate, holds, BitVec.ule_eq_not_ult]
  | default | unsigned | float | unordered => cases hr

/-! ## The tables -/

namespace ValueContainer

theorem cmpConstants_negate (numOfBits : Nat) (c1 c2 : Word) (r : CmpFlags) :
    cmpConstants numOfBits c1 c2 r.negate = (cmpConstants numOfBits c1 c2 r).map Tribool.not := by
  cases r with
  | eq | neq => simp [cmpConstants, CmpFlags.negate, Except.map, bne]
  | gt | gtEq | lt | ltEq =>
    simp [cmpConstants, CmpFlags.negate, Except.map, BitVec.sle_eq_not_slt]
  | unsigGt | unsigGtEq | unsigLt | unsigLtEq =>
    simp [cmpConstants, CmpFlags.negate, Except.map, BitVec.ule_eq_not_ult]
  | default | unsigned | float | unordered => rfl

theorem decideConstant_negate (relation : CmpFlags) (uval1 uval2 : Word) (r : CmpFlags) :
    decideConstant relation uval1 uval2 r.negate = (decideConstant relation uval1 uval2 r).not := by
  cases r with
  | eq | neq =>
    simp only [decideConstant, CmpFlags.negate]
    split
    · simp [bne]
    · split <;> rfl
  | _ => rfl

theorem decideUnknowns_negate (relation r : CmpFlags) :
    decideUnknowns relation r.negate = (decideUnknowns relation r).not := by
  cases r <;> cases relation <;> rfl

/-! ## The loops -/

variable (vc : ValueContainer)

theorem isCmpConstant_negate (x : ValueId) (numOfBits : Nat) (u : Word) (r : CmpFlags) (ids : List ConstraintId) :
    vc.isCmpConstant x numOfBits u r.negate ids = (vc.isCmpConstant x numOfBits u r ids).map Tribool.not := by
  induction ids with
  | nil => rfl
  | cons id ids ih =>
    simp only [isCmpConstant, bind, Except.bind]
    cases vc.constrAt id with
    | error e => rfl
    | ok c =>
      dsimp only
      cases c.getOther x with
      | error e => rfl
      | ok other =>
        dsimp only
        cases vc.constantContainer[other]? with
        | none => exact ih
        | some d =>
          dsimp only
          rw [decideConstant_negate]
          -- both queries stop here, or both go on
          cases decideConstant c.relation u (ripBits numOfBits d) r with
          | none => exact ih
          | some b => rfl

theorem isCmpUnknowns_negate (a b : ValueId) (r : CmpFlags) (ids : List ConstraintId) :
    vc.isCmpUnknowns a b r.negate ids = (vc.isCmpUnknowns a b r ids).map Tribool.not := by
  induction ids with
  | nil => rfl
  | cons id ids ih =>
    simp only [isCmpUnknowns, bind, Except.bind]
    cases vc.constrFind "ConstraintId references constraint that does not exist." id with
    | error e => rfl
    | ok c =>
      dsimp only
      cases c.getOther a with
      | error e => rfl
      | ok other =>
        dsimp only
        by_cases hb : b = other
        · rw [if_pos hb, if_pos hb, decideUnknowns_negate]
          cases decideUnknowns c.relation r with
          | none => exact ih
          | some ans => rfl
        · rw [if_neg hb, if_neg hb]
          exact ih

/-! ## The query -/

variable [DataLayout]

/-- Asked for the complement, the query gives the opposite answer. -/
theorem isCmp_negate (a b : ValueId) (t : Ty) (r : CmpFlags) :
    vc.isCmp a b t r.negate = (vc.isCmp a b t r).map Tribool.not := by
  unfold isCmp
  cases vc.constantContainer[a]? with
  | some c =>
    cases vc.constantContainer[b]? with
    | some d => exact cmpConstants_negate _ _ _ _
    | none => exact isCmpConstant_negate _ _ _ _ _ _
  | none =>
    cases vc.constantContainer[b]? with
    | some d => exact isCmpConstant_negate _ _ _ _ _ _
    | none => exact isCmpUnknowns_negate _ _ _ _ _

/-- A query is answered with yes exactly when its complement is answered with no, and is left open exactly when its
complement is. -/
theorem isCmp_complement (a b : ValueId) (t : Ty) (r : CmpFlags) :
    (vc.isCmp a b t r = .ok (some true) ↔ vc.isCmp a b t r.negate = .ok (some false)) ∧
    (vc.isCmp a b t r = .ok none ↔ vc.isCmp a b t r.negate = .ok none) := by
  rw [isCmp_negate]
  cases vc.isCmp a b t r with
  | error e => simp [Except.map]
  | ok ans => rcases ans with _ | _ | _ <;> simp [Except.map]

end ValueContainer

end Angie
