import Angie.Semantics.Memory
import Angie.Smg.Abstracted
import Angie.Smg.Placement
import Angie.Values.Division

/-!
# Operations of a container on the numbers

What the container computes is right of what its ids are read as: a constant that `BinOp` yields has the bits of the
result (`evalBinOp_apply`), `IsCmp` answers as the integers compare (`Mirrors.isCmp`), and the direction that a bit
takes is not refused and may be assumed of it (`Mirrors.branchOn`).
-/

namespace Angie

open Exec KeyedList

/-- The exception that refuses a direction of a branch. -/
def Exn.isBranch : Exn → Bool
  | .branch _ => true
  | _ => false

/-! ## Results -/

section Results

variable {w : ℕ} {o : BinaryOpOptions} {x y z : Word}

theorem evalBinOp_add_cases (o : BinaryOpOptions) (x y : Word) (ho : o.opKind = .add) :
    evalBinOp w o x y = .ok none ∨ evalBinOp w o x y = .ok (some (ripBits w x + ripBits w y)) := by
  simp only [evalBinOp, ho]
  split_ifs <;> simp

theorem evalBinOp_sub_cases (o : BinaryOpOptions) (x y : Word) (ho : o.opKind = .sub) :
    evalBinOp w o x y = .ok none ∨ evalBinOp w o x y = .ok (some (ripBits w x - ripBits w y)) := by
  simp only [evalBinOp, ho]
  split_ifs <;> simp

theorem evalBinOp_mul_cases (o : BinaryOpOptions) (x y : Word) (ho : o.opKind = .mul) :
    evalBinOp w o x y = .ok none ∨ evalBinOp w o x y = .ok (some (signExtend64 w x * signExtend64 w y)) := by
  simp only [evalBinOp, ho]
  split_ifs <;> simp

theorem evalBinOp_not_branch {e : Exn} (h : evalBinOp w o x y = .error e) : e.isBranch = false := by
  obtain ⟨kind, flags⟩ := o
  cases kind with
  | and | or | xor => cases h
  | default =>
    cases h
    rfl
  | _ =>
    simp only [evalBinOp] at h
    split_ifs at h <;> cases h <;> rfl

/-- What has been evaluated divides as the machine does. -/
theorem divides_result {traps : Prop} {y r : BitVec w} {res : Except Exn (Option Word)} (h : Divides traps y r res)
    (hy : y ≠ 0) (hz : res = .ok (some z)) : z.setWidth w = r := by
  by_cases ht : traps
  · obtain ⟨what, hwhat⟩ := h.undefined ht
    cases hwhat.symm.trans hz
  · obtain ⟨z', hz', hr⟩ := h.constant hy ht
    cases hz'.symm.trans hz
    exact hr

theorem shift_result (h1 : 1 ≤ w) (h : w ≤ 64) (op : ShiftOp) (hlt : (y.setWidth w).toNat < w)
    (hz : evalBinOp w op.options x y = .ok (some z)) : z.setWidth w = op.apply (x.setWidth w) (y.setWidth w).toNat := by
  obtain ⟨hover, hno⟩ := evalBinOp_shift h1 h x op (y := y)
  by_cases ho : Overshifts op (x.setWidth w) (y.setWidth w)
  · cases (hover ho).symm.trans hz
  · obtain ⟨z', hz', hr⟩ := hno ho
    cases hz'.symm.trans hz
    exact hr hlt

/-- The flag says how the operands are read, and no operation that is evaluated is exact. -/
theorem signed_cases {kind : BinaryOpKind} {flags : ArithFlags} {f : Bool → Option (BitVec w)} {r : BitVec w}
    (hkind : kind = .div ∨ kind = .rem ∨ kind = .shr) (hz : evalBinOp w ⟨kind, flags⟩ x y = .ok (some z))
    (h : BinaryOpOptions.apply.signed ⟨kind, flags⟩ f = some r) :
    ∃ signed, flags = signFlag signed ∧ f signed = some r := by
  have hflags : flags = .signed ∨ flags = .unsigned := by
    by_contra hne
    rw [not_or] at hne
    rcases hkind with rfl | rfl | rfl <;> simp only [evalBinOp, if_neg hne.1, if_neg hne.2] at hz <;> split at hz <;>
      cases hz
  unfold BinaryOpOptions.apply.signed at h
  rcases hflags with rfl | rfl
  · rw [if_neg (show ¬ checkFlag .signed .unsigned = true by decide),
      if_pos (show checkFlag .signed .signed = true by decide)] at h
    exact ⟨true, rfl, h⟩
  · rw [if_pos (show checkFlag .unsigned .unsigned = true by decide)] at h
    exact ⟨false, rfl, h⟩

/-- A constant that is evaluated has the bits of the result. -/
theorem evalBinOp_apply (h1 : 1 ≤ w) (h : w ≤ 64) {r : BitVec w} (hr : o.apply (x.setWidth w) (y.setWidth w) = some r)
    (hz : evalBinOp w o x y = .ok (some z)) : z.setWidth w = r := by
  have hx := setWidth_ripBits h x
  have hy := setWidth_ripBits h y
  obtain ⟨kind, flags⟩ := o
  cases kind with
  | add =>
    rcases evalBinOp_add_cases (w := w) ⟨.add, flags⟩ x y rfl with hnone | hsome
    · cases hnone.symm.trans hz
    · cases hsome.symm.trans hz
      cases hr
      rw [BitVec.setWidth_add _ _ h, hx, hy]
  | sub =>
    rcases evalBinOp_sub_cases (w := w) ⟨.sub, flags⟩ x y rfl with hnone | hsome
    · cases hnone.symm.trans hz
    · cases hsome.symm.trans hz
      cases hr
      rw [Bits.setWidth_sub h, hx, hy]
  | mul =>
    rcases evalBinOp_mul_cases (w := w) ⟨.mul, flags⟩ x y rfl with hnone | hsome
    · cases hnone.symm.trans hz
    · cases hsome.symm.trans hz
      cases hr
      rw [BitVec.setWidth_mul _ _ h, setWidth_signExtend64 h1 h, setWidth_signExtend64 h1 h]
  | and =>
    cases hz
    cases hr
    rw [BitVec.setWidth_and, hx, hy]
  | or =>
    cases hz
    cases hr
    rw [BitVec.setWidth_or, hx, hy]
  | xor =>
    cases hz
    cases hr
    rw [BitVec.setWidth_xor, hx, hy]
  | div =>
    simp only [BinaryOpOptions.apply] at hr
    obtain ⟨signed, rfl, hquotient⟩ := signed_cases (Or.inl rfl) hz hr
    split_ifs at hquotient with hzero
    have hplain : checkFlag (signFlag signed) .exact = false := by cases signed <;> rfl
    simp only [BinaryOpOptions.apply.exactly, hplain, Bool.false_eq_true, false_implies, if_true] at hquotient
    cases hquotient
    exact divides_result (evalBinOp_div h1 h signed x y) hzero hz
  | rem =>
    simp only [BinaryOpOptions.apply] at hr
    obtain ⟨signed, rfl, hremainder⟩ := signed_cases (Or.inr (Or.inl rfl)) hz hr
    split_ifs at hremainder with hzero
    cases hremainder
    exact divides_result (evalBinOp_rem h1 h signed x y) hzero hz
  | shl =>
    simp only [BinaryOpOptions.apply, BinaryOpOptions.apply.shift] at hr
    split_ifs at hr with hlt
    cases hr
    exact shift_result h1 h (.shl flags) hlt hz
  | shr =>
    simp only [BinaryOpOptions.apply] at hr
    obtain ⟨signed, rfl, hshift⟩ := signed_cases (Or.inr (Or.inr rfl)) hz hr
    obtain ⟨q, hq, hr⟩ := Option.bind_eq_some_iff.1 hshift
    have hplain : checkFlag (signFlag signed) .exact = false := by cases signed <;> rfl
    simp only [BinaryOpOptions.apply.exactly, hplain, Bool.false_eq_true, false_implies, if_true] at hr
    cases hr
    simp only [BinaryOpOptions.apply.shift] at hq
    split_ifs at hq with hlt hsigned
    · cases hq
      subst hsigned
      exact shift_result h1 h .aShr hlt hz
    · cases hq
      obtain rfl : signed = false := by simpa using hsigned
      exact shift_result h1 h .lShr hlt hz
  | default => cases hr

/-- The operations that keep the bits apart leave none above the width. -/
theorem evalBinOp_bitwise (h : w ≤ 64) {r : BitVec w} (hr : o.apply (x.setWidth w) (y.setWidth w) = some r)
    (ho : o.opKind.isBitwise = true) (hz : evalBinOp w o x y = .ok (some z)) : z = r.setWidth 64 := by
  obtain ⟨kind, flags⟩ := o
  cases kind with
  | and | or | xor =>
    cases hz
    cases hr
    simp only [ripBits_eq h, BitVec.setWidth_and, BitVec.setWidth_or, BitVec.setWidth_xor]
  | _ => cases ho

end Results

/-! ## Comparisons -/

section Compare

variable [DataLayout] {ρ : Reading} {s : MemState} {blocks : List Block} {births : ℕ} {es : Path} {a b : ValueId}

omit [DataLayout] in
theorem Meaning.Stands.word {δ : Meaning} {w : Width} {x : BitVec w.bits} (h : δ.Stands (.int w x)) :
    ∃ u, δ.word = some u ∧ u.setWidth w.bits = x ∧ (w.bits = 1 → u = x.setWidth 64) := by
  cases h with
  | int hu hx h1 => exact ⟨_, hu, hx, h1⟩

/-- An integer is a constant of the container, or a number that it does not know. -/
theorem Mirrors.lookup_word (h : Mirrors ρ s blocks births) {u : Word} (hu : (ρ.value a).word = some u) :
    s.vc.constantContainer[a]? = some u ∨ s.vc.constantContainer[a]? = none ∧ ρ.value a = .number u := by
  cases hv : ρ.value a with
  | constant c =>
    rw [hv] at hu
    cases hu
    exact Or.inl ((h.constants a u).2 hv)
  | number c =>
    rw [hv] at hu
    cases hu
    refine Or.inr ⟨?_, rfl⟩
    cases hc : s.vc.constantContainer[a]? with
    | none => rfl
    | some c' => cases hv.symm.trans ((h.constants a c').1 hc)
  | pointer | other =>
    rw [hv] at hu
    cases hu

/-- What was decided of an unknown is what it is. -/
theorem Mirrors.decided_number (h : Mirrors ρ s blocks births) (ha : s.vc.constantContainer[a]? = none)
    {k : ConstraintId} {br : Bool} (hk : s.vc.constrContainer[k]? = some ⟨s.vc.zero, a, relationOf br⟩) :
    ρ.value a = .number (if br then 1 else 0) := by
  obtain ⟨-, ⟨u, hu⟩ | ⟨d, hd, hv⟩⟩ := h.decided k _ hk
  · cases ((h.constants a u).2 hu).symm.trans ha
  · obtain rfl : br = d := by
      cases br <;> cases d <;> first | rfl | cases hd
    exact hv

omit [DataLayout] in
theorem constraints_unknown (hpath : PathOk es s.toVc) (ha : s.vc.constantContainer[a]? = none) :
    s.vc.getConstraintIdVector a = [] ∨ ∃ (k : ConstraintId) (br : Bool),
      s.vc.getConstraintIdVector a = [k] ∧ s.vc.constrContainer[k]? = some ⟨s.vc.zero, a, relationOf br⟩ := by
  rcases list_unknown hpath ha with ⟨hl, -⟩ | ⟨k, br, hl, -, hk⟩
  · exact Or.inl hl
  · exact Or.inr ⟨k, br, hl, hk⟩

/-- The constraints of an unknown number say the truth about its relation to a constant. -/
theorem Mirrors.isCmpConstant (h : Mirrors ρ s blocks births) (hpath : PathOk es s.toVc) {w : ℕ} (h1 : 1 ≤ w)
    (h64 : w ≤ 64) {u : Word} (ha : s.vc.constantContainer[a]? = none) (hv : ρ.value a = .number u) (c : Word)
    (r : CmpFlags) : ∃ ans, s.vc.isCmpConstant a w (ripBits w c) r (s.vc.getConstraintIdVector a) = .ok ans ∧
      ∀ t, ans = some t → t = r.holds (c.setWidth w) (u.setWidth w) ∧ t = r.holds (u.setWidth w) (c.setWidth w) := by
  rcases constraints_unknown hpath ha with hl | ⟨k, br, hl, hk⟩ <;> rw [hl]
  · exact ⟨none, rfl, nofun⟩
  · have hz : s.vc.constantContainer[s.vc.zero]? = some 0 := hpath.ok.const.zero
    have ho : BinaryConstraint.getOther ⟨s.vc.zero, a, relationOf br⟩ a = .ok s.vc.zero := by
      simp [BinaryConstraint.getOther, show a ≠ s.vc.zero from hpath.ne_zero ha]
    have hrun : s.vc.isCmpConstant a w (ripBits w c) r [k] =
        .ok (ValueContainer.decideConstant (relationOf br) (ripBits w c) (ripBits w 0) r) := by
      simp only [ValueContainer.isCmpConstant, ValueContainer.constrAt_of_some hk, ho, bind, Except.bind, hz]
      cases ValueContainer.decideConstant (relationOf br) (ripBits w c) (ripBits w 0) r <;> rfl
    refine ⟨_, hrun, fun t ht => decideConstant_sound h64 ht (Or.inl ?_)⟩
    obtain rfl : (if br then 1 else 0) = u := by
      cases (h.decided_number ha hk).symm.trans hv
      rfl
    cases br with
    | false => simp [relationOf, CmpFlags.holds]
    | true =>
      have hne : (1 : Word).setWidth w ≠ 0 := by
        intro heq
        have := congrArg (·.getLsbD 0) heq
        simp at this
        lia
      simpa [relationOf, CmpFlags.holds] using hne

omit [DataLayout] in
/-- Nothing is said of two unknowns, since the constraints are with `zero`. -/
theorem isCmpUnknowns_none (hpath : PathOk es s.toVc) (ha : s.vc.constantContainer[a]? = none)
    (hb : s.vc.constantContainer[b]? = none) (r : CmpFlags) :
    s.vc.isCmpUnknowns a b r (s.vc.getConstraintIdVector a) = .ok none := by
  have hz : s.vc.constantContainer[s.vc.zero]? = some 0 := hpath.ok.const.zero
  rcases constraints_unknown hpath ha with hl | ⟨k, br, hl, hk⟩ <;> rw [hl]
  · rfl
  · have hne : ∀ {v : ValueId}, s.vc.constantContainer[v]? = none → v ≠ s.vc.zero := by
      rintro v hv rfl
      cases hz.symm.trans hv
    have ho : BinaryConstraint.getOther ⟨s.vc.zero, a, relationOf br⟩ a = .ok s.vc.zero := by
      simp [BinaryConstraint.getOther, hne ha]
    simp only [ValueContainer.isCmpUnknowns, ValueContainer.constrFind, hk, ho, bind, Except.bind, hne hb, if_false]

/-- `IsCmp` answers as the integers compare, if it does. -/
theorem Mirrors.isCmp (h : Mirrors ρ s blocks births) (hpath : PathOk es s.toVc) {w : Width} {x y : BitVec w.bits}
    (ha : (ρ.value a).Stands (.int w x)) (hb : (ρ.value b).Stands (.int w y)) {r : CmpFlags} (hr : r.isRelation = true) :
    ∃ ans, s.vc.isCmp a b w.type r = .ok ans ∧ ∀ t, ans = some t → t = r.holds x y := by
  obtain ⟨u, hu, rfl, -⟩ := ha.word
  obtain ⟨c, hc, rfl, -⟩ := hb.word
  have hwidth : w.type.getBitWidth = w.bits := Ty.getBitWidth_int _
  unfold ValueContainer.isCmp
  rw [hwidth]
  rcases h.lookup_word hu with hua | ⟨hua, hva⟩ <;> rcases h.lookup_word hc with hcb | ⟨hcb, hvb⟩ <;> rw [hua, hcb] <;>
    dsimp only
  · exact ⟨_, cmpConstants_eq w.pos w.le u c hr, fun t ht => by cases ht; rfl⟩
  · obtain ⟨ans, hans, ht⟩ := h.isCmpConstant hpath w.pos w.le hcb hvb u r
    exact ⟨ans, hans, fun t heq => (ht t heq).1⟩
  · obtain ⟨ans, hans, ht⟩ := h.isCmpConstant hpath w.pos w.le hua hva c r
    exact ⟨ans, hans, fun t heq => (ht t heq).2⟩
  · exact ⟨none, isCmpUnknowns_none hpath hua hcb r, nofun⟩

/-- A number is on no edge, so the graph is not asked. -/
theorem Mirrors.smgIsCmp (h : Mirrors ρ s blocks births) {w : Width} {x y : BitVec w.bits}
    (ha : (ρ.value a).Stands (.int w x)) (hb : (ρ.value b).Stands (.int w y)) {r : CmpFlags}
    (hnone : s.vc.isCmp a b w.type r = .ok none) (hr : r.isRelation = true) : s.graph.smgIsCmp a b r = .ok none := by
  have hnumber : ∀ {v u}, ρ.value v = .number u → s.graph.existsPtEdge v = false := by
    intro v u hv
    rw [← Bool.not_eq_true, existsPtEdge_iff]
    rintro ⟨e, he, rfl⟩
    have hfits := h.edges e (Or.inl he)
    unfold Reading.Fits at hfits
    rw [hv] at hfits
    exact hfits
  refine smgIsCmp_unknown ?_ r
  obtain ⟨u, hu, rfl, -⟩ := ha.word
  obtain ⟨c, hc, rfl, -⟩ := hb.word
  rcases h.lookup_word hu with hua | ⟨-, hva⟩
  · rcases h.lookup_word hc with hcb | ⟨-, hvb⟩
    · simp only [ValueContainer.isCmp, hua, hcb] at hnone
      have hwidth : w.type.getBitWidth = w.bits := Ty.getBitWidth_int _
      rw [hwidth] at hnone
      cases (cmpConstants_eq w.pos w.le u c hr).symm.trans hnone
    · exact Or.inr (hnumber hvb)
  · exact Or.inl (hnumber hva)

/-! ### Pointers -/

theorem Mirrors.pointer_unknown (h : Mirrors ρ s blocks births) {b : ℕ} {o : Word} {k : Option ℕ}
    (ha : ρ.value a = .pointer b o k) : s.vc.constantContainer[a]? = none ∧ s.graph.existsPtEdge a = true := by
  obtain ⟨-, -, htracks, -⟩ := h.pointers a b o k ha
  exact ⟨htracks.abstracted, existsPtEdge_iff.2 htracks.held⟩

theorem Mirrors.null_known (h : Mirrors ρ s blocks births) (hs : GraphOk s) (ha : ρ.value a = .constant 0) :
    a = 0 ∧ s.vc.constantContainer[a]? = some 0 ∧ s.graph.existsPtEdge a = true := by
  have hzero := (h.resolve_null hs ha).1
  subst hzero
  exact ⟨rfl, hs.bound_zero, existsPtEdge_iff.2 ⟨_, (lookup_some h.null).1, rfl⟩⟩

/-- Pointers that compare have ids that compare alike, and the graph knows both. -/
theorem Mirrors.equal (h : Mirrors ρ s blocks births) (hs : GraphOk s) {d d' : Datum} (ha : (ρ.value a).Stands d)
    (hb : (ρ.value b).Stands d') {st : Store} {eq : Bool} (heq : st.equal d d' = some eq) :
    (a == b) = eq ∧ s.graph.existsPtEdge a = true ∧ s.graph.existsPtEdge b = true ∧
      (s.vc.constantContainer[a]? = some 0 ∨ s.vc.constantContainer[a]? = none) ∧
      (s.vc.constantContainer[b]? = some 0 ∨ s.vc.constantContainer[b]? = none) := by
  have hne : ρ.value a ≠ ρ.value b → (a == b) = false := fun hne => beq_false_of_ne fun hab => hne (by rw [hab])
  generalize hva : ρ.value a = δ at ha hne
  generalize hvb : ρ.value b = ε at hb hne
  cases ha with
  | null =>
    obtain ⟨ha0, hac, hae⟩ := h.null_known hs hva
    cases hb with
    | null =>
      obtain ⟨hb0, hbc, hbe⟩ := h.null_known hs hvb
      cases heq
      exact ⟨by rw [ha0, hb0]; rfl, hae, hbe, Or.inl hac, Or.inl hbc⟩
    | ptr =>
      obtain ⟨hbc, hbe⟩ := h.pointer_unknown hvb
      simp only [StoreOver.equal] at heq
      split_ifs at heq
      cases heq
      exact ⟨hne nofun, hae, hbe, Or.inl hac, Or.inr hbc⟩
    | int | wild | junk => cases heq
  | ptr =>
    obtain ⟨hac, hae⟩ := h.pointer_unknown hva
    cases hb with
    | null =>
      obtain ⟨hb0, hbc, hbe⟩ := h.null_known hs hvb
      simp only [StoreOver.equal] at heq
      split_ifs at heq
      cases heq
      exact ⟨hne nofun, hae, hbe, Or.inr hac, Or.inl hbc⟩
    | ptr =>
      obtain ⟨hbc, hbe⟩ := h.pointer_unknown hvb
      refine ⟨?_, hae, hbe, Or.inr hac, Or.inr hbc⟩
      simp only [StoreOver.equal] at heq
      split_ifs at heq with hblock hoffset hbirth <;> cases heq
      · subst hblock hoffset hbirth
        rw [h.unique a b _ _ _ hva hvb]
        exact beq_self_eq_true b
      · refine hne fun heq => hoffset ?_
        cases heq
        rfl
      · refine hne fun heq => hblock ?_
        cases heq
        rfl
    | int | wild | junk => cases heq
  | int | wild | junk => cases heq

omit [DataLayout] in
theorem Meaning.Stands.not_number {δ : Meaning} {d : Datum} (h : δ.Stands d) (hd : d.kind = .pointer) (u : Word) :
    δ ≠ .number u := by
  rintro rfl
  cases h
  cases hd

/-- No constraint is about a pointer. -/
theorem Mirrors.constraints_pointer (h : Mirrors ρ s blocks births) (hpath : PathOk es s.toVc) {d : Datum}
    (hd : (ρ.value a).Stands d) (hkind : d.kind = .pointer) (ha : s.vc.constantContainer[a]? = none) :
    s.vc.getConstraintIdVector a = [] := by
  rcases constraints_unknown hpath ha with hl | ⟨k, br, -, hk⟩
  · exact hl
  · exact absurd (h.decided_number ha hk) (hd.not_number hkind _)

theorem StoreOver.kind_of_equal {st : Store} {d d' : Datum} {eq : Bool} (h : st.equal d d' = some eq) :
    d.kind = .pointer ∧ d'.kind = .pointer := by
  cases d <;> cases d' <;> first | exact ⟨rfl, rfl⟩ | cases h

/-- `IsCmp` of pointers answers right, or else the graph does. -/
theorem Mirrors.isCmp_pointers (h : Mirrors ρ s blocks births) (hs : GraphOk s) (hpath : PathOk es s.toVc)
    {d d' : Datum} (ha : (ρ.value a).Stands d) (hb : (ρ.value b).Stands d') {st : Store} {eq : Bool}
    (heq : st.equal d d' = some eq) {r : CmpFlags} (hr : r = .eq ∨ r = .neq) (type : Ty) :
    s.vc.isCmp a b type r = .ok (some (eq == (r == .eq))) ∨
      s.vc.isCmp a b type r = .ok none ∧ s.graph.smgIsCmp a b r = .ok (some (eq == (r == .eq))) := by
  obtain ⟨hids, hae, hbe, hac, hbc⟩ := h.equal hs ha hb heq
  obtain ⟨hkind, hkind'⟩ := StoreOver.kind_of_equal heq
  have hgraph : s.graph.smgIsCmp a b r = .ok (some (eq == (r == .eq))) := by
    obtain ⟨hknown, hknown'⟩ := smgIsCmp_known hae hbe
    rcases hr with rfl | rfl
    · rw [hknown, hids]
      simp
    · rw [hknown', bne, hids]
      cases eq <;> rfl
  unfold ValueContainer.isCmp
  rcases hac with hac | hac <;> rcases hbc with hbc | hbc <;> rw [hac, hbc] <;> dsimp only
  · obtain rfl : a = b := hs.const.interned a b 0 hac hbc
    rw [beq_self_eq_true] at hids
    subst hids
    rcases hr with rfl | rfl
    · exact Or.inl (by simp [ValueContainer.cmpConstants])
    · exact Or.inl (by simp [ValueContainer.cmpConstants])
  · rw [h.constraints_pointer hpath hb hkind' hbc]
    exact Or.inr ⟨rfl, hgraph⟩
  · rw [h.constraints_pointer hpath ha hkind hac]
    exact Or.inr ⟨rfl, hgraph⟩
  · exact Or.inr ⟨isCmpUnknowns_none hpath hac hbc r, hgraph⟩

/-! ## Branches -/

theorem branchOn_inserts (a : ValueId) (br : Bool) (s : VcState) :
    Inserts ⟨s.vc.zero, a, relationOf br⟩ s (final (Angie.branchOn a br s)) := by
  rw [branchOn_eq]
  cases s.vc.knownAs (!br) a (.int 1) with
  | error e => exact (Deletes.refl s).inserts _
  | ok ans =>
    dsimp only
    split
    · exact (Deletes.refl s).inserts _
    · exact insertUnless_inserts _ rfl

omit [DataLayout] in
theorem bit_word (b : BitVec 1) :
    (b.setWidth 64 : Word) = (if (b == 1) then 1 else 0) ∧ (b.setWidth 64 : Word).getLsbD 0 = (b == 1) := by
  revert b
  decide

/-- The direction that a bit takes is one that the container takes too, and what it assumes then is true. -/
theorem Mirrors.branchOn (h : Mirrors ρ s blocks births) (hs : GraphOk s) (hpath : PathOk es s.toVc)
    (hgiven : s.Given a) {b : BitVec 1} (ha : (ρ.value a).Stands (.int .bit b)) :
    ∃ t, Angie.branchOn a (b == 1) s.toVc = .ok () t ∧ Extends s.toVc t ∧ Mirrors ρ (s.withVc t) blocks births := by
  obtain ⟨u, hu, -, hbit⟩ := ha.word
  obtain rfl : u = b.setWidth 64 := hbit rfl
  obtain ⟨hword, hlow⟩ := bit_word b
  have hnot : ¬ Blocked es s.toVc a (b == 1) := by
    rintro (⟨c, hc, hopposite⟩ | ⟨hc, htaken⟩)
    · have hv := (h.constants a c).1 hc
      rw [hv] at hu
      cases hu
      rw [hlow] at hopposite
      exact absurd hopposite.symm (Bool.not_ne_self _)
    · obtain ⟨k, hk⟩ := (hpath.decided a _ hc).1 htaken
      have hv := h.decided_number hc hk
      rw [hv, hword] at hu
      cases hb : b == 1 <;> rw [hb] at hu <;> cases hu
  obtain ⟨t, ht, -⟩ := branch_pathOk hpath hgiven hnot (e := ⟨s.toVc, .branch a (b == 1), .ok none, s.toVc⟩) rfl
  have hins := branchOn_inserts a (b == 1) s.toVc
  rw [ht, final_ok] at hins
  refine ⟨t, ht, hins.extends, h.decide hs hins.extends hins.constants fun k c hc => ?_⟩
  rcases hins.constrs k c hc with hold | rfl
  · exact h.decided k c hold
  · refine ⟨hgiven, ?_⟩
    rcases h.lookup_word hu with hconst | ⟨-, hv⟩
    · exact Or.inl ⟨_, (h.constants a _).1 hconst⟩
    · exact Or.inr ⟨b == 1, rfl, by rw [← hword]; exact hv⟩

end Compare

end Angie
