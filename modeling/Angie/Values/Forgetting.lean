import Angie.Values.Inserted

/-!
# What an assumption forgets

An assumption that the container cannot answer takes the place of the constraint between its two values, and of all
constraints of a value that it equates with a constant. What those had decided is lost unless the new constraint
decides it too. It does for a stronger relation, but not in three cases: a relation between two unknowns that does not
imply the old one (`Weakened`), an unknown whose constraints with other unknowns go when it is equated with a constant
(`Erased`), and an order relation with a constant, from which nothing is ever read (`Displaced`). In all other cases
every query keeps its answer (`answerKept_iff`).
-/

namespace Angie

open Exec Trace ValueContainer

/-- The relation `r`, which `rel` leaves open, does not decide what `rel` decides. -/
def CmpFlags.drops (rel : CmpFlags) : CmpFlags → Bool
  | .eq | .gt | .lt => false
  | .neq => rel == .gtEq || rel == .ltEq
  | .gtEq => rel == .neq || rel == .ltEq
  | .ltEq => rel == .neq || rel == .gtEq
  | _ => true

theorem drops_eq_false {rel r q : CmpFlags} {ans : Bool} (hopen : decideUnknowns rel r = none)
    (hq : decideUnknowns rel q = some ans) : decideUnknowns r q = some ans ↔ rel.drops r = false := by
  cases q with
  | eq | neq | gt | gtEq | lt | ltEq =>
    cases rel <;> simp [decideUnknowns] at hq <;> subst hq <;> cases r <;>
      simp [decideUnknowns, CmpFlags.drops] at hopen ⊢
  | _ => cases hq

/-- An equation with the constant `d` decides what a constraint with `d'` decided that left the equation open. -/
theorem decideConstant_equated {rel q : CmpFlags} {u d d' : Word} {ans : Bool}
    (hopen : decideConstant rel d d' .eq = none) (hq : decideConstant rel u d' q = some ans) :
    decideConstant .eq u d q = some ans := by
  simp only [decideConstant] at hopen
  split at hopen
  · cases hopen
  · rename_i hrel
    split at hopen
    · cases hopen
    · rename_i hne
      cases q with
      | eq | neq =>
        simp only [decideConstant, if_neg hrel] at hq ⊢
        split at hq
        · rename_i h
          cases hq
          have hud : u ≠ d := fun hud => hne ⟨h.1, hud.symm.trans h.2⟩
          simp [hud]
        · cases hq
      | _ => cases hq

/-- Only equality and its negation with a constant decide anything. -/
theorem decideConstant_order {rel q : CmpFlags} {u d : Word} (h1 : rel ≠ .eq) (h2 : rel ≠ .neq) :
    decideConstant rel u d q = none := by
  cases q <;> simp [decideConstant, h1, h2]

section Open

variable [DataLayout] {s : VcState} {a b : ValueId} {t : Ty} {r : CmpFlags}

/-- What a constraint with a constant says, read at the width of the type, about the constant `w`. -/
def readConstant (t : Ty) (w : Word) (q : CmpFlags) (rel : CmpFlags) (d : Word) : Tribool :=
  decideConstant rel (ripBits t.getBitWidth w) (ripBits t.getBitWidth d) q

theorem isCmp_constants {c d : Word} (ha : s.vc.constantContainer[a]? = some c)
    (hb : s.vc.constantContainer[b]? = some d) : s.vc.isCmp a b t r ≠ .ok none := by
  simp only [isCmp, ha, hb]
  cases r <;> simp [cmpConstants]

theorem isCmp_constant (hs : StoreOk s) {u m : ValueId} {w : Word} (hu : s.vc.constantContainer[u]? = none)
    (hm : s.vc.constantContainer[m]? = some w) (h : SameTwo a b u m) :
    s.vc.isCmp a b t r = .ok ((s.vc.getConstraintIdVector u).findSome? (s.vc.verdict (readConstant t w r) u)) := by
  rcases h with ⟨rfl, rfl⟩ | ⟨rfl, rfl⟩
  · simp only [isCmp, hu, hm]
    exact isCmpConstant_eq (hs.stored _)
  · simp only [isCmp, hu, hm]
    exact isCmpConstant_eq (hs.stored _)

/-- An open query about an unknown and a constant was decided by no constraint of the unknown. -/
theorem open_constant (hs : StoreOk s) (hopen : s.vc.isCmp a b t r = .ok none) {u z : ValueId} {d : Word}
    (hu : s.vc.constantContainer[u]? = none) (hz : s.vc.constantContainer[z]? = some d) (h : SameTwo a b u z)
    {k : ConstraintId} {rel : CmpFlags} {z' : ValueId} {d' : Word} (hk : s.Between k rel u z')
    (hz' : s.vc.constantContainer[z']? = some d') : readConstant t d r rel d' = none := by
  rw [isCmp_constant hs hu hz h] at hopen
  have := List.findSome?_eq_none_iff.1 (Except.ok.inj hopen) k (hk.mem hs)
  rwa [hk.verdict, hz', Option.bind_some] at this

/-- An open query about two unknowns is not decided by the constraint between them. -/
theorem open_unknowns (hs : StoreOk s) (hopen : s.vc.isCmp a b t r = .ok none)
    (ha : s.vc.constantContainer[a]? = none) (hb : s.vc.constantContainer[b]? = none) {k : ConstraintId}
    {rel : CmpFlags} (hk : s.Between k rel a b) : decideUnknowns rel r = none := by
  cases hdec : decideUnknowns rel r with
  | none => rfl
  | some ans =>
    have := (isCmpUnknowns_iff hs).2 ⟨k, rel, hk, hdec⟩
    simp only [isCmp, ha, hb, this] at hopen
    cases hopen

/-! ## What is lost -/

/-- A query about the two unknowns `a` and `b`, whose constraint gives way to one that does not decide what it
decided. -/
def Weakened (s : VcState) (a b : ValueId) (r : CmpFlags) (x y : ValueId) (q : CmpFlags) : Prop :=
  s.vc.constantContainer[a]? = none ∧ s.vc.constantContainer[b]? = none ∧ a ≠ b ∧ SameTwo a b x y ∧
  ∃ k rel ans, s.Between k rel a b ∧ decideUnknowns rel q = some ans ∧ rel.drops r = true

/-- A query that a constraint between two unknowns decided, one of which is equated with a constant. (Where that one has
a constraint with itself, the assumption throws.) -/
def Erased (s : VcState) (a b : ValueId) (r : CmpFlags) (x y : ValueId) (q : CmpFlags) : Prop :=
  s.vc.constantContainer[x]? = none ∧ s.vc.constantContainer[y]? = none ∧
  (∃ u, s.Equates ⟨a, b, r⟩ u ∧ (u = x ∨ u = y) ∧ ∀ k rel, ¬ s.Between k rel u u) ∧
  ∃ k rel ans, s.Between k rel x y ∧ decideUnknowns rel q = some ans

/-- A query about an unknown `u` and a constant that was answered from the constraint of `u` with the constant `z`, and
not from any other, when an order relation takes its place. -/
def Displaced (s : VcState) (a b : ValueId) (t : Ty) (r : CmpFlags) (x y : ValueId) (q : CmpFlags) : Prop :=
  r ≠ .eq ∧ r ≠ .neq ∧ ∃ (u z m : ValueId) (d w : Word) (k : ConstraintId) (rel : CmpFlags) (ans : Bool),
    s.vc.constantContainer[u]? = none ∧ s.vc.constantContainer[z]? = some d ∧ s.vc.constantContainer[m]? = some w ∧
    SameTwo a b u z ∧ SameTwo x y u m ∧ s.Between k rel u z ∧
    s.vc.isCmp x y t q = .ok (some ans) ∧
    s.vc.isCmpConstant u t.getBitWidth (ripBits t.getBitWidth w) q ((s.vc.getConstraintIdVector u).filter (· ≠ k)) ≠
      .ok (some ans)

/-- The assumption is open, and loses what answered the query. -/
def Forgotten (s : VcState) (a b : ValueId) (t : Ty) (r : CmpFlags) (x y : ValueId) (q : CmpFlags) : Prop :=
  s.vc.isCmp a b t r = .ok none ∧ (Weakened s a b r x y q ∨ Erased s a b r x y q ∨ Displaced s a b t r x y q)

/-- The query is answered as before when the assumption returns. -/
def AnswerKept (s : VcState) (a b : ValueId) (t : Ty) (r : CmpFlags) (x y : ValueId) (q : CmpFlags) : Prop :=
  ∀ s' ans, assume a b t r s = .ok () s' → s.vc.isCmp x y t q = .ok (some ans) →
    s'.vc.isCmp x y t q = .ok (some ans)

/-! ## The two kinds of query -/

variable {s' : VcState} {n : ConstraintId} {x y : ValueId} {q : CmpFlags} {ans : Bool}

omit [DataLayout] in
/-- An unknown and a constant are told apart by being so. -/
theorem SameTwo.unknown {u m u' m' : ValueId} {w w' : Word} (h : SameTwo x y u m) (h' : SameTwo x y u' m')
    (hu : s.vc.constantContainer[u]? = none) (hm : s.vc.constantContainer[m]? = some w)
    (hu' : s.vc.constantContainer[u']? = none) (hm' : s.vc.constantContainer[m']? = some w') :
    u' = u ∧ m' = m ∧ w' = w := by
  have hboth : u' = u ∧ m' = m := by
    rcases h with ⟨rfl, rfl⟩ | ⟨rfl, rfl⟩ <;> rcases h' with ⟨rfl, rfl⟩ | ⟨rfl, rfl⟩
    · exact ⟨rfl, rfl⟩
    · rw [hu] at hm'
      cases hm'
    · rw [hu] at hm'
      cases hm'
    · exact ⟨rfl, rfl⟩
  obtain ⟨rfl, rfl⟩ := hboth
  rw [hm] at hm'
  cases hm'
  exact ⟨rfl, rfl, rfl⟩

/-- A constraint with another relation than equality and its negation says nothing about a constant. -/
theorem readConstant_order (h1 : r ≠ .eq) (h2 : r ≠ .neq) (w : Word) : readConstant t w q r = fun _ => none := by
  funext d
  exact decideConstant_order h1 h2

/-- What a disequation replaces says nothing either, where it was open. -/
theorem readConstant_neq {d w : Word} {rel : CmpFlags} (hopen : readConstant t d .neq rel d = none) :
    readConstant t w q rel d = none := by
  have h1 : rel ≠ .eq := by
    rintro rfl
    simp [readConstant, decideConstant] at hopen
  have h2 : rel ≠ .neq := by
    rintro rfl
    simp [readConstant, decideConstant] at hopen
  exact decideConstant_order h1 h2

/-- An equation of the unknown `u` with a constant decides what its constraints with constants decided. -/
theorem verdict_of_equated (h : Inserted s ⟨a, b, .eq⟩ n s') (hopen : s.vc.isCmp a b t .eq = .ok none)
    {u z : ValueId} {w d : Word} (hu : s.vc.constantContainer[u]? = none)
    (hz : s.vc.constantContainer[z]? = some d) (hab : SameTwo a b u z)
    (hans : (s.vc.getConstraintIdVector u).findSome? (s.vc.verdict (readConstant t w q) u) = some ans) :
    (s'.vc.getConstraintIdVector u).findSome? (s'.vc.verdict (readConstant t w q) u) = some ans := by
  have hequates : s.Equates ⟨a, b, .eq⟩ u := by
    refine ⟨rfl, ?_⟩
    rcases hab with ⟨rfl, rfl⟩ | ⟨rfl, rfl⟩
    · exact Or.inr ⟨isConstant_eq_false.2 hu, isConstant_iff.2 ⟨d, hz⟩, rfl⟩
    · exact Or.inl ⟨isConstant_iff.2 ⟨d, hz⟩, rfl⟩
  obtain ⟨k, _, hk⟩ := List.exists_of_findSome?_eq_some hans
  obtain ⟨rel, d', z', hbetween, hz', hdec⟩ := verdict_some hk
  rw [h.verdict_equated _ hequates hab, hz, Option.bind_some]
  exact decideConstant_equated (open_constant h.before hopen hu hz hab hbetween hz') hdec

/-- Another constraint of `u` with the constant `z` leaves what the constraints of `u` with other values say. -/
theorem verdict_of_order (h : Inserted s ⟨a, b, r⟩ n s') (hopen : s.vc.isCmp a b t r = .ok none) (hr : r ≠ .eq)
    {u z : ValueId} {w d : Word} (hu : s.vc.constantContainer[u]? = none)
    (hz : s.vc.constantContainer[z]? = some d) (hab : SameTwo a b u z)
    (hans : (s.vc.getConstraintIdVector u).findSome? (s.vc.verdict (readConstant t w q) u) = some ans) :
    (s'.vc.getConstraintIdVector u).findSome? (s'.vc.verdict (readConstant t w q) u) = some ans ↔
      (r = .neq ∨ ∀ k rel, s.Between k rel u z →
        ((s.vc.getConstraintIdVector u).filter (· ≠ k)).findSome? (s.vc.verdict (readConstant t w q) u) =
          some ans) := by
  by_cases hk : ∃ k rel, s.Between k rel u z
  · obtain ⟨k, rel, hk⟩ := hk
    have hp : ∀ k' ∈ s.vc.getConstraintIdVector u,
        decide (k' ≠ k) = true ↔ ∀ rel', ¬ s.Between k' rel' u z := by
      intro k' _
      rw [decide_eq_true_iff]
      constructor
      · exact fun hne rel' hk' => hne (hk.unique h.before hk').1
      · rintro hno rfl
        exact hno rel hk
    rw [h.verdict_replaced _ hr hab hp, hz, Option.bind_some]
    by_cases hneq : r = .neq
    · subst hneq
      -- the constraint that goes did not decide the query
      have hk0 : s.vc.verdict (readConstant t w q) u k = none := by
        rw [hk.verdict, hz, Option.bind_some]
        exact readConstant_neq (open_constant h.before hopen hu hz hab hk hz)
      rw [findSome?_filter_eq (g := s.vc.verdict (readConstant t w q) u) fun k' _ => ?_, hans]
      · simp
      · by_cases hkk : k' = k
        · simp [hkk, hk0]
        · simp [hkk]
    · rw [readConstant_order hr hneq, Option.or_none]
      constructor
      · intro hfilter
        refine Or.inr fun k' rel' hk' => ?_
        rw [(hk.unique h.before hk').1]
        exact hfilter
      · rintro (hr' | hall)
        · exact absurd hr' hneq
        · exact hall k rel hk
  · have hp : ∀ k' ∈ s.vc.getConstraintIdVector u, true = true ↔ ∀ rel', ¬ s.Between k' rel' u z :=
      fun k' _ => ⟨fun _ rel' hk' => hk ⟨k', rel', hk'⟩, fun _ => rfl⟩
    rw [h.verdict_replaced _ hr hab hp, List.filter_true, hans]
    simp only [Option.some_or, true_iff]
    exact Or.inr fun k rel hk' => absurd ⟨k, rel, hk'⟩ hk

/-- A query about an unknown and a constant, after the insertion. -/
theorem constant_kept_iff (h : Inserted s ⟨a, b, r⟩ n s') (hopen : s.vc.isCmp a b t r = .ok none) {u m : ValueId}
    {w : Word} (hu : s.vc.constantContainer[u]? = none) (hm : s.vc.constantContainer[m]? = some w)
    (hxy : SameTwo x y u m) (hans : s.vc.isCmp x y t q = .ok (some ans)) :
    s'.vc.isCmp x y t q = .ok (some ans) ↔ ¬ Displaced s a b t r x y q := by
  have hans' := hans
  rw [isCmp_constant h.before hu hm hxy, Except.ok.injEq] at hans'
  rw [isCmp_constant h.after (by rw [h.constants]; exact hu) (by rw [h.constants]; exact hm) hxy, Except.ok.injEq]
  by_cases hz : ∃ z d, SameTwo a b u z ∧ s.vc.constantContainer[z]? = some d
  · obtain ⟨z, d, hab, hz⟩ := hz
    by_cases hr : r = .eq
    · subst hr
      exact iff_of_true (verdict_of_equated h hopen hu hz hab hans') fun hd => hd.1 rfl
    · rw [verdict_of_order h hopen hr hu hz hab hans']
      have hloop : ∀ k, s.vc.isCmpConstant u t.getBitWidth (ripBits t.getBitWidth w) q
            ((s.vc.getConstraintIdVector u).filter (· ≠ k)) =
          .ok (((s.vc.getConstraintIdVector u).filter (· ≠ k)).findSome? (s.vc.verdict (readConstant t w q) u)) :=
        fun k => isCmpConstant_eq fun id hid => h.before.stored u id (List.mem_of_mem_filter hid)
      constructor
      · rintro hkept ⟨-, hneq, u', z', m', d', w', k, rel, ans', hu', hz', hm', hab', hxy', hk, hans2, hlost⟩
        obtain ⟨rfl, rfl, rfl⟩ := hxy.unknown hxy' hu hm hu' hm'
        obtain ⟨-, rfl, -⟩ := hab.unknown hab' hu hz hu' hz'
        rw [hans] at hans2
        cases hans2
        rcases hkept with hr' | hall
        · exact hneq hr'
        · exact hlost (by rw [hloop, hall k rel hk])
      · intro hn
        by_cases hneq : r = .neq
        · exact Or.inl hneq
        · refine Or.inr fun k rel hk => ?_
          by_contra hlost
          refine hn ⟨hr, hneq, u, z, m, d, w, k, rel, ans, hu, hz, hm, hab, hxy, hk, hans, ?_⟩
          rw [hloop]
          exact fun hok => hlost (Except.ok.inj hok)
  · refine iff_of_true ?_ ?_
    · rw [h.verdict_apart, hans']
      · intro z hab
        cases hzc : s.vc.constantContainer[z]? with
        | none => rfl
        | some d => exact absurd ⟨z, d, hab, hzc⟩ hz
      · cases ha : s.vc.constantContainer[a]? with
        | none => exact Or.inl rfl
        | some c =>
          cases hb : s.vc.constantContainer[b]? with
          | none => exact Or.inr rfl
          | some d => exact absurd hopen (isCmp_constants ha hb)
    · rintro ⟨-, -, u', z', m', d', w', -, -, -, hu', hz', hm', hab', hxy', -⟩
      obtain ⟨rfl, rfl, rfl⟩ := hxy.unknown hxy' hu hm hu' hm'
      exact hz ⟨z', d', hab', hz'⟩

omit [DataLayout] in
/-- A value that an assumption relates to itself, or equates with a constant, has no constraint with itself when the
assumption returns. -/
theorem no_self_of_returns (hs : StoreOk s) (hcount : s.Counted) (hins : insertConstraint ⟨a, b, r⟩ s = .ok () s')
    {u : ValueId} (hu : s.Equates ⟨a, b, r⟩ u ∨ (a = u ∧ b = u ∧ ∀ z, ¬ s.Equates ⟨a, b, r⟩ z)) (k : ConstraintId)
    (rel : CmpFlags) : ¬ s.Between k rel u u := by
  intro hk
  have hstored : s.vc.constrContainer[k]? = some ⟨u, u, rel⟩ := hk.elim id id
  have htwo := hcount k _ hstored u
  simp only [if_true] at htwo
  have hone : (s.vc.getConstraintIdVector u).count k ≤ 1 := by
    rcases hu with hu | ⟨rfl, rfl, hne⟩
    · exact List.nodup_iff_count_le_one.1 ((insertConstraint_stored hs hins).1 u hu) k
    · exact insertConstraint_once hs hins hne hstored (Or.inl ⟨rfl, rfl⟩)
  omega

/-- A query about two unknowns, after the insertion. -/
theorem unknowns_kept_iff (hcount : s.Counted) (h : Inserted s ⟨a, b, r⟩ n s')
    (hins : insertConstraint ⟨a, b, r⟩ s = .ok () s') (hopen : s.vc.isCmp a b t r = .ok none)
    (hx : s.vc.constantContainer[x]? = none) (hy : s.vc.constantContainer[y]? = none)
    (hans : s.vc.isCmp x y t q = .ok (some ans)) :
    s'.vc.isCmp x y t q = .ok (some ans) ↔ ¬ (Weakened s a b r x y q ∨ Erased s a b r x y q) := by
  have hpair : s.vc.isCmpUnknowns x y q (s.vc.getConstraintIdVector x) = .ok (some ans) := by
    simpa only [isCmp, hx, hy] using hans
  have hgoal : s'.vc.isCmp x y t q = s'.vc.isCmpUnknowns x y q (s'.vc.getConstraintIdVector x) := by
    simp only [isCmp, h.constants, hx, hy]
  obtain ⟨k, rel, hk, hdec⟩ := (isCmpUnknowns_iff h.before).1 hpair
  rw [hgoal]
  by_cases hxy : SameTwo a b x y
  · rw [h.unknowns_replaced hxy]
    have hab : s.vc.constantContainer[a]? = none ∧ s.vc.constantContainer[b]? = none := by
      rcases hxy with ⟨rfl, rfl⟩ | ⟨rfl, rfl⟩
      · exact ⟨hx, hy⟩
      · exact ⟨hy, hx⟩
    have hk' : s.Between k rel a b := by
      rcases hxy with ⟨rfl, rfl⟩ | ⟨rfl, rfl⟩
      · exact hk
      · exact hk.symm
    have hnone : ∀ z, ¬ s.Equates ⟨a, b, r⟩ z := by
      intro z hz
      obtain ⟨z', d, ⟨rfl, rfl⟩ | ⟨rfl, rfl⟩, hd⟩ := hz.sameTwo
      · rw [hab.2] at hd
        cases hd
      · rw [hab.1] at hd
        cases hd
    rw [drops_eq_false (open_unknowns h.before hopen hab.1 hab.2 hk') hdec]
    constructor
    · rintro hdrop (⟨-, -, -, -, k', rel', ans', hk'', -, hdrop'⟩ | ⟨-, -, ⟨u, hu, -⟩, -⟩)
      · rw [(hk'.unique h.before hk'').2, hdrop] at hdrop'
        cases hdrop'
      · exact hnone u hu
    · intro hn
      rw [Bool.eq_false_iff]
      intro hdrop
      refine hn (Or.inl ⟨hab.1, hab.2, ?_, hxy, k, rel, ans, hk', hdec, hdrop⟩)
      rintro rfl
      exact no_self_of_returns h.before hcount hins (Or.inr ⟨rfl, rfl, hnone⟩) k rel hk'
  · rw [h.unknowns_other hxy hpair]
    constructor
    · rintro hne (⟨-, -, -, hsame, -⟩ | ⟨-, -, ⟨u, hu, hux, -⟩, -⟩)
      · exact hxy hsame
      · exact hux.elim (hne u hu).1 (hne u hu).2
    · intro hn z hz
      have hself := no_self_of_returns h.before hcount hins (Or.inl hz)
      constructor
      · rintro rfl
        exact hn (Or.inr ⟨hx, hy, ⟨_, hz, Or.inl rfl, hself⟩, k, rel, ans, hk, hdec⟩)
      · rintro rfl
        exact hn (Or.inr ⟨hx, hy, ⟨_, hz, Or.inr rfl, hself⟩, k, rel, ans, hk, hdec⟩)

/-! ## Assumptions -/

theorem assume_of_open (hopen : s.vc.isCmp a b t r = .ok none) :
    assume a b t r s = insertConstraint ⟨a, b, r⟩ s := by
  rw [assume_eq]
  simp [insertUnless, hopen]

/-- An assumption that returns changed nothing, or was open, unless it contradicts what is known. -/
theorem assume_cases (hn : s.vc.isCmp a b t r ≠ .ok (some false)) (h : assume a b t r s = .ok () s') :
    s' = s ∨ s.vc.isCmp a b t r = .ok none := by
  rw [assume_eq] at h
  simp only [insertUnless] at h
  cases hq : s.vc.isCmp a b t r with
  | error e =>
    rw [hq] at h
    cases h
  | ok known =>
    rw [hq] at h
    rcases known with _ | _ | _
    · exact Or.inr rfl
    · exact absurd hq hn
    · cases h
      exact Or.inl rfl

omit [DataLayout] in
/-- A constraint between different values is stored, where a value that it equates with a constant has no constraint
with itself. -/
theorem insertConstraint_distinct (hs : StoreOk s) (hcount : s.Counted) (hab : a ≠ b)
    (hself : ∀ u, s.Equates ⟨a, b, r⟩ u → ∀ k rel, ¬ s.Between k rel u u) :
    ∃ s', insertConstraint ⟨a, b, r⟩ s = .ok () s' := by
  refine insertConstraint_returns hs (fun u hu => List.nodup_iff_count_le_one.2 fun k => ?_) ?_
  · by_cases hk : k ∈ s.vc.getConstraintIdVector u
    · obtain ⟨⟨d1, d2, rel⟩, hd, _⟩ := hs.stored u k hk
      rw [hcount k _ hd u]
      by_cases h1 : u = d1
      · by_cases h2 : u = d2
        · subst h1 h2
          exact absurd (Or.inl hd) (hself u hu k rel)
        · subst h1
          simp [h2]
      · simp only [if_neg h1]
        split <;> omega
    · simp [List.count_eq_zero_of_not_mem hk]
  · rintro k ⟨d1, d2, rel⟩ hd (⟨rfl, rfl⟩ | ⟨rfl, rfl⟩)
    · rw [hcount k _ hd]
      simp [hab]
    · rw [hcount k _ hd]
      simp [hab]

/-- What is forgotten is lost by an assumption that returns. -/
theorem returns_of_forgotten (hs : StoreOk s) (hcount : s.Counted) (h : Forgotten s a b t r x y q) :
    ∃ s', insertConstraint ⟨a, b, r⟩ s = .ok () s' := by
  obtain ⟨hopen, ⟨ha, hb, hab, -⟩ | ⟨-, -, ⟨u, hu, -, hself⟩, -⟩ |
    ⟨hr, -, u, z, m, d, w, k, rel, ans, hu, hz, -, hab, -⟩⟩ := h
  · -- no unknown is equated with a constant
    refine insertConstraint_distinct hs hcount hab fun u hu => ?_
    obtain ⟨z, d, ⟨rfl, rfl⟩ | ⟨rfl, rfl⟩, hd⟩ := hu.sameTwo
    · rw [hb] at hd
      cases hd
    · rw [ha] at hd
      cases hd
  · -- only `u` is
    have hne : a ≠ b := by
      rintro rfl
      obtain ⟨z, d, ⟨rfl, rfl⟩ | ⟨rfl, rfl⟩, hd⟩ := hu.sameTwo
      · exact isCmp_constants hd hd hopen
      · exact isCmp_constants hd hd hopen
    refine insertConstraint_distinct hs hcount hne fun v hv => ?_
    have hvu : v = u := by
      rcases hu.2 with ⟨h1, rfl⟩ | ⟨h1, h2, rfl⟩ <;> rcases hv.2 with ⟨h3, rfl⟩ | ⟨h3, h4, rfl⟩
      · rfl
      · rw [h1] at h3
        cases h3
      · rw [h1] at h3
        cases h3
      · rfl
    rw [hvu]
    exact hself
  · -- nothing is equated
    have hne : a ≠ b := by
      rintro rfl
      rcases hab with ⟨rfl, rfl⟩ | ⟨rfl, rfl⟩
      · rw [hu] at hz
        cases hz
      · rw [hu] at hz
        cases hz
    exact insertConstraint_distinct hs hcount hne fun v hv => absurd hv.1 hr

variable {Adm : VcState → VcOp → Prop} {es : VcHistory}

theorem isCmp_of_between (hs : StoreOk s) (hx : s.vc.constantContainer[x]? = none)
    (hy : s.vc.constantContainer[y]? = none) {k : ConstraintId} {rel : CmpFlags} (hk : s.Between k rel x y)
    (hdec : decideUnknowns rel q = some ans) : s.vc.isCmp x y t q = .ok (some ans) := by
  simp only [isCmp, hx, hy]
  exact (isCmpUnknowns_iff hs).2 ⟨k, rel, hk, hdec⟩

/-- What is forgotten was known, and is not known any more. -/
theorem not_answerKept_of_forgotten (hs : StoreOk s) (hcount : s.Counted) (h : Forgotten s a b t r x y q) :
    ¬ AnswerKept s a b t r x y q := by
  intro hkept
  obtain ⟨s', hins⟩ := returns_of_forgotten hs hcount h
  have hi := inserted_of_ok hs hins
  obtain ⟨hopen, hlost⟩ := h
  have hassume := (assume_of_open hopen).trans hins
  rcases hlost with hw | he | hd
  · obtain ⟨ha, hb, -, hxy, k, rel, ans, hk, hdec, -⟩ := id hw
    rcases hxy with ⟨rfl, rfl⟩ | ⟨rfl, rfl⟩
    · have hans := isCmp_of_between (t := t) hs ha hb hk hdec
      exact (unknowns_kept_iff hcount hi hins hopen ha hb hans).1 (hkept s' ans hassume hans) (Or.inl hw)
    · have hans := isCmp_of_between (t := t) hs hb ha hk.symm hdec
      exact (unknowns_kept_iff hcount hi hins hopen hb ha hans).1 (hkept s' ans hassume hans) (Or.inl hw)
  · obtain ⟨hx, hy, -, k, rel, ans, hk, hdec⟩ := id he
    have hans := isCmp_of_between (t := t) hs hx hy hk hdec
    exact (unknowns_kept_iff hcount hi hins hopen hx hy hans).1 (hkept s' ans hassume hans) (Or.inr he)
  · obtain ⟨-, -, u, z, m, d, w, k, rel, ans, hu, -, hm, -, hxy, -, hans, -⟩ := id hd
    exact (constant_kept_iff hi hopen hu hm hxy hans).1 (hkept s' ans hassume hans) hd

/-- A query keeps its answer over every assumption that is not known to be false, unless the assumption forgets what
answered it. -/
theorem answerKept_iff (hrun : VcRun Adm es s) (hn : s.vc.isCmp a b t r ≠ .ok (some false)) (x y : ValueId)
    (q : CmpFlags) : AnswerKept s a b t r x y q ↔ ¬ Forgotten s a b t r x y q := by
  have hs := (run_ok hrun).store
  have hcount := run_counted hrun
  refine ⟨fun hkept h => not_answerKept_of_forgotten hs hcount h hkept, fun hnot s' ans hassume hans => ?_⟩
  rcases assume_cases hn hassume with rfl | hopen
  · exact hans
  · have hins := (assume_of_open hopen).symm.trans hassume
    have hi := inserted_of_ok hs hins
    cases hx : s.vc.constantContainer[x]? with
    | none =>
      cases hy : s.vc.constantContainer[y]? with
      | none =>
        refine (unknowns_kept_iff hcount hi hins hopen hx hy hans).2 fun hlost => hnot ⟨hopen, ?_⟩
        exact hlost.imp_right Or.inl
      | some d =>
        refine (constant_kept_iff hi hopen hx hy (Or.inl ⟨rfl, rfl⟩) hans).2 fun hlost => hnot ⟨hopen, ?_⟩
        exact Or.inr (Or.inr hlost)
    | some c =>
      cases hy : s.vc.constantContainer[y]? with
      | none =>
        refine (constant_kept_iff hi hopen hy hx (Or.inr ⟨rfl, rfl⟩) hans).2 fun hlost => hnot ⟨hopen, ?_⟩
        exact Or.inr (Or.inr hlost)
      | some d =>
        -- two constants are compared
        simp only [isCmp, hi.constants, hx, hy] at hans ⊢
        exact hans

end Open

/-! ## Two bounds -/

section Bounds

attribute [local instance] Ty.x86

/-- Two unknown bytes, the first assumed to be at most the second, and the constant 5. -/
def boundedByte : VcHistory × VcState :=
  play VcOp.exec [] (VcState.new {}) [.createVal (.int 8), .createVal (.int 8), .assume 1 2 (.int 8) .ltEq,
    .createConstIntVal 5]

theorem boundedByte_run : VcRun (UsedAt 8) boundedByte.1 boundedByte.2 :=
  Run.play (Run.start ⟨{}, Int.le_refl 0, rfl⟩) ⟨rfl, rfl, rfl, trivial, trivial⟩

/-- The bound is forgotten when the opposite one is assumed, and when the first byte is equated with the constant. -/
theorem boundedByte_forgets : boundedByte.2.vc.isCmp 1 2 (.int 8) .gtEq = .ok none ∧
    boundedByte.2.vc.isCmp 1 3 (.int 8) .eq = .ok none ∧
    ¬ AnswerKept boundedByte.2 1 2 (.int 8) .gtEq 1 2 .ltEq ∧ ¬ AnswerKept boundedByte.2 1 3 (.int 8) .eq 1 2 .ltEq := by
  refine ⟨rfl, rfl, fun h => ?_, fun h => ?_⟩
  · exact absurd (h _ true rfl rfl) nofun
  · exact absurd (h _ true rfl rfl) nofun

/-- Where the first is assumed to be less, it is as well at most the second. -/
theorem boundedByte_kept : AnswerKept boundedByte.2 1 2 (.int 8) .lt 1 2 .ltEq ↔
    ¬ Forgotten boundedByte.2 1 2 (.int 8) .lt 1 2 .ltEq :=
  answerKept_iff boundedByte_run (by rw [show boundedByte.2.vc.isCmp 1 2 (.int 8) .lt = .ok none from rfl]; nofun) 1 2
    .ltEq

end Bounds

end Angie
