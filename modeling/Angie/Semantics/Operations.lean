import Angie.Semantics.Following

/-!
# The operations follow the machine

Each operation of the analysis follows what the machine does by it: `BinOp`, `Cmp`, `Cast` and the rest yield values
that are read as the data of the machine, the operations on memory change the graph as the machine changes the blocks,
and where the machine fails the operation throws (`follows_basic`).
-/

namespace Angie

open Exec Llvm KeyedList

section Operations

variable [DataLayout] {P : Program} {W : View} {st : Store} {out : Option Store} {α β : Type} {args : OperationArgs}

/-! ## Operands -/

/-- An operand is read from the mapping. -/
theorem follows_operand {R : View → β → Prop} {x : Except Exn FrontendIdTypePair} {var : FrontendIdTypePair} {d : Datum}
    {f : FrontendIdTypePair → ValueId → OpM β} (hx : x = .ok var) (hd : P.value st var = some d)
    (hf : ∀ v W', W.Le W' → W'.Has v d → Follows P W' st (f var v) out R) :
    Follows P W st (do let var ← ofExcept x; let v ← OpM.getValue P.ctx var; f var v) out R :=
  follows_ofExcept hx (follows_bind (follows_getValue hd) fun v W' hle hv => hf v W' hle hv)

/-- The end of an operation that computes a datum. -/
theorem follows_yield {x : Except Exn FrontendIdTypePair} {target : FrontendIdTypePair} (hx : x = .ok target)
    {m : OpM ValueId} {st₁ : Store} {d : Datum} (hm : Follows P W st m (some st₁) (fun W' v => W'.Has v d)) :
    Follows P W st (do let v ← m; let target ← ofExcept x; OpM.assignValue target v) (some (st₁.assign target d))
      (fun _ _ => True) :=
  follows_bind hm fun _ _ _ hv => follows_assignTarget hx hv

/-! ## Integers -/

omit [DataLayout] in
theorem createVal_unknown {type : Ty} {s t : VcState} {v : ValueId} (hs : ConstOk s) (h : createVal type s = .ok v t) :
    t.vc.constantContainer[v]? = none := by
  rw [createVal_apply] at h
  cases h
  exact constant_next hs (Int.le_refl _)

theorem binOp_cases (a b : ValueId) (type : Ty) (o : BinaryOpOptions) (s : VcState) :
    binOp a b type o s = createVal type s ∨ ∃ x y, s.vc.constantContainer[a]? = some x ∧
      s.vc.constantContainer[b]? = some y ∧
      ((∃ z, evalBinOp type.getBitWidth o x y = .ok (some z) ∧ binOp a b type o s = createConstIntVal z s) ∨
        ∃ e, evalBinOp type.getBitWidth o x y = .error e ∧ binOp a b type o s = .error e s) := by
  cases ha : s.vc.constantContainer[a]? with
  | none =>
    left
    unfold binOp
    rw [bind_of_ok (get_apply s)]
    simp only [ha]
  | some x =>
    cases hb : s.vc.constantContainer[b]? with
    | none =>
      left
      unfold binOp
      rw [bind_of_ok (get_apply s)]
      simp only [ha, hb]
    | some y =>
      cases he : evalBinOp type.getBitWidth o x y with
      | error e => exact Or.inr ⟨x, y, rfl, rfl, Or.inr ⟨e, he, binOp_of_error rfl ha hb he⟩⟩
      | ok res =>
        cases res with
        | none => exact Or.inl (binOp_of_none rfl ha hb he)
        | some z => exact Or.inr ⟨x, y, rfl, rfl, Or.inl ⟨z, he, binOp_of_some rfl ha hb he⟩⟩

/-- `BinOp` yields the result, whether its operands are known or not. -/
theorem follows_binOp {a b : ValueId} {o : BinaryOpOptions} {w : Width} {x y r : BitVec w.bits}
    (ha : W.Has a (.int w x)) (hb : W.Has b (.int w y)) (hbit : w.bits = 1 → o.opKind.isBitwise = true)
    (hr : o.apply x y = some r) :
    Follows P W st (OpM.callVc (binOp a b w.type o)) (some st) (fun W' v => W'.Has v (.int w r)) := by
  have hwidth : w.type.getBitWidth = w.bits := Ty.getBitWidth_int _
  refine follows_yields (.binOp a b w.type o) rfl (fun _ => rfl) (δ := .number (r.setWidth 64)) trivial
    (Meaning.stands_number r) (fun s v t u hs hm hu => ?_) fun s e t hs hm => ?_
  · have hconst := hs.ok.graphOk.const
    rcases binOp_cases a b w.type o s.toVc with hval | ⟨x', y', ha', hb', ⟨z, hz, hval⟩ | ⟨e, -, hval⟩⟩
    · cases (createVal_unknown hconst (hval.symm.trans hm)).symm.trans hu
    · obtain ⟨-, hv⟩ := createConstIntVal_ok (hval.symm.trans hm)
      cases hv.symm.trans hu
      obtain ⟨ua, hua, rfl, -⟩ := ha.stands.word
      obtain ⟨ub, hub, rfl, -⟩ := hb.stands.word
      rw [hwidth] at hz
      have hx' : x' = ua := by
        rw [(hs.mirrors.constants a x').1 ha'] at hua
        exact Option.some.inj hua
      have hy' : y' = ub := by
        rw [(hs.mirrors.constants b y').1 hb'] at hub
        exact Option.some.inj hub
      subst hx' hy'
      exact .int rfl (evalBinOp_apply w.pos w.le hr hz) fun h1 => evalBinOp_bitwise w.le hr (hbit h1) hz
    · cases hval.symm.trans hm
  · rcases binOp_cases a b w.type o s.toVc with hval | ⟨x', y', ha', hb', ⟨z, hz, hval⟩ | ⟨e', he', hval⟩⟩
    · cases hm.symm.trans (hval.trans (createVal_apply _ _))
    · obtain ⟨v, u, hok, -⟩ := createConstIntVal_spec z s.toVc
      cases hm.symm.trans (hval.trans hok)
    · cases hm.symm.trans hval
      exact evalBinOp_not_branch he'

theorem extendInt_ok (a : ValueId) (source target : Ty) (flags : ArithFlags) (s : VcState) :
    ∃ v t, extendInt a source target flags s = .ok v t := by
  unfold extendInt
  rw [bind_of_ok (get_apply s)]
  cases s.vc.constantContainer[a]? with
  | none => exact ⟨_, _, createVal_apply _ s⟩
  | some c =>
    dsimp only
    split
    · exact (createConstIntVal_spec _ s).imp fun _ h => h.imp fun _ h => h.1
    · exact (createConstIntVal_spec _ s).imp fun _ h => h.imp fun _ h => h.1

/-- `ExtendInt` of a size does not throw. -/
theorem follows_extendInt (a : ValueId) (source target : Ty) (flags : ArithFlags) :
    Follows P W st (OpM.callVc (extendInt a source target flags)) (some st) (fun _ _ => True) := by
  refine follows_callVc (.extendInt a source target flags) rfl (fun _ => rfl) (δ := .other) trivial
    (fun _ _ _ _ _ _ _ => trivial) fun s e t _ hm => ?_
  obtain ⟨v, u, hok⟩ := extendInt_ok a source target flags s.toVc
  cases hm.symm.trans hok

omit [DataLayout] in
theorem truncateInt_cases (a : ValueId) (source target : Ty) (s : VcState) :
    truncateInt a source target s = createVal target s ∨
      ∃ c, s.vc.constantContainer[a]? = some c ∧ truncateInt a source target s = .ok a s := by
  unfold truncateInt
  rw [bind_of_ok (get_apply s)]
  cases s.vc.constantContainer[a]? with
  | none => exact Or.inl rfl
  | some c => exact Or.inr ⟨c, rfl, rfl⟩

/-- `TruncateInt` hands a constant on, whose low bits are right. -/
theorem follows_truncateInt {a : ValueId} {v w : Width} {x : BitVec v.bits} (ha : W.Has a (.int v x))
    (hle : w.bits ≤ v.bits) (hne : w.bits ≠ 1) (source target : Ty) :
    Follows P W st (OpM.callVc (truncateInt a source target)) (some st)
      (fun W' r => W'.Has r (.int w (x.setWidth w.bits))) := by
  refine follows_yields (.truncateInt a source target) rfl (fun _ => rfl)
    (δ := .number ((x.setWidth w.bits).setWidth 64)) trivial (Meaning.stands_number _)
    (fun s r t u hs hm hu => ?_) fun s e t _ hm => ?_
  · rcases truncateInt_cases a source target s.toVc with hval | ⟨c, hc, hval⟩
    · cases (createVal_unknown hs.ok.graphOk.const (hval.symm.trans hm)).symm.trans hu
    · cases hm.symm.trans hval
      cases hc.symm.trans hu
      obtain ⟨c', hc', rfl, -⟩ := ha.stands.word
      rw [(hs.mirrors.constants a _).1 hc] at hc'
      cases hc'
      exact .int rfl (BitVec.setWidth_setWidth_of_le _ hle).symm fun h1 => absurd h1 hne
  · rcases truncateInt_cases a source target s.toVc with hval | ⟨c, -, hval⟩
    · cases hm.symm.trans (hval.trans (createVal_apply _ _))
    · cases hm.symm.trans hval

omit [DataLayout] in
/-- A bit stands for itself, so it is the same integer at any width. -/
theorem View.Has.zExt {v : ValueId} {b : BitVec 1} (hv : W.Has v (.int .bit b)) (w : Width) :
    W.Has v (.int w (b.setWidth w.bits)) := by
  obtain ⟨u, hu, -, hcanonical⟩ := hv.stands.word
  obtain rfl : u = b.setWidth 64 := hcanonical rfl
  refine ⟨hv.given, .int hu (BitVec.setWidth_setWidth_of_le _ w.le) fun _ => ?_⟩
  exact (BitVec.setWidth_setWidth fun h => Nat.not_lt.2 w.pos h.1).symm

/-! ## Comparisons -/

/-- `IsCmp` with what the graph knows answers right, if it does. -/
theorem follows_isCmp {a b : ValueId} {type : Ty} {r : CmpFlags} {right : Bool}
    (h : ∀ s, Models P W s st → ∃ ans, s.state.vc.isCmp a b type r = .ok ans ∧ (∀ t, ans = some t → t = right) ∧
      (ans = none → ∃ ans', s.state.graph.smgIsCmp a b r = .ok ans' ∧ ∀ t, ans' = some t → t = right)) :
    Follows P W st (MemGraphOp.isCmp a b type r) (some st) (fun _ ans => ∀ t, ans = some t → t = right) := by
  intro s hs
  obtain ⟨ans, hans, hright, hgraph⟩ := h s hs
  have hquery : OpM.callVc (VcM.query (·.isCmp a b type r)) s = .ok ans s := OpM.callVc_run (query_of_ok hans)
  unfold MemGraphOp.isCmp
  rw [bind_of_ok hquery]
  cases ans with
  | some t => exact ⟨W, st, rfl, .refl W, hs, hright⟩
  | none =>
    obtain ⟨ans', hans', hright'⟩ := hgraph rfl
    rw [if_pos rfl, bind_of_ok (get_apply s), hans']
    exact ⟨W, st, rfl, .refl W, hs, hright'⟩

theorem follows_cmpValue {ans : Option Bool} {right : Bool} (h : ∀ t, ans = some t → t = right) :
    Follows P W st (MemGraphOp.cmpValue ans) (some st)
      (fun W' v => W'.Has v (.int .bit (BitVec.ofBool right))) := by
  cases ans with
  | none => exact follows_createVal (δ := .number _) trivial (Meaning.stands_number _) _
  | some t =>
    obtain rfl := h t rfl
    refine follows_weaken (follows_createConstIntVal (if t then 1 else 0)) fun W' v hv => ⟨hv.1, ?_⟩
    rw [hv.2]
    cases t <;> exact .int rfl rfl fun _ => rfl

/-! ## Pointers -/

section Derive

variable {ρ : Reading} {s : MemState} {blocks : List Block} {births : ℕ} {p offset : ValueId} {a : Word} {d : Datum}

/-- A pointer that is moved into a register is new. -/
theorem Mirrors.derive (h : Mirrors ρ s blocks births) (hs : GraphOk s) (hgiven : s.Given p)
    (hd : (ρ.value p).Stands d) (hkind : d.kind = .pointer) (ha : s.vc.constantContainer[offset]? = some a) :
    ∃ r t ρ', createDerivedPointer p offset s = .ok r t ∧ Continues ρ s ρ' t blocks (births + 1) ∧
      (ρ'.value r.1).Stands (d.move a births) := by
  have hle : births ≤ births + 1 := Nat.le_succ _
  generalize hv : ρ.value p = δ at hd
  cases hd with
  | int => cases hkind
  | null =>
    obtain ⟨r, t, ρ', u', hrun, hc, hr, hzero⟩ := h.derive_constant hs hgiven hv ha
    refine ⟨r, t, ρ', hrun, ⟨hc.mirrors.count hle, hc.value⟩, ?_⟩
    rw [hr, Datum.move]
    split
    · rename_i ha0
      rw [hzero rfl ha0]
      exact .null
    · exact .wild
  | wild =>
    obtain ⟨r, t, ρ', u', hrun, hc, hr, -⟩ := h.derive_constant hs hgiven hv ha
    refine ⟨r, t, ρ', hrun, ⟨hc.mirrors.count hle, hc.value⟩, ?_⟩
    rw [hr]
    exact .wild
  | junk =>
    obtain ⟨r, t, ρ', hrun, hc, hr⟩ := h.derive_other hs hgiven hv offset
    refine ⟨r, t, ρ', hrun, ⟨hc.mirrors.count hle, hc.value⟩, ?_⟩
    rw [hr]
    exact .junk
  | ptr =>
    obtain ⟨r, t, ρ', hrun, hc, hr⟩ :=
      h.derive_pointer hs hv ha (some births) hle fun n hn => ⟨(Option.some.inj hn).symm, Nat.lt_succ_self _⟩
    refine ⟨r, t, ρ', hrun, hc, ?_⟩
    rw [hr]
    exact .ptr

/-- A pointer that no register gets. -/
theorem Mirrors.derive_unseen (h : Mirrors ρ s blocks births) (hs : GraphOk s) (hgiven : s.Given p)
    (hd : (ρ.value p).Stands d) (hkind : d.kind = .pointer) (ha : s.vc.constantContainer[offset]? = some a) :
    ∃ r t ρ', createDerivedPointer p offset s = .ok r t ∧ Continues ρ s ρ' t blocks births := by
  generalize hv : ρ.value p = δ at hd
  cases hd with
  | int => cases hkind
  | null | wild =>
    obtain ⟨r, t, ρ', u', hrun, hc, -⟩ := h.derive_constant hs hgiven hv ha
    exact ⟨r, t, ρ', hrun, hc⟩
  | junk =>
    obtain ⟨r, t, ρ', hrun, hc, -⟩ := h.derive_other hs hgiven hv offset
    exact ⟨r, t, ρ', hrun, hc⟩
  | ptr =>
    obtain ⟨r, t, ρ', hrun, hc, -⟩ := h.derive_pointer hs hv ha none (Nat.le_refl _) nofun
    exact ⟨r, t, ρ', hrun, hc⟩

end Derive

/-! ## What the operations do -/

theorem follows_binOpOf {o : BinaryOpOptions} {x y target : FrontendIdTypePair} {w : Width} {a b r : BitVec w.bits}
    (ho : args.binaryOptions = .ok o) (hx : args.getOperand 0 = .ok x) (hy : args.getOperand 1 = .ok y)
    (htarget : args.getTarget = .ok target) (htype : x.type = w.type) (ha : P.value st x = some (.int w a))
    (hb : P.value st y = some (.int w b)) (hbit : w.bits = 1 → o.opKind.isBitwise = true) (hr : o.apply a b = some r) :
    Follows P W st (MemGraphOp.binOp P.ctx args) (some (st.assign target (.int w r))) (fun _ _ => True) := by
  refine follows_ofExcept ho (follows_operand hx ha fun lhs W₁ _ hlhs => ?_)
  refine follows_operand hy hb fun rhs W₂ hle hrhs => ?_
  rw [htype]
  exact follows_yield htarget (follows_binOp (hlhs.later hle) hrhs hbit hr)

/-- A comparison whose answer is right, or not known. -/
theorem follows_cmp {flags : CmpFlags} {x y target : FrontendIdTypePair} {a b : Datum} {right : Bool}
    (hflags : args.cmpOptions = .ok flags) (hx : args.getOperand 0 = .ok x) (hy : args.getOperand 1 = .ok y)
    (htarget : args.getTarget = .ok target) (ha : P.value st x = some a) (hb : P.value st y = some b)
    (hright : ∀ W' s lhs rhs, Models P W' s st → W'.Has lhs a → W'.Has rhs b →
      ∃ ans, s.state.vc.isCmp lhs rhs x.type flags = .ok ans ∧ (∀ t, ans = some t → t = right) ∧
        (ans = none → ∃ ans', s.state.graph.smgIsCmp lhs rhs flags = .ok ans' ∧ ∀ t, ans' = some t → t = right)) :
    Follows P W st (MemGraphOp.cmp P.ctx args) (some (st.assign target (.int .bit (BitVec.ofBool right))))
      (fun _ _ => True) := by
  refine follows_operand hx ha fun lhs W₁ _ hlhs => ?_
  refine follows_operand hy hb fun rhs W₂ hle hrhs => ?_
  refine follows_ofExcept hflags (follows_bind (follows_isCmp fun s hs => hright W₂ s lhs rhs hs (hlhs.later hle) hrhs)
    fun ans W₃ _ hans => ?_)
  exact follows_yield htarget (follows_cmpValue hans)

theorem follows_cmpOf {flags : CmpFlags} {x y target : FrontendIdTypePair} {w : Width} {a b : BitVec w.bits}
    (hflags : args.cmpOptions = .ok flags) (hx : args.getOperand 0 = .ok x) (hy : args.getOperand 1 = .ok y)
    (htarget : args.getTarget = .ok target) (htype : x.type = w.type) (ha : P.value st x = some (.int w a))
    (hb : P.value st y = some (.int w b)) (hr : flags.isRelation = true) :
    Follows P W st (MemGraphOp.cmp P.ctx args)
      (some (st.assign target (.int .bit (BitVec.ofBool (flags.holds a b))))) (fun _ _ => True) := by
  refine follows_cmp hflags hx hy htarget ha hb fun W' s lhs rhs hs hlhs hrhs => ?_
  rw [htype]
  obtain ⟨es, hpath⟩ := hs.ok.pathOk
  obtain ⟨ans, hans, hright⟩ := hs.mirrors.isCmp hpath hlhs.stands hrhs.stands hr
  refine ⟨ans, hans, hright, fun hnone => ⟨none, ?_, nofun⟩⟩
  subst hnone
  exact hs.mirrors.smgIsCmp hlhs.stands hrhs.stands hans hr

theorem follows_cmpPointers {flags : CmpFlags} {x y target : FrontendIdTypePair} {a b : Datum} {eq : Bool}
    (hflags : args.cmpOptions = .ok flags) (hx : args.getOperand 0 = .ok x) (hy : args.getOperand 1 = .ok y)
    (htarget : args.getTarget = .ok target) (ha : P.value st x = some a) (hb : P.value st y = some b)
    (heq : st.equal a b = some eq) (hr : flags = .eq ∨ flags = .neq) :
    Follows P W st (MemGraphOp.cmp P.ctx args)
      (some (st.assign target (.int .bit (BitVec.ofBool (eq == (flags == .eq)))))) (fun _ _ => True) := by
  refine follows_cmp hflags hx hy htarget ha hb fun W' s lhs rhs hs hlhs hrhs => ?_
  obtain ⟨es, hpath⟩ := hs.ok.pathOk
  rcases hs.mirrors.isCmp_pointers hs.ok.graphOk hpath hlhs.stands hrhs.stands heq hr x.type with h | ⟨h, hgraph⟩
  · exact ⟨_, h, fun t ht => (Option.some.inj ht).symm, nofun⟩
  · exact ⟨_, h, nofun, fun _ => ⟨_, hgraph, fun t ht => (Option.some.inj ht).symm⟩⟩

theorem follows_bitCast {x target : FrontendIdTypePair} {flags : ArithFlags} {d : Datum}
    (hcast : args.castOptions = .ok ⟨.bitCast, flags⟩) (hx : args.getOperand 0 = .ok x)
    (htarget : args.getTarget = .ok target) (hd : P.value st x = some d) (hkind : d.kind = .pointer) :
    Follows P W st (MemGraphOp.cast P.ctx args) (some (st.assign target d)) (fun _ _ => True) := by
  refine follows_operand hx hd fun lhs W₁ _ hlhs => follows_ofExcept hcast (follows_ofExcept htarget ?_)
  refine follows_bind (follows_assign hlhs) fun _ W₂ hle _ => follows_get fun s hs => ?_
  have hlhs := hlhs.later hle
  rw [show s.state.vc.zero = 0 from hs.ok.graphOk.zero]
  have hzero : W₂.counters.Given 0 := ⟨Int.le_refl 0, Int.lt_of_le_of_lt hlhs.given.1 hlhs.given.2⟩
  refine follows_bind (follows_callGraph (R := fun _ _ => True) (keepsOk_createDerivedPointer hlhs.given hzero)
    fun s hs => ?_) fun _ W₃ _ _ => follows_pure trivial
  obtain ⟨r, t, ρ', hrun, hc⟩ := hs.mirrors.derive_unseen hs.ok.graphOk (hs.given.1 hlhs.given) hlhs.stands hkind
    hs.ok.graphOk.bound_zero
  exact ⟨r, t, ρ', hrun, hc, fun _ => trivial⟩

theorem follows_zExt {x target : FrontendIdTypePair} {w : Width} {b : BitVec 1}
    (hcast : args.castOptions = .ok ⟨.extend, .unsigned⟩) (hx : args.getOperand 0 = .ok x)
    (htarget : args.getTarget = .ok target) (hb : P.value st x = some (.int .bit b)) :
    Follows P W st (MemGraphOp.cast P.ctx args) (some (st.assign target (.int w (b.setWidth w.bits))))
      (fun _ _ => True) := by
  refine follows_operand hx hb fun lhs W₁ _ hlhs => follows_ofExcept hcast (follows_ofExcept htarget ?_)
  exact follows_assign (hlhs.zExt w)

theorem follows_trunc {x target : FrontendIdTypePair} {v w : Width} {a : BitVec v.bits} {flags : ArithFlags}
    (hcast : args.castOptions = .ok ⟨.truncate, flags⟩) (hx : args.getOperand 0 = .ok x)
    (htarget : args.getTarget = .ok target) (hle : w.bits ≤ v.bits) (hne : w.bits ≠ 1)
    (ha : P.value st x = some (.int v a)) :
    Follows P W st (MemGraphOp.cast P.ctx args) (some (st.assign target (.int w (a.setWidth w.bits))))
      (fun _ _ => True) := by
  refine follows_operand hx ha fun lhs W₁ _ hlhs => follows_ofExcept hcast (follows_ofExcept htarget ?_)
  exact follows_bind (follows_truncateInt hlhs hle hne _ _) fun v W₂ _ hv => follows_assign hv

/-- The other casts are refused. -/
theorem follows_otherCast {x target : FrontendIdTypePair} {opts : CastOpOptions} {d : Datum}
    (hcast : args.castOptions = .ok opts) (hbit : opts.opKind ≠ .bitCast) (hextend : opts.opKind ≠ .extend)
    (htrunc : opts.opKind ≠ .truncate) (hx : args.getOperand 0 = .ok x) (htarget : args.getTarget = .ok target)
    (hd : P.value st x = some d) : Follows P W st (MemGraphOp.cast P.ctx args) out (fun _ _ => True) := by
  refine follows_operand hx hd fun lhs W₁ _ _ => follows_ofExcept hcast (follows_ofExcept htarget ?_)
  obtain ⟨kind, flags⟩ := opts
  cases kind with
  | bitCast => exact absurd rfl hbit
  | extend => exact absurd rfl hextend
  | truncate => exact absurd rfl htrunc
  | _ => exact follows_throw rfl

theorem follows_createUnknown {target : FrontendIdTypePair} {d : Datum} (htarget : args.getTarget = .ok target)
    (hd : d.kind.isPointer = true → d = .junk) :
    Follows P W st (MemGraphOp.createUnknown args) (some (st.assign target d)) (fun _ _ => True) := by
  have hstands : d.fill.Stands d := by
    cases d with
    | int w x => exact Meaning.stands_number x
    | junk => exact .junk
    | null | wild | ptr => cases hd rfl
  exact follows_ofExcept htarget (follows_bind (follows_createVal d.fill_isUnknown hstands _) fun v W' _ hv =>
    follows_assign hv)

/-- `AllocateRegion` makes a block, whatever its size. -/
theorem follows_allocateRegion {blk : Block} {n : ℕ} {ms : MemorySpace} (hnew : blk.IsNew n ms) (type : Ty) :
    Follows P W st (OpM.callGraph (allocateRegion type ms))
      (some { st with blocks := st.blocks ++ [blk], births := st.births + 1 })
      (fun W' v => W'.Has v (.ptr st.blocks.length 0 st.births)) := by
  refine follows_callGraph (keepsOk_allocateRegion type ms) fun s hs => ?_
  obtain ⟨v, t, ρ', hrun, hc, hv⟩ := hs.mirrors.allocateRegion hs.ok.graphOk type hnew
  refine ⟨v, t, ρ', hrun, hc, fun hgiven => ⟨hgiven, ?_⟩⟩
  rw [hv]
  exact .ptr

theorem follows_alloca {x target : FrontendIdTypePair} {d : Datum} {elem : Ty} {blk : Block} {n : ℕ}
    (hx : args.getOperand 0 = .ok x) (hd : P.value st x = some d) (htarget : args.getTarget = .ok target)
    (htype : target.type = .ptr elem) (hnew : blk.IsNew n .stack) :
    Follows P W st (MemGraphOp.alloca P.ctx args) (some (st.allocate blk target)) (fun _ _ => True) := by
  have hpointee : MemGraphOp.pointee target.type = .ok elem := by rw [htype]; rfl
  refine follows_operand hx hd fun count W₁ _ _ => follows_ofExcept htarget ?_
  refine follows_bind (follows_extendInt _ _ _ _) fun count64 W₂ _ _ => follows_ofExcept hpointee ?_
  refine follows_bind (follows_get fun s hs => ?_) fun retVal W₃ _ hv => follows_assign hv
  split
  · exact follows_throw rfl
  · split
    · exact follows_throw rfl
    · exact follows_allocateRegion hnew elem

theorem follows_malloc {x target : FrontendIdTypePair} {d : Datum} {blk : Block} {n : ℕ}
    (hx : args.getOperand 0 = .ok x) (hd : P.value st x = some d) (htarget : args.getTarget = .ok target)
    (hnew : blk.IsNew n .heap) :
    Follows P W st (MemGraphOp.malloc P.ctx args) (some (st.allocate blk target)) (fun _ _ => True) := by
  refine follows_operand hx hd fun size W₁ _ _ => ?_
  refine follows_bind (follows_extendInt _ _ _ _) fun size64 W₂ _ _ => follows_yield htarget ?_
  refine follows_get fun s hs => ?_
  split
  · exact follows_throw rfl
  · exact follows_allocateRegion hnew _

/-! ### Memory -/

section Memory

variable {x p target : FrontendIdTypePair} {b : ℕ} {f : Word} {k : ℕ} {blk : Block} {d : Datum}

omit [DataLayout] in
/-- The id of a pointer that was set. -/
theorem View.Has.pointer {v : ValueId} (hv : W.Has v (.ptr b f k)) : W.reading.value v = .pointer b f (some k) := by
  have hstands := hv.stands
  generalize W.reading.value v = δ at hstands ⊢
  cases hstands
  rfl

omit [DataLayout] in
theorem View.Has.null {v : ValueId} (hv : W.Has v .null) : W.reading.value v = .constant 0 := by
  have hstands := hv.stands
  generalize W.reading.value v = δ at hstands ⊢
  cases hstands
  rfl

theorem follows_freeNull (hp : args.getOperand 0 = .ok p) (hd : P.value st p = some .null) :
    Follows P W st (MemGraphOp.free P.ctx args) (some st) (fun _ _ => True) := by
  refine follows_operand hp hd fun ptr W₁ _ hptr => ?_
  refine follows_callGraph (keepsOk_free hptr.given) fun s hs => ?_
  obtain ⟨-, hresolve, htouch⟩ := hs.mirrors.resolve_null hs.ok.graphOk hptr.null
  have hrun : Angie.free ptr s.toMem = .ok () (s.toMem.touch ptr) := free_null (by rw [hresolve]; rfl)
  rw [htouch] at hrun
  exact ⟨(), s.toMem, W₁.reading, hrun, hs.mirrors.continues, fun _ => trivial⟩

theorem follows_free (hp : args.getOperand 0 = .ok p) (hd : P.value st p = some (.ptr b f k))
    (hblk : st.blocks[b]? = some blk) (hlive : blk.freed = false) (hspace : blk.space = .heap) :
    Follows P W st (MemGraphOp.free P.ctx args) (some (st.setBlock b blk.free)) (fun _ _ => True) := by
  refine follows_operand hp hd fun ptr W₁ _ hptr => ?_
  refine follows_callGraph (keepsOk_free hptr.given) fun s hs => ?_
  obtain ⟨t, hrun, hc⟩ := hs.mirrors.free_heap hs.ok.graphOk hptr.pointer hblk hlive hspace
  exact ⟨(), t, W₁.reading, hrun, hc, fun _ => trivial⟩

theorem follows_freeNonHeap (hp : args.getOperand 0 = .ok p) (hd : P.value st p = some (.ptr b f k))
    (hblk : st.blocks[b]? = some blk) (hlive : blk.freed = false) (hspace : blk.space ≠ .heap) :
    Follows P W st (MemGraphOp.free P.ctx args) out (fun _ _ => True) := by
  refine follows_operand hp hd fun ptr W₁ _ hptr => ?_
  exact follows_callGraph_throws fun s hs => ⟨_, _, hs.mirrors.free_nonHeap hptr.pointer hblk hlive hspace, rfl⟩

/-- A pointer that was never set, or whose block was freed, leads nowhere. -/
theorem Models.resolve_invalid {s : OpState} (hs : Models P W s st) {v : ValueId} (hv : W.Has v d)
    (hinvalid : st.Invalid d) (hnull : d ≠ .null) (hwild : d ≠ .wild) :
    (s.toMem.resolve v).targetObjectId = -1 ∨ (s.toMem.resolve v).targetObjectId = -2 := by
  cases d with
  | int => exact hinvalid.elim
  | null => exact absurd rfl hnull
  | wild => exact absurd rfl hwild
  | junk =>
    have hvalue : W.reading.value v = .other := by
      have hstands := hv.stands
      generalize W.reading.value v = δ at hstands ⊢
      cases hstands
      rfl
    exact Or.inl (hs.mirrors.resolve_other hs.ok.graphOk (hs.given.1 hv.given) hvalue)
  | ptr =>
    obtain ⟨blk, hblk, hfreed⟩ := hinvalid
    exact Or.inr (hs.mirrors.leads_freed hv.pointer hblk hfreed).2

theorem follows_freeInvalid (hp : args.getOperand 0 = .ok p) (hd : P.value st p = some d) (hnull : d ≠ .null)
    (hwild : d ≠ .wild) (hinvalid : st.Invalid d) :
    Follows P W st (MemGraphOp.free P.ctx args) out (fun _ _ => True) := by
  refine follows_operand hp hd fun ptr W₁ _ hptr => follows_callGraph_throws fun s hs => ?_
  rcases hs.resolve_invalid hptr hinvalid hnull hwild with h | h
  · exact ⟨_, _, free_unknown h, rfl⟩
  · exact ⟨_, _, free_freed h, rfl⟩

theorem follows_load (hp : args.getOperand 0 = .ok p) (htarget : args.getTarget = .ok target)
    (hd : P.value st p = some (.ptr b f k)) (hblk : st.blocks[b]? = some blk) (hlive : blk.freed = false)
    (hfield : blk.shape.field f = target.type.kind) (hkind : target.type.kind.isSome) :
    Follows P W st (MemGraphOp.load P.ctx args) (some (st.assign target (blk.contents f))) (fun _ _ => True) := by
  obtain ⟨kind, hkind⟩ := Option.isSome_iff_exists.1 hkind
  refine follows_ofExcept hp (follows_ofExcept htarget (follows_bind (follows_getValue hd) fun ptr W₁ _ hptr => ?_))
  refine follows_bind (follows_callGraph (R := fun W' v => W'.Has v (blk.contents f))
    (keepsOk_readValue hptr.given _) fun s hs => ?_) fun v W₂ _ hv => follows_assign hv
  obtain ⟨v, t, ρ', hrun, hc, hstands⟩ :=
    hs.mirrors.readValue hs.ok.graphOk hptr.pointer hblk hlive (hfield.trans hkind) hkind
  exact ⟨v, t, ρ', hrun, hc, fun hgiven => ⟨hgiven, hstands⟩⟩

omit [DataLayout] in
theorem accessError_not_branch (id : ObjectId) : (accessError id).isBranch = false := by
  unfold accessError
  split <;> rfl

theorem follows_loadInvalid (hp : args.getOperand 0 = .ok p) (htarget : args.getTarget = .ok target)
    (hd : P.value st p = some d) (hinvalid : st.Invalid d) :
    Follows P W st (MemGraphOp.load P.ctx args) out (fun _ _ => True) := by
  refine follows_ofExcept hp (follows_ofExcept htarget (follows_bind (follows_getValue hd) fun ptr W₁ _ hptr => ?_))
  have hthrows : Follows P W₁ st (OpM.callGraph (readValue ptr target.type)) (some st) (fun _ _ => False) := by
    refine follows_callGraph_throws fun s hs => ?_
    have hresolve := (hs.mirrors.invalid hs.ok.graphOk (hs.given.1 hptr.given) hptr.stands hinvalid).1
    exact ⟨_, _, readValue_error hresolve, accessError_not_branch _⟩
  exact follows_bind hthrows fun _ _ _ h => h.elim

theorem follows_store (hx : args.getOperand 0 = .ok x) (hp : args.getOperand 1 = .ok p) (hd : P.value st x = some d)
    (htype : x.type.kind = some d.kind) (hptr : P.value st p = some (.ptr b f k)) (hblk : st.blocks[b]? = some blk)
    (hlive : blk.freed = false) (hfield : blk.shape.field f = some d.kind) :
    Follows P W st (MemGraphOp.store P.ctx args) (some (st.setBlock b (blk.write f d hfield))) (fun _ _ => True) := by
  refine follows_operand hx hd fun value W₁ _ hvalue => follows_operand hp hptr fun ptr W₂ hle hptr => ?_
  have hvalue := hvalue.later hle
  refine follows_callGraph (keepsOk_writeValue hptr.given hvalue.given _) fun s hs => ?_
  obtain ⟨t, hrun, hc⟩ := hs.mirrors.writeValue hs.ok.graphOk hptr.pointer hblk hlive hfield
    (hs.given.1 hvalue.given) hvalue.stands htype
  exact ⟨(), t, W₂.reading, hrun, hc, fun _ => trivial⟩

theorem follows_storeInvalid {e : Datum} (hx : args.getOperand 0 = .ok x) (hp : args.getOperand 1 = .ok p)
    (he : P.value st x = some e) (hd : P.value st p = some d) (hinvalid : st.Invalid d) :
    Follows P W st (MemGraphOp.store P.ctx args) out (fun _ _ => True) := by
  refine follows_operand hx he fun value W₁ _ _ => follows_operand hp hd fun ptr W₂ _ hptr => ?_
  refine follows_callGraph_throws fun s hs => ?_
  have hresolve := (hs.mirrors.invalid hs.ok.graphOk (hs.given.1 hptr.given) hptr.stands hinvalid).1
  exact ⟨_, _, writeValue_error hresolve, accessError_not_branch _⟩

end Memory

/-! ### Addresses -/

section Addresses

variable {elem : Ty} {base index : Llvm.Value} {fields : List Llvm.Value} {offset : Word} {s : OpState}

/-- A constant operand of the machine is one of the state. -/
theorem Models.constantOperand (hs : Models P W s st) {operand : Llvm.Value} {w : Width} {x : BitVec w.bits}
    (htype : operand.type = w.type) (hglobal : P.ctx.globalMapping.contains operand.id = true)
    (hx : P.constants operand.id = some (.int w x)) :
    ∃ a, ConstantOperand P.ctx s operand w a (x.setWidth 64) := by
  obtain ⟨v, u, hv, -, hu, hvalue⟩ := hs.binds operand.id _ hglobal hx
  cases hu
  refine ⟨v, htype, ?_, (hs.mirrors.constants v _).2 hvalue⟩
  unfold AnalysisState.getValue
  rw [hv]

/-- The interpreter adds up the distance of the machine. -/
theorem Models.elementAt (hs : Models P W s st) (h : P.ElementAt elem index fields offset) :
    ∃ n a c field, ConstantOperand P.ctx s index n a c ∧ FieldOperand P.ctx s elem fields field ∧
      rawOffset c elem.getSizeOf field = offset := by
  induction h with
  | @element n x htype hglobal hx hsign =>
    obtain ⟨a, ha⟩ := hs.constantOperand htype hglobal hx
    refine ⟨n, a, _, 0, ha, .none, ?_⟩
    have hext : x.signExtend 64 = x.setWidth 64 := by
      rcases hsign with hsign | hbits
      · exact BitVec.signExtend_eq_setWidth_of_msb_false hsign
      · exact BitVec.signExtend_eq_setWidth_of_le x (Nat.le_of_eq hbits.symm)
    rw [rawOffset, hext]
    exact BitVec.add_zero _
  | @field operand layout w k offset _ helem hw htype hglobal hk ih =>
    obtain ⟨n, a, c, field, ha, hfield, rfl⟩ := ih
    cases hfield
    obtain ⟨a', ha'⟩ := hs.constantOperand htype hglobal hk
    refine ⟨n, a, c, _, ha, .field helem hw ha', ?_⟩
    have hlt : k.toNat < 2 ^ 32 := hw ▸ k.isLt
    have hk' : ((k.setWidth 64).setWidth 32).toNat = k.toNat := by
      rw [BitVec.toNat_setWidth, BitVec.toNat_setWidth, Nat.mod_eq_of_lt (a := k.toNat) (by lia), Nat.mod_eq_of_lt hlt]
    have hzero : rawOffset c elem.getSizeOf 0 = c * BitVec.ofNat 64 elem.getSizeOf := BitVec.add_zero _
    rw [hzero, rawOffset, hk']

theorem follows_getElementPtr {option : OperArg} {target : FrontendIdTypePair} {d : Datum}
    (hargs : args = .idTypePair target :: option :: (base :: index :: fields).map toOperArg)
    (hbase : base.type = .ptr elem) (hoffset : P.ElementAt elem index fields offset)
    (hd : P.value st ⟨base.id, base.type⟩ = some d) (hkind : d.kind = .pointer) :
    Follows P W st (MemGraphOp.getElementPtr P.ctx args)
      (some (st.move target d offset)) (fun _ _ => True) := by
  intro s hs
  obtain ⟨p, hp, hhas⟩ := hs.getValue hd
  obtain ⟨n, a, c, field, hindex, hfield, rfl⟩ := hs.elementAt hoffset
  obtain ⟨es, hpath⟩ := hs.ok.pathOk
  obtain ⟨o, t, hgrows, ho, hrun⟩ := getElementPtr_run hpath.ok hargs hbase hp hindex hfield
  -- the addition grows the container, the derivation follows
  have hgiven := hs.given.1 hhas.given
  have hext : Extends s.toMem.toVc t := hgrows.toExtends
  have hgrown : Continues W.reading s.toMem (W.reading.extend s.toMem.toVc t .other) (s.toMem.withVc t) st.blocks
      st.births := ⟨hs.mirrors.grow hs.ok.graphOk hgrows trivial, fun v hv => if_pos hv⟩
  have hstands : ((W.reading.extend s.toMem.toVc t .other).value p).Stands d := by
    rw [hgrown.value p hgiven]
    exact hhas.stands
  obtain ⟨r, u, ρ', hderive, hc, hstands⟩ :=
    hgrown.mirrors.derive (hs.ok.graphOk.withVc hext) (hext.given hgiven) hstands hkind ho
  have hc := hgrown.trans hc fun v hv => hext.given hv
  have hrun := hrun hderive
  have hok := MemGraphOp.keepsOk_getElementPtr.ok ⟨hs.ok, Statics.Le.refl _⟩ hrun
  have hle : W.Le ⟨u.statics, ρ'⟩ := ⟨hs.counters ▸ hok.1.2, fun v hv => hc.value v (hs.given.1 hv)⟩
  have hr : View.Has ⟨u.statics, ρ'⟩ r.1 (d.move (rawOffset c elem.getSizeOf field) st.births) :=
    ⟨hok.1.1.locals target.id r.1 (OpState.assign_target _ _ _), hstands⟩
  rw [hrun]
  exact ⟨_, _, rfl, hle, ⟨rfl, hok.1.1, hc.mirrors, hs.binds.later hle, (hs.registers.later hle).insert hr,
    hs.calls.imp fun _ _ hf => hf.later hle⟩, trivial⟩

end Addresses

/-! ### All of them -/

/-- An operation on one successor follows the machine, and throws where the machine fails. -/
theorem follows_basic {op : Operation} {body : OpM Unit} (hdoes : P.Does args st op out)
    (hbody : memGraphOpFactory P.ctx args op = .basic body) : Follows P W st body out (fun _ _ => True) := by
  cases hdoes
  case notSupported hop => cases (factory_notSupported.2 hop).symm.trans hbody
  all_goals cases hbody
  case binOp ho hx hy htarget htype ha hb hbit hr => exact follows_binOpOf ho hx hy htarget htype ha hb hbit hr
  case cmp hflags hx hy htarget htype ha hb hr => exact follows_cmpOf hflags hx hy htarget htype ha hb hr
  case cmpPointers hflags hx hy htarget _ ha hb heq hr => exact follows_cmpPointers hflags hx hy htarget ha hb heq hr
  case bitCast hcast hx htarget hd hkind => exact follows_bitCast hcast hx htarget hd hkind
  case zExt hcast hx htarget _ hb => exact follows_zExt hcast hx htarget hb
  case trunc hcast hx htarget _ hle hne ha => exact follows_trunc hcast hx htarget hle hne ha
  case createUnknown htarget _ hkind hjunk => exact follows_createUnknown htarget (hkind ▸ hjunk)
  case otherCast hcast hbit hextend htrunc hx htarget hd _ =>
    exact follows_otherCast hcast hbit hextend htrunc hx htarget hd
  case alloca hx hd htarget htype hnew => exact follows_alloca hx hd htarget htype hnew
  case malloc hx hd htarget hnew => exact follows_malloc hx hd htarget hnew
  case freeNull hp hd => exact follows_freeNull hp hd
  case free hp hd hblk hlive hspace => exact follows_free hp hd hblk hlive hspace
  case freeNonHeap hp hd hblk hlive hspace => exact follows_freeNonHeap hp hd hblk hlive hspace
  case freeInvalid hp hd hnull hwild hinvalid => exact follows_freeInvalid hp hd hnull hwild hinvalid
  case load hp htarget hd hblk hlive hfield hkind => exact follows_load hp htarget hd hblk hlive hfield hkind
  case loadInvalid hp htarget hd hinvalid => exact follows_loadInvalid hp htarget hd hinvalid
  case store hfield hx hp hd htype hptr hblk hlive =>
    exact follows_store hx hp hd htype hptr hblk hlive hfield
  case storeInvalid hx hp he hd hinvalid => exact follows_storeInvalid hx hp he hd hinvalid
  case getElementPtr hargs hbase hoffset hd hkind => exact follows_getElementPtr hargs hbase hoffset hd hkind
  case abort => exact follows_throw rfl
  case noop | diagnosticsPlotMem => exact follows_pure trivial

end Operations

end Angie
