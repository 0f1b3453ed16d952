import Angie.Interp.Integers
import Angie.Smg.Functional
import Angie.Values.Returns

/-!
# Offsets of elements

`MemGraphOpGetElementPtr` multiplies the stored word of the index by the size of the element, at 64 bits, and adds the
offset of the field (`getElementPtr_run`). The word is not extended from the width of the index first, so that the
offset is the one of the language exactly if that makes no difference (`rawOffset_eq_iff`), unless the base pointer is a
constant and the sum a pointer that already leads somewhere (`getElementPtr_iff`).
-/

namespace Angie

open Exec Llvm KeyedList

/-! ## Running an operation on the graph -/

namespace OpState

variable (s : OpState)

def toMem : MemState := ⟨s.statics, s.state.vc, s.state.graph⟩

def withMem (t : MemState) : OpState := ⟨t.statics, { s.state with vc := t.vc, graph := t.graph }⟩

end OpState

theorem OpM.callGraph_run {s : OpState} {α : Type} {m : GraphM α} {a : α} {t : MemState} (h : m s.toMem = .ok a t) :
    OpM.callGraph m s = .ok a (s.withMem t) := by
  show zoom _ _ m s = _
  unfold zoom
  simp only [show m ⟨s.statics, s.state.vc, s.state.graph⟩ = _ from h]
  rfl

/-- The operand keeps its constant while the container grows. -/
theorem ConstantOperand.grow {ctx : Context} {s : OpState} {operand : Llvm.Value} {w : Width} {a : ValueId} {c : Word}
    (ho : ConstantOperand ctx s operand w a c) (hs : ConstOk s.toVc) {t : VcState} (h : Extends s.toVc t) :
    ConstantOperand ctx (s.withVc t) operand w a c :=
  ⟨ho.type, ho.value, h.bound hs ho.constant⟩

section Pointers

variable [DataLayout] {s : VcState} {a b : ValueId} {x y : Word}

/-- Multiplying two constants at the width of a pointer wraps at 64 bits. -/
theorem mul_constants (ha : s.vc.constantContainer[a]? = some x) (hb : s.vc.constantContainer[b]? = some y) :
    mul a b Ty.charPointer ArithFlags.default s = createConstIntVal (x * y) s := by
  obtain ⟨z, hz, hval⟩ := evalBinOp_wrap (by decide : 1 ≤ 64) (le_refl 64) .mul x y
  have hxy : z = x * y := by simpa [WrapOp.apply] using hval
  exact binOp_of_some Ty.getBitWidth_charPointer ha hb (hxy ▸ hz)

end Pointers

/-! ## The offset -/

section Offsets

variable (n : ℕ) (index : Word) (size field : ℕ)

/-- The offset that the language gives: the index is extended from its width with its sign. -/
def elementOffset : Word := (index.setWidth n).signExtend 64 * BitVec.ofNat 64 size + BitVec.ofNat 64 field

/-- The offset that the analysis computes. -/
def rawOffset : Word := index * BitVec.ofNat 64 size + BitVec.ofNat 64 field

/-- What the index lacks to its sign extension makes no difference to the offset. -/
def IndexExact : Prop := (index - (index.setWidth n).signExtend 64) * BitVec.ofNat 64 size = 0

theorem rawOffset_eq_iff : rawOffset index size field = elementOffset n index size field ↔ IndexExact n index size := by
  unfold rawOffset elementOffset IndexExact
  rw [add_left_inj, sub_mul, sub_eq_zero]

end Offsets

/-- The operands behind the first index, none or the constant index of a field, and the offset of that field. -/
inductive FieldOperand [DataLayout] (ctx : Context) (s : OpState) (elem : Ty) : List Llvm.Value → ℕ → Prop
  | none : FieldOperand ctx s elem [] 0
  | field {operand : Llvm.Value} {layout : ℕ} {w : Width} {a : ValueId} {k : Word} : elem = .struct layout →
      w.bits = 32 → ConstantOperand ctx s operand w a k →
      FieldOperand ctx s elem [operand] (DataLayout.getElementOffset layout (k.setWidth 32).toNat)

section Runs

variable [DataLayout] {ctx : Context} {s : OpState} {elem : Ty} {fields : List Llvm.Value} {field : ℕ}

theorem FieldOperand.grow (hf : FieldOperand ctx s elem fields field) (hs : ConstOk s.toVc) {t : VcState}
    (h : Extends s.toVc t) : FieldOperand ctx (s.withVc t) elem fields field := by
  cases hf with
  | none => exact .none
  | field helem hw hk => exact .field helem hw (hk.grow hs h)

variable {target : FrontendIdTypePair} {option : OperArg} {base index : Llvm.Value} {args : OperationArgs}

/-- The second index adds the offset of its field. -/
theorem fieldOffset_run (hs : ConstOk s.toVc) (hf : FieldOperand ctx s elem fields field)
    (hargs : args = .idTypePair target :: option :: (base :: index :: fields).map toOperArg) {m : ValueId} {x : Word}
    (hm : s.state.vc.constantContainer[m]? = some x) :
    ∃ o t, MemGraphOp.fieldOffset ctx args elem m s = .ok o (s.withVc t) ∧ Grows s.toVc t ∧
      t.vc.constantContainer[o]? = some (x + BitVec.ofNat 64 field) := by
  unfold MemGraphOp.fieldOffset
  cases hf with
  | none =>
    have hlen : ¬ 4 < args.length := by simp [hargs]
    refine ⟨m, s.toVc, ?_, Grows.refl _, ?_⟩
    · rw [if_neg hlen]
      rfl
    · rw [BitVec.add_zero]
      exact hm
  | @field operand layout w a k helem hw hk =>
    have hlen : args.length = 5 := by rw [hargs]; rfl
    have hoperand : args.getOperand 2 = .ok ⟨operand.id, operand.type⟩ := by rw [hargs]; rfl
    obtain ⟨f, t1, h1, hg1, hf⟩ := createConstIntVal_spec
      (BitVec.ofNat 64 (DataLayout.getElementOffset layout (k.setWidth 32).toNat)) s.toVc
    obtain ⟨o, t2, h2, hg2, ho⟩ := createConstIntVal_spec
      (x + BitVec.ofNat 64 (DataLayout.getElementOffset layout (k.setWidth 32).toNat)) t1
    have hquery : VcM.query (·.getConstantIntInnerVal a) s.toVc = .ok k s.toVc := by
      refine query_of_ok ?_
      simp only [ValueContainer.getConstantIntInnerVal, OpState.toVc, hk.constant]
    have hstruct : MemGraphOp.structElementOffset elem (k.toNat % 2 ^ 32) s = .ok f (s.withVc t1) := by
      unfold MemGraphOp.structElementOffset
      rw [helem]
      exact OpM.callVc_run h1
    have hadd : add m f Ty.charPointer ArithFlags.default t1 = .ok o t2 :=
      (add_constants (hg1.bound hs hm) hf).trans h2
    refine ⟨o, t2, ?_, hg1.trans hg2, ho⟩
    rw [if_pos (by omega), ofExcept_bind hoperand, bind_of_ok (OpM.getValue_run hk.value),
      bind_of_ok (OpM.callVc_run hquery)]
    refine (bind_of_ok hstruct).trans ?_
    have hcall : OpM.callVc (add m f Ty.charPointer ArithFlags.default) (s.withVc t1) = .ok o (s.withVc t2) :=
      OpM.callVc_run hadd
    rw [bind_of_ok hcall, if_neg (by omega)]
    rfl

/-- The address computation: the offset is a constant, and the container grows. -/
theorem getElementPtr_run (hs : VcOk s.toVc) {p : ValueId} {n : Width} {a : ValueId} {c : Word}
    (hargs : args = .idTypePair target :: option :: (base :: index :: fields).map toOperArg)
    (hbase : base.type = .ptr elem) (hp : s.state.getValue ctx ⟨base.id, base.type⟩ = .ok p)
    (hi : ConstantOperand ctx s index n a c) (hf : FieldOperand ctx s elem fields field) :
    ∃ o t, Grows s.toVc t ∧ t.vc.constantContainer[o]? = some (rawOffset c elem.getSizeOf field) ∧
      ∀ {r u}, createDerivedPointer p o (s.withVc t).toMem = .ok r u →
        MemGraphOp.getElementPtr ctx args s = .ok () ((s.withMem u).assign target r.1) := by
  have hsource : args.getOperand 0 = .ok ⟨base.id, base.type⟩ := by rw [hargs]; rfl
  have hindex : args.getOperand 1 = .ok ⟨index.id, index.type⟩ := by rw [hargs]; rfl
  have htarget : args.getTarget = .ok target := by rw [hargs]; rfl
  have hpointee : MemGraphOp.pointee base.type = .ok elem := by rw [hbase]; rfl
  obtain ⟨zero, hzero⟩ := isZero_returns hs.store p
  have hquery : VcM.query (·.isZero p) s.toVc = .ok zero s.toVc := query_of_ok hzero
  obtain ⟨b, t1, h1, hg1, hb⟩ := createConstIntVal_spec (BitVec.ofNat 64 elem.getSizeOf) s.toVc
  have hsize : getSizeOfV elem s.toVc = .ok b t1 := h1
  obtain ⟨m, t2, h2, hg2, hm⟩ := createConstIntVal_spec (c * BitVec.ofNat 64 elem.getSizeOf) t1
  have hmul : mul a b Ty.charPointer ArithFlags.default t1 = .ok m t2 :=
    (mul_constants (hg1.bound hs.const hi.constant) hb).trans h2
  have hg := hg1.trans hg2
  obtain ⟨o, t3, h3, hg3, ho⟩ := fieldOffset_run (s := s.withVc t2) (hg.keeps hs.const) (hf.grow hs.const hg.toExtends) hargs hm
  refine ⟨o, t3, hg.trans hg3, ho, fun {r u} hd => ?_⟩
  have hcall2 : OpM.callVc (mul a b Ty.charPointer ArithFlags.default) (s.withVc t1) = .ok m (s.withVc t2) :=
    OpM.callVc_run hmul
  have hcall3 : OpM.callGraph (createDerivedPointer p o) (s.withVc t3) = .ok r (s.withMem u) := OpM.callGraph_run hd
  unfold MemGraphOp.getElementPtr
  rw [ofExcept_bind hsource, bind_of_ok (OpM.getValue_run hp), ofExcept_bind hpointee,
    bind_of_ok (OpM.callVc_run hquery)]
  refine (ofExcept_bind hindex _ s).trans ?_
  rw [bind_of_ok (OpM.getValue_run hi.value), bind_of_ok (OpM.callVc_run hsize), bind_of_ok hcall2]
  refine (bind_of_ok h3).trans ((bind_of_ok hcall3).trans ?_)
  rw [ofExcept_bind htarget]
  rfl

end Runs

/-! ## Where the pointer leads -/

section Resolving

variable {s : MemState} {p : ValueId}

/-- The pointer that a derivation from a constant by a constant gives has an edge already. -/
def MemState.Reuses (s : MemState) (p : ValueId) (offset : Word) (e : PtEdge) : Prop :=
  ∃ x v, s.vc.constantContainer[p]? = some x ∧ s.vc.constantContainer[v]? = some (x + offset) ∧
    lookup (·.value) v s.graph.handles = some e

theorem lookup_added {l : List PtEdge} {e : PtEdge} (h : lookup (·.value) e.value l = none) :
    lookup (·.value) e.value (l ++ [e]) = some e := by
  rw [lookup_append, h]
  exact if_pos rfl

theorem findPtEdge_of_lookup {v : ValueId} {e : PtEdge} (h : lookup (·.value) v s.graph.handles = some e) :
    findPtEdge v s = .ok e s := by
  rw [findPtEdge_eq, (resolve_of_lookup h).1, (resolve_of_lookup h).2]

/-- The first edge of a pointer that was derived: one that was there, that of the base pointer or the new one. -/
theorem find_derived (s : MemState) (p v o : ValueId) (u : VcState) :
    ∃ e, findPtEdge v (((s.touch p).withVc u).addHandle ((s.resolve p).derive v o)) =
        .ok e (((s.touch p).withVc u).addHandle ((s.resolve p).derive v o)) ∧
      (lookup (·.value) v s.graph.handles = some e ∨ lookup (·.value) v s.graph.handles = none ∧
        (v = p ∧ e = s.resolve p ∨ e = (s.resolve p).derive v o)) := by
  cases hl : lookup (·.value) v s.graph.handles with
  | some e =>
    refine ⟨e, findPtEdge_of_lookup ?_, Or.inl rfl⟩
    have htouch : lookup (·.value) v (s.touch p).graph.handles = some e := by
      cases hp : lookup (·.value) p s.graph.handles with
      | some _ => rw [(resolve_of_lookup hp).2, hl]
      | none => rw [(resolve_of_none hp).2, MemState.handles_addHandle, lookup_append, hl, Option.some_or]
    rw [MemState.handles_addHandle, MemState.graph_withVc, lookup_append, htouch, Option.some_or]
  | none =>
    cases hp : lookup (·.value) p s.graph.handles with
    | some _ =>
      refine ⟨(s.resolve p).derive v o, findPtEdge_of_lookup ?_, Or.inr ⟨rfl, Or.inr rfl⟩⟩
      rw [(resolve_of_lookup hp).2]
      exact lookup_added (e := (s.resolve p).derive v o) hl
    | none =>
      rw [(resolve_of_none hp).2]
      by_cases hv : v = p
      · refine ⟨s.resolve p, findPtEdge_of_lookup ?_, Or.inr ⟨rfl, Or.inl ⟨hv, rfl⟩⟩⟩
        subst hv
        have hadded : lookup (·.value) v (s.graph.handles ++ [PtEdge.handle v (-1)]) = some (PtEdge.handle v (-1)) :=
          lookup_added (e := PtEdge.handle v (-1)) hl
        rw [MemState.handles_addHandle, MemState.graph_withVc, MemState.handles_addHandle, lookup_append, hadded,
          Option.some_or, (resolve_of_none hp).1]
      · refine ⟨(s.resolve p).derive v o, findPtEdge_of_lookup ?_, Or.inr ⟨rfl, Or.inr rfl⟩⟩
        refine lookup_added (e := (s.resolve p).derive v o) ?_
        rw [MemState.graph_withVc, MemState.handles_addHandle]
        exact (lookup_append_ne (Ne.symm hv) _).trans hl

theorem MemState.Reuses.unique (hs : GraphOk s) {c : Word} {e e' : PtEdge} (h : s.Reuses p c e)
    (h' : s.Reuses p c e') : e = e' := by
  obtain ⟨x, v, hx, hv, he⟩ := h
  obtain ⟨x', v', hx', hv', he'⟩ := h'
  rw [hx] at hx'
  cases hx'
  have hvv : v = v' := hs.const.interned v v' _ hv hv'
  subst hvv
  rw [he] at he'
  exact Option.some.inj he'

/-- A growing container gives no pointer that has an edge a new constant. -/
theorem reuses_withVc (hs : GraphOk s) (hp : s.Given p) {t : VcState} (h : Extends s.toVc t) (c : Word) (e : PtEdge) :
    (s.withVc t).Reuses p c e ↔ s.Reuses p c e := by
  unfold MemState.Reuses
  refine exists_congr fun x => exists_congr fun v => ?_
  constructor
  · rintro ⟨hx, hv, he⟩
    have hvg : s.Given v := by
      obtain ⟨hm, hev⟩ := lookup_some he
      exact hev ▸ (hs.handle e hm).value
    exact ⟨(constant_iff h hp).1 hx, (constant_iff h hvg).1 hv, he⟩
  · rintro ⟨hx, hv, he⟩
    exact ⟨h.bound hs.const hx, h.bound hs.const hv, he⟩

/-- A pointer that is derived by a constant leads to where the base pointer does, moved by the constant, unless it has an
edge already. -/
theorem derived_leads [DataLayout] (hs : GraphOk s) (hp : s.Given p) {offset : ValueId} {f c : Word}
    (hf : s.vc.constantContainer[(s.resolve p).targetOffset]? = some f)
    (hc : s.vc.constantContainer[offset]? = some c) :
    ∃ r u e, createDerivedPointer p offset s = .ok r u ∧ Extends s.toVc u.toVc ∧ findPtEdge r.1 u = .ok e u ∧
      (s.Reuses p (f + c) e ∨ (∀ e', ¬ s.Reuses p (f + c) e') ∧
        e.targetObjectId = (s.resolve p).targetObjectId ∧ u.vc.constantContainer[e.targetOffset]? = some (f + c)) := by
  obtain ⟨o, v, t, hd, heq, hval⟩ := derived_value hs hp offset
  obtain ⟨e, hfind, hcase⟩ := find_derived s p v o t
  have hext := hd.grows.toExtends
  have ht := hext.keeps hs.const
  have ho := hd.offset_constants f c hf hc
  refine ⟨_, _, e, heq, hext, hfind, ?_⟩
  have hderive : e = (s.resolve p).derive v o → e.targetObjectId = (s.resolve p).targetObjectId ∧
      t.vc.constantContainer[e.targetOffset]? = some (f + c) := by
    rintro rfl
    exact ⟨rfl, ho⟩
  rcases hval with ⟨x, y, z, ⟨hx, hy, hz⟩, -, hv⟩ | ⟨hno, hnew, -⟩
  · rw [hf] at hy
    rw [hc] at hz
    cases hy
    cases hz
    rcases hcase with he | ⟨hnone, hcase⟩
    · -- the sum is a constant that was bound before
      obtain ⟨hm, hev⟩ := lookup_some he
      have hvg : s.Given v := hev ▸ (hs.handle e hm).value
      exact Or.inl ⟨x, v, hx, (constant_iff hext hvg).1 hv, he⟩
    · refine Or.inr ⟨fun e' hr => ?_, ?_⟩
      · obtain ⟨x', w, hx', hw, he'⟩ := hr
        rw [hx] at hx'
        cases hx'
        have hwv : w = v := ht.interned w v _ (hext.bound hs.const hw) hv
        rw [hwv, hnone] at he'
        cases he'
      · rcases hcase with ⟨hvp, rfl⟩ | he
        · -- nothing was added to a pointer that was unknown
          subst hvp
          have hx' := hext.bound hs.const hx
          rw [hv] at hx'
          have hsum : f + c = 0 := by simpa using Option.some.inj hx'
          have hres := (resolve_of_none hnone).1
          refine ⟨rfl, ?_⟩
          rw [hres, hsum]
          exact hext.bound hs.const hs.bound_zero
        · exact hderive he
  · have hnone : lookup (·.value) v s.graph.handles = none :=
      lookup_eq_none.2 fun e' he' => hs.unused_next hnew e' (Or.inl he')
    have hpx : ∀ x, s.vc.constantContainer[p]? ≠ some x := fun x hx => hno x f c ⟨hx, hf, hc⟩
    rcases hcase with he | ⟨-, ⟨hvp, -⟩ | he⟩
    · rw [hnone] at he
      cases he
    · have hlt : p < s.statics.nextIdToGive := hp.2
      exact absurd hlt (Int.not_lt.2 (hvp ▸ hnew))
    · exact Or.inr ⟨fun e' ⟨x, _, hx, _⟩ => hpx x hx, hderive he⟩

end Resolving

/-! ## The element's address -/

/-- With its encoded arguments the instruction assigns to the target a pointer that leads to the object of the base
pointer, at the offset. -/
def GepRight [DataLayout] (ctx : Context) (s : OpState) (instr : Instruction) (p : ValueId) (offset : Word) : Prop :=
  ∃ args t v e, operArgsFor instr = .ok args ∧ MemGraphOp.getElementPtr ctx args s = .ok () t ∧
    t.state.localMapping[instr.id]? = some v ∧ findPtEdge v t.toMem = .ok e t.toMem ∧
    e.targetObjectId = (s.toMem.resolve p).targetObjectId ∧ t.state.vc.constantContainer[e.targetOffset]? = some offset

/-- The offset is the one of the language; or the pointer is one that leads there already, instead. -/
def MemState.IndexAgrees (s : MemState) (p : ValueId) (f : Word) (n : ℕ) (index : Word) (size field : ℕ) : Prop :=
  (∀ e, s.Reuses p (f + rawOffset index size field) e → e.targetObjectId = (s.resolve p).targetObjectId ∧
    s.vc.constantContainer[e.targetOffset]? = some (f + elementOffset n index size field)) ∧
  ((∀ e, ¬ s.Reuses p (f + rawOffset index size field) e) → IndexExact n index size)

section Addresses

variable [DataLayout] {ctx : Context} {s : OpState} {instr : Instruction} {constantOffset : Option Word} {type : Ty}
  {elem : Ty} {base index : Llvm.Value} {fields : List Llvm.Value} {field : ℕ} {n : Width} {p a : ValueId}
  {f c : Word}

omit [DataLayout] in
theorem optionsFor_getElementPtr (hop : instr.opcode = .getElementPtr constantOffset) :
    ∃ option, optionsFor instr = .ok option := by
  unfold optionsFor
  rw [hop]
  cases constantOffset with
  | none => exact ⟨_, rfl⟩
  | some w => exact ⟨_, rfl⟩

/-- An instruction that runs is right when the pointer that it assigns is. -/
theorem gepRight_of_run {args : OperationArgs} {t : OpState} {v : ValueId} {e : PtEdge} {offset : Word}
    (hargs : operArgsFor instr = .ok args) (hrun : MemGraphOp.getElementPtr ctx args s = .ok () t)
    (hv : t.state.localMapping[instr.id]? = some v) (he : findPtEdge v t.toMem = .ok e t.toMem) :
    GepRight ctx s instr p offset ↔ e.targetObjectId = (s.toMem.resolve p).targetObjectId ∧
      t.state.vc.constantContainer[e.targetOffset]? = some offset := by
  constructor
  · rintro ⟨args', t', v', e', hargs', hrun', hv', he', htarget, hoff⟩
    rw [hargs] at hargs'
    cases hargs'
    rw [hrun] at hrun'
    cases hrun'
    rw [hv] at hv'
    cases hv'
    rw [he] at he'
    cases he'
    exact ⟨htarget, hoff⟩
  · rintro ⟨htarget, hoff⟩
    exact ⟨args, t, v, e, hargs, hrun, hv, he, htarget, hoff⟩

/-- The invariants of the state and its container suffice. -/
theorem getElementPtr_agrees (hs : GraphOk s.toMem) (hvc : VcOk s.toVc) (hop : instr.opcode = .getElementPtr constantOffset)
    (htype : instr.type = .ptr type) (hoperands : instr.operands = base :: index :: fields)
    (hbase : base.type = .ptr elem) (hp : s.state.getValue ctx ⟨base.id, base.type⟩ = .ok p)
    (hgiven : s.toMem.Given p) (hf : s.state.vc.constantContainer[(s.toMem.resolve p).targetOffset]? = some f)
    (hi : ConstantOperand ctx s index n a c) (hfields : FieldOperand ctx s elem fields field) :
    GepRight ctx s instr p (f + elementOffset n.bits c elem.getSizeOf field) ↔
      s.toMem.IndexAgrees p f n.bits c elem.getSizeOf field := by
  obtain ⟨option, hoption⟩ := optionsFor_getElementPtr hop
  have hargs := operArgsFor_eq (by rw [htype]; exact nofun) hoption
  rw [hoperands] at hargs
  obtain ⟨o, t, hg, ho, hrun⟩ := getElementPtr_run hvc rfl hbase hp hi hfields
  have hext : Extends s.toMem.toVc t := hg.toExtends
  obtain ⟨r, u, e, hd, hu, hfind, hcase⟩ := derived_leads (hs.withVc hext) (hext.given hgiven) (hext.bound hs.const hf) ho
  have hstep := hrun hd
  simp only [reuses_withVc hs hgiven hext] at hcase
  have hsu : Extends s.toMem.toVc u.toVc := hext.trans hu
  have hright : GepRight ctx s instr p (f + elementOffset n.bits c elem.getSizeOf field) ↔
      e.targetObjectId = (s.toMem.resolve p).targetObjectId ∧
        u.vc.constantContainer[e.targetOffset]? = some (f + elementOffset n.bits c elem.getSizeOf field) :=
    gepRight_of_run hargs hstep (OpState.assign_target _ _ _) hfind
  rw [hright]
  unfold MemState.IndexAgrees
  rcases hcase with hre | ⟨hno, htarget, hoff⟩
  · have hgo : s.toMem.Given e.targetOffset := by
      obtain ⟨_, _, _, _, he⟩ := hre
      exact (hs.handle e (lookup_some he).1).targetOffset
    constructor
    · rintro ⟨h1, h2⟩
      refine ⟨fun e' he' => ?_, fun hno => absurd hre (hno e)⟩
      rw [← hre.unique hs he']
      exact ⟨h1, (constant_iff hsu hgo).1 h2⟩
    · rintro ⟨h, -⟩
      obtain ⟨h1, h2⟩ := h e hre
      exact ⟨h1, hsu.bound hs.const h2⟩
  · rw [hoff, ← rawOffset_eq_iff n.bits c elem.getSizeOf field]
    constructor
    · rintro ⟨-, h2⟩
      refine ⟨fun e' he' => absurd he' (hno e'), fun _ => ?_⟩
      simpa using Option.some.inj h2
    · rintro ⟨-, h⟩
      exact ⟨htarget, by rw [h hno]⟩

/-- In every state that operations reach, the pointer leads to the object of the base pointer at the offset of the
language if and only if the index need not be extended, or it reuses a pointer that leads there. -/
theorem getElementPtr_iff {es : GraphHistory} (hrun : GraphRun es s.toMem)
    (hop : instr.opcode = .getElementPtr constantOffset) (htype : instr.type = .ptr type)
    (hoperands : instr.operands = base :: index :: fields) (hbase : base.type = .ptr elem)
    (hp : s.state.getValue ctx ⟨base.id, base.type⟩ = .ok p) (hgiven : s.toMem.Given p)
    (hf : s.state.vc.constantContainer[(s.toMem.resolve p).targetOffset]? = some f)
    (hi : ConstantOperand ctx s index n a c) (hfields : FieldOperand ctx s elem fields field) :
    GepRight ctx s instr p (f + elementOffset n.bits c elem.getSizeOf field) ↔
      s.toMem.IndexAgrees p f n.bits c elem.getSizeOf field :=
  getElementPtr_agrees (run_graphOk hrun) (run_vcOk hrun) hop htype hoperands hbase hp hgiven hf hi hfields

end Addresses

/-! ## A negative index and a positive one -/

section Examples

attribute [local instance] Ty.x86

/-- A region for an `i32`, whose pointer is the id `1`, and the constants `-1` and `2` of type `i32`, the ids `3` and
`4`. -/
def intRegion : GraphHistory × MemState :=
  Trace.play GraphOp.exec [] MemState.new [.allocateRegion (.int 32) .heap, .container (.createConstIntVal 0xffffffff),
    .container (.createConstIntVal 2)]

theorem intRegion_run : GraphRun intRegion.1 intRegion.2 := Trace.Run.play (Trace.Run.start rfl) (by decide +kernel)

/-- A state in which the operands `10`, `11` and `12` have these values. -/
def intState : OpState :=
  { statics := intRegion.2.statics
    state := { AnalysisState.new 0 intRegion.2.vc with
      graph := intRegion.2.graph
      localMapping := (((∅ : Mapper).insert 10 1).insert 11 3).insert 12 4 } }

theorem intState_run : GraphRun intRegion.1 intState.toMem := intRegion_run

def Width.dword : Width := ⟨32, by decide, by decide⟩

def intPointer : Llvm.Value := ⟨10, .ptr (.int 32), false⟩

def intOperand (id : FrontendId) : Llvm.Value := ⟨id, .int 32, true⟩

theorem intState_minusOne : ConstantOperand ⟨[], ∅, ∅⟩ intState (intOperand 11) .dword 3 0xffffffff :=
  ⟨rfl, by decide +kernel, by decide +kernel⟩

theorem intState_two : ConstantOperand ⟨[], ∅, ∅⟩ intState (intOperand 12) .dword 4 2 :=
  ⟨rfl, by decide +kernel, by decide +kernel⟩

/-- `getelementptr i32, i32* %10, i32 %id`. -/
def intElement (id : FrontendId) : Instruction :=
  ⟨20, .ptr (.int 32), .getElementPtr none, [intPointer, intOperand id], false⟩

theorem intState_pointer : intState.state.getValue ⟨[], ∅, ∅⟩ ⟨intPointer.id, intPointer.type⟩ = .ok 1 := by
  decide +kernel

theorem intState_start : intState.state.vc.constantContainer[(intState.toMem.resolve 1).targetOffset]? = some 0 := by
  decide +kernel

theorem intState_unknown (n : Word) (e : PtEdge) : ¬ intState.toMem.Reuses 1 n e := by
  have hunknown : intState.state.vc.constantContainer[(1 : ValueId)]? = none := by decide +kernel
  rintro ⟨x, _, hx, _⟩
  cases hunknown.symm.trans hx

/-- The address of the third element. -/
theorem intElement_two :
    GepRight ⟨[], ∅, ∅⟩ intState (intElement 12) 1 (0 + elementOffset Width.dword.bits 2 (Ty.int 32).getSizeOf 0) := by
  refine (getElementPtr_iff intState_run rfl rfl rfl rfl intState_pointer (by decide +kernel) intState_start intState_two
    .none).2 ⟨fun e he => absurd he (intState_unknown _ e), fun _ => ?_⟩
  unfold IndexExact
  decide +kernel

/-- The address of the element before the first is wrong. -/
theorem not_gep_right : ¬ ∀ (es : GraphHistory) (ctx : Context) (s : OpState), GraphRun es s.toMem →
    ∀ (instr : Instruction) (constantOffset : Option Word) (type elem : Ty) (base index : Llvm.Value)
      (fields : List Llvm.Value) (field : ℕ) (n : Width) (p a : ValueId) (f c : Word),
      instr.opcode = .getElementPtr constantOffset → instr.type = .ptr type →
      instr.operands = base :: index :: fields → base.type = .ptr elem →
      s.state.getValue ctx ⟨base.id, base.type⟩ = .ok p → s.toMem.Given p →
      s.state.vc.constantContainer[(s.toMem.resolve p).targetOffset]? = some f →
      ConstantOperand ctx s index n a c → FieldOperand ctx s elem fields field →
      GepRight ctx s instr p (f + elementOffset n.bits c elem.getSizeOf field) := by
  intro h
  have hright := h _ _ intState intState_run (intElement 11) _ _ _ _ _ _ _ _ _ _ _ _ rfl rfl rfl rfl intState_pointer
    (by decide +kernel) intState_start intState_minusOne .none
  have hagree := (getElementPtr_agrees (run_graphOk intState_run) (run_vcOk intState_run) rfl rfl rfl rfl
    intState_pointer (by decide +kernel) intState_start intState_minusOne .none).1 hright
  have hexact : IndexExact 32 0xffffffff (Ty.int 32).getSizeOf := hagree.2 (intState_unknown _)
  unfold IndexExact at hexact
  exact absurd hexact (by decide +kernel)

end Examples

end Angie
