import Angie.Frontend.Functions

/-!
# Constants

`DealWithConstants` with `Mapper::LinkToValueId`: every constant that an operand mentions is linked to a value, an
integer or a null pointer to the constant of the container, a pointer to the beginning of a global array to a new
unknown, and a function to the value that it was registered under. The loop ends with every constant linked as it
should be, or with the exception of the first one that cannot be (`dealWithConstants_iff`); what was linked before
stays linked, since a constant that is met again has the same value.
-/

namespace Angie

open Exec Llvm

namespace Llvm

/-- A `llvm::ConstantInt`. -/
structure ConstantInt where
  bits : ℕ
  value : BitVec bits
  deriving DecidableEq, Repr

/-- `getZExtValue`, with its assertion. -/
def ConstantInt.getZExtValue (c : ConstantInt) : Except Exn Word :=
  if c.value.toNat < 2 ^ 64 then .ok (c.value.setWidth 64) else .error (.undefinedBehaviour "Too many bits for uint64_t")

/-- `getZExtValue` through a pointer, which a failed `dyn_cast` left null. -/
def zExtValue : Option ConstantInt → Except Exn Word
  | some c => c.getZExtValue
  | none => .error (.undefinedBehaviour "null pointer")

/-- What `DealWithConstants` tells apart. -/
inductive Constant where
  | int (c : ConstantInt)
  | fp (isIEEE : Bool)
  | nullPtr
  /-- A constant expression that casts, its operand if that is an integer. -/
  | cast (operand : Option ConstantInt)
  /-- One that indexes with two indices. -/
  | getElementPtr (idx0 idx1 : Option ConstantInt)
  | otherExpr
  | function
  | globalVariable
  | other

/-- The word that a constant of the container has for it. -/
def Constant.word : Constant → Option Word
  | int c | cast (some c) => some (c.value.setWidth 64)
  | nullPtr => some 0
  | _ => none

/-- The constant can have a value. A function needs one already. -/
def Constant.Linkable (registered : Prop) : Constant → Prop
  | int c | cast (some c) => c.value.toNat < 2 ^ 64
  | nullPtr => True
  | getElementPtr idx0 idx1 => zExtValue idx0 = .ok 0 ∧ zExtValue idx1 = .ok 0
  | function => registered
  | _ => False

end Llvm

section DealWithConstants

variable (constantAt : FrontendId → Constant)

/-- The value of a constant, by what is at its address. -/
def constantValue (x : Llvm.Value) : ParserM ValueId :=
  match constantAt x.id with
  | .int c => do ParserM.callVc (createConstIntVal (← ofExcept c.getZExtValue))
  -- the container does not implement `CreateConstFloatVal`
  | .fp true => throw (.notImplemented "Not implemented")
  | .fp false => throw (.notSupported "unsupported floating point constant")
  | .nullPtr => ParserM.callVc (createConstIntVal 0)
  | .cast operand => do ParserM.callVc (createConstIntVal (← ofExcept (zExtValue operand)))
  | .getElementPtr idx0 idx1 => do
    if (← ofExcept (zExtValue idx0)) = 0 then
      if (← ofExcept (zExtValue idx1)) = 0 then ParserM.callVc (createVal x.type)
      else throw (.notSupported "unsupported constant constexpr")
    else throw (.notSupported "unsupported constant constexpr")
  | .otherExpr => throw (.notSupported "unsupported constant constexpr")
  | .function => do
    match (← get).mapper[x.id]? with
    | some id => return id
    | none => throw .outOfRange
  | .globalVariable => throw (.notSupported "global variables are not supported yet")
  | .other => throw (.notImplemented "'other constan value types' ")

/-- `Mapper::LinkToValueId`. -/
def linkToValueId (id : FrontendId) (value : ValueId) : ParserM Unit :=
  modify fun s => { s with mapper := s.mapper.insert id value }

/-- The loop over the constants. -/
def linkConstants : List Llvm.Value → ParserM Unit
  | [] => pure ()
  | x :: rest => do
    let id ← constantValue constantAt x
    linkToValueId x.id id
    linkConstants rest

def dealWithConstants : ParserM Unit := do linkConstants constantAt (← get).constantValuesToBeCreated

/-- `ParseModule` to its end. -/
def parseWholeModule (m : Module) (e : EntryFunction) (n : ℕ) : ParserM Unit := do
  parseModule m e n
  dealWithConstants constantAt

/-! ## What is linked -/

def ParserState.toVc (s : ParserState) : VcState := ⟨s.statics, s.vc⟩

/-- The state with another container. -/
def ParserState.withVc (s : ParserState) (t : VcState) : ParserState := { s with statics := t.statics, vc := t.vc }

/-- The value is the one of the constant. -/
structure ValueOf (x : Llvm.Value) (s : ParserState) (v : ValueId) : Prop where
  constant : ∀ u, (constantAt x.id).word = some u → s.vc.constantContainer[v]? = some u
  function : constantAt x.id = .function → s.mapper[x.id]? = some v

/-- After the constants `xs` were linked. Functions keep their values, and so do the ids that no constant has. -/
structure Links (xs : List Llvm.Value) (s t : ParserState) : Prop where
  frame : t = { s.withVc t.toVc with mapper := t.mapper }
  grows : Grows s.toVc t.toVc
  linked : ∀ x ∈ xs, ∃ v, t.mapper[x.id]? = some v ∧
    ∀ u, (constantAt x.id).word = some u → t.vc.constantContainer[v]? = some u
  functions : ∀ id : FrontendId, constantAt id = .function → t.mapper[id]? = s.mapper[id]?
  others : ∀ id : FrontendId, (∀ x ∈ xs, x.id ≠ id) → t.mapper[id]? = s.mapper[id]?

variable {constantAt} {s t : ParserState} {x : Llvm.Value}

theorem parserVc_run {α : Type} {m : VcM α} {a : α} {t : VcState} (h : m s.toVc = .ok a t) :
    ParserM.callVc m s = .ok a (s.withVc t) := by
  show zoom _ _ m s = _
  unfold zoom
  simp only [show m ⟨s.statics, s.vc⟩ = _ from h]
  rfl

theorem getZExtValue_cases (c : ConstantInt) :
    c.value.toNat < 2 ^ 64 ∧ c.getZExtValue = .ok (c.value.setWidth 64) ∨
      ¬ c.value.toNat < 2 ^ 64 ∧ ∃ e, c.getZExtValue = .error e := by
  unfold ConstantInt.getZExtValue
  split
  · exact Or.inl ⟨‹_›, rfl⟩
  · exact Or.inr ⟨‹_›, _, rfl⟩

/-- A constant of the container is made, or is there. -/
theorem constantValue_word {u : Word} (hword : (constantAt x.id).word = some u)
    (hfunction : constantAt x.id ≠ .function) :
    ∃ v t, ParserM.callVc (createConstIntVal u) s = .ok v (s.withVc t) ∧ Grows s.toVc t ∧
      ValueOf constantAt x (s.withVc t) v := by
  obtain ⟨v, t, hrun, hgrows, hv⟩ := createConstIntVal_spec u s.toVc
  refine ⟨v, t, parserVc_run hrun, hgrows, fun u' hu' => ?_, fun hf => absurd hf hfunction⟩
  cases hword.symm.trans hu'
  exact hv

/-- An integer gets the constant of the container, or is too large. -/
theorem zExtValue_value {c : ConstantInt} (hword : (constantAt x.id).word = some (c.value.setWidth 64))
    (hfunction : constantAt x.id ≠ .function) :
    (c.value.toNat < 2 ^ 64 ∧
      ∃ v t, (do ParserM.callVc (createConstIntVal (← ofExcept c.getZExtValue))) s = .ok v (s.withVc t) ∧
        Grows s.toVc t ∧ ValueOf constantAt x (s.withVc t) v) ∨
    ¬ c.value.toNat < 2 ^ 64 ∧
      ∃ e, (do ParserM.callVc (createConstIntVal (← ofExcept c.getZExtValue))) s = .error e s := by
  rcases getZExtValue_cases c with ⟨hlt, hc⟩ | ⟨hlt, e, hc⟩
  · obtain ⟨v, t, hrun, hrest⟩ := constantValue_word hword hfunction
    exact Or.inl ⟨hlt, v, t, (ofExcept_bind hc _ s).trans hrun, hrest⟩
  · refine Or.inr ⟨hlt, e, ?_⟩
    rw [hc]
    rfl

/-- A constant gets its value exactly if it can have one. -/
theorem constantValue_cases (s : ParserState) (x : Llvm.Value) :
    (Constant.Linkable (∃ v, s.mapper[x.id]? = some v) (constantAt x.id) ∧
      ∃ v t, constantValue constantAt x s = .ok v (s.withVc t) ∧ Grows s.toVc t ∧ ValueOf constantAt x (s.withVc t) v) ∨
    ¬ Constant.Linkable (∃ v, s.mapper[x.id]? = some v) (constantAt x.id) ∧
      ∃ e, constantValue constantAt x s = .error e s := by
  unfold constantValue
  cases hx : constantAt x.id with
  | int c => exact zExtValue_value (by rw [hx]; rfl) (by rw [hx]; exact nofun)
  | fp isIEEE => exact Or.inr ⟨id, by cases isIEEE <;> exact ⟨_, rfl⟩⟩
  | nullPtr =>
    have hword : (constantAt x.id).word = some 0 := by rw [hx]; rfl
    obtain ⟨v, t, hrest⟩ := constantValue_word (s := s) hword (by rw [hx]; exact nofun)
    exact Or.inl ⟨trivial, v, t, hrest⟩
  | cast operand =>
    cases operand with
    | none => exact Or.inr ⟨id, _, rfl⟩
    | some c => exact zExtValue_value (by rw [hx]; rfl) (by rw [hx]; exact nofun)
  | getElementPtr idx0 idx1 =>
    unfold Constant.Linkable
    dsimp only
    cases h0 : zExtValue idx0 with
    | error e => exact Or.inr ⟨nofun, e, rfl⟩
    | ok u0 =>
      rw [ofExcept_bind rfl, Except.ok.injEq]
      by_cases hu0 : u0 = 0
      · rw [if_pos hu0]
        cases h1 : zExtValue idx1 with
        | error e => exact Or.inr ⟨nofun, e, rfl⟩
        | ok u1 =>
          rw [ofExcept_bind rfl, Except.ok.injEq]
          by_cases hu1 : u1 = 0
          · rw [if_pos hu1]
            refine Or.inl ⟨⟨hu0, hu1⟩, _, _, parserVc_run (createVal_apply x.type s.toVc), grows_next _, ?_, ?_⟩
            · rw [hx]
              exact nofun
            · rw [hx]
              exact nofun
          · rw [if_neg hu1]
            exact Or.inr ⟨fun h => hu1 h.2, _, rfl⟩
      · rw [if_neg hu0]
        exact Or.inr ⟨fun h => hu0 h.1, _, rfl⟩
  | function =>
    dsimp only
    rw [bind_of_ok (get_apply s)]
    cases hv : s.mapper[x.id]? with
    | some v =>
      refine Or.inl ⟨⟨v, rfl⟩, v, s.toVc, rfl, Grows.refl _, ?_, fun _ => hv⟩
      rw [hx]
      exact nofun
    | none => exact Or.inr ⟨fun ⟨v, h⟩ => (nomatch h), _, rfl⟩
  | otherExpr | globalVariable | other => exact Or.inr ⟨id, _, rfl⟩

/-! ## The loop -/

theorem linkable_congr {p q : Prop} {c : Constant} (h : c = .function → (p ↔ q)) : c.Linkable p ↔ c.Linkable q := by
  cases c with
  | function => exact h rfl
  | cast operand => cases operand <;> exact Iff.rfl
  | int | fp | nullPtr | getElementPtr | otherExpr | globalVariable | other => exact Iff.rfl

/-- Linking a value of the constant leaves the functions alone. -/
theorem link_function {v : ValueId} (hv : ValueOf constantAt x s v) {id : FrontendId} (hid : constantAt id = .function) :
    (s.mapper.insert x.id v)[id]? = s.mapper[id]? := by
  rw [Std.TreeMap.getElem?_insert]
  by_cases heq : x.id = id
  · rw [if_pos (by simpa using heq), ← heq, hv.function (heq ▸ hid)]
  · rw [if_neg (by simpa using heq)]

theorem link_other {v : ValueId} {id : FrontendId} (hid : x.id ≠ id) :
    (s.mapper.insert x.id v)[id]? = s.mapper[id]? := by
  rw [Std.TreeMap.getElem?_insert, if_neg (by simpa using hid)]

/-- One constant, then the others. -/
theorem Links.cons {xs : List Llvm.Value} {v : ValueId} {u : VcState} (hs : ConstOk s.toVc) (hgrows : Grows s.toVc u)
    (hv : ValueOf constantAt x (s.withVc u) v)
    (h : Links constantAt xs { s.withVc u with mapper := s.mapper.insert x.id v } t) :
    Links constantAt (x :: xs) s t where
  frame := h.frame
  grows := hgrows.trans h.grows
  linked := by
    intro y hy
    by_cases hmem : ∃ z ∈ xs, z.id = y.id
    · obtain ⟨z, hz, hid⟩ := hmem
      exact hid ▸ h.linked z hz
    · have hnot : ∀ z ∈ xs, z.id ≠ y.id := fun z hz hid => hmem ⟨z, hz, hid⟩
      rcases List.mem_cons.1 hy with rfl | hy
      · refine ⟨v, (h.others y.id hnot).trans ?_, fun w hw => ?_⟩
        · rw [Std.TreeMap.getElem?_insert_self]
        · exact h.grows.bound (hgrows.keeps hs) (hv.constant w hw)
      · exact absurd rfl (hnot y hy)
  functions := fun id hid => (h.functions id hid).trans (link_function hv hid)
  others := fun id hid => (h.others id fun y hy => hid y (List.mem_cons_of_mem _ hy)).trans
    (link_other (hid x List.mem_cons_self))

/-- The loop links every constant, or meets one that cannot have a value. -/
theorem linkConstants_cases : ∀ (xs : List Llvm.Value) {s : ParserState}, ConstOk s.toVc →
    ((∀ x ∈ xs, (constantAt x.id).Linkable (∃ v, s.mapper[x.id]? = some v)) ∧
      ∃ t, linkConstants constantAt xs s = .ok () t ∧ Links constantAt xs s t) ∨
    (∃ x ∈ xs, ¬ (constantAt x.id).Linkable (∃ v, s.mapper[x.id]? = some v)) ∧
      ∃ e t, linkConstants constantAt xs s = .error e t
  | [], s, _ => Or.inl ⟨nofun, s, rfl, rfl, Grows.refl _, nofun, fun _ _ => rfl, fun _ _ => rfl⟩
  | x :: xs, s, hs => by
    rcases constantValue_cases s x with ⟨hx, v, u, hrun, hgrows, hv⟩ | ⟨hx, e, hrun⟩
    · have hloop : linkConstants constantAt (x :: xs) s =
          linkConstants constantAt xs { s.withVc u with mapper := s.mapper.insert x.id v } := bind_of_ok hrun
      -- the constants that follow can have a value as before
      have hsame : ∀ y : Llvm.Value, (constantAt y.id).Linkable (∃ w, (s.mapper.insert x.id v)[y.id]? = some w) ↔
          (constantAt y.id).Linkable (∃ w, s.mapper[y.id]? = some w) := by
        refine fun y => linkable_congr fun hy => ?_
        have hkeeps : (s.mapper.insert x.id v)[y.id]? = s.mapper[y.id]? := link_function hv hy
        rw [hkeeps]
      rw [hloop]
      rcases linkConstants_cases xs (s := { s.withVc u with mapper := s.mapper.insert x.id v }) (hgrows.keeps hs) with
        ⟨hall, t, hrest, hlinks⟩ | ⟨⟨y, hy, hnot⟩, herror⟩
      · refine Or.inl ⟨fun y hy => ?_, t, hrest, hlinks.cons hs hgrows hv⟩
        rcases List.mem_cons.1 hy with rfl | hy
        · exact hx
        · exact (hsame y).1 (hall y hy)
      · exact Or.inr ⟨⟨y, List.mem_cons_of_mem _ hy, fun h => hnot ((hsame y).2 h)⟩, herror⟩
    · refine Or.inr ⟨⟨x, List.mem_cons_self, hx⟩, e, s, ?_⟩
      change (constantValue constantAt x >>= _) s = _
      rw [bind_of_error hrun]

/-- What the loop has linked when it returns. -/
theorem links_of_ok {xs : List Llvm.Value} (hs : ConstOk s.toVc) (h : linkConstants constantAt xs s = .ok () t) :
    Links constantAt xs s t := by
  rcases linkConstants_cases xs hs with ⟨-, t', hrun, hlinks⟩ | ⟨-, e, t', hrun⟩
  · cases hrun.symm.trans h
    exact hlinks
  · cases hrun.symm.trans h

/-- `DealWithConstants` returns exactly if every constant can have a value, and then every integer and null pointer is
linked to its constant and every function to the value it was registered under. -/
theorem dealWithConstants_iff (hs : ConstOk s.toVc) :
    ((∃ t, dealWithConstants constantAt s = .ok () t) ↔
      ∀ x ∈ s.constantValuesToBeCreated, (constantAt x.id).Linkable (∃ v, s.mapper[x.id]? = some v)) ∧
    ∀ t, dealWithConstants constantAt s = .ok () t → Links constantAt s.constantValuesToBeCreated s t := by
  have hloop : dealWithConstants constantAt s = linkConstants constantAt s.constantValuesToBeCreated s := rfl
  refine ⟨⟨?_, fun hall => ?_⟩, fun t h => links_of_ok hs (hloop ▸ h)⟩
  · rintro ⟨t, h⟩
    rcases linkConstants_cases s.constantValuesToBeCreated hs with ⟨hall, -⟩ | ⟨-, e, t', hrun⟩
    · exact hall
    · cases hrun.symm.trans (hloop.symm.trans h)
  · rcases linkConstants_cases s.constantValuesToBeCreated hs with ⟨-, t, hrun, -⟩ | ⟨⟨x, hx, hnot⟩, -⟩
    · exact ⟨t, hloop.trans hrun⟩
    · exact absurd (hall x hx) hnot

end DealWithConstants

/-! ### An example -/

def fiveAt (id : FrontendId) : Constant := if id = 90 then .int ⟨32, 5⟩ else if id = 91 then .nullPtr else .function

/-- The operands are a number, which is met twice, a null pointer and a function that was registered. -/
def fiveOperands : ParserState :=
  { ParserState.new (VcState.new {}) with
    mapper := (∅ : Mapper).insert 100 7
    constantValuesToBeCreated := [⟨90, .int 32, true⟩, ⟨100, .ptr .func, true⟩, ⟨91, .ptr (.int 32), true⟩,
      ⟨90, .int 32, true⟩] }

theorem dealWithConstants_five : ∃ t, dealWithConstants fiveAt fiveOperands = .ok () t ∧
    (∃ v, t.mapper[(90 : FrontendId)]? = some v ∧ t.vc.constantContainer[v]? = some 5) ∧
    (∃ v, t.mapper[(91 : FrontendId)]? = some v ∧ t.vc.constantContainer[v]? = some 0) ∧
    t.mapper[(100 : FrontendId)]? = some 7 := by
  have hs : ConstOk fiveOperands.toVc := new_constOk (Int.le_refl 0)
  obtain ⟨hreturns, hlinks⟩ := @dealWithConstants_iff fiveAt fiveOperands hs
  have hall : ∀ x ∈ fiveOperands.constantValuesToBeCreated,
      (fiveAt x.id).Linkable (∃ v, fiveOperands.mapper[x.id]? = some v) := by
    intro x hx
    simp only [fiveOperands, List.mem_cons, List.not_mem_nil, or_false] at hx
    rcases hx with rfl | rfl | rfl | rfl
    · exact (by decide : (5 : BitVec 32).toNat < 2 ^ 64)
    · exact ⟨7, rfl⟩
    · trivial
    · exact (by decide : (5 : BitVec 32).toNat < 2 ^ 64)
  obtain ⟨t, ht⟩ := hreturns.2 hall
  obtain ⟨-, -, hlinked, hfunctions, -⟩ := hlinks t ht
  obtain ⟨v, hv, hfive⟩ := hlinked ⟨90, .int 32, true⟩ List.mem_cons_self
  obtain ⟨u, hu, hnull⟩ := hlinked ⟨91, .ptr (.int 32), true⟩ (by simp [fiveOperands])
  exact ⟨t, ht, ⟨v, hv, hfive 5 rfl⟩, ⟨u, hu, hnull 0 rfl⟩, hfunctions 100 rfl⟩

end Angie
