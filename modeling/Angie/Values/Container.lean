import Angie.Base

/-!
# The value container

`ValueContainerV1.{hpp,cpp}`: values are ids, about which the container knows a 64-bit constant (`constantContainer`)
or binary constraints with other ids (`constrContainer`, indexed by `constrIdContainer`).

Queries are functions of the container (`isCmp`, `isZero`, `isInternalRepEq`), modifying calls are in `VcM`, whose
state pairs the container with the static counters and survives a throw. Widths are those of integer types of 1 to 64
bits; signed overflow wraps, as it does on the supported targets, while an oversized shift and a trapping division are
`undefinedBehaviour`.
-/

namespace Angie

/-! ## Data -/

structure BinaryConstraint where
  first : ValueId
  second : ValueId
  relation : CmpFlags
  deriving DecidableEq, Repr

structure ValueContainer where
  /-- The precached id of the constant `0`. -/
  zero : ValueId
  constantContainer : Std.TreeMap ValueId Word
  constrContainer : Std.TreeMap ConstraintId BinaryConstraint
  constrIdContainer : Std.TreeMap ValueId (List ConstraintId)

/-- A container with the static counters it draws ids from. -/
structure VcState where
  statics : Statics
  vc : ValueContainer

abbrev VcM := EStateM Exn VcState

namespace BinaryConstraint

/-- The relation with its operands exchanged, for the relations that the constructor knows. -/
def mirror : CmpFlags → Except Exn CmpFlags
  | .eq => .ok .eq
  | .neq => .ok .neq
  | .gt => .ok .lt
  | .gtEq => .ok .ltEq
  | .lt => .ok .gt
  | .ltEq => .ok .gtEq
  | .unsigGt => .ok .unsigLt
  | .unsigGtEq => .ok .unsigLtEq
  | .unsigLt => .ok .unsigGt
  | .unsigLtEq => .ok .unsigGtEq
  | _ => .error (.runtimeError "Creating binaryconstraint with odd relation")

/-- The constructor. -/
def create (first' second' : ValueId) (relation' : CmpFlags) : Except Exn BinaryConstraint := do
  -- the comparison reads the members, which are default-constructed, and not the parameters
  let first : ValueId := 0
  let second : ValueId := 0
  let relation ← if first > second then mirror relation' else .ok relation'
  return ⟨first', second', relation⟩

/-- `Contains`. -/
def contains (c : BinaryConstraint) (id : ValueId) : Bool := id == c.first || id == c.second

/-- `GetOther`. -/
def getOther (c : BinaryConstraint) (id : ValueId) : Except Exn ValueId :=
  if id = c.first then .ok c.second
  else if id = c.second then .ok c.first
  else .error (.runtimeError "Constraint does not contain ValueId it should")

/-- The constructor stores the operands in the order given. -/
@[simp] theorem create_eq (a b : ValueId) (r : CmpFlags) : create a b r = .ok ⟨a, b, r⟩ := rfl

end BinaryConstraint

/-! ## Bits -/

/-- Masks out all but the lowest bits. -/
def ripBits (numOfBits : Nat) (w : Word) : Word :=
  if numOfBits < 64 then w &&& (((1 : Word) <<< numOfBits) - 1) else w

/-- Sign extends from `numOfBits` to 64 bits. -/
def signExtend64 (numOfBits : Nat) (w : Word) : Word :=
  let w := ripBits numOfBits w
  let mask := (1 : Word) <<< (numOfBits - 1)
  (-(w &&& mask)) ||| w

/-- The loop of `BSR`: `val` is shifted out one bit after another; 64 rounds empty it. -/
def bsrLoop : Nat → Word → Word → Word
  | 0, _, pos => pos
  | n + 1, val, pos => if val >>> 1 = 0 then pos else bsrLoop n (val >>> 1) (pos + 1)

/-- `BSR`, with its special cases `0`, `1` and `2`. -/
def bsr (val : Word) : Word :=
  if val ≤ 1 then val else if val = 2 then 1 else bsrLoop 64 val 1

namespace ValueContainer

variable (vc : ValueContainer)

/-! ## Queries -/

def isConstant (id : ValueId) : Bool := vc.constantContainer.contains id

/-- `GetConstraintIdVector`. -/
def getConstraintIdVector (id : ValueId) : List ConstraintId := vc.constrIdContainer[id]?.getD []

/-- `constrContainer.at`. -/
def constrAt (id : ConstraintId) : Except Exn BinaryConstraint :=
  match vc.constrContainer[id]? with
  | some c => .ok c
  | none => .error .outOfRange

/-- `constrContainer.find`, followed by the check that the constraint exists. -/
def constrFind (what : String) (id : ConstraintId) : Except Exn BinaryConstraint :=
  match vc.constrContainer[id]? with
  | some c => .ok c
  | none => .error (.runtimeError what)

/-- `GetConstantIntInnerVal`: `constantContainer.at`. -/
def getConstantIntInnerVal (id : ValueId) : Except Exn Word :=
  match vc.constantContainer[id]? with
  | some w => .ok w
  | none => .error .outOfRange

/-- Two constants compared at a width. -/
def cmpConstants (numOfBits : Nat) (c1 c2 : Word) (flags : CmpFlags) : Except Exn Tribool :=
  let val1 := signExtend64 numOfBits c1
  let val2 := signExtend64 numOfBits c2
  let uval1 := ripBits numOfBits c1
  let uval2 := ripBits numOfBits c2
  match flags with
  | .eq => .ok (some (uval1 == uval2))
  | .neq => .ok (some (uval1 != uval2))
  | .gt => .ok (some (val2.slt val1))
  | .gtEq => .ok (some (val2.sle val1))
  | .lt => .ok (some (val1.slt val2))
  | .ltEq => .ok (some (val1.sle val2))
  | .unsigGt => .ok (some (uval2.ult uval1))
  | .unsigGtEq => .ok (some (uval2.ule uval1))
  | .unsigLt => .ok (some (uval1.ult uval2))
  | .unsigLtEq => .ok (some (uval1.ule uval2))
  | _ => .error (.runtimeError "Unexpected binary constraint")

/-- What a constraint of an unknown with the constant `uval2` says about its relation to the constant `uval1`. -/
def decideConstant (relation : CmpFlags) (uval1 uval2 : Word) : CmpFlags → Tribool
  | .eq =>
    if relation = .eq then some (uval1 == uval2)
    else if relation = .neq ∧ uval1 = uval2 then some false
    else none
  | .neq =>
    if relation = .eq then some (uval1 != uval2)
    else if relation = .neq ∧ uval1 = uval2 then some true
    else none
  | _ => none

/-- What a constraint between two unknowns says about the relation asked for. -/
def decideUnknowns (relation : CmpFlags) : CmpFlags → Tribool
  | .eq =>
    if relation = .eq then some true
    else if relation = .neq ∨ relation = .gt ∨ relation = .lt then some false
    else none
  | .neq =>
    if relation = .eq then some false
    else if relation = .neq ∨ relation = .gt ∨ relation = .lt then some true
    else none
  | .gt =>
    if relation = .gt then some true
    else if relation = .eq ∨ relation = .lt ∨ relation = .ltEq then some false
    else none
  | .lt =>
    if relation = .lt then some true
    else if relation = .eq ∨ relation = .gt ∨ relation = .gtEq then some false
    else none
  | .gtEq =>
    if relation = .gt ∨ relation = .gtEq ∨ relation = .eq then some true
    else if relation = .lt then some false
    else none
  | .ltEq =>
    if relation = .lt ∨ relation = .ltEq ∨ relation = .eq then some true
    else if relation = .gt then some false
    else none
  | _ => none

/-- The loop of `IsCmp` over the constraints of the unknown `second`, for the constant `uval1`. -/
def isCmpConstant (second : ValueId) (numOfBits : Nat) (uval1 : Word) (flags : CmpFlags) :
    List ConstraintId → Except Exn Tribool
  | [] => .ok none
  | id :: ids => do
    let constraint ← vc.constrAt id
    let other ← constraint.getOther second
    match vc.constantContainer[other]? with
    | none => isCmpConstant second numOfBits uval1 flags ids
    | some c =>
      match decideConstant constraint.relation uval1 (ripBits numOfBits c) flags with
      | some b => return some b
      | none => isCmpConstant second numOfBits uval1 flags ids

/-- The loop of `IsCmp` over the constraints of `first`, both values being unknown. -/
def isCmpUnknowns (first second : ValueId) (flags : CmpFlags) : List ConstraintId → Except Exn Tribool
  | [] => .ok none
  | id :: ids => do
    let constraint ← vc.constrFind "ConstraintId references constraint that does not exist." id
    let other ← constraint.getOther first
    if second = other then
      match decideUnknowns constraint.relation flags with
      | some b => return some b
      | none => isCmpUnknowns first second flags ids
    else isCmpUnknowns first second flags ids

variable [DataLayout]

def isCmp (first second : ValueId) (type : Ty) (flags : CmpFlags) : Except Exn Tribool :=
  match vc.constantContainer[first]?, vc.constantContainer[second]? with
  | some c1, some c2 => cmpConstants type.getBitWidth c1 c2 flags
  | some c1, none =>
    vc.isCmpConstant second type.getBitWidth (ripBits type.getBitWidth c1) flags (vc.getConstraintIdVector second)
  | none, some c2 =>
    vc.isCmpConstant first type.getBitWidth (ripBits type.getBitWidth c2) flags (vc.getConstraintIdVector first)
  | none, none => vc.isCmpUnknowns first second flags (vc.getConstraintIdVector first)

/-- `IsTrue`: different from zero. -/
def isTrue (first : ValueId) (type : Ty) : Except Exn Tribool := vc.isCmp first vc.zero type .neq

/-- `IsFalse`: equal to zero. -/
def isFalse (first : ValueId) (type : Ty) : Except Exn Tribool := vc.isCmp first vc.zero type .eq

omit [DataLayout]

/-- The loop of `IsInternalRepEq`. -/
def isInternalRepEqLoop (second : ValueId) : List ConstraintId → Except Exn Tribool
  | [] => .ok none
  | id :: ids => do
    let constr ← vc.constrFind "Referenced constraint does not exist!" id
    if constr.contains second then
      match constr.relation with
      | .eq => return some true
      | .neq | .gt | .lt => return some false
      | _ => isInternalRepEqLoop second ids
    else isInternalRepEqLoop second ids

def isInternalRepEq (first second : ValueId) : Except Exn Tribool :=
  if first = second then .ok (some true)
  else if vc.isConstant first && vc.isConstant second then .ok (some false)
  else if first > second then vc.isInternalRepEqLoop first (vc.getConstraintIdVector second)
  else vc.isInternalRepEqLoop second (vc.getConstraintIdVector first)

/-- What a constraint with the constant `value` says about being zero. -/
def decideZero (relation : CmpFlags) (value : Word) : Tribool :=
  match relation with
  | .eq => some (value == 0)
  | .neq => if value = 0 then some false else none
  | .gt => if (0 : Word).sle value then some false else none
  | .gtEq => if (0 : Word).slt value then some false else none
  | .lt => if value.sle 0 then some false else none
  | .ltEq => if value.slt 0 then some false else none
  | _ => none

/-- The loop of `IsZero`. -/
def isZeroLoop (first : ValueId) : List ConstraintId → Except Exn Tribool
  | [] => .ok none
  | id :: ids => do
    let constr ← vc.constrFind "Referenced constraint does not exist!" id
    let second ← constr.getOther first
    match vc.constantContainer[second]? with
    | none => isZeroLoop first ids
    | some value =>
      match decideZero constr.relation value with
      | some b => return some b
      | none => isZeroLoop first ids

def isZero (first : ValueId) : Except Exn Tribool :=
  if first = vc.zero then .ok (some true)
  else
    match vc.constantContainer[first]? with
    | some value => .ok (some (value == 0))
    | none => vc.isZeroLoop first (vc.getConstraintIdVector first)

end ValueContainer

/-! ## Modifying calls -/

/-- A query of the container. -/
def VcM.query {α : Type} (q : ValueContainer → Except Exn α) : VcM α := fun s =>
  match q s.vc with
  | .ok a => .ok a s
  | .error e => .error e s

/-- `ValueId::GetNextId`. -/
def getNextValueId : VcM ValueId := fun s =>
  .ok s.statics.nextIdToGive { s with statics.nextIdToGive := s.statics.nextIdToGive + 1 }

/-- `GetNextConstraintId`. -/
def getNextConstraintId : VcM ConstraintId := fun s =>
  .ok s.statics.nextConstraintIdToGive
    { s with statics.nextConstraintIdToGive := s.statics.nextConstraintIdToGive + 1 }

/-- The container without the constraint, which is also taken from the lists of both of its values. -/
def ValueContainer.withoutConstraint (vc : ValueContainer) (id : ConstraintId) (c : BinaryConstraint) :
    ValueContainer :=
  { vc with
    constrIdContainer :=
      (vc.constrIdContainer.modify c.first (·.filter (· ≠ id))).modify c.second (·.filter (· ≠ id))
    constrContainer := vc.constrContainer.erase id }

def deleteConstraint (constrId : ConstraintId) : VcM Unit := do
  let s ← get
  let constraint ← VcM.query (·.constrFind "Trying to delete constraint that does not exist" constrId)
  if s.vc.constrIdContainer.contains constraint.first && s.vc.constrIdContainer.contains constraint.second then
    set { s with vc := s.vc.withoutConstraint constrId constraint }
  else
    throw (.runtimeError "ValueId contained in a constraint does not reference the constraint")

/-- The loop of `InsertConstraint` for a constraint with a constant, over the old constraints of the other value. -/
def invalidateWithConstant (relation : CmpFlags) : List ConstraintId → VcM Unit
  | [] => pure ()
  | oldConstraintId :: ids => do
    let _ ← VcM.query (·.constrFind "ConstraintId references constraint that does not exist." oldConstraintId)
    -- only an equality deletes the previous ones; intervals are not supported
    (if relation = .eq then deleteConstraint oldConstraintId else pure ())
    invalidateWithConstant relation ids

/-- The loop of `InsertConstraint` over the old constraints of the first value: those with the same two values go. -/
def invalidateMutual (constr : BinaryConstraint) : List ConstraintId → VcM Unit
  | [] => pure ()
  | oldConstraintId :: ids => do
    let old ← VcM.query (·.constrAt oldConstraintId)
    let other ← VcM.query fun _ => old.getOther constr.first
    (if constr.second = other then deleteConstraint oldConstraintId else pure ())
    invalidateMutual constr ids

/-- The container with a new constraint, which both of its values refer to. -/
def ValueContainer.withConstraint (vc : ValueContainer) (id : ConstraintId) (c : BinaryConstraint) :
    ValueContainer :=
  let lists := vc.constrIdContainer.insert c.first (vc.getConstraintIdVector c.first ++ [id])
  { vc with
    constrContainer := vc.constrContainer.insert id c
    constrIdContainer := lists.insert c.second (lists[c.second]?.getD [] ++ [id]) }

/-- The first part of `InsertConstraint`: a constraint with a constant invalidates those of the other value. -/
def invalidateOld (constr : BinaryConstraint) : VcM Unit := do
  let vc := (← get).vc
  if vc.isConstant constr.first then
    invalidateWithConstant constr.relation (vc.getConstraintIdVector constr.second)
  else if vc.isConstant constr.second then
    invalidateWithConstant constr.relation (vc.getConstraintIdVector constr.first)

def insertConstraint (constr : BinaryConstraint) : VcM Unit := do
  invalidateOld constr
  invalidateMutual constr ((← get).vc.getConstraintIdVector constr.first)
  let newConstraintId ← getNextConstraintId
  modify fun s => { s with vc := s.vc.withConstraint newConstraintId constr }

/-- `CreateVal(Type)`. -/
def createVal (_type : Ty) : VcM ValueId := getNextValueId

/-- `CreateConstIntVal(uint64_t)`: the id already bound to the constant, else a new one. -/
def createConstIntVal (value : Word) : VcM ValueId := do
  match (← get).vc.constantContainer.toList.find? (·.2 == value) with
  | some item => return item.1
  | none =>
    let ret ← getNextValueId
    modify fun s => { s with vc.constantContainer := s.vc.constantContainer.insert ret value }
    return ret

section Typed

variable [DataLayout]

def cmp (first second : ValueId) (type : Ty) (flags : CmpFlags) : VcM ValueId := do
  match ← VcM.query (·.isCmp first second type flags) with
  | none => createVal (.int 1)
  | some b => createConstIntVal (if b then 1 else 0)

def assume (first second : ValueId) (type : Ty) (flags : CmpFlags) : VcM Unit := do
  if (← VcM.query (·.isCmp first second type flags)) = some true then return
  insertConstraint (← VcM.query fun _ => BinaryConstraint.create first second flags)

def assumeTrue (first : ValueId) : VcM Unit := do
  if (← VcM.query (·.isTrue first (.int 64))) = some true then return
  insertConstraint (← VcM.query fun vc => BinaryConstraint.create vc.zero first .neq)

def assumeFalse (first : ValueId) : VcM Unit := do
  if (← VcM.query (·.isFalse first (.int 64))) = some true then return
  insertConstraint (← VcM.query fun vc => BinaryConstraint.create vc.zero first .eq)

/-! ## Operations -/

/-- The absolute value of a signed word. -/
def absWord (w : Word) : Word := if w.slt 0 then -w else w

/-- A constant result of `BinOp`, `none` when the operation yields an unknown. -/
def evalBinOp (numOfBits : Nat) (options : BinaryOpOptions) (lhs rhs : Word) : Except Exn (Option Word) :=
  let uValueLhs := ripBits numOfBits lhs
  let uValueRhs := ripBits numOfBits rhs
  let sValueLhs := signExtend64 numOfBits lhs
  let sValueRhs := signExtend64 numOfBits rhs
  let uMax := ripBits numOfBits (BitVec.allOnes 64)
  let sMax := ripBits (numOfBits - 1) (BitVec.allOnes 64)
  let sMin := (1 : Word) <<< (numOfBits - 1)
  let width : Word := BitVec.ofNat 64 numOfBits
  match options.opKind with
  | .add =>
    if checkFlag options.flags .noUnsignedWrap then
      if (uMax - uValueLhs).ult uValueRhs then .ok none else .ok (some (uValueLhs + uValueRhs))
    else if checkFlag options.flags .noSignedWrap && (0 : Word).slt (sValueLhs * sValueRhs) then
      if (0 : Word).sle sValueLhs then
        if (sMax - sValueLhs).slt sValueRhs then .ok none else .ok (some (uValueLhs + uValueRhs))
      else if sValueRhs.slt (sMin - sValueLhs) then .ok none
      else .ok (some (uValueLhs + uValueRhs))
    else .ok (some (uValueLhs + uValueRhs))
  | .sub =>
    if checkFlag options.flags .noUnsignedWrap then
      if uValueLhs.ult uValueRhs then .ok none else .ok (some (uValueLhs - uValueRhs))
    else if checkFlag options.flags .noSignedWrap && (sValueLhs * sValueRhs).slt 0 then
      if (0 : Word).sle sValueLhs then
        if (sMax + sValueRhs).slt sValueLhs then .ok none else .ok (some (uValueLhs - uValueRhs))
      else if sValueLhs.slt (sMin + sValueRhs) then .ok none
      else .ok (some (uValueLhs - uValueRhs))
    else .ok (some (uValueLhs - uValueRhs))
  | .mul =>
    if checkFlag options.flags .noUnsignedWrap then
      if width.ult (bsr uValueLhs + bsr uValueRhs) then .ok none else .ok (some (sValueLhs * sValueRhs))
    else if checkFlag options.flags .noSignedWrap then
      if width.ult (bsr (absWord sValueLhs) + bsr (absWord sValueRhs)) then .ok none
      else .ok (some (sValueLhs * sValueRhs))
    else .ok (some (sValueLhs * sValueRhs))
  | .div =>
    if uValueRhs = 0 then .ok none
    else if options.flags = .unsigned then .ok (some (uValueLhs / uValueRhs))
    else if options.flags = .signed then
      if sValueLhs = BitVec.intMin 64 ∧ sValueRhs = -1 then .error (.undefinedBehaviour "INT64_MIN / -1")
      else .ok (some (sValueLhs.sdiv sValueRhs))
    else .error (.runtimeError "Undefined type of division.")
  | .rem =>
    if uValueRhs = 0 then .ok none
    else if options.flags = .unsigned then .ok (some (uValueLhs % uValueRhs))
    else if options.flags = .signed then
      if sValueLhs = BitVec.intMin 64 ∧ sValueRhs = -1 then .error (.undefinedBehaviour "INT64_MIN % -1")
      else .ok (some (sValueLhs.srem sValueRhs))
    else .error (.runtimeError "Undefined type of remainder.")
  | .and => .ok (some (uValueLhs &&& uValueRhs))
  | .or => .ok (some (uValueLhs ||| uValueRhs))
  | .xor => .ok (some (uValueLhs ^^^ uValueRhs))
  | .shl =>
    if 64 ≤ uValueRhs.toNat then .error (.undefinedBehaviour "shift by 64 or more")
    else .ok (some (uValueLhs <<< uValueRhs.toNat))
  | .shr =>
    if 64 ≤ uValueRhs.toNat then .error (.undefinedBehaviour "shift by 64 or more")
    else
      let result := uValueLhs >>> uValueRhs.toNat
      let isNegative : Bool := uValueLhs &&& ((1 : Word) <<< (numOfBits - 1)) != 0
      if options.flags = .unsigned then .ok (some result)
      else if options.flags = .signed then
        let origBits : Word := width - uValueRhs
        if !isNegative then .ok (some result)
        else if origBits.slt 0 then .ok (some (BitVec.allOnes 64))
        else if 64 ≤ origBits.toNat then .error (.undefinedBehaviour "shift by 64 or more")
        else .ok (some (result ||| ~~~(((1 : Word) <<< origBits.toNat) - 1)))
      else .error (.runtimeError "Undefined type of shift.")
  | .default => .error (.runtimeError "Operation not specified!")

def binOp (first second : ValueId) (type : Ty) (options : BinaryOpOptions) : VcM ValueId := do
  let vc := (← get).vc
  match vc.constantContainer[first]?, vc.constantContainer[second]? with
  | some lhs, some rhs =>
    match ← VcM.query fun _ => evalBinOp type.getBitWidth options lhs rhs with
    | some result => createConstIntVal result
    | none => createVal type
  | _, _ => createVal type

def add (first second : ValueId) (type : Ty) (flags : ArithFlags) : VcM ValueId :=
  binOp first second type ⟨.add, flags⟩

def mul (first second : ValueId) (type : Ty) (flags : ArithFlags) : VcM ValueId :=
  binOp first second type ⟨.mul, flags⟩

omit [DataLayout] in
def bitNot (first : ValueId) (type : Ty) : VcM ValueId := do
  match (← get).vc.constantContainer[first]? with
  | none => createVal type
  | some value => createConstIntVal (~~~value)

def extendInt (first : ValueId) (sourceType targetType : Ty) (flags : ArithFlags) : VcM ValueId := do
  match (← get).vc.constantContainer[first]? with
  | none => createVal targetType
  | some value =>
    if checkFlag flags .signed then createConstIntVal (signExtend64 sourceType.getBitWidth value)
    else createConstIntVal (ripBits sourceType.getBitWidth value)

omit [DataLayout] in
def truncateInt (first : ValueId) (_sourceType targetType : Ty) : VcM ValueId := do
  match (← get).vc.constantContainer[first]? with
  | none => createVal targetType
  | some _ => return first

/-- `GetSizeOfV`. -/
def getSizeOfV (type : Ty) : VcM ValueId := createConstIntVal (BitVec.ofNat 64 type.getSizeOf)

end Typed

/-- The constructor: an empty container, in which the constant `0` is created. -/
def VcState.new (statics : Statics) : VcState :=
  let empty : VcState := ⟨statics, ⟨0, ∅, ∅, ∅⟩⟩
  match createConstIntVal 0 empty with
  | .ok z s => { s with vc.zero := z }
  | .error _ s => s

end Angie
