import Angie.Frontend.Llvm

/-!
# From instructions to operations

`LlvmCfgParser::GetOperationFor` and the arguments that `GetOperArgsForInstr` assembles: the operation of
`IOperationFactory` that an instruction becomes, and the vector of its target, its options and its operands.
-/

namespace Angie

/-! ## Arguments of operations -/

structure FrontendIdTypePair where
  id : FrontendId
  type : Ty
  deriving DecidableEq, Repr

/-- The union `OperArg`, with the member that was written. -/
inductive OperArg where
  | idTypePair (pair : FrontendIdTypePair)
  | binOpOpts (opts : BinaryOpOptions)
  | castOpOpts (opts : CastOpOptions)
  | cmpFlags (flags : CmpFlags)
  deriving DecidableEq, Repr

namespace OperArg

/-- `CreateEmptyArg`. -/
def empty : OperArg := .idTypePair ⟨0, .void⟩

def idTypePair? : OperArg → Option FrontendIdTypePair
  | .idTypePair pair => some pair
  | _ => none

def binOpOpts? : OperArg → Option BinaryOpOptions
  | .binOpOpts opts => some opts
  | _ => none

def castOpOpts? : OperArg → Option CastOpOptions
  | .castOpOpts opts => some opts
  | _ => none

def cmpFlags? : OperArg → Option CmpFlags
  | .cmpFlags flags => some flags
  | _ => none

end OperArg

/-- 0 is the target, 1 the options, from 2 on the operands. -/
abbrev OperationArgs := List OperArg

namespace OperationArgs

variable (args : OperationArgs)

/-- A member of the union at an index. -/
def memberAt {α : Type} (member : OperArg → Option α) (index : ℕ) : Except Exn α :=
  match args[index]? with
  | some arg =>
    match member arg with
    | some a => .ok a
    | none => .error (.undefinedBehaviour "inactive member of OperArg")
  | none => .error (.undefinedBehaviour "index out of args")

def getTarget : Except Exn FrontendIdTypePair := args.memberAt OperArg.idTypePair? 0

def getOperand (index : ℕ) : Except Exn FrontendIdTypePair := args.memberAt OperArg.idTypePair? (index + 2)

/-- `CallOpArgs::GetOptions`. -/
def callOptions : Except Exn FrontendIdTypePair := args.memberAt OperArg.idTypePair? 1

/-- `CastOpArgs::GetOptions`. -/
def castOptions : Except Exn CastOpOptions := args.memberAt OperArg.castOpOpts? 1

/-- `BinaryOpArgs::GetOptions`. -/
def binaryOptions : Except Exn BinaryOpOptions := args.memberAt OperArg.binOpOpts? 1

/-- `CmpOpArgs::GetOptions`. -/
def cmpOptions : Except Exn CmpFlags := args.memberAt OperArg.cmpFlags? 1

end OperationArgs

/-! ## Operations -/

/-- What `IOperationFactory` hands out. -/
inductive Operation where
  | ret | br | call | invoke | binOp | cast | alloca | load | store | getElementPtr | cmp | abort | exit
  | memset | memcpy | memmove | malloc | free | notSupportedInstr | noop | terminate | createUnknownVal
  | diagnosticsPlotMem
  deriving DecidableEq, Repr

open Llvm

/-- `startswith`. -/
def startsWith (name pre : String) : Bool := pre.toList.isPrefixOf name.toList

/-- The direct calls that are no calls. -/
def operationForCall (name : String) (isIntrinsic : Bool) : Except Exn Operation :=
  if isIntrinsic then
    if startsWith name "llvm.dbg" then .ok .noop
    else if startsWith name "llvm.memset" then .ok .memset
    else .error (.notSupported ("unsupported intrinsic function: " ++ name))
  else if startsWith name "__ANGIE" then
    if name = "__ANGIE_DIAGNOSTICS_PLOT_MEMORY" then .ok .diagnosticsPlotMem
    else if startsWith name "__ANGIE_CREATE_UNKNOWN_" then .ok .createUnknownVal
    else if startsWith name "__ANGIE_fin" then .ok .terminate
    else .ok .call
  else if name = "abort" then .ok .abort
  else if name = "exit" then .ok .exit
  else if name = "malloc" then .ok .malloc
  else if name = "free" then .ok .free
  else .ok .call

def getOperationFor (instr : Instruction) : Except Exn Operation :=
  match instr.opcode with
  | .ret => .ok .ret
  | .br _ | .condBr _ _ => .ok .br
  | .alloca => .ok .alloca
  | .load => .ok .load
  | .store => .ok .store
  | .getElementPtr _ => .ok .getElementPtr
  | .iCmp _ | .fCmp => .ok .cmp
  | .call (.function _ name isIntrinsic) => operationForCall name isIntrinsic
  | .call (.value _ _) => .ok .call
  | .invoke _ => .ok .invoke
  -- `CastOpsEnd` is the opcode after the last cast, which is that of `cleanuppad`
  | .cast _ | .cleanupPad => .ok .cast
  | .binary _ _ _ _ => .ok .binOp
  | _ => .ok .notSupportedInstr

/-! ## Options -/

/-- The flags of `isUnsigned`, `isTrueWhenEqual` and the unsigned predicate together. -/
def Llvm.Predicate.flags : Predicate → CmpFlags
  | .eq => .eq
  | .ne => .neq
  | .ugt => .unsigGt
  | .uge => .unsigGtEq
  | .ult => .unsigLt
  | .ule => .unsigLtEq
  | .sgt => .gt
  | .sge => .gtEq
  | .slt => .lt
  | .sle => .ltEq

namespace Llvm.BinaryOps

def kind : BinaryOps → BinaryOpKind
  | .add | .fAdd => .add
  | .sub | .fSub => .sub
  | .mul | .fMul => .mul
  | .uDiv | .sDiv | .fDiv => .div
  | .uRem | .sRem | .fRem => .rem
  | .shl => .shl
  | .lShr | .aShr => .shr
  | .and => .and
  | .or => .or
  | .xor => .xor

/-- `llvm::OverflowingBinaryOperator`. -/
def isOverflowing : BinaryOps → Bool
  | .add | .sub | .mul | .shl => true
  | _ => false

def flags (op : BinaryOps) (hasNoSignedWrap hasNoUnsignedWrap isExact : Bool) : ArithFlags :=
  let wrap : ArithFlags :=
    if op.isOverflowing then
      (if hasNoSignedWrap then ArithFlags.noSignedWrap else ArithFlags.default) |||
        (if hasNoUnsignedWrap then ArithFlags.noUnsignedWrap else ArithFlags.default)
    else ArithFlags.default
  let exact := if isExact then ArithFlags.exact else ArithFlags.default
  match op with
  | .sDiv | .aShr => wrap ||| exact ||| ArithFlags.signed
  | .sRem => wrap ||| ArithFlags.signed
  | .uDiv | .lShr => wrap ||| exact ||| ArithFlags.unsigned
  | .uRem => wrap ||| ArithFlags.unsigned
  | _ => wrap

end Llvm.BinaryOps

def Llvm.CastOps.options : CastOps → CastOpOptions
  | .trunc => ⟨.truncate, .default⟩
  | .zExt => ⟨.extend, .unsigned⟩
  | .sExt => ⟨.extend, .signed⟩
  | .fpExt => ⟨.extend, .default⟩
  | .bitCast => ⟨.bitCast, .default⟩
  | .ptrToInt => ⟨.ptrToInt, .default⟩
  | .intToPtr => ⟨.intToPtr, .default⟩
  | _ => ⟨.default, .default⟩

/-- Argument 1. -/
def optionsFor (instr : Instruction) : Except Exn OperArg :=
  match instr.opcode with
  | .call (.function id _ _) => .ok (.idTypePair ⟨id, .ptr .func⟩)
  | .call (.value id type) => .ok (.idTypePair ⟨id, type⟩)
  | .iCmp predicate => .ok (.cmpFlags predicate.flags)
  | .fCmp => .error (.notImplemented "Not implemented")
  | .getElementPtr (some offset) => .ok (.idTypePair ⟨offset.toNat, .void⟩)
  | .binary op nsw nuw exact => .ok (.binOpOpts ⟨op.kind, op.flags nsw nuw exact⟩)
  | .cast op => .ok (.castOpOpts op.options)
  | _ => .ok OperArg.empty

/-- `ToOperArg`. -/
def toOperArg (v : Llvm.Value) : OperArg := .idTypePair ⟨v.id, v.type⟩

/-- Argument 0. -/
def targetFor (instr : Instruction) : OperArg :=
  if instr.type = .void then OperArg.empty else .idTypePair ⟨instr.id, instr.type⟩

/-- The arguments that `GetOperArgsForInstr` returns. -/
def operArgsFor (instr : Instruction) : Except Exn OperationArgs := do
  let options ← optionsFor instr
  return targetFor instr :: options :: instr.operands.map toOperArg

end Angie
