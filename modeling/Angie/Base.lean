import Std.Data.TreeMap.Lemmas
import Mathlib.Data.Nat.Notation

/-!
# Identifiers, exceptions, flags and types

The vocabulary that the value containers, the memory graphs, the frontend and the interpreter share: the identifiers
of `IdImpl.hpp`, the exceptions of `Exceptions.hpp`, the flag enumerations of `General.hpp` and the types of
`Type.hpp` with the queries that the data layout answers.

`std::map` is `Std.TreeMap`, `std::vector` and `std::queue` are lists, `uint64_t` and `int64_t` are both `BitVec 64`,
the signed view being `BitVec.toInt`. Identifiers are unbounded: their 64-bit counters do not wrap.
-/

namespace Angie

/-! ## Identifiers -/

/-- `Id<ValueIdToken>`. The reserved id `(uint64_t)-1` is `-1`; every id that is given out is non-negative. -/
abbrev ValueId := Int

/-- `Id<ObjectIdToken, int64_t, 1>`: `0` is the null object, `-1` the unknown one and `-2` the freed one. -/
abbrev ObjectId := Int

abbrev ConstraintId := Nat

/-- The address of the LLVM value that the frontend refers to. -/
abbrev FrontendId := Nat

/-- `uint64_t` and `int64_t`. -/
abbrev Word := BitVec 64

/-- The static members of the classes: the three counters that every container and graph draws from. -/
structure Statics where
  nextIdToGive : ValueId := 0
  nextConstraintIdToGive : ConstraintId := 0
  nextObjectIdToGive : ObjectId := 1

/-! ## Exceptions -/

/-- What a call can throw. The last one is not an exception of the program: it marks an execution to which C++ gives
no meaning. -/
inductive Exn where
  | runtimeError (what : String)
  | logicError (what : String)
  | outOfRange
  | notImplemented (what : String)
  | notSupported (what : String)
  | analysisError (what : String)
  | branch (what : String)
  | nullDereference
  | invalidDereference
  | invalidFree
  | doubleFree
  | nonHeapFree (what : String)
  | undefinedBehaviour (what : String)
  deriving DecidableEq, Repr

/-- The classes derived from `AnalysisErrorException`, which the interpreter catches. -/
def Exn.isAnalysisError : Exn → Bool
  | .analysisError _ | .branch _ | .nullDereference | .invalidDereference | .invalidFree | .doubleFree
  | .nonHeapFree _ => true
  | _ => false

/-- `NotSupportedException`. -/
def Exn.isNotSupported : Exn → Bool
  | .notSupported _ => true
  | _ => false

/-! ## Flags -/

/-- `CmpFlags`, by its named values. The signed relations are the plain ones: `SigGt = Default | Gt` and so on. -/
inductive CmpFlags where
  | default
  | unsigned
  | eq
  | neq
  | gt
  | gtEq
  | lt
  | ltEq
  | float
  | unordered
  | unsigGt
  | unsigGtEq
  | unsigLt
  | unsigLtEq
  deriving DecidableEq, Repr

/-- `ArithFlags`, a bit set. -/
abbrev ArithFlags := BitVec 16

namespace ArithFlags

def default : ArithFlags := 0x0000
def signed : ArithFlags := 0x0001
def unsigned : ArithFlags := 0x0002
def exact : ArithFlags := 0x0004
def noSignedWrap : ArithFlags := 0x0008
def noUnsignedWrap : ArithFlags := 0x0010

end ArithFlags

/-- `CHECK_FLAG`. -/
def checkFlag (var flag : ArithFlags) : Bool := var &&& flag == flag

inductive BinaryOpKind where
  | default | add | sub | mul | div | rem | shl | shr | and | or | xor
  deriving DecidableEq, Repr

inductive CastOpKind where
  | default | truncate | extend | fpToInt | intToFp | ptrToInt | intToPtr | bitCast | addrSpaceCast
  deriving DecidableEq, Repr

structure BinaryOpOptions where
  opKind : BinaryOpKind
  flags : ArithFlags
  deriving DecidableEq, Repr

structure CastOpOptions where
  opKind : CastOpKind
  flags : ArithFlags
  deriving DecidableEq, Repr

/-- `MemorySpace`. -/
inductive MemorySpace where
  | heap | stack | static | threadLocal | invalid
  deriving DecidableEq, Repr

/-- The answer of a query: `none` is `boost::indeterminate`. -/
abbrev Tribool := Option Bool

/-! ## Types -/

/-- The LLVM types, a struct by the index of its layout. -/
inductive Ty where
  | void
  | int (width : Nat)
  | real (width : Nat)
  | ptr (elem : Ty)
  | array (elem : Ty) (size : Nat)
  | struct (layout : Nat)
  | func
  deriving DecidableEq, Repr

/-- `llvmDataLayout`: what `LlvmType.cpp` asks it, with the documented answers for integers, pointers and byte
arrays. -/
class DataLayout where
  getTypeAllocSize : Ty → Nat
  getTypeSizeInBits : Ty → Nat
  getElementOffset : Nat → Nat → Nat
  getTypeSizeInBits_int (w : Nat) : getTypeSizeInBits (.int w) = w
  getTypeSizeInBits_ptr (t : Ty) : getTypeSizeInBits (.ptr t) = 64
  getTypeAllocSize_ptr (t : Ty) : getTypeAllocSize (.ptr t) = 8
  getTypeAllocSize_bytes (n : Nat) : getTypeAllocSize (.array (.int 8) n) = n

namespace Ty

/-- `CreateCharPointerType`, the `PTR_TYPE` of the sources. -/
def charPointer : Ty := .ptr (.int 8)

def isPointer : Ty → Bool
  | .ptr _ => true
  | _ => false

/-- `GetPointerElementType`, which asserts that the type is a pointer. -/
def getPointerElementType : Ty → Option Ty
  | .ptr t => some t
  | _ => none

variable [DataLayout]

/-- `GetSizeOf`: the allocation size. -/
def getSizeOf (t : Ty) : Nat := DataLayout.getTypeAllocSize t

/-- `GetBitWidth`. -/
def getBitWidth (t : Ty) : Nat := DataLayout.getTypeSizeInBits t

/-- `GetStructElementOffset`, which asserts that the type is a struct. -/
def getStructElementOffset : Ty → Nat → Option Nat
  | .struct layout, index => some (DataLayout.getElementOffset layout index)
  | _, _ => none

/-- The allocation size of an integer on x86-64: the next power of two, from 64 bits on whole words. -/
def intAllocSize (width : Nat) : Nat :=
  if width ≤ 8 then 1 else if width ≤ 16 then 2 else if width ≤ 32 then 4 else 8 * ((width + 63) / 64)

def allocSize : Ty → Nat
  | .void | .func => 0
  | .int w => intAllocSize w
  | .real w => w / 8
  | .ptr _ => 8
  | .array t n => allocSize t * n
  | .struct layout => 8 * layout

def sizeInBits : Ty → Nat
  | .void | .func => 0
  | .int w | .real w => w
  | .ptr _ => 64
  | .array t n => 8 * (allocSize t * n)
  | .struct layout => 64 * layout

omit [DataLayout]

/-- The layout of x86-64 for structs whose fields are words, `layout` of them. -/
abbrev x86 : DataLayout where
  getTypeAllocSize := allocSize
  getTypeSizeInBits := sizeInBits
  getElementOffset _ index := 8 * index
  getTypeSizeInBits_int _ := rfl
  getTypeSizeInBits_ptr _ := rfl
  getTypeAllocSize_ptr _ := rfl
  getTypeAllocSize_bytes n := Nat.one_mul n

variable [DataLayout]

@[simp] theorem getBitWidth_int (w : Nat) : (Ty.int w).getBitWidth = w := DataLayout.getTypeSizeInBits_int w

@[simp] theorem getBitWidth_charPointer : charPointer.getBitWidth = 64 := DataLayout.getTypeSizeInBits_ptr _

end Ty

end Angie
