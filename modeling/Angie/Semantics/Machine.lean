import Angie.Interp.Indexing
import Angie.Interp.Refusals

/-!
# The machine that runs the nodes

What the interpreter is about: programs of nodes that run on integers and on blocks of memory. A block has fields at
fixed offsets, each of a scalar type, which do not overlap. A pointer is `null` or leads to an offset in a block; one
that was never set is `junk`, and a field of the null pointer is `wild`.

The machine goes on in two ways. The interpreter follows `Program.Moves`, or an exception leaves it. The rest is
`Program.Departs`, what the language does where the interpreter is known to do something else: sign extension, zero
extension of more than a bit and truncation to one, arithmetic on bits, `memset`, a `getelementptr` whose index is no
constant, or a negative one that is narrower than a pointer, or that leads elsewhere than to an element or a field of
it, a `malloc` that fails, a comparison of pointers by order, or of pointers whose blocks do not tell them apart (one
was freed, or leads out of its block, or both lead to one address and were computed separately), and whatever the
language or the machine says nothing of (`Program.Unsaid`): a division by zero and other results that are undefined, an
access that is not to a field of its type, `free` of a pointer into the middle of a block, an operand of which nothing
is known (the arguments of the program, functions, globals, numbers that are no integers of at most 64 bits) or a cast
to such a thing, a call of a function that is not in the program or through a pointer.

The machine fails (`Program.Fails`) on a `load` or a `store` through a pointer that is not set or leads to nothing or to
a freed block, on a `free` of one that is not set, or of a block that was freed or is not of the heap, and on `abort`.
It ends at `exit`. The blocks of a function stay when it returns, a function outside the program calls none of it, and
there is one thread.
-/

namespace Angie

open Llvm

/-! ## Data -/

def Width.bit : Width := ⟨1, Nat.le_refl 1, Nat.succ_le_succ (Nat.zero_le 63)⟩

/-- The scalar types. -/
inductive Kind where
  | int (w : Width)
  | pointer

namespace Kind

def isPointer : Kind → Bool
  | int _ => false
  | pointer => true

/-- The bytes of a scalar. -/
def size [DataLayout] : Kind → ℕ
  | int w => w.type.getSizeOf
  | pointer => 8

end Kind

/-- The scalar that a type stands for. -/
def Ty.kind : Ty → Option Kind
  | .int w => if h : 1 ≤ w ∧ w ≤ 64 then some (.int ⟨w, h.1, h.2⟩) else none
  | .ptr _ => some .pointer
  | _ => none

/-- What a register or a field holds. -/
inductive Datum where
  | int (w : Width) (x : BitVec w.bits)
  | null
  | wild
  | junk
  /-- Pointers that were computed separately differ in `birth`. -/
  | ptr (block : ℕ) (offset : Word) (birth : ℕ)

namespace Datum

def kind : Datum → Kind
  | int w _ => .int w
  | _ => .pointer

/-- The pointer, moved. -/
def move (offset : Word) (birth : ℕ) : Datum → Datum
  | ptr b o _ => ptr b (o + offset) birth
  | null => if offset = 0 then null else wild
  | d => d

end Datum

/-- The result of an operation, in two's complement where it overflows. An exact operation that leaves something over has
none. -/
def BinaryOpOptions.apply {w : ℕ} (o : BinaryOpOptions) (x y : BitVec w) : Option (BitVec w) :=
  match o.opKind with
  | .add => some (x + y)
  | .sub => some (x - y)
  | .mul => some (x * y)
  | .and => some (x &&& y)
  | .or => some (x ||| y)
  | .xor => some (x ^^^ y)
  | .div => signed fun signed => if y = 0 then none else exactly (remainder signed x y = 0) (quotient signed x y)
  | .rem => signed fun signed => if y = 0 then none else some (remainder signed x y)
  | .shl => shift (.shl o.flags)
  | .shr => signed fun signed => (shift (if signed then .aShr else .lShr)).bind fun r => exactly (r <<< y.toNat = x) r
  | .default => none
where
  /-- By the flag that says how the operands are read. -/
  signed (f : Bool → Option (BitVec w)) : Option (BitVec w) :=
    if checkFlag o.flags .unsigned then f false else if checkFlag o.flags .signed then f true else none
  exactly (nothingLeft : Prop) [Decidable nothingLeft] (r : BitVec w) : Option (BitVec w) :=
    if checkFlag o.flags .exact → nothingLeft then some r else none
  shift (op : ShiftOp) : Option (BitVec w) := if y.toNat < w then some (op.apply x y.toNat) else none

/-- The operations that keep the bits apart. -/
def BinaryOpKind.isBitwise : BinaryOpKind → Bool
  | .and | .or | .xor => true
  | _ => false

/-! ## Memory -/

/-- The fields of a block, by their offset. -/
structure Shape [DataLayout] where
  size : ℕ
  field : Word → Option Kind
  within : ∀ f k, field f = some k → f.toNat + k.size ≤ size
  apart : ∀ f g k l, f ≠ g → field f = some k → field g = some l →
    f.toNat + k.size ≤ g.toNat ∨ g.toNat + l.size ≤ f.toNat

structure Block [DataLayout] where
  shape : Shape
  space : MemorySpace
  freed : Bool
  contents : Word → Datum
  typed : ∀ f k, shape.field f = some k → (contents f).kind = k

namespace Block

variable [DataLayout]

/-- The block, with another datum of its kind in a field. -/
def write (blk : Block) (f : Word) (d : Datum) (hd : blk.shape.field f = some d.kind) : Block where
  shape := blk.shape
  space := blk.space
  freed := blk.freed
  contents := Function.update blk.contents f d
  typed := by
    intro g k hg
    by_cases hgf : g = f
    · subst hgf
      rw [Function.update_self]
      exact Option.some.inj (hd.symm.trans hg)
    · rw [Function.update_of_ne hgf]
      exact blk.typed g k hg

def free (blk : Block) : Block := { blk with freed := true }

/-- No pointer in it has been set. -/
structure IsNew (blk : Block) (size : ℕ) (space : MemorySpace) : Prop where
  size : blk.shape.size = size
  space : blk.space = space
  freed : blk.freed = false
  unset : ∀ f, blk.shape.field f = some .pointer → blk.contents f = .junk

end Block

/-! ## States -/

/-- The registers of a frame, by their frontend id. -/
abbrev Registers := FrontendId → Option Datum

/-- A call that has not returned: the registers of the caller, where the result goes, and where to go on. -/
structure Activation (Place : Type) where
  registers : Registers
  target : FrontendId
  back : Place

/-- A store of a machine whose control is at a `Place`. -/
structure StoreOver [DataLayout] (Place : Type) where
  registers : Registers
  calls : List (Activation Place)
  blocks : List Block
  births : ℕ

namespace StoreOver

variable [DataLayout] {Place : Type} (st : StoreOver Place)

def assign (var : FrontendIdTypePair) (d : Datum) : StoreOver Place :=
  { st with registers := Function.update st.registers var.id (some d) }

/-- The block with a pointer to it. -/
def allocate (blk : Block) (var : FrontendIdTypePair) : StoreOver Place :=
  assign { st with blocks := st.blocks ++ [blk], births := st.births + 1 } var (.ptr st.blocks.length 0 st.births)

def setBlock (b : ℕ) (blk : Block) : StoreOver Place := { st with blocks := st.blocks.set b blk }

/-- A pointer that was moved. -/
def move (var : FrontendIdTypePair) (d : Datum) (offset : Word) : StoreOver Place :=
  assign { st with births := st.births + 1 } var (d.move offset st.births)

/-- The access fails: no block is there, or none any more. -/
def Invalid : Datum → Prop
  | .null | .wild | .junk => True
  | .ptr b _ _ => ∃ blk, st.blocks[b]? = some blk ∧ blk.freed = true
  | .int _ _ => False

/-- A pointer into a block that is there. No pointer into another such block has its address. -/
def leads (b : ℕ) (o : Word) : Bool := (st.blocks[b]?).any fun blk => !blk.freed && decide (o.toNat < blk.shape.size)

/-- Whether two pointers are equal, as far as their blocks tell. -/
def equal : Datum → Datum → Option Bool
  | .null, .null => some true
  | .null, .ptr b o _ | .ptr b o _, .null => if st.leads b o then some false else none
  | .ptr b o k, .ptr b' o' k' =>
    if b = b' then
      if o = o' then if k = k' then some true else none else some false
    else if st.leads b o && st.leads b' o' then some false
    else none
  | _, _ => none

end StoreOver

abbrev Store [DataLayout] := StoreOver NodeId

structure Machine [DataLayout] where
  node : NodeId
  store : Store

/-! ## Programs -/

/-- The nodes with the data that the constants among the operands stand for. -/
structure Program where
  ctx : Context
  constants : Registers

namespace Program

variable [DataLayout] (P : Program)

/-- A global operand is a constant. -/
def value (st : Store) (var : FrontendIdTypePair) : Option Datum :=
  if P.ctx.globalMapping.contains var.id then P.constants var.id else st.registers var.id

/-- The distance of an element from the base pointer, in bytes, by the constants that index it: the index of the element,
and that of a field in it. -/
inductive ElementAt (elem : Ty) (index : Llvm.Value) : List Llvm.Value → Word → Prop
  | element {n : Width} {x : BitVec n.bits} : index.type = n.type → P.ctx.globalMapping.contains index.id = true →
      P.constants index.id = some (.int n x) → x.msb = false ∨ n.bits = 64 →
      ElementAt elem index [] (x.signExtend 64 * BitVec.ofNat 64 elem.getSizeOf)
  | field {operand : Llvm.Value} {layout : ℕ} {w : Width} {k : BitVec w.bits} {offset : Word} :
      ElementAt elem index [] offset → elem = .struct layout → w.bits = 32 → operand.type = w.type →
      P.ctx.globalMapping.contains operand.id = true → P.constants operand.id = some (.int w k) →
      ElementAt elem index [operand] (offset + BitVec.ofNat 64 (DataLayout.getElementOffset layout k.toNat))

/-- What an operation makes of the store, `none` when it fails. What the interpreter refuses may do anything to it. -/
inductive Does (args : OperationArgs) (st : Store) : Operation → Option Store → Prop
  | binOp {o x y target w a b r} : args.binaryOptions = .ok o → args.getOperand 0 = .ok x →
      args.getOperand 1 = .ok y → args.getTarget = .ok target → x.type = Width.type w →
      P.value st x = some (.int w a) → P.value st y = some (.int w b) → (w.bits = 1 → o.opKind.isBitwise = true) →
      o.apply a b = some r → Does args st .binOp (some (st.assign target (.int w r)))
  | cmp {flags x y target w a b} : args.cmpOptions = .ok flags → args.getOperand 0 = .ok x →
      args.getOperand 1 = .ok y → args.getTarget = .ok target → x.type = Width.type w →
      P.value st x = some (.int w a) → P.value st y = some (.int w b) → flags.isRelation = true →
      Does args st .cmp (some (st.assign target (.int .bit (BitVec.ofBool (flags.holds a b)))))
  | cmpPointers {flags x y target a b eq} : args.cmpOptions = .ok flags → args.getOperand 0 = .ok x →
      args.getOperand 1 = .ok y → args.getTarget = .ok target → x.type.isPointer = true → P.value st x = some a →
      P.value st y = some b → st.equal a b = some eq → flags = .eq ∨ flags = .neq →
      Does args st .cmp (some (st.assign target (.int .bit (BitVec.ofBool (eq == (flags == .eq))))))
  | bitCast {x target flags d} : args.castOptions = .ok ⟨.bitCast, flags⟩ → args.getOperand 0 = .ok x →
      args.getTarget = .ok target → P.value st x = some d → d.kind = .pointer →
      Does args st .cast (some (st.assign target d))
  | zExt {x target w b} : args.castOptions = .ok ⟨.extend, .unsigned⟩ → args.getOperand 0 = .ok x →
      args.getTarget = .ok target → target.type = Width.type w → P.value st x = some (.int .bit b) →
      Does args st .cast (some (st.assign target (.int w (b.setWidth w.bits))))
  | trunc {x target v w a flags} : args.castOptions = .ok ⟨.truncate, flags⟩ → args.getOperand 0 = .ok x →
      args.getTarget = .ok target → target.type = Width.type w → w.bits ≤ v.bits → w.bits ≠ 1 →
      P.value st x = some (.int v a) → Does args st .cast (some (st.assign target (.int w (a.setWidth w.bits))))
  /-- A cast between pointers and integers, or of numbers that are no integers. -/
  | otherCast {x target opts d st'} : args.castOptions = .ok opts → opts.opKind ≠ .bitCast → opts.opKind ≠ .extend →
      opts.opKind ≠ .truncate → args.getOperand 0 = .ok x → args.getTarget = .ok target → P.value st x = some d →
      st'.calls = st.calls → Does args st .cast (some st')
  | notSupported {op st'} : op.isNotSupported = true → st'.calls = st.calls → Does args st op (some st')
  | createUnknown {target k d} : args.getTarget = .ok target → target.type.kind = some k → d.kind = k →
      (k.isPointer = true → d = .junk) → Does args st .createUnknownVal (some (st.assign target d))
  | alloca {x target w n elem blk} : args.getOperand 0 = .ok x → P.value st x = some (.int w n) →
      args.getTarget = .ok target → target.type = .ptr elem → blk.IsNew (n.toNat * elem.getSizeOf) .stack →
      Does args st .alloca (some (st.allocate blk target))
  | malloc {x target w n blk} : args.getOperand 0 = .ok x → P.value st x = some (.int w n) →
      args.getTarget = .ok target → blk.IsNew n.toNat .heap → Does args st .malloc (some (st.allocate blk target))
  | freeNull {p} : args.getOperand 0 = .ok p → P.value st p = some .null → Does args st .free (some st)
  | free {p b k blk} : args.getOperand 0 = .ok p → P.value st p = some (.ptr b 0 k) → st.blocks[b]? = some blk →
      blk.freed = false → blk.space = .heap → Does args st .free (some (st.setBlock b blk.free))
  | freeNonHeap {p b o k blk} : args.getOperand 0 = .ok p → P.value st p = some (.ptr b o k) →
      st.blocks[b]? = some blk → blk.freed = false → blk.space ≠ .heap → Does args st .free none
  | freeInvalid {p d} : args.getOperand 0 = .ok p → P.value st p = some d → d ≠ .null → d ≠ .wild → st.Invalid d →
      Does args st .free none
  | load {p target b f k blk} : args.getOperand 0 = .ok p → args.getTarget = .ok target →
      P.value st p = some (.ptr b f k) → st.blocks[b]? = some blk → blk.freed = false →
      blk.shape.field f = target.type.kind → target.type.kind.isSome →
      Does args st .load (some (st.assign target (blk.contents f)))
  | loadInvalid {p target d} : args.getOperand 0 = .ok p → args.getTarget = .ok target → P.value st p = some d →
      st.Invalid d → Does args st .load none
  | store {x p b f k blk d} (hd : blk.shape.field f = some (Datum.kind d)) : args.getOperand 0 = .ok x →
      args.getOperand 1 = .ok p → P.value st x = some d → x.type.kind = some d.kind →
      P.value st p = some (.ptr b f k) → st.blocks[b]? = some blk → blk.freed = false →
      Does args st .store (some (st.setBlock b (blk.write f d hd)))
  | storeInvalid {x p d e} : args.getOperand 0 = .ok x → args.getOperand 1 = .ok p → P.value st x = some e →
      P.value st p = some d → st.Invalid d → Does args st .store none
  | getElementPtr {target option base index fields elem offset d} :
      args = .idTypePair target :: option :: (base :: index :: fields).map toOperArg → base.type = .ptr elem →
      P.ElementAt elem index fields offset → P.value st ⟨base.id, base.type⟩ = some d → d.kind = .pointer →
      Does args st .getElementPtr (some (st.move target d offset))
  | abort : Does args st .abort none
  | noop : Does args st .noop (some st)
  | diagnosticsPlotMem : Does args st .diagnosticsPlotMem (some st)

/-- The operations that compute something from their operands. -/
def computes : Operation → Bool
  | .binOp | .cast | .alloca | .load | .store | .getElementPtr | .cmp | .memset | .malloc | .free => true
  | _ => false

/-- Of what the operation does, the language says nothing, or the machine does not know. -/
inductive Unsaid (args : OperationArgs) (st : Store) : Operation → Prop
  | operand {op i x} : computes op = true → args.getOperand i = .ok x → P.value st x = none → Unsaid args st op
  | binOp {o x y w a b} : args.binaryOptions = .ok o → args.getOperand 0 = .ok x → args.getOperand 1 = .ok y →
      P.value st x = some (.int w a) → P.value st y = some (.int w b) → o.apply a b = none → Unsaid args st .binOp
  | bitCast {x flags w a} : args.castOptions = .ok ⟨.bitCast, flags⟩ → args.getOperand 0 = .ok x →
      P.value st x = some (.int w a) → Unsaid args st .cast
  /-- A cast to a type of which nothing is known. -/
  | cast {x target opts d} : args.castOptions = .ok opts → args.getOperand 0 = .ok x → args.getTarget = .ok target →
      P.value st x = some d → target.type.kind = none → Unsaid args st .cast
  | createUnknown {target} : args.getTarget = .ok target → target.type.kind = none → Unsaid args st .createUnknownVal
  | load {p target b f k blk} : args.getOperand 0 = .ok p → args.getTarget = .ok target →
      P.value st p = some (.ptr b f k) → st.blocks[b]? = some blk → blk.freed = false →
      (target.type.kind.isSome → blk.shape.field f ≠ target.type.kind) → Unsaid args st .load
  | store {x p b f k blk d} : args.getOperand 0 = .ok x → args.getOperand 1 = .ok p → P.value st x = some d →
      P.value st p = some (.ptr b f k) → st.blocks[b]? = some blk → blk.freed = false →
      blk.shape.field f ≠ some d.kind → Unsaid args st .store
  | free {p b o k blk} : args.getOperand 0 = .ok p → P.value st p = some (.ptr b o k) → st.blocks[b]? = some blk →
      blk.freed = false → blk.space = .heap → o ≠ 0 → Unsaid args st .free
  | freeWild {p} : args.getOperand 0 = .ok p → P.value st p = some .wild → Unsaid args st .free
  | memset {p d} : args.getOperand 0 = .ok p → P.value st p = some d → st.Invalid d → Unsaid args st .memset

/-- What else the language makes of the store. -/
inductive Differs (args : OperationArgs) (st : Store) : Operation → Store → Prop
  | bits {o x y target w a b r} : args.binaryOptions = .ok o → args.getOperand 0 = .ok x →
      args.getOperand 1 = .ok y → args.getTarget = .ok target → P.value st x = some (.int w a) →
      P.value st y = some (.int w b) → w.bits = 1 → o.opKind.isBitwise = false → o.apply a b = some r →
      Differs args st .binOp (st.assign target (.int w r))
  | cmpPointers {flags x y target a b answer} : args.cmpOptions = .ok flags → args.getOperand 0 = .ok x →
      args.getOperand 1 = .ok y → args.getTarget = .ok target → P.value st x = some a → P.value st y = some b →
      a.kind = .pointer → (flags = .eq ∨ flags = .neq → st.equal a b = none) →
      Differs args st .cmp (st.assign target (.int .bit (BitVec.ofBool answer)))
  | sExt {x target v w a} : args.castOptions = .ok ⟨.extend, .signed⟩ → args.getOperand 0 = .ok x →
      args.getTarget = .ok target → target.type = Width.type w → P.value st x = some (.int v a) →
      Differs args st .cast (st.assign target (.int w (a.signExtend w.bits)))
  | zExt {x target v w a} : args.castOptions = .ok ⟨.extend, .unsigned⟩ → args.getOperand 0 = .ok x →
      args.getTarget = .ok target → target.type = Width.type w → P.value st x = some (.int v a) → v.bits ≠ 1 →
      Differs args st .cast (st.assign target (.int w (a.setWidth w.bits)))
  | truncBit {x target v w a flags} : args.castOptions = .ok ⟨.truncate, flags⟩ → args.getOperand 0 = .ok x →
      args.getTarget = .ok target → target.type = Width.type w → P.value st x = some (.int v a) → w.bits = 1 →
      Differs args st .cast (st.assign target (.int w (a.setWidth w.bits)))
  | mallocNull {x target w n} : args.getOperand 0 = .ok x → P.value st x = some (.int w n) →
      args.getTarget = .ok target → Differs args st .malloc (st.assign target .null)
  /-- What the bytes come to in the fields of a block is left open. -/
  | memset {p b o k blk blk'} : args.getOperand 0 = .ok p → P.value st p = some (.ptr b o k) →
      st.blocks[b]? = some blk → blk.freed = false → blk'.shape = blk.shape → blk'.space = blk.space →
      blk'.freed = false → Differs args st .memset (st.setBlock b blk')
  | getElementPtr {target option base index fields elem offset d} :
      args = .idTypePair target :: option :: (base :: index :: fields).map toOperArg → base.type = .ptr elem →
      (∀ offset, ¬ P.ElementAt elem index fields offset) → P.value st ⟨base.id, base.type⟩ = some d →
      d.kind = .pointer → Differs args st .getElementPtr (st.move target d offset)
  | unsaid {op st'} : P.Unsaid args st op → st'.calls = st.calls → Differs args st op st'

/-- The data of the actual arguments. -/
structure Passes (args : OperationArgs) (st : Store) (params : List FrontendIdTypePair) (data : List (Option Datum)) :
    Prop where
  length : data.length = params.length
  value : ∀ i d, data[i]? = some d → ∃ var, args.getOperand i = .ok var ∧ P.value st var = d

/-- The registers of a callee. -/
def parameters (params : List FrontendIdTypePair) (data : List (Option Datum)) : Registers :=
  fun id => ((params.zip data).find? (·.1.id == id)).bind (·.2)

/-- What the interpreter follows. -/
inductive Moves : Machine → Machine → Prop
  | basic {m node op args instr bp next st} : P.ctx.nodes[m.node]? = some node → node.kind = .inner op args instr bp →
      node.next = some next → P.Does args m.store op (some st) → Moves m ⟨next, st⟩
  | branch {m node args instr bp x b next} : P.ctx.nodes[m.node]? = some node → node.kind = .inner .br args instr bp →
      args.getOperand 0 = .ok x → P.value m.store x = some (.int .bit b) →
      (if b = 1 then node.next else node.nextFalse) = some next → Moves m ⟨next, m.store⟩
  | call {m node args instr bp f vid func data target back} : P.ctx.nodes[m.node]? = some node →
      node.kind = .inner .call args instr bp → args.callOptions = .ok f → P.ctx.globalMapping[f.id]? = some vid →
      P.ctx.funcMapping[vid]? = some func → P.Passes args m.store func.params data → args.getTarget = .ok target →
      node.next = some back → Moves m ⟨func.cfg, { m.store with
        registers := parameters func.params data
        calls := ⟨m.store.registers, target.id, back⟩ :: m.store.calls }⟩
  | ret {m node args instr bp x call calls} : P.ctx.nodes[m.node]? = some node →
      node.kind = .inner .ret args instr bp → m.store.calls = call :: calls → 2 < args.length →
      args.getOperand 0 = .ok x → Moves m ⟨call.back, { m.store with
        registers := Function.update call.registers call.target (P.value m.store x)
        calls := calls }⟩
  | retVoid {m node args instr bp call calls} : P.ctx.nodes[m.node]? = some node →
      node.kind = .inner .ret args instr bp → m.store.calls = call :: calls → ¬ 2 < args.length →
      Moves m ⟨call.back, { m.store with registers := call.registers, calls := calls }⟩

/-- Where else the language goes on. -/
inductive Departs : Machine → Machine → Prop
  | basic {m node op args instr bp next st} : P.ctx.nodes[m.node]? = some node → node.kind = .inner op args instr bp →
      node.next = some next → P.Differs args m.store op st → Departs m ⟨next, st⟩
  /-- Of the condition nothing is known. -/
  | branch {m node args instr bp x next} : P.ctx.nodes[m.node]? = some node → node.kind = .inner .br args instr bp →
      args.getOperand 0 = .ok x → P.value m.store x = none → node.next = some next ∨ node.nextFalse = some next →
      Departs m ⟨next, m.store⟩
  /-- A call of something that is not in the program, which does anything. -/
  | callOutside {m node args instr bp f back st} : P.ctx.nodes[m.node]? = some node →
      node.kind = .inner .call args instr bp → args.callOptions = .ok f →
      (∀ vid, P.ctx.globalMapping[f.id]? = some vid → P.ctx.funcMapping[vid]? = none) → node.next = some back →
      st.calls = m.store.calls → Departs m ⟨back, st⟩
  /-- A call through a pointer, which leads to any function. -/
  | callPointer {m node args instr bp f vid func data target back} : P.ctx.nodes[m.node]? = some node →
      node.kind = .inner .call args instr bp → args.callOptions = .ok f → P.ctx.globalMapping[f.id]? = none →
      P.ctx.funcMapping[(vid : ValueId)]? = some func → P.Passes args m.store func.params data →
      args.getTarget = .ok target → node.next = some back → Departs m ⟨func.cfg, { m.store with
        registers := parameters func.params data
        calls := ⟨m.store.registers, target.id, back⟩ :: m.store.calls }⟩

/-- The node of the machine does what C forbids, or aborts. -/
def Fails (m : Machine) : Prop :=
  ∃ node op args instr bp, P.ctx.nodes[m.node]? = some node ∧ node.kind = .inner op args instr bp ∧
    P.Does args m.store op none

/-- A run of the machine, from its first state. -/
abbrev Run (m : Machine) (ms : List Machine) : Prop := List.IsChain (fun x y => P.Moves x y ∨ P.Departs x y) (m :: ms)

end Program

end Angie
