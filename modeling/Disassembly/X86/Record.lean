import Disassembly.Access
import Disassembly.BoundedList
import Disassembly.X86.Flags
import Disassembly.X86.Register

/-!
# x86 detail records

An x86 decoder fills in the record itself. The condition, broadcast and
rounding fields are 0 for none.
-/

namespace Disassembly.X86

/-- A memory reference. -/
structure Memory where
  segment : Register := .absent
  base : Register := .absent
  index : Register := .absent
  scale : Int32 := 1
  disp : Int64 := 0
deriving DecidableEq, Repr

instance : Inhabited Memory := ⟨{}⟩

/-- What an operand is. -/
inductive OperandValue where
  | invalid
  | reg (r : Register)
  | imm (value : Int64)
  | mem (m : Memory)
deriving DecidableEq, Repr, Inhabited

/-- The kind of an operand, by which operands are counted. -/
inductive OperandKind where
  | invalid | reg | imm | mem
deriving DecidableEq, Repr

def OperandValue.kind : OperandValue → OperandKind
  | .invalid => .invalid
  | .reg _ => .reg
  | .imm _ => .imm
  | .mem _ => .mem

structure Operand where
  value : OperandValue := .invalid
  /-- The size in bytes. -/
  size : UInt8 := 0
  access : Access := .none
  avxBroadcast : UInt8 := 0
  /-- Elements not selected by the mask are zeroed. -/
  avxZeroMask : Bool := false
deriving DecidableEq, Repr

instance : Inhabited Operand := ⟨{}⟩

/-- The most operands of one record. -/
abbrev maxOperands : Nat := 8

/-- Four bytes that are all zero. -/
def zeroBytes : Vector UInt8 4 := #v[0, 0, 0, 0]

/-- The x86 part of a detail record. -/
structure Record where
  /-- Lock or repeat, segment, operand size and address size. -/
  legacyPrefix : Vector UInt8 4 := zeroBytes
  /-- The opcode bytes, followed by zeros. -/
  opcode : Vector UInt8 4 := zeroBytes
  rex : UInt8 := 0
  addressSize : UInt8 := 0
  modrm : UInt8 := 0
  sib : UInt8 := 0
  disp : Int64 := 0
  sibIndex : Register := .absent
  sibScale : Int8 := 0
  sibBase : Register := .absent
  xopCondition : UInt8 := 0
  sseCondition : UInt8 := 0
  avxCondition : UInt8 := 0
  /-- Exceptions are suppressed. -/
  avxSuppress : Bool := false
  avxRounding : UInt8 := 0
  eflags : EFlags := ⟨0⟩
  fpuFlags : FpuFlags := ⟨0⟩
  operands : BoundedList Operand maxOperands := .empty
deriving BEq

namespace Record

instance : Inhabited Record := ⟨{}⟩

/-- The positions of the operands of a kind. -/
def positions (r : Record) (kind : OperandKind) : List Nat :=
  (r.operands.toList.zipIdx.filter fun p => p.1.value.kind = kind).map (·.2)

/-- The number of operands of a kind. -/
def count (r : Record) (kind : OperandKind) : Nat :=
  r.operands.toList.countP fun op => op.value.kind = kind

/-- The position of the operand that is number `nth` of its kind, from 1 on. -/
def index? (r : Record) (kind : OperandKind) (nth : Nat) : Option Nat :=
  if nth = 0 then none else (r.positions kind)[nth - 1]?

/-- The payload of the immediate that is number `nth` of its kind, 0 when there
is none. -/
def immediate (r : Record) (nth : Nat) : Int64 :=
  match (r.index? .imm nth).bind r.operands.get? with
  | some { value := .imm value, .. } => value
  | _ => 0

end Record

end Disassembly.X86
