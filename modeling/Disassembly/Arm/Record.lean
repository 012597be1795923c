import Disassembly.Access
import Disassembly.BoundedList
import Disassembly.Arm.Condition
import Disassembly.Arm.Register
import Disassembly.Arm.Shift
import Disassembly.Arm.SystemRegister

/-!
# ARM detail records

Classified operands, and the facts about the instruction that its operands do
not show.
-/

namespace Disassembly.Arm

/-- A memory reference. -/
structure Memory where
  base : Register := .absent
  index : Register := .absent
  /-- The factor of the index register. -/
  scale : Int32 := 1
  disp : Int32 := 0
  /-- The left shift of the index register. -/
  lshift : Int32 := 0
deriving DecidableEq, Repr

instance : Inhabited Memory := ⟨{}⟩

/-- What an operand is. -/
inductive OperandValue where
  /-- Nothing has been stored. -/
  | invalid
  | reg (r : Register)
  | imm (value : Int64)
  /-- The number of a coprocessor. -/
  | pimm (value : Int64)
  /-- The number of a coprocessor's register. -/
  | cimm (value : Int64)
  /-- A predicate carried as an operand. -/
  | pred (value : Int64)
  | mem (m : Memory)
  | sysreg (r : SystemRegister)
deriving DecidableEq, Repr, Inhabited

/-- The lane of an operand that names no single lane. -/
def noLane : Int8 := -1

/-- The vector index of an operand that is no vector element. -/
def noVectorIndex : Int32 := -1

/-- A classified operand. -/
structure Operand where
  value : OperandValue := .invalid
  access : Access := .none
  shift : Shift := .none
  vectorIndex : Int32 := noVectorIndex
  neonLane : Int8 := noLane
  /-- The offset is subtracted from the base. -/
  subtracted : Bool := false
deriving DecidableEq, Repr

namespace Operand

/-- An operand in which nothing has been stored. -/
def blank : Operand := {}

instance : Inhabited Operand := ⟨blank⟩

/-- The memory reference held, or an empty one. -/
def memory (op : Operand) : Memory :=
  match op.value with
  | .mem m => m
  | _ => {}

end Operand

/-- The most operands of one record. -/
abbrev maxOperands : Nat := 36

/-- The ARM part of a detail record. -/
structure Record where
  cc : Option Condition := none
  vcc : Option VectorPredicate := none
  updateFlags : Bool := false
  writeback : Bool := false
  /-- The layout of an `it` block, 0 outside of one. -/
  itLayout : UInt8 := 0
  operands : BoundedList Operand maxOperands := .filled .blank
deriving BEq

instance : Inhabited Record := ⟨{}⟩

end Disassembly.Arm
