import Disassembly.Access
import Disassembly.Arm.Opcode

/-!
# Operand descriptors

What each opcode declares about its raw operand slots: the type, the access and
the element types. A slot that an opcode does not declare has the type
`undeclared` and no access.
-/

namespace Disassembly.Arm

/-- The declared type of a raw operand slot. -/
inductive OperandType where
  | undeclared
  | reg
  | imm
  | pred
  /-- The base register of a memory operand. -/
  | memReg
  /-- The index register of a memory operand. -/
  | memIndexReg
  /-- The displacement of a memory operand. -/
  | memImm
deriving DecidableEq, Repr, Inhabited

namespace OperandType

def name : OperandType → String
  | .undeclared => "Invalid"
  | .reg => "Reg"
  | .imm => "Imm"
  | .pred => "Pred"
  | .memReg => "MemReg"
  | .memIndexReg => "MemIndexReg"
  | .memImm => "MemImm"

/-- The slot holds a register. -/
def isRegister : OperandType → Bool
  | .reg | .memReg | .memIndexReg => true
  | _ => false

/-- The slot holds an immediate, conditions apart. -/
def isImmediate : OperandType → Bool
  | .imm | .memImm => true
  | _ => false

end OperandType

/-- The type of the elements an operand carries. -/
inductive ElementType where
  | i1 | i8 | i16 | i32 | f64 | v8i8 | v4i16 | v2i32 | v4i32
deriving DecidableEq, Repr

def ElementType.name : ElementType → String
  | .i1 => "I1"
  | .i8 => "I8"
  | .i16 => "I16"
  | .i32 => "I32"
  | .f64 => "F64"
  | .v8i8 => "V8I8"
  | .v4i16 => "V4I16"
  | .v2i32 => "V2I32"
  | .v4i32 => "V4I32"

/-- What is declared about one slot. -/
structure Descriptor where
  type : OperandType := .undeclared
  access : Access := .none
  elements : List ElementType := []
deriving DecidableEq, Repr

namespace Descriptor

/-- The descriptor of a slot that is not declared. -/
def undeclared : Descriptor := {}

instance : Inhabited Descriptor := ⟨undeclared⟩

def word (type : OperandType) (access : Access) : Descriptor :=
  ⟨type, access, [.i32]⟩

def reg (access : Access) : Descriptor := word .reg access

def imm (access : Access) : Descriptor := word .imm access

def base (access : Access) : Descriptor := word .memReg access

def index (access : Access) : Descriptor := word .memIndexReg access

def disp (access : Access) : Descriptor := word .memImm access

/-- A register of another width. -/
def wide (access : Access) (elements : List ElementType) : Descriptor :=
  ⟨.reg, access, elements⟩

def doubleWord : List ElementType := [.f64, .v8i8, .v4i16, .v2i32]

def quadWord : List ElementType := [.v4i32]

/-- The slot of a condition. -/
def cond : Descriptor := word .pred .read

/-- The slot of a condition and that of its register. -/
def predicate : List Descriptor := [cond, reg .read]

/-- The optional flag output of a form that can set flags. -/
def flagOut : Descriptor := ⟨.reg, .write, [.i1]⟩

/-- The declared slots of an opcode, in order. -/
def ofOpcode : Opcode → List Descriptor
  | .invalid => []
  | .addrsi =>
      [reg .write, reg .read, reg .read, imm .read] ++ predicate ++ [flagOut]
  | .bcc => imm .read :: predicate
  | .bl => [imm .read]
  | .blPred => imm .read :: predicate
  | .blxi => [imm .read]
  | .bx => [reg .read]
  | .cdp =>
      [imm .read, imm .read, imm .read, imm .read, imm .read, imm .read] ++ predicate
  | .cmnri => [reg .read, imm .read] ++ predicate
  | .ldrex => [reg .write, base .read] ++ predicate
  | .movi => [reg .write, imm .read] ++ predicate ++ [flagOut]
  | .movr => [reg .write, reg .read] ++ predicate ++ [flagOut]
  | .msr => [imm .write, reg .read] ++ predicate
  | .pldi12 => [base .read, disp .read]
  | .strPreImm => [reg .write, reg .read, base .write, disp .write] ++ predicate
  | .t2b => imm .read :: predicate
  | .t2bfi => [reg .write, reg .read, reg .read, imm .read] ++ predicate
  | .t2csel => [reg .write, reg .read, reg .read, cond]
  | .t2ldmia => reg .read :: (predicate ++ [reg .write])
  | .t2ldrex => [reg .write, base .read, disp .read] ++ predicate
  | .t2ldri12 => [reg .write, base .read, disp .read] ++ predicate
  | .t2ldrs => [reg .write, base .read, index .read, imm .read] ++ predicate
  | .t2movi => [reg .write, imm .read] ++ predicate ++ [flagOut]
  | .t2msrM => [imm .write, reg .read] ++ predicate
  | .t2tbb => [base .read, index .read] ++ predicate
  | .tB => imm .read :: predicate
  | .tBcc => imm .read :: predicate
  | .tBl => predicate ++ [imm .read]
  | .tBlxi => predicate ++ [imm .read]
  | .tCbnz => [reg .read, imm .read]
  | .tCbz => [reg .read, imm .read]
  | .tIt => [cond, imm .read]
  | .tLdmiaUpd => [reg .write, reg .readWrite] ++ predicate ++ [reg .write]
  | .tLdrhi => [wide .write [.i16], base .read, disp .read] ++ predicate
  | .tPop => predicate ++ [reg .write]
  | .tPush => predicate ++ [reg .read]
  | .tSvc => imm .read :: predicate
  | .mveVaddi32 =>
      [wide .write quadWord, wide .read quadWord, wide .read quadWord, cond, reg .read]
  | .vld1d8 => [wide .write doubleWord, base .read, disp .read] ++ predicate
  | .vld1lnd8 =>
      [wide .write [.i8], base .read, disp .read, wide .read [.i8], imm .read] ++
        predicate
  | .vld2d16 => [wide .write doubleWord, base .read, disp .read] ++ predicate
  | .vst1d8WbReg =>
      [reg .write, base .write, disp .write, reg .read, wide .read doubleWord] ++
        predicate

/-- One more than the highest slot that can be asked for. -/
def maxSlots : Nat := 16

/-- No opcode declares more slots than can be asked for. -/
theorem length_ofOpcode_le (o : Opcode) : (ofOpcode o).length ≤ maxSlots := by
  cases o <;> decide

end Descriptor

end Disassembly.Arm
