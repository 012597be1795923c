import Disassembly.BoundedList
import Disassembly.Arm.Register
import Disassembly.Arm.Violation

/-!
# Faults

A fault ends a computation: a caller broke the rules of an operation, or the
tables and a decoder disagree. The conditions a caller can act on are errors
and not faults.
-/

namespace Disassembly

/-- The wording of a capacity error. -/
def CapacityError.message : CapacityError → String
  | .full capacity =>
      "FixedList overflow: max " ++ Numeral.decimal capacity ++ " elements"
  | .tooMany capacity got =>
      "FixedList: max " ++ Numeral.decimal capacity ++ " elements, got " ++
        Numeral.decimal got
  | .cursorOverflow => "attempt to add with overflow"

/-- Why a computation was given up. -/
inductive Fault where
  | capacity (error : CapacityError)
  /-- An ARM instruction does not fit its tables. -/
  | contract (opcode : UInt32) (cause : Arm.Violation)
  /-- A memory operand was opened inside another one. -/
  | memoryAlreadyOpen (opcode : UInt32)
  /-- A memory operand was closed that had not been opened. -/
  | noMemoryOpen (opcode : UInt32)
  /-- A build ended inside a memory operand. -/
  | memoryLeftOpen (opcode : UInt32)
  /-- A register bank has no register of that number. -/
  | registerOutOfRange (bank : Arm.Bank)
deriving DecidableEq, Repr

namespace Fault

def atOpcode (opcode : UInt32) : String :=
  "(opcode " ++ Numeral.decimal opcode.toNat ++ ")"

def message : Fault → String
  | .capacity error => error.message
  | .contract opcode cause =>
      "ARM detail contract violation " ++ atOpcode opcode ++ ": " ++ cause.message
  | .memoryAlreadyOpen opcode => "memory operand already open " ++ atOpcode opcode
  | .noMemoryOpen opcode => "no memory operand open " ++ atOpcode opcode
  | .memoryLeftOpen opcode => "memory operand left open " ++ atOpcode opcode
  | .registerOutOfRange .general => "general purpose register out of range"
  | .registerOutOfRange .double => "d register out of range"
  | .registerOutOfRange .quad => "q register out of range"
  | .registerOutOfRange .single => "s register out of range"

end Fault

/-- Give up on a capacity error. -/
def orFault {α : Type} (result : Except CapacityError α) : Except Fault α :=
  result.mapError .capacity

/-- Register number `n` of a bank, which must have one. -/
def Arm.Bank.register (bank : Arm.Bank) (n : UInt16) : Except Fault Arm.Register :=
  match bank.register? n with
  | some r => .ok r
  | none => .error (.registerOutOfRange bank)

end Disassembly
