import Disassembly.Arm.Descriptor
import Disassembly.Arm.OperandGroup

/-!
# Contract violations

The tables and a decoder must agree about every operand. Where they do not, the
build stops, since a guess would put all later operands out of place.
-/

namespace Disassembly.Arm

/-- How a raw instruction disagrees with the tables. -/
inductive Violation where
  | opcodeOutOfRange
  | slotOutOfRange (slot : Nat)
  /-- The walk names a group that has no detail. -/
  | unmappedGroup (group : UnmappedGroup) (slot : Nat)
  | undeclaredSlot (slot : Nat)
  | vectorPredicateOutOfRange (raw : Int64)
  | conditionOutOfRange (raw : Int64)
  | itMaskWithoutCondition
  | itMaskZero
  | shiftOpcodeOutOfRange (code : UInt8)
  | shiftWithoutOperand
  | notDeclaredRegister (slot : Nat) (type : OperandType)
  | notRegister (slot : Nat)
  | notImmediate (slot : Nat)
  /-- A slot that is neither register nor immediate in a memory operand. -/
  | notMemoryPart (slot : Nat) (type : OperandType)
  | laneWithoutOperand
deriving DecidableEq, Repr

def Violation.message : Violation → String
  | .opcodeOutOfRange => "opcode out of range"
  | .slotOutOfRange slot =>
      "operand slot " ++ Numeral.decimal slot ++ " out of range"
  | .unmappedGroup group slot =>
      "operand group " ++ group.describe ++ " at operand " ++ Numeral.decimal slot ++
        " has no detail mapping"
  | .undeclaredSlot slot => "operand " ++ Numeral.decimal slot ++ " has no declared type"
  | .vectorPredicateOutOfRange raw =>
      "VPT predicate " ++ Numeral.signedDecimal raw.toInt ++ " out of range"
  | .conditionOutOfRange raw =>
      "condition code " ++ Numeral.signedDecimal raw.toInt ++ " out of range"
  | .itMaskWithoutCondition => "IT mask without a preceding condition"
  | .itMaskZero => "IT mask is zero"
  | .shiftOpcodeOutOfRange code =>
      "shift opcode " ++ Numeral.decimal code.toNat ++ " out of range"
  | .shiftWithoutOperand => "shift with no operand to attach to"
  | .notDeclaredRegister slot type =>
      "operand " ++ Numeral.decimal slot ++ " declared " ++ type.name ++ ", not a register"
  | .notRegister slot => "operand " ++ Numeral.decimal slot ++ " is not a register"
  | .notImmediate slot => "operand " ++ Numeral.decimal slot ++ " is not an immediate"
  | .notMemoryPart slot type =>
      "operand " ++ Numeral.decimal slot ++ " declared " ++ type.name ++
        " inside a memory operand"
  | .laneWithoutOperand => "lane index with no preceding operand"

end Disassembly.Arm
