import Disassembly.Arch
import Disassembly.BoundedList

/-!
# Raw instructions

What a bitstream decoder hands over: an opcode word and operands by position.
The meaning of an operand comes from the tables of its architecture.
-/

namespace Disassembly

/-- An operand as decoded. Conditions and masks travel as immediates. -/
inductive RawOperand where
  | invalid
  | reg (id : UInt16)
  | imm (value : Int64)
deriving DecidableEq, Repr, Inhabited

namespace RawOperand

def reg? : RawOperand → Option UInt16
  | .reg id => some id
  | _ => none

def imm? : RawOperand → Option Int64
  | .imm value => some value
  | _ => none

end RawOperand

/-- The most raw operands of one instruction. -/
abbrev RawInst.maxOperands : Nat := 48

/-- An instruction before its detail is built. -/
structure RawInst where
  opcode : UInt32
  operands : BoundedList RawOperand RawInst.maxOperands
  /-- The address of the first byte. -/
  address : UInt64
  mode : Mode
deriving BEq

namespace RawInst

/-- An instruction without operands. -/
def new (opcode : UInt32) (address : UInt64) (mode : Mode) : RawInst :=
  ⟨opcode, .empty, address, mode⟩

instance : Inhabited RawInst := ⟨new 0 0 .arm⟩

/-- The state before the next decode at `address`. -/
def reset (_ : RawInst) (address : UInt64) (mode : Mode) : RawInst :=
  new 0 address mode

/-- Add an operand at the end. -/
def push (inst : RawInst) (operand : RawOperand) : Except CapacityError RawInst :=
  (inst.operands.push operand).map ({ inst with operands := · })

/-- The operand at a position, invalid past the end. -/
def operand (inst : RawInst) (i : Nat) : RawOperand :=
  (inst.operands.get? i).getD .invalid

/-- Decoded in Thumb state, which a microcontroller core implies. -/
def isThumb (inst : RawInst) : Bool :=
  inst.mode.intersects (Mode.thumb.union Mode.mclass)

/-- Decoded for a microcontroller core. -/
def isMClass (inst : RawInst) : Bool := inst.mode.contains Mode.mclass

end RawInst

end Disassembly
