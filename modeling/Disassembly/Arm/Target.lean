import Disassembly.Arm.Opcode
import Disassembly.Arm.Register
import Disassembly.RawInst

/-!
# Resolved values

What is stored for a raw value that is not stored as it stands: the target of a
relative branch, the double words of a vector list, and an alignment in bits.
-/

namespace Disassembly.Arm

/-- The program counter that a relative branch adds to: 8 bytes ahead in ARM
state and 4 in Thumb state, and on a word boundary for the Thumb call that
changes to ARM state. -/
def branchBase (inst : RawInst) : UInt32 :=
  if inst.isThumb then
    let ahead := inst.address.toUInt32 + 4
    if Opcode.ofWord? inst.opcode = some .tBlxi then ahead &&& 0xFFFFFFFC else ahead
  else inst.address.toUInt32 + 8

/-- The absolute target of a relative branch, modulo the 32-bit address space.
The value of any other instruction stands as it is. -/
def resolveBranch (inst : RawInst) (value : UInt64) : UInt64 :=
  if isRelativeBranch inst.opcode then (branchBase inst + value.toUInt32).toUInt64
  else value

/-- The double word `offset` places after the first one of a quad word. A value
that is no quad word stands as it is. -/
def doubleWord (offset : UInt16) (value : UInt64) : UInt64 :=
  let reg : Register := ⟨value.toUInt16⟩
  if value ≤ 0xFFFF && reg.isQuad then
    (Register.d0.id + offset + 2 * (reg.id - Register.q0.id)).toUInt64
  else value

/-- An alignment in bits, from one in bytes. -/
def alignmentBits (value : UInt64) : UInt64 := value <<< 3

end Disassembly.Arm
