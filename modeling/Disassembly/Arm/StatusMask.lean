import Disassembly.Arch
import Disassembly.Arm.Record

/-!
# Masks of status register moves

The immediate of a status register move selects fields of a status register, or
on a microcontroller core one of its system registers.
-/

namespace Disassembly.Arm

/-- A twelve-bit register number of a microcontroller core, its register, and
whether that takes the signal processing extension. -/
structure ExtendedNumber where
  number : UInt16
  register : SystemRegister
  requiresDsp : Bool
deriving DecidableEq, Repr

namespace MClass

/-- The registers with a twelve-bit number. -/
def extendedNumbers : List ExtendedNumber := [
  ⟨0x400, .apsrG, true⟩, ⟨0x401, .iapsrG, true⟩, ⟨0x402, .eapsrG, true⟩,
  ⟨0x403, .xpsrG, true⟩, ⟨0x800, .apsrNzcvq, false⟩, ⟨0xc00, .apsrNzcvqg, true⟩,
  ⟨0xc01, .iapsrNzcvqg, true⟩, ⟨0xc02, .eapsrNzcvqg, true⟩,
  ⟨0xc03, .xpsrNzcvqg, true⟩]

/-- The status registers under the names of architecture version seven. -/
def flagNumbers : List (UInt16 × SystemRegister) := [
  (0x00, .apsrNzcvq), (0x01, .iapsrNzcvq), (0x02, .eapsrNzcvq), (0x03, .xpsrNzcvq)]

/-- The registers with an eight-bit number. -/
def basicNumbers : List (UInt16 × SystemRegister) := [
  (0x00, .apsr), (0x01, .iapsr), (0x02, .eapsr), (0x03, .xpsr), (0x05, .ipsr),
  (0x06, .epsr), (0x07, .iepsr), (0x08, .msp), (0x09, .psp), (0x0a, .msplim),
  (0x0b, .psplim), (0x10, .primask), (0x11, .basepri), (0x12, .basepriMax),
  (0x13, .faultmask), (0x14, .control), (0x88, .mspNs), (0x89, .pspNs),
  (0x8a, .msplimNs), (0x8b, .psplimNs), (0x90, .primaskNs), (0x91, .basepriNs),
  (0x93, .faultmaskNs), (0x94, .controlNs), (0x98, .spNs)]

/-- The entry of a twelve-bit number. -/
def extended? (number : UInt16) : Option ExtendedNumber :=
  extendedNumbers.find? (·.number == number)

/-- The version seven name of a status register number. -/
def flags? (number : UInt16) : Option SystemRegister := flagNumbers.lookup number

/-- The register of an eight-bit number. -/
def basic? (number : UInt16) : Option SystemRegister := basicNumbers.lookup number

/-- The value of a mask on a microcontroller core. The instruction of its own
that such a core has prefers, with the extension, a register that takes it, and
then, from version seven on, the newer name of a status register. A number
without a register stands as an immediate. -/
def maskValue (ownMove : Bool) (features : Features) (mask : UInt32) : OperandValue :=
  let number12 := (mask &&& 0xfff).toUInt16
  let number8 := number12 &&& 0xff
  let withDsp :=
    if ownMove && features.contains .dsp then
      ((extended? number12).filter (·.requiresDsp)).map (·.register)
    else none
  let newer := if ownMove && features.contains .v7 then flags? number8 else none
  match (withDsp.or newer).or (basic? number8) with
  | some r => .sysreg r
  | none => .imm (Int64.ofNat number8.toNat)

end MClass

/-- The value of a mask outside a microcontroller core: bit 4 selects the saved
status register, the four bits below it the fields. Without a field there is no
operand, and some fields of the current register have a name of their own. -/
def maskValue? (mask : UInt32) : Option OperandValue :=
  let fields := (mask &&& 0xf).toUInt16
  if fields = 0 then none
  else if mask &&& 0x10 != 0 then some (.sysreg (.savedFields fields))
  else if fields = 4 then some (.sysreg .apsrG)
  else if fields = 8 then some (.sysreg .apsrNzcvq)
  else if fields = 12 then some (.sysreg .apsrNzcvqg)
  else some (.sysreg (.currentFields fields))

end Disassembly.Arm
