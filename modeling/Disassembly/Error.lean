import Disassembly.Arch
import Disassembly.Numeral

/-!
# Errors a caller can act on
-/

namespace Disassembly

inductive Error where
  /-- The architecture is not available. -/
  | unsupportedArch (arch : Arch)
  /-- The mode flags do not fit the architecture. -/
  | invalidMode (arch : Arch) (mode : Mode)
  /-- No instruction could be decoded at the address. -/
  | invalidInstruction (address : UInt64)
  /-- Detail was asked for while it is off or absent. -/
  | detailDisabled
deriving DecidableEq, Repr

def Error.message : Error → String
  | .unsupportedArch arch => "architecture " ++ arch.name ++ " is not enabled in this build"
  | .invalidMode arch mode =>
      "invalid mode " ++ Numeral.hex mode.bits.toNat ++ " for " ++ arch.name
  | .invalidInstruction address => "invalid instruction at " ++ Numeral.hex address.toNat
  | .detailDisabled => "instruction detail is disabled"

end Disassembly
