/-!
# Shifts of a register operand
-/

namespace Disassembly.Arm

/-- The kind of a shift, by an immediate amount or by a register. -/
inductive ShiftKind where
  | asr | lsl | lsr | ror | rrx
  | asrReg | lslReg | lsrReg | rorReg | rrxReg
deriving DecidableEq, Repr, Inhabited

namespace ShiftKind

/-- The shift opcode of a decoder: 0 is no shift, 1 to 5 are the shifts by an
immediate, and more is no shift opcode. -/
def ofOpcode? (code : UInt8) : Option (Option ShiftKind) :=
  if code = 0 then some none
  else if code = 1 then some (some .asr)
  else if code = 2 then some (some .lsl)
  else if code = 3 then some (some .lsr)
  else if code = 4 then some (some .ror)
  else if code = 5 then some (some .rrx)
  else none

/-- The number that stands for the kind in a line. -/
def number : ShiftKind → Nat
  | .asr => 1
  | .lsl => 2
  | .lsr => 3
  | .ror => 4
  | .rrx => 5
  | .asrReg => 6
  | .lslReg => 7
  | .lsrReg => 8
  | .rorReg => 9
  | .rrxReg => 10

/-- The assembler name. -/
def name : ShiftKind → String
  | .asr | .asrReg => "asr"
  | .lsl | .lslReg => "lsl"
  | .lsr | .lsrReg => "lsr"
  | .ror | .rorReg => "ror"
  | .rrx | .rrxReg => "rrx"

/-- The amount is the number of a register. -/
def byRegister : ShiftKind → Bool
  | .asrReg | .lslReg | .lsrReg | .rorReg | .rrxReg => true
  | _ => false

end ShiftKind

/-- A shift and its amount. The amount of an operand without a shift carries no
meaning. -/
structure Shift where
  kind : Option ShiftKind
  amount : UInt32
deriving DecidableEq, Repr

namespace Shift

def none : Shift := ⟨Option.none, 0⟩

instance : Inhabited Shift := ⟨none⟩

/-- The amount coded by an immediate, where 0 stands for 32. -/
def decodeAmount (encoded : UInt32) : UInt32 := if encoded = 0 then 32 else encoded

end Shift

/-- The name of an optional shift kind. -/
def shiftName : Option ShiftKind → String
  | .none => "invalid"
  | some kind => kind.name

end Disassembly.Arm
