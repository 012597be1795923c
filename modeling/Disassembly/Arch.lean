import Disassembly.FlagText

/-!
# Architectures and decoding modes
-/

namespace Disassembly

/-- The target architecture. -/
inductive Arch where
  | arm
  | x86
deriving DecidableEq, Repr, Inhabited

/-- The architecture's name in messages. -/
def Arch.name : Arch → String
  | .arm => "ARM"
  | .x86 => "x86"

/-- Whether an architecture can be decoded: both can. -/
def Arch.enabled : Arch → Bool
  | .arm => true
  | .x86 => true

/-- The flags of a decoding mode. -/
structure Mode where
  bits : UInt32
deriving DecidableEq, Repr, Inhabited

namespace Mode

/-- ARM state with no further flag. -/
def arm : Mode := ⟨0⟩
def bits16 : Mode := ⟨0x2⟩
def bits32 : Mode := ⟨0x4⟩
def bits64 : Mode := ⟨0x8⟩
def thumb : Mode := ⟨0x10⟩
/-- A microcontroller core, which has Thumb state only. -/
def mclass : Mode := ⟨0x20⟩
def v8 : Mode := ⟨0x40⟩
def bigEndian : Mode := ⟨0x80000000⟩

def union (a b : Mode) : Mode := ⟨a.bits ||| b.bits⟩

/-- Every flag of `part` is set. -/
def contains (m part : Mode) : Bool := m.bits &&& part.bits == part.bits

/-- Some flag of `part` is set. -/
def intersects (m part : Mode) : Bool := m.bits &&& part.bits != 0

/-- ARM takes any of its own flags; x86 takes exactly one operand width. -/
def validFor (m : Mode) : Arch → Bool
  | .arm => (((thumb.union mclass).union v8).union bigEndian).contains m
  | .x86 => m == bits16 || m == bits32 || m == bits64

def flagNames : FlagNames where
  width := 32
  flags := [("ARM", 0), ("MODE_16", 0x2), ("MODE_32", 0x4), ("MODE_64", 0x8),
    ("THUMB", 0x10), ("MCLASS", 0x20), ("V8", 0x40), ("BIG_ENDIAN", 0x80000000)]

end Mode

/-- How registers are spelled. -/
inductive RegSpelling where
  /-- Conventional names. -/
  | conventional
  /-- Numbers in place of `sp`, `lr` and `pc`. -/
  | numeric
deriving DecidableEq, Repr, Inhabited

/-- Optional processor features. -/
structure Features where
  bits : UInt32
deriving DecidableEq, Repr

namespace Features

/-- Signal processing extension. -/
def dsp : Features := ⟨1⟩
/-- Architecture version seven. -/
def v7 : Features := ⟨2⟩
def none : Features := ⟨0⟩
/-- Every declared feature. -/
def all : Features := ⟨3⟩

instance : Inhabited Features := ⟨all⟩

/-- Every feature of `part` is present. -/
def contains (f part : Features) : Bool := f.bits &&& part.bits == part.bits

def flagNames : FlagNames where
  width := 32
  flags := [("DSP", 1), ("V7", 2)]

end Features

end Disassembly
