import Disassembly.Detail
import Disassembly.RawInst

/-!
# Decoded instructions and options
-/

namespace Disassembly

/-- The options of a handle. -/
structure Options where
  /-- Whether detail records are built. -/
  detail : Bool := false
  spelling : RegSpelling := .conventional
  features : Features := .all
deriving DecidableEq, Repr

instance : Inhabited Options := ⟨{}⟩

/-- The most bytes kept of one instruction. -/
abbrev Insn.maxBytes : Nat := 16

/-- A decoded instruction. -/
structure Insn where
  /-- The public number of the instruction, 0 if it is not known. -/
  id : UInt16 := 0
  address : UInt64 := 0
  /-- The length of the encoding in bytes. -/
  size : UInt16 := 0
  bytes : BoundedList UInt8 Insn.maxBytes := .empty
  /-- The detail, if it was asked for. -/
  detail : Option Detail := none
deriving BEq

instance : Inhabited Insn := ⟨{}⟩

/-- The first bytes of an encoding, as many as belong to it, are there and are
kept. -/
def Insn.leadingBytes (code : List UInt8) (size : UInt16) :
    BoundedList UInt8 Insn.maxBytes :=
  let kept := code.take (min size.toNat Insn.maxBytes)
  have h : kept.length ≤ Insn.maxBytes := by
    simp only [kept, List.length_take]
    omega
  ⟨kept, List.replicate (Insn.maxBytes - kept.length) 0, by
    simp only [List.length_replicate]
    omega, Nat.le_trans h (by decide)⟩

end Disassembly
