import Disassembly.Arm.Record
import Disassembly.X86.Record

/-!
# Detail records

What is known about a decoded instruction beyond its bytes: the registers it
touches without naming them, its groups, and the record of its architecture.
-/

namespace Disassembly

/-- The record of an architecture. -/
inductive Payload where
  | none
  | arm (record : Arm.Record)
  | x86 (record : X86.Record)
deriving BEq, Inhabited

/-- The most registers read, and the most written, without being an operand. -/
abbrev Detail.maxImplicit : Nat := 20

/-- The most groups of one instruction. -/
abbrev Detail.maxGroups : Nat := 8

structure Detail where
  /-- Registers read without being an operand. -/
  regsRead : BoundedList UInt16 Detail.maxImplicit := .empty
  /-- Registers written without being an operand. -/
  regsWrite : BoundedList UInt16 Detail.maxImplicit := .empty
  /-- The numbers of the groups. -/
  groups : BoundedList UInt8 Detail.maxGroups := .empty
  payload : Payload := .none
deriving BEq

namespace Detail

instance : Inhabited Detail := ⟨{}⟩

/-- An empty record for an ARM instruction. -/
def arm : Detail := { payload := .arm {} }

/-- An empty record for an x86 instruction. -/
def x86 : Detail := { payload := .x86 {} }

/-- The record with its lists emptied and its payload kept. -/
def clearLists (d : Detail) : Detail := { payload := d.payload }

/-- Whether the instruction is in the group with a number. -/
def inGroup (d : Detail) (group : UInt8) : Bool := d.groups.contains group

/-- Whether a register is read without being an operand. -/
def reads (d : Detail) (reg : UInt16) : Bool := d.regsRead.contains reg

/-- Whether a register is written without being an operand. -/
def writes (d : Detail) (reg : UInt16) : Bool := d.regsWrite.contains reg

def arm? (d : Detail) : Option Arm.Record :=
  match d.payload with
  | .arm record => some record
  | _ => none

def x86? (d : Detail) : Option X86.Record :=
  match d.payload with
  | .x86 record => some record
  | _ => none

end Detail

end Disassembly
