import Disassembly.Arm.Builder
import Disassembly.Arm.Facts
import Disassembly.Detail

/-!
# Building ARM detail

From a raw instruction to a finished detail record: the facts of the opcode
first, then the operands in the order of the opcode's walk.
-/

namespace Disassembly

/-- An empty ARM record, whatever the record held. -/
def Detail.resetArm (_ : Detail) : Detail := .arm

namespace Arm

/-- Add the registers that are present to a list of register numbers. -/
def pushPresent {n : Nat} (l : BoundedList UInt16 n) (regs : List Register) :
    Except CapacityError (BoundedList UInt16 n) :=
  l.pushAll ((regs.filter (· ≠ .absent)).map (·.id))

/-- Add the facts of an opcode to a record. The lists grow, and the record of an
ARM instruction takes over whether flags are set. A branch is in the group of
jumps, once. -/
def Facts.addTo (facts : Facts) (d : Detail) : Except CapacityError Detail := do
  let regsRead ← pushPresent d.regsRead facts.reads
  let regsWrite ← pushPresent d.regsWrite facts.writes
  let groups ← d.groups.pushAll (facts.groups.map (·.id))
  let payload :=
    match d.payload with
    | .arm record => .arm { record with updateFlags := facts.setsFlags }
    | other => other
  let d : Detail := { regsRead, regsWrite, groups, payload }
  if facts.isJump && !d.inGroup Group.jump.id then
    return { d with groups := ← d.groups.push Group.jump.id }
  else return d

/-- The mnemonic of an opcode word, and the record with its facts. A word without
facts leaves the record alone. -/
def classify (opcode : UInt32) (d : Detail) :
    Except CapacityError (Option Mnemonic × Detail) :=
  match Facts.ofWord? opcode with
  | none => .ok (none, d)
  | some facts => (facts.addTo d).map (some facts.mnemonic, ·)

/-- The mnemonic of an opcode word alone. -/
def mnemonic? (opcode : UInt32) : Option Mnemonic :=
  (Facts.ofWord? opcode).map (·.mnemonic)

/-- Add the operands of an instruction to a record. -/
def buildOperands (inst : RawInst) (record : Record) (features : Features) :
    Except Fault Record := do
  let b ← (Builder.new inst record features).run (walk inst.opcode)
  b.finish

/-- An instruction that sets flags writes the status register. -/
def noteFlags (record : Record) (d : Detail) : Except CapacityError Detail := do
  if record.updateFlags && !d.writes Register.cpsr.id then
    return { d with regsWrite := ← d.regsWrite.push Register.cpsr.id }
  else return d

/-- The mnemonic and the detail of an instruction, built anew into a record. A
word without facts leaves the record empty. -/
def build (inst : RawInst) (d : Detail) (features : Features) :
    Except Fault (Option Mnemonic × Detail) := do
  let (mnemonic, d) ← orFault (classify inst.opcode d.resetArm)
  match mnemonic, d.payload with
  | some _, .arm record =>
      let record ← buildOperands inst record features
      let d ← orFault (noteFlags record { d with payload := .arm record })
      return (mnemonic, d)
  | _, _ => return (mnemonic, d)

end Arm

end Disassembly
