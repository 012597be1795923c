import Disassembly.Proofs.Arm.Reading

/-!
# Drafts of a record

A draft is what a builder works on, without slots and without a cursor: the
operands added so far, the memory operand that is open, if one is, and the other
fields of the record. Adding puts an operand at the end of a list; the open
operand is a value of its own until it is closed.
-/

namespace Disassembly.Arm

/-- The fields of a record beside its operands. -/
structure Marks where
  cc : Option Condition := none
  vcc : Option VectorPredicate := none
  updateFlags : Bool := false
  writeback : Bool := false
  itLayout : UInt8 := 0
deriving DecidableEq, Repr

def Record.marks (r : Record) : Marks :=
  ⟨r.cc, r.vcc, r.updateFlags, r.writeback, r.itLayout⟩

/-- A register in a slot of the type is the base of the memory operand it is part
of. -/
def OperandType.isBase : OperandType → Bool
  | .reg | .memReg => true
  | _ => false

structure Draft where
  committed : List Operand
  /-- The open memory operand. -/
  opened : Option Operand := none
  marks : Marks := {}
deriving DecidableEq, Repr

namespace Draft

/-- The fault of a record without a free slot. -/
def overflow : Fault := .capacity (.full maxOperands)

/-- The operands and the fields of a record, with no memory operand open. -/
def ofRecord (r : Record) : Draft :=
  { committed := r.operands.toList, marks := r.marks }

/-- Whether a memory operand is open. -/
def memory (d : Draft) : MemoryState := if d.opened.isSome then .building else .idle

/-- With nothing open, closing changes nothing. -/
theorem eq_of_closed (d : Draft) (h : d.opened = none) : { d with opened := none } = d := by
  rw [← h]

/-- Change the fields beside the operands. -/
def mark (d : Draft) (f : Marks → Marks) : Draft := { d with marks := f d.marks }

/-- Add an operand at the end. -/
def append (d : Draft) (op : Operand) : Except Fault Draft :=
  if d.committed.length < maxOperands then .ok { d with committed := d.committed ++ [op] }
  else .error overflow

/-- Add operands one by one, each read when its turn has come. -/
def appendAll (d : Draft) (ops : List (Except Fault Operand)) : Except Fault Draft :=
  ops.foldlM (fun d op => op >>= d.append) d

section
variable (inst : RawInst)

/-- An empty memory operand with the access of the slot that has its number. No
other one may be open, and there must be room for it. -/
def newMemory (d : Draft) : Except Fault Operand :=
  if d.opened.isSome then .error (.memoryAlreadyOpen inst.opcode)
  else do
    let declared ← descriptor inst.opcode d.committed.length
    if d.committed.length < maxOperands then
      return { value := .mem {}, access := declared.access }
    else .error overflow

/-- Open an empty memory operand. -/
def openMemory (d : Draft) : Except Fault Draft := do
  let op ← d.newMemory inst
  return { d with opened := some op }

/-- Add the open memory operand. -/
def closeMemory (d : Draft) : Except Fault Draft :=
  match d.opened with
  | some op => { d with opened := none }.append op
  | none => .error (.noMemoryOpen inst.opcode)

/-- The last operand takes the place of the open one, with a lane. -/
def foldLane (d : Draft) (slot : Nat) : Except Fault Draft := do
  let lane ← readImm inst slot
  match d.committed.getLast? with
  | some op =>
      return { d with
        committed := d.committed.dropLast
        opened := some { op with neonLane := lane.toInt8 } }
  | none => .error (.contract inst.opcode .laneWithoutOperand)

/-- Shift the open operand, or else the last one. -/
def attachShift (d : Draft) (code : UInt8) (imm : UInt32) : Except Fault Draft := do
  match ← readShift inst code imm with
  | none => return d
  | some kind =>
      match d.opened with
      | some op => return { d with opened := some (op.shifted kind imm) }
      | none =>
          if d.committed = [] then .error (.contract inst.opcode .shiftWithoutOperand)
          else
            let last := d.committed.length - 1
            return { d with committed := d.committed.modify last (·.shifted kind imm) }

variable (features : Features)

/-- Classify a raw operand as a member of a group. -/
def classifyGroup (d : Draft) (group : OperandGroup) (slot : Nat) : Except Fault Draft :=
  match group with
  | .predicate kind => do
      let cc ← readCondition inst kind slot
      return d.mark ({ · with cc })
  | .vectorPredicate => do
      let vcc ← readVectorPredicate inst slot
      return d.mark ({ · with vcc })
  | .itMask => do
      let itLayout ← readItLayout inst slot
      return d.mark ({ · with itLayout })
  | .flagSetter => do
      let raw ← readReg inst slot
      return d.mark fun m => { m with updateFlags := m.updateFlags || raw != 0 }
  | .alignedAddress => do
      let op ← d.newMemory inst
      let op ← memoryPart inst slot true id op
      let op ← memoryPart inst (slot + 1) false alignmentBits op
      d.append op
  | .baseAddress => do
      let op ← d.newMemory inst
      let op ← memoryPart inst slot true id op
      d.append op
  | .bareImmediate =>
      if d.opened.isSome then d.foldLane inst slot
      else groupOperands inst features .bareImmediate slot >>= d.appendAll
  | .generic => do
      let declared ← descriptor inst.opcode slot
      match d.opened with
      | some op =>
          if declared.type.isRegister || declared.type.isImmediate then
            let op ← memoryPart inst slot declared.type.isBase id op
            return { d with opened := some op }
          else groupOperands inst features .generic slot >>= d.appendAll
      | none => groupOperands inst features .generic slot >>= d.appendAll
  | group => groupOperands inst features group slot >>= d.appendAll

/-- Carry out a step of a walk. -/
def step (d : Draft) : Step → Except Fault Draft
  | .classify group slot => d.classifyGroup inst features group slot
  | .shiftLeft slot => do
      let raw ← readImm inst slot
      d.attachShift inst 2 raw.toUInt64.toUInt32
  | .packedShift slot => do
      let raw ← readImm inst slot
      let imm := raw.toUInt64.toUInt32
      d.attachShift inst (imm &&& 7).toUInt8 (imm >>> 3)
  | .openMemory => d.openMemory inst
  | .closeMemory => d.closeMemory inst
  | .writeback => .ok (d.mark ({ · with writeback := true }))

/-- Carry out steps in order. -/
def run (d : Draft) (steps : List Step) : Except Fault Draft :=
  steps.foldlM (step inst features) d

end

end Draft

end Disassembly.Arm
