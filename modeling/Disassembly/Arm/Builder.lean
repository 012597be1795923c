import Disassembly.Arm.ItBlock
import Disassembly.Arm.Record
import Disassembly.Arm.StatusMask
import Disassembly.Arm.Target
import Disassembly.Arm.Walk
import Disassembly.Fault
import Disassembly.RawInst

/-!
# The operand builder

A builder turns the raw operands of one instruction into classified operands of
a record, step by step. The meaning of a raw operand comes from the group that a
step names and from the declared type of its slot, never from the kind of the
raw operand itself, which only has to agree.

A memory operand is put together from several raw operands. While it is open it
lives in the slot past the last operand of the record; closing it makes that
slot an operand.
-/

namespace Disassembly.Arm

/-- Whether a memory operand is being put together. -/
inductive MemoryState where
  | idle
  | building
deriving DecidableEq, Repr, Inhabited

/-- A unit of work that is not a step of a walk by itself. -/
inductive Request where
  /-- Classify a raw operand as a member of a group. -/
  | operand (group : OperandGroup) (slot : Nat)
  /-- Attach a shift, given by a shift opcode and an immediate, to the open memory
  operand or else to the last operand. -/
  | shift (code : UInt8) (imm : UInt32)
deriving DecidableEq, Repr

structure Builder where
  inst : RawInst
  features : Features
  record : Record
  memory : MemoryState := .idle

/-- The descriptor of a slot. The opcode must be known and the slot below the
limit, declared or not. -/
def descriptor (opcode : UInt32) (slot : Nat) : Except Fault Descriptor :=
  match Opcode.ofWord? opcode with
  | none => .error (.contract opcode .opcodeOutOfRange)
  | some o =>
      if Descriptor.maxSlots ≤ slot then
        .error (.contract opcode (.slotOutOfRange slot))
      else .ok ((Descriptor.ofOpcode o)[slot]?.getD .undeclared)

namespace Builder

/-- A builder at work on a record that may hold operands already. -/
def new (inst : RawInst) (record : Record) (features : Features) : Builder :=
  { inst, features, record }

/-- The number of operands in the record. -/
def count (b : Builder) : Nat := b.record.operands.length

/-- Give up because the instruction does not fit its tables. -/
def violate {α : Type} (b : Builder) (cause : Violation) : Except Fault α :=
  .error (.contract b.inst.opcode cause)

/-- The descriptor of a slot of the instruction. -/
def describe (b : Builder) (slot : Nat) : Except Fault Descriptor :=
  descriptor b.inst.opcode slot

/-- The raw register in a slot. -/
def rawReg (b : Builder) (slot : Nat) : Except Fault UInt16 :=
  match (b.inst.operand slot).reg? with
  | some id => .ok id
  | none => b.violate (.notRegister slot)

/-- The raw immediate in a slot. -/
def rawImm (b : Builder) (slot : Nat) : Except Fault Int64 :=
  match (b.inst.operand slot).imm? with
  | some value => .ok value
  | none => b.violate (.notImmediate slot)

/-- Change the record. -/
def update (b : Builder) (f : Record → Record) : Builder :=
  { b with record := f b.record }

/-- Go on with other operands. -/
def withOperands (b : Builder) (operands : BoundedList Operand maxOperands) : Builder :=
  b.update ({ · with operands })

/-- Add an operand to the record. -/
def append (b : Builder) (op : Operand) : Except Fault Builder := do
  return b.withOperands (← orFault (b.record.operands.push op))

/-- Change the slot of the open memory operand. -/
def modifyOpen (b : Builder) (f : Operand → Operand) : Except Fault Builder := do
  return b.withOperands (← orFault (b.record.operands.modifyActive f))

/-- Add the register in a slot, which must be declared as one. -/
def appendReg (b : Builder) (slot : Nat) (resolve : UInt64 → UInt64) :
    Except Fault Builder := do
  let declared ← b.describe slot
  if declared.type.isRegister then
    let raw ← b.rawReg slot
    b.append { value := .reg ⟨(resolve raw.toUInt64).toUInt16⟩, access := declared.access }
  else b.violate (.notDeclaredRegister slot declared.type)

/-- Add the immediate in a slot. -/
def appendImm (b : Builder) (slot : Nat) (kind : Int64 → OperandValue)
    (resolve : UInt64 → UInt64) : Except Fault Builder := do
  let raw ← b.rawImm slot
  let declared ← b.describe slot
  b.append { value := kind (resolve raw.toUInt64).toInt64, access := declared.access }

/-- Add the registers in a slot and all that follow it, with the access of the
first one. -/
def appendRegisterList (b : Builder) (slot : Nat) : Except Fault Builder := do
  let declared ← b.describe slot
  (List.range' slot (b.inst.operands.length - slot)).foldlM
    (fun b i => do
      let raw ← b.rawReg i
      b.append { value := .reg ⟨raw⟩, access := declared.access }) b

/-- Add the registers of a vector list: the first double word of the named quad
word and those after it, or a named double word again for each. -/
def appendVectorList (b : Builder) (slot : Nat) (size : ListSize) :
    Except Fault Builder :=
  (List.range size.toNat).foldlM
    (fun b offset => b.appendReg slot (doubleWord (UInt16.ofNat offset))) b

/-- Open a memory operand, with the access of the slot that has the number of
the new operand. -/
def openMemory (b : Builder) : Except Fault Builder := do
  if b.memory = .building then throw (.memoryAlreadyOpen b.inst.opcode)
  let declared ← b.describe b.count
  { b with memory := .building }.modifyOpen fun _ =>
    { value := .mem {}, access := declared.access }

/-- Close the open memory operand and add it to the record. -/
def closeMemory (b : Builder) : Except Fault Builder := do
  if b.memory = .idle then throw (.noMemoryOpen b.inst.opcode)
  return { b with memory := .idle }.withOperands (← orFault b.record.operands.commit)

/-- The contents of the open slot. -/
def openOperand (b : Builder) : Except Fault Operand :=
  match b.record.operands.active? with
  | some op => .ok op
  | none => .error (.capacity (.full maxOperands))

/-- Store a part of the open memory operand. Its declared type says whether the
slot holds a register or the displacement; a register is the base or the index
as `isBase` says. -/
def setMemory (b : Builder) (slot : Nat) (isBase : Bool) (resolve : UInt64 → UInt64) :
    Except Fault Builder := do
  let declared ← b.describe slot
  let op ← b.openOperand
  let store (m : Memory) : Except Fault Builder :=
    b.modifyOpen fun _ =>
      { op with value := .mem m, access := declared.access, subtracted := false }
  if declared.type.isRegister then
    let raw ← b.rawReg slot
    let reg : Register := ⟨(resolve raw.toUInt64).toUInt16⟩
    store (if isBase then { op.memory with base := reg }
      else { op.memory with index := reg })
  else if declared.type.isImmediate then
    let raw ← b.rawImm slot
    store { op.memory with disp := (resolve raw.toUInt64).toUInt32.toInt32 }
  else b.violate (.notMemoryPart slot declared.type)

/-- Take the last operand back into the open slot and give it the lane in a
slot; closing the memory operand adds it again. -/
def setLane (b : Builder) (slot : Nat) : Except Fault Builder := do
  let lane ← b.rawImm slot
  if b.record.operands.isEmpty then b.violate .laneWithoutOperand
  else
    (b.withOperands b.record.operands.retract).modifyOpen
      ({ · with neonLane := lane.toInt8 })

/-- Set the condition from the code in a slot. -/
def setCondition (b : Builder) (kind : PredicateKind) (slot : Nat) :
    Except Fault Builder := do
  let code ← b.rawImm slot
  if code = 15 ∧ kind = .plain then return b.update ({ · with cc := none })
  else if 0 ≤ code then
    match Condition.ofCode? code.toInt.toNat with
    | some cc => return b.update ({ · with cc := some cc })
    | none => b.violate (.conditionOutOfRange code)
  else b.violate (.conditionOutOfRange code)

/-- Set the vector predicate from the code in a slot. -/
def setVectorPredicate (b : Builder) (slot : Nat) : Except Fault Builder := do
  let raw ← b.rawImm slot
  match VectorPredicate.ofRaw? raw with
  | some vcc => return b.update ({ · with vcc })
  | none => b.violate (.vectorPredicateOutOfRange raw)

/-- Set the layout of an `it` block from its mask and the condition before it. -/
def setItLayout (b : Builder) (slot : Nat) : Except Fault Builder := do
  if slot = 0 then b.violate .itMaskWithoutCondition
  else
    let mask := (← b.rawImm slot).toUInt64.toNat % 16
    if mask = 0 then b.violate .itMaskZero
    else
      let condition := (← b.rawImm (slot - 1)).toUInt64.toNat
      let layout := ItBlock.layout (condition.testBit 0) mask
      return b.update ({ · with itLayout := UInt8.ofNat layout })

/-- Add the operand that the mask of a status register move selects, if any. -/
def appendStatusMask (b : Builder) (slot : Nat) : Except Fault Builder := do
  let mask := (← b.rawImm slot).toUInt64.toUInt32
  let declared ← b.describe slot
  let value :=
    if b.inst.isMClass then
      some (MClass.maskValue (Opcode.ofWord? b.inst.opcode = some .t2msrM) b.features mask)
    else maskValue? mask
  match value with
  | some value => b.append { value, access := declared.access }
  | none => return b

/-- Attach a shift. No shift, and a left shift by 0, change nothing. A rotation
through the carry keeps the amount stored before. -/
def attachShift (b : Builder) (code : UInt8) (imm : UInt32) : Except Fault Builder :=
  match ShiftKind.ofOpcode? code with
  | none => b.violate (.shiftOpcodeOutOfRange code)
  | some none => .ok b
  | some (some kind) =>
      if kind = .lsl ∧ imm = 0 then .ok b
      else
        let shifted (op : Operand) : Operand :=
          { op with shift := ⟨some kind,
              if kind = .rrx then op.shift.amount else Shift.decodeAmount imm⟩ }
        if b.memory = .building then b.modifyOpen shifted
        else if b.record.operands.isEmpty then b.violate .shiftWithoutOperand
        else .ok (b.withOperands (b.record.operands.modifyLast shifted))

/-- Classify a raw operand by the declared type of its slot. -/
def classifyGeneric (b : Builder) (slot : Nat) : Except Fault Builder := do
  let declared ← b.describe slot
  match declared.type with
  | .imm | .memImm =>
      if b.memory = .building then b.setMemory slot false id
      else b.appendImm slot .imm (resolveBranch b.inst)
  | .reg | .memReg | .memIndexReg =>
      if b.memory = .building then
        b.setMemory slot (declared.type ≠ .memIndexReg) id
      else b.appendReg slot id
  | .pred => b.appendImm slot .pred id
  | .undeclared => b.violate (.undeclaredSlot slot)

/-- Classify a raw operand as a member of a group. -/
def classifyGroup (b : Builder) (group : OperandGroup) (slot : Nat) :
    Except Fault Builder :=
  match group with
  | .predicate kind => b.setCondition kind slot
  | .vectorPredicate => b.setVectorPredicate slot
  | .generic => b.classifyGeneric slot
  | .coprocessor => b.appendImm slot .pimm id
  | .coprocessorRegister => b.appendImm slot .cimm id
  | .alignedAddress => do
      let b ← b.openMemory
      let b ← b.setMemory slot true id
      let b ← b.setMemory (slot + 1) false alignmentBits
      b.closeMemory
  | .alignedOffset => do
      if (← b.rawReg slot) = 0 then return b
      else b.appendReg slot id
  | .baseAddress => do
      let b ← b.openMemory
      let b ← b.setMemory slot true id
      b.closeMemory
  | .flagSetter => do
      if (← b.rawReg slot) = 0 then return b
      else return b.update ({ · with updateFlags := true })
  | .vectorList size => b.appendVectorList slot size
  | .bareImmediate =>
      if b.memory = .building then b.setLane slot else b.appendImm slot .imm id
  | .registerList => b.appendRegisterList slot
  | .itMask => b.setItLayout slot
  | .statusMask => b.appendStatusMask slot
  | .unmapped group => b.violate (.unmappedGroup group slot)

/-- Carry out a request. -/
def classify (b : Builder) : Request → Except Fault Builder
  | .operand group slot => b.classifyGroup group slot
  | .shift code imm => b.attachShift code imm

/-- Mark that the base register is written back. -/
def setWriteback (b : Builder) : Builder := b.update ({ · with writeback := true })

/-- Carry out a step of a walk. -/
def step (b : Builder) : Step → Except Fault Builder
  | .classify group slot => b.classify (.operand group slot)
  | .shiftLeft slot => do
      let imm := (← b.rawImm slot).toUInt64.toUInt32
      b.classify (.shift 2 imm)
  | .packedShift slot => do
      let imm := (← b.rawImm slot).toUInt64.toUInt32
      b.classify (.shift (imm &&& 7).toUInt8 (imm >>> 3))
  | .openMemory => b.openMemory
  | .closeMemory => b.closeMemory
  | .writeback => .ok b.setWriteback

/-- Carry out steps in order. -/
def run (b : Builder) (steps : List Step) : Except Fault Builder :=
  steps.foldlM step b

/-- End the build; no memory operand may be open. -/
def finish (b : Builder) : Except Fault Record :=
  if b.memory = .building then .error (.memoryLeftOpen b.inst.opcode)
  else .ok b.record

@[simp] theorem run_nil (b : Builder) : b.run [] = .ok b := rfl

theorem run_cons (b : Builder) (s : Step) (steps : List Step) :
    b.run (s :: steps) = b.step s >>= (·.run steps) := by
  simp only [run, List.foldlM_cons]

theorem run_append (b : Builder) (first rest : List Step) :
    b.run (first ++ rest) = b.run first >>= (·.run rest) := by
  simp only [run, List.foldlM_append]

end Builder

end Disassembly.Arm
