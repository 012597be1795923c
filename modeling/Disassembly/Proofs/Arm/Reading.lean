import Disassembly.Arm.Builder
import Disassembly.Proofs.Outcome

/-!
# What a builder reads

Each operation of a builder first reads raw operands and descriptors, and then
changes its state. The first half does not look at the state: it is a function of
the instruction and of the features. The equations say that every operation is
its reading followed by a change.
-/

namespace Disassembly.Arm

section
variable (inst : RawInst)

/-- The raw register in a slot. -/
def readReg (slot : Nat) : Except Fault UInt16 :=
  match (inst.operand slot).reg? with
  | some id => .ok id
  | none => .error (.contract inst.opcode (.notRegister slot))

/-- The raw immediate in a slot. -/
def readImm (slot : Nat) : Except Fault Int64 :=
  match (inst.operand slot).imm? with
  | some value => .ok value
  | none => .error (.contract inst.opcode (.notImmediate slot))

/-- The condition of a code, if the code is in the range of its flavour. -/
def PredicateKind.decode? (kind : PredicateKind) (code : Int64) : Option (Option Condition) :=
  if code = 15 ∧ kind = .plain then some none
  else if 0 ≤ code then (Condition.ofCode? code.toInt.toNat).map some
  else none

/-- The condition in a slot. -/
def readCondition (kind : PredicateKind) (slot : Nat) : Except Fault (Option Condition) := do
  let code ← readImm inst slot
  match kind.decode? code with
  | some cc => .ok cc
  | none => .error (.contract inst.opcode (.conditionOutOfRange code))

/-- The vector predicate in a slot. -/
def readVectorPredicate (slot : Nat) : Except Fault (Option VectorPredicate) := do
  let raw ← readImm inst slot
  match VectorPredicate.ofRaw? raw with
  | some vcc => .ok vcc
  | none => .error (.contract inst.opcode (.vectorPredicateOutOfRange raw))

/-- The block layout of the mask in a slot and the condition before it. -/
def readItLayout (slot : Nat) : Except Fault UInt8 :=
  if slot = 0 then .error (.contract inst.opcode .itMaskWithoutCondition)
  else do
    let mask ← readImm inst slot
    if mask.toUInt64.toNat % 16 = 0 then .error (.contract inst.opcode .itMaskZero)
    else
      let condition ← readImm inst (slot - 1)
      return UInt8.ofNat
        (ItBlock.layout (condition.toUInt64.toNat.testBit 0) (mask.toUInt64.toNat % 16))

/-- The register operand of a slot, which must be declared as one. -/
def regOperand (slot : Nat) (resolve : UInt64 → UInt64) : Except Fault Operand := do
  let declared ← descriptor inst.opcode slot
  if declared.type.isRegister then
    let raw ← readReg inst slot
    return { value := .reg ⟨(resolve raw.toUInt64).toUInt16⟩, access := declared.access }
  else .error (.contract inst.opcode (.notDeclaredRegister slot declared.type))

/-- The immediate operand of a slot. -/
def immOperand (slot : Nat) (kind : Int64 → OperandValue) (resolve : UInt64 → UInt64) :
    Except Fault Operand := do
  let raw ← readImm inst slot
  let declared ← descriptor inst.opcode slot
  return { value := kind (resolve raw.toUInt64).toInt64, access := declared.access }

/-- The register in a slot as a member of a list with one access. -/
def listOperand (access : Access) (slot : Nat) : Except Fault Operand := do
  let raw ← readReg inst slot
  return { value := .reg ⟨raw⟩, access }

/-- What the mask of a status register move stands for, if for anything. -/
def statusValue? (features : Features) (mask : UInt32) : Option OperandValue :=
  if inst.isMClass then
    some (MClass.maskValue (Opcode.ofWord? inst.opcode = some .t2msrM) features mask)
  else maskValue? mask

/-- A memory operand with the part that a slot holds: the base or the index, as
`isBase` says, or the displacement. -/
def memoryPart (slot : Nat) (isBase : Bool) (resolve : UInt64 → UInt64) (op : Operand) :
    Except Fault Operand := do
  let declared ← descriptor inst.opcode slot
  if declared.type.isRegister then
    let raw ← readReg inst slot
    let reg : Register := ⟨(resolve raw.toUInt64).toUInt16⟩
    let m := if isBase then { op.memory with base := reg } else { op.memory with index := reg }
    return { op with value := .mem m, access := declared.access, subtracted := false }
  else if declared.type.isImmediate then
    let raw ← readImm inst slot
    let m := { op.memory with disp := (resolve raw.toUInt64).toUInt32.toInt32 }
    return { op with value := .mem m, access := declared.access, subtracted := false }
  else .error (.contract inst.opcode (.notMemoryPart slot declared.type))

/-- The kind of shift that a shift opcode asks for; none where the operand stays as
it is. -/
def readShift (code : UInt8) (imm : UInt32) : Except Fault (Option ShiftKind) :=
  match ShiftKind.ofOpcode? code with
  | none => .error (.contract inst.opcode (.shiftOpcodeOutOfRange code))
  | some none => .ok none
  | some (some kind) => .ok (if kind = .lsl ∧ imm = 0 then none else some kind)

/-- The operands that a group adds outside of a memory operand. The raw operand of
each is read when its turn to be added has come. -/
def groupOperands (features : Features) (group : OperandGroup) (slot : Nat) :
    Except Fault (List (Except Fault Operand)) :=
  match group with
  | .generic => do
      let declared ← descriptor inst.opcode slot
      match declared.type with
      | .imm | .memImm => return [immOperand inst slot .imm (resolveBranch inst)]
      | .reg | .memReg | .memIndexReg => return [regOperand inst slot id]
      | .pred => return [immOperand inst slot .pred id]
      | .undeclared => .error (.contract inst.opcode (.undeclaredSlot slot))
  | .coprocessor => .ok [immOperand inst slot .pimm id]
  | .coprocessorRegister => .ok [immOperand inst slot .cimm id]
  | .bareImmediate => .ok [immOperand inst slot .imm id]
  | .alignedOffset => do
      let raw ← readReg inst slot
      return if raw = 0 then [] else [regOperand inst slot id]
  | .vectorList size =>
      .ok ((List.range size.toNat).map fun offset =>
        regOperand inst slot (doubleWord (UInt16.ofNat offset)))
  | .registerList => do
      let declared ← descriptor inst.opcode slot
      return (List.range' slot (inst.operands.length - slot)).map
        (listOperand inst declared.access)
  | .statusMask => do
      let raw ← readImm inst slot
      let declared ← descriptor inst.opcode slot
      return ((statusValue? inst features raw.toUInt64.toUInt32).map fun value =>
        Except.ok { value, access := declared.access }).toList
  | .unmapped g => .error (.contract inst.opcode (.unmappedGroup g slot))
  | .predicate _ | .vectorPredicate | .flagSetter | .itMask | .alignedAddress
  | .baseAddress => .ok []

end

/-- An operand with a shift. A rotation through the carry keeps the amount stored
before. -/
def Operand.shifted (kind : ShiftKind) (imm : UInt32) (op : Operand) : Operand :=
  { op with shift := ⟨some kind,
      if kind = .rrx then op.shift.amount else Shift.decodeAmount imm⟩ }

end Disassembly.Arm
