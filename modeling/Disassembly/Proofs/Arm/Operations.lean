import Disassembly.Proofs.Arm.Draft

/-!
# Operations of a builder

Every operation of a builder is its reading followed by a change of the record.
-/

namespace Disassembly.Arm

/-- The groups that add operands whether or not a memory operand is open. -/
def OperandGroup.addsOnly : OperandGroup → Bool
  | .coprocessor | .coprocessorRegister | .alignedOffset | .vectorList _ | .registerList
  | .statusMask | .unmapped _ => true
  | _ => false

namespace Builder

variable (b : Builder)

theorem setCondition_eq (kind : PredicateKind) (slot : Nat) :
    b.setCondition kind slot =
      readCondition b.inst kind slot >>= fun cc => .ok (b.update ({ · with cc })) := by
  simp only [setCondition, readCondition, bind_assoc]
  change (readImm b.inst slot >>= _) = _
  congr 1
  funext code
  simp only [PredicateKind.decode?]
  by_cases hplain : code = 15 ∧ kind = .plain
  · simp only [if_pos hplain]
    rfl
  · simp only [if_neg hplain]
    by_cases h0 : 0 ≤ code
    · simp only [if_pos h0]
      cases Condition.ofCode? code.toInt.toNat <;> rfl
    · simp only [if_neg h0]
      rfl

theorem setVectorPredicate_eq (slot : Nat) :
    b.setVectorPredicate slot =
      readVectorPredicate b.inst slot >>= fun vcc => .ok (b.update ({ · with vcc })) := by
  simp only [setVectorPredicate, readVectorPredicate, bind_assoc]
  change (readImm b.inst slot >>= _) = _
  congr 1
  funext raw
  cases VectorPredicate.ofRaw? raw <;> rfl

theorem setItLayout_eq (slot : Nat) :
    b.setItLayout slot =
      readItLayout b.inst slot >>= fun itLayout => .ok (b.update ({ · with itLayout })) := by
  simp only [setItLayout, readItLayout]
  by_cases hslot : slot = 0
  · simp only [if_pos hslot]
    rfl
  · simp only [if_neg hslot, bind_assoc]
    change (readImm b.inst slot >>= _) = _
    congr 1
    funext mask
    by_cases hmask : mask.toUInt64.toNat % 16 = 0
    · simp only [if_pos hmask]
      rfl
    · simp only [if_neg hmask, bind_assoc]
      rfl

theorem appendReg_eq (slot : Nat) (resolve : UInt64 → UInt64) :
    b.appendReg slot resolve = regOperand b.inst slot resolve >>= b.append := by
  simp only [appendReg, regOperand, bind_assoc, describe]
  congr 1
  funext declared
  split
  · simp only [bind_assoc]
    rfl
  · rfl

theorem appendImm_eq (slot : Nat) (kind : Int64 → OperandValue) (resolve : UInt64 → UInt64) :
    b.appendImm slot kind resolve = immOperand b.inst slot kind resolve >>= b.append := by
  simp only [appendImm, immOperand, bind_assoc, pure_eq_ok, ok_bind]
  rfl

theorem setMemory_eq {op : Operand} (h : b.record.operands.active? = some op) (slot : Nat)
    (isBase : Bool) (resolve : UInt64 → UInt64) :
    b.setMemory slot isBase resolve =
      memoryPart b.inst slot isBase resolve op >>= fun op => b.modifyOpen fun _ => op := by
  simp only [setMemory, memoryPart, bind_assoc, openOperand, h, ok_bind, describe]
  congr 1
  funext declared
  by_cases hreg : declared.type.isRegister = true
  · simp only [if_pos hreg, bind_assoc, pure_eq_ok, ok_bind]
    rfl
  · simp only [if_neg hreg]
    by_cases himm : declared.type.isImmediate = true
    · simp only [if_pos himm, bind_assoc, pure_eq_ok, ok_bind]
      rfl
    · simp only [if_neg himm]
      rfl

theorem attachShift_eq (code : UInt8) (imm : UInt32) :
    b.attachShift code imm = readShift b.inst code imm >>= fun
      | none => .ok b
      | some kind =>
          if b.memory = .building then b.modifyOpen (·.shifted kind imm)
          else if b.record.operands.isEmpty then b.violate .shiftWithoutOperand
          else .ok (b.withOperands (b.record.operands.modifyLast (·.shifted kind imm))) := by
  simp only [attachShift, readShift]
  rcases ShiftKind.ofOpcode? code with _ | _ | kind
  · rfl
  · rfl
  · by_cases hnone : kind = .lsl ∧ imm = 0
    · simp only [if_pos hnone, ok_bind]
    · simp only [if_neg hnone, ok_bind]
      rfl

/-- Add operands one by one, each read when its turn has come. -/
def appendAll (ops : List (Except Fault Operand)) : Except Fault Builder :=
  ops.foldlM (fun b op => op >>= b.append) b

/-- Adding an operand changes neither the instruction nor the features. -/
theorem append_source {b b' : Builder} {op : Operand} (h : b.append op = .ok b') :
    b'.inst = b.inst ∧ b'.features = b.features ∧ b'.memory = b.memory := by
  obtain ⟨operands, -, hb⟩ := bind_eq_ok_iff.mp h
  cases hb
  exact ⟨rfl, rfl, rfl⟩

/-- Reading each operand from the builder reached so far is reading it from the instruction. -/
theorem foldlM_append_eq {ι : Type} (read : RawInst → ι → Except Fault Operand)
    (items : List ι) :
    items.foldlM (fun b i => read b.inst i >>= b.append) b =
      b.appendAll (items.map (read b.inst)) := by
  induction items generalizing b with
  | nil => rfl
  | cons i rest ih =>
      simp only [appendAll, List.foldlM_cons, List.map_cons, bind_assoc]
      congr 1
      funext op
      cases h : b.append op with
      | error fault => rfl
      | ok b' =>
          rw [ok_bind, ok_bind, ih b', (append_source h).1]
          rfl

theorem appendAll_singleton (op : Except Fault Operand) :
    b.appendAll [op] = op >>= b.append := by
  simp only [appendAll, List.foldlM_cons, List.foldlM_nil, bind_pure]

theorem appendRegisterList_eq (slot : Nat) :
    b.appendRegisterList slot =
      groupOperands b.inst b.features .registerList slot >>= b.appendAll := by
  simp only [appendRegisterList, groupOperands, bind_assoc, describe, pure_eq_ok, ok_bind]
  congr 1
  funext declared
  rw [← foldlM_append_eq b fun inst i => listOperand inst declared.access i]
  simp only [listOperand, bind_assoc, pure_eq_ok, ok_bind]
  rfl

theorem appendVectorList_eq (slot : Nat) (size : ListSize) :
    b.appendVectorList slot size =
      groupOperands b.inst b.features (.vectorList size) slot >>= b.appendAll := by
  simp only [appendVectorList, groupOperands, ok_bind, appendReg_eq]
  exact foldlM_append_eq b
    (fun inst offset => regOperand inst slot (doubleWord (UInt16.ofNat offset))) _

theorem appendStatusMask_eq (slot : Nat) :
    b.appendStatusMask slot =
      groupOperands b.inst b.features .statusMask slot >>= b.appendAll := by
  simp only [appendStatusMask, groupOperands, bind_assoc, pure_eq_ok, ok_bind]
  change (readImm b.inst slot >>= _) = _
  congr 1
  funext raw
  simp only [describe, statusValue?]
  congr 1
  funext declared
  cases h : (if b.inst.isMClass = true then _ else _ : Option OperandValue) with
  | none => rfl
  | some value => simp only [Option.map_some, Option.toList_some, appendAll_singleton, ok_bind]

theorem classifyGeneric_idle (hidle : b.memory = .idle) (slot : Nat) :
    b.classifyGeneric slot =
      groupOperands b.inst b.features .generic slot >>= b.appendAll := by
  simp only [classifyGeneric, groupOperands, bind_assoc, describe, hidle]
  congr 1
  funext declared
  cases declared.type <;>
    simp [appendReg_eq, appendImm_eq, appendAll_singleton, violate]

/-- A group that only adds operands reads them and adds them. -/
theorem classifyGroup_eq {group : OperandGroup} (hadds : group.addsOnly = true)
    (slot : Nat) :
    b.classifyGroup group slot =
      groupOperands b.inst b.features group slot >>= b.appendAll := by
  cases group with
  | coprocessor | coprocessorRegister =>
      simp only [classifyGroup, groupOperands, appendImm_eq, appendAll_singleton, ok_bind]
  | alignedOffset =>
      simp only [classifyGroup, groupOperands, bind_assoc]
      change (readReg b.inst slot >>= _) = _
      congr 1
      funext raw
      by_cases hzero : raw = 0
      · simp only [if_pos hzero]
        rfl
      · simp only [if_neg hzero, appendReg_eq, pure_eq_ok, ok_bind, appendAll_singleton]
  | vectorList size => exact b.appendVectorList_eq slot size
  | registerList => exact b.appendRegisterList_eq slot
  | statusMask => exact b.appendStatusMask_eq slot
  | unmapped g => rfl
  | _ => cases hadds

end Builder

end Disassembly.Arm
