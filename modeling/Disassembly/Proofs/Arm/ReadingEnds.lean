import Disassembly.Proofs.Arm.Acceptance

/-!
# How readings end

A reading gives a result exactly when the step that it belongs to accepts the raw
operand. Otherwise the fault names what the step rejects. The codes and masks that a
step takes are those that the tables behind the readings know.
-/

namespace Disassembly.Arm

section Codes

theorem isSome_ofCode?_iff (code : Nat) : (Condition.ofCode? code).isSome ↔ code < 15 := by
  simp only [Condition.ofCode?, isSome_getElem?]
  rfl

/-- A code has a condition exactly in the range of its flavour. -/
theorem isSome_decode?_iff (kind : PredicateKind) (code : Int64) :
    (kind.decode? code).isSome ↔ 0 ≤ code ∧ code ≤ kind.limit := by
  have hcode : (0 : Int64) ≤ code → (code.toInt.toNat < 15 ↔ code ≤ 14) := by
    intro h
    have h0 := Int64.le_iff_toInt_le.mp h
    rw [Int64.le_iff_toInt_le]
    simp only [Int64.reduceToInt] at h0 ⊢
    omega
  simp only [PredicateKind.decode?]
  by_cases hplain : code = 15 ∧ kind = .plain
  · obtain ⟨rfl, rfl⟩ := hplain
    decide
  · rw [if_neg hplain]
    by_cases h0 : 0 ≤ code
    · rw [if_pos h0, Option.isSome_map, isSome_ofCode?_iff, hcode h0]
      cases kind <;> simp only [PredicateKind.limit] <;> grind
    · rw [if_neg h0]
      simp [h0]

theorem isSome_ofRaw?_iff (raw : Int64) :
    (VectorPredicate.ofRaw? raw).isSome ↔ 0 ≤ raw ∧ raw ≤ 2 := by
  simp only [VectorPredicate.ofRaw?]
  grind

/-- The shift opcode of a packed shift is in its three low bits. -/
theorem packedCode_eq (raw : Int64) :
    (raw.toUInt64.toUInt32 &&& 7).toUInt8 = UInt8.ofNat (lowBits 3 raw) := by
  rw [← UInt8.toNat_inj]
  calc
    (raw.toUInt64.toUInt32 &&& 7).toUInt8.toNat =
        (raw.toUInt64.toNat % 4294967296 &&& 7) % 256 := by
      simp only [UInt32.toNat_toUInt8, UInt32.toNat_and, UInt64.toNat_toUInt32,
        UInt32.reduceToNat, Nat.reducePow]
    _ = raw.toUInt64.toNat % 4294967296 % 8 % 256 := by
      rw [Nat.and_two_pow_sub_one_eq_mod _ 3]
    _ = lowBits 3 raw % 256 := by
      simp only [lowBits, Nat.reduceShiftLeft]
      omega
    _ = (UInt8.ofNat (lowBits 3 raw)).toNat := UInt8.toNat_ofNat'.symm

theorem isSome_ofOpcode?_iff (raw : Int64) :
    (ShiftKind.ofOpcode? (UInt8.ofNat (lowBits 3 raw))).isSome ↔ lowBits 3 raw ≤ 5 := by
  have hlt : lowBits 3 raw < 8 := lowBits_lt 3 raw
  generalize lowBits 3 raw = code at hlt ⊢
  decide +revert

/-- The field bits of a status mask are its four low bits. -/
theorem fieldBits_toNat (mask : UInt32) :
    (mask &&& 0xf).toUInt16.toNat = mask.toNat % 16 := by
  calc
    (mask &&& 0xf).toUInt16.toNat = (mask.toNat &&& 15) % 65536 := by
      simp only [UInt32.toNat_toUInt16, UInt32.toNat_and, UInt32.reduceToNat, Nat.reducePow]
    _ = mask.toNat % 16 % 65536 := by
      rw [Nat.and_two_pow_sub_one_eq_mod _ 4]
    _ = mask.toNat % 16 := by
      omega

theorem fieldBits_eq_zero_iff (raw : Int64) :
    (raw.toUInt64.toUInt32 &&& 0xf).toUInt16 = 0 ↔ lowBits 4 raw = 0 := by
  rw [← UInt16.toNat_inj, fieldBits_toNat, UInt64.toNat_toUInt32]
  simp only [lowBits, Nat.reduceShiftLeft, UInt16.reduceToNat]
  omega

/-- A mask without a field bit stands for nothing. -/
theorem maskValue?_eq_none_iff (mask : UInt32) :
    maskValue? mask = none ↔ (mask &&& 0xf).toUInt16 = 0 := by
  simp only [maskValue?]
  grind

/-- A mask stands for nothing only outside of a microcontroller core. -/
theorem statusValue?_eq_none_iff (inst : RawInst) (features : Features) (raw : Int64) :
    statusValue? inst features raw.toUInt64.toUInt32 = none ↔
      inst.isMClass = false ∧ lowBits 4 raw = 0 := by
  rw [← fieldBits_eq_zero_iff, ← maskValue?_eq_none_iff, statusValue?]
  cases inst.isMClass with
  | true => simp
  | false => simp

end Codes

section Readings
variable {o : Opcode} {inst : RawInst} {features : Features} {p : Opening} {n : Nat}
  {s : Step} {slot : Nat}

theorem readReg_ends (hread : (slot, .register) ∈ s.reads o inst.operands.length) :
    Ends (fun id => inst.operand slot = .reg id) (Fails o inst p n [s])
      (readReg inst slot) := by
  have hfails (h : ¬ RawKind.register.Holds (inst.operand slot)) :
      Fails o inst p n [s] (.contract inst.opcode (.notRegister slot)) :=
    .rejected List.mem_cons_self (.kind hread h)
  simp only [readReg]
  cases hraw : inst.operand slot with
  | reg id => exact .ok rfl
  | invalid | imm value =>
      rw [hraw] at hfails
      apply Ends.error
      apply hfails
      rintro ⟨id, hid⟩
      cases hid

theorem readImm_ends (hread : (slot, .immediate) ∈ s.reads o inst.operands.length) :
    Ends (fun value => inst.operand slot = .imm value) (Fails o inst p n [s])
      (readImm inst slot) := by
  have hfails (h : ¬ RawKind.immediate.Holds (inst.operand slot)) :
      Fails o inst p n [s] (.contract inst.opcode (.notImmediate slot)) :=
    .rejected List.mem_cons_self (.kind hread h)
  simp only [readImm]
  cases hraw : inst.operand slot with
  | imm value => exact .ok rfl
  | invalid | reg id =>
      rw [hraw] at hfails
      apply Ends.error
      apply hfails
      rintro ⟨value, hvalue⟩
      cases hvalue

theorem listOperand_ends (hread : (slot, .register) ∈ s.reads o inst.operands.length)
    (access : Access) :
    Ends (fun _ => RawKind.register.Holds (inst.operand slot)) (Fails o inst p n [s])
      (listOperand inst access slot) := by
  apply (readReg_ends hread).bind
  intro id hid
  exact .ok ⟨id, hid⟩

theorem readCondition_ends (kind : PredicateKind) (slot : Nat) :
    Ends (fun _ => (Step.classify (.predicate kind) slot).Accepts o inst)
      (Fails o inst p n [.classify (.predicate kind) slot])
      (readCondition inst kind slot) := by
  apply (readImm_ends List.mem_cons_self).bind
  intro code hcode
  have hrange := isSome_decode?_iff kind code
  cases hdecode : kind.decode? code with
  | some cc =>
      rw [hdecode] at hrange
      apply Ends.ok
      exact .of_reads_one rfl ⟨code, hcode⟩ (RawOperand.forall_imm hcode (hrange.mp rfl))
  | none =>
      rw [hdecode] at hrange
      apply Ends.error
      apply Fails.rejected List.mem_cons_self (.condition hcode _)
      intro h
      cases hrange.mpr h

theorem readVectorPredicate_ends (slot : Nat) :
    Ends (fun _ => (Step.classify .vectorPredicate slot).Accepts o inst)
      (Fails o inst p n [.classify .vectorPredicate slot])
      (readVectorPredicate inst slot) := by
  apply (readImm_ends List.mem_cons_self).bind
  intro raw hraw
  have hrange := isSome_ofRaw?_iff raw
  cases hdecode : VectorPredicate.ofRaw? raw with
  | some vcc =>
      rw [hdecode] at hrange
      apply Ends.ok
      exact .of_reads_one rfl ⟨raw, hraw⟩ (RawOperand.forall_imm hraw (hrange.mp rfl))
  | none =>
      rw [hdecode] at hrange
      apply Ends.error
      apply Fails.rejected List.mem_cons_self (.vectorPredicate hraw _)
      intro h
      cases hrange.mpr h

theorem readItLayout_ends (hslot : slot ≠ 0) :
    Ends (fun _ => (Step.classify .itMask slot).Accepts o inst)
      (Fails o inst p n [.classify .itMask slot]) (readItLayout inst slot) := by
  rw [readItLayout, if_neg hslot]
  apply (readImm_ends List.mem_cons_self).bind
  intro mask hmask
  by_cases hzero : mask.toUInt64.toNat % 16 = 0
  · rw [if_pos hzero]
    exact .error (.rejected List.mem_cons_self (.itMask hmask hzero))
  · rw [if_neg hzero]
    apply (readImm_ends (List.mem_cons_of_mem _ List.mem_cons_self)).bind
    intro cond hcond
    apply Ends.ok
    exact .of_reads_two rfl ⟨mask, hmask⟩ ⟨cond, hcond⟩ (RawOperand.forall_imm hmask hzero)

variable (ho : Opcode.ofWord? inst.opcode = some o)
include ho

theorem regOperand_ends (hdeclares : o.Declares slot (·.isRegister))
    (hread : (slot, .register) ∈ s.reads o inst.operands.length)
    (resolve : UInt64 → UInt64) :
    Ends (fun _ => RawKind.register.Holds (inst.operand slot)) (Fails o inst p n [s])
      (regOperand inst slot resolve) := by
  obtain ⟨hslot, htype, -⟩ := hdeclares
  simp only [regOperand, descriptor_eq ho hslot, ok_bind, if_pos htype]
  apply (readReg_ends hread).bind
  intro id hid
  exact .ok ⟨id, hid⟩

theorem immOperand_ends (hslot : slot < Descriptor.maxSlots)
    (hread : (slot, .immediate) ∈ s.reads o inst.operands.length)
    (kind : Int64 → OperandValue) (resolve : UInt64 → UInt64) :
    Ends (fun _ => RawKind.immediate.Holds (inst.operand slot)) (Fails o inst p n [s])
      (immOperand inst slot kind resolve) := by
  apply (readImm_ends hread).bind
  intro value hvalue
  simp only [descriptor_eq ho hslot, ok_bind]
  exact .ok ⟨value, hvalue⟩

omit ho in
theorem isPlain_of_isRegister {t : OperandType} (h : t.isRegister = true) :
    t.isPlain = true := by
  rw [OperandType.isPlain, h, Bool.true_or]

omit ho in
theorem isPlain_of_isImmediate {t : OperandType} (h : t.isImmediate = true) :
    t.isPlain = true := by
  rw [OperandType.isPlain, h, Bool.or_true]

omit ho in
theorem isRegister_of_isImmediate {t : OperandType} (h : t.isImmediate = true) :
    t.isRegister = false := by
  cases t <;> first | rfl | cases h

theorem memoryPart_ends (hdeclares : o.Declares slot (·.isPlain)) {kind : RawKind}
    (hkind : kind = if (o.declared slot).type.isRegister then .register else .immediate)
    (hread : (slot, kind) ∈ s.reads o inst.operands.length)
    (isBase : Bool) (resolve : UInt64 → UInt64) (op : Operand) :
    Ends (fun _ => kind.Holds (inst.operand slot)) (Fails o inst p n [s])
      (memoryPart inst slot isBase resolve op) := by
  obtain ⟨hslot, htype, -⟩ := hdeclares
  simp only [memoryPart, descriptor_eq ho hslot, ok_bind]
  by_cases hreg : (o.declared slot).type.isRegister = true
  · rw [if_pos hreg] at hkind ⊢
    subst hkind
    apply (readReg_ends hread).bind
    intro id hid
    exact .ok ⟨id, hid⟩
  · have himm : (o.declared slot).type.isImmediate = true := by
      simpa [OperandType.isPlain, hreg] using htype
    rw [if_neg hreg] at hkind ⊢
    subst hkind
    rw [if_pos himm]
    apply (readImm_ends hread).bind
    intro value hvalue
    exact .ok ⟨value, hvalue⟩

end Readings

end Disassembly.Arm
