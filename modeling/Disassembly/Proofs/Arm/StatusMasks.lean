import Disassembly.Proofs.Arm.AddedOperands
import Disassembly.Proofs.Arm.BranchTarget

/-!
# Status masks

What the mask of a status register move adds is a function of few of its bits. On a
microcontroller core these are the twelve bits of a register number, read with or without the
two extensions that give a number another register; neither makes the difference between a
register and an immediate. On other cores they are the five bits that select a status
register and its fields.
-/

namespace Disassembly.Arm

/-- The low bits of a raw mask as a word of their own. -/
theorem lowMask_eq {k : Nat} (hk : k ≤ 32) (raw : Int64) :
    raw.toUInt64.toUInt32 &&& UInt32.ofNat (2 ^ k - 1) = UInt32.ofNat (lowBits k raw) := by
  have hpow : 2 ^ k ≤ 2 ^ 32 := Nat.pow_le_pow_right (by decide) hk
  have hpos : 0 < 2 ^ k := Nat.two_pow_pos k
  rw [← UInt32.toNat_inj, UInt32.toNat_and, UInt32.toNat_ofNat', UInt32.toNat_ofNat',
    UInt64.toNat_toUInt32, lowBits, Nat.one_shiftLeft,
    Nat.mod_eq_of_lt (show 2 ^ k - 1 < 2 ^ 32 by omega), Nat.and_two_pow_sub_one_eq_mod,
    Nat.mod_mod_of_dvd _ (Nat.pow_dvd_pow 2 hk)]
  have hlt := Nat.mod_lt raw.toUInt64.toNat hpos
  exact (Nat.mod_eq_of_lt (by omega)).symm

section Numbers
variable {own : Bool} {features : Features} {mask : UInt32}

/-- The numbers in the table of the registers with an eight-bit number. -/
def MClass.byteNumbers : List Nat := MClass.basicNumbers.map (·.1.toNat)

theorem MClass.isSome_basic?_iff (number : UInt16) :
    (MClass.basic? number).isSome ↔ number.toNat ∈ MClass.byteNumbers := by
  rw [MClass.basic?, List.lookup_isSome_iff]
  simp [MClass.byteNumbers, UInt16.toNat_inj]

/-- Each number of the twelve-bit table has a register in its low byte as well. -/
theorem MClass.isSome_basic?_of_extended? {number : UInt16} {e : ExtendedNumber}
    (h : MClass.extended? number = some e) : (MClass.basic? (number &&& 0xff)).isSome := by
  have htable : ∀ e ∈ MClass.extendedNumbers, (MClass.basic? (e.number &&& 0xff)).isSome := by
    decide
  rw [MClass.extended?] at h
  have hnumber := List.find?_some h
  rw [← eq_of_beq hnumber]
  exact htable e (List.mem_of_find?_eq_some h)

/-- The newer names belong to numbers that have a register anyway. -/
theorem MClass.isSome_basic?_of_flags? {number : UInt16} {r : SystemRegister}
    (h : MClass.flags? number = some r) : (MClass.basic? number).isSome := by
  have htable : ∀ e ∈ MClass.flagNumbers, (MClass.basic? e.1).isSome := by decide
  obtain ⟨before, after, hsplit, -⟩ := List.lookup_eq_some_iff.mp h
  exact htable (number, r) (by simp [hsplit])

/-- What stands for a register number: a register if the table of the eight-bit numbers has
one for its low byte, and its low byte otherwise. -/
structure MClass.StandsFor (number : Nat) (value : OperandValue) : Prop where
  register : number % 2 ^ 8 ∈ MClass.byteNumbers → ∃ r, value = .sysreg r
  immediate : number % 2 ^ 8 ∉ MClass.byteNumbers → value = .imm (Int64.ofNat (number % 2 ^ 8))

/-- The preferences of an instruction change the register, never the kind of the value. -/
theorem MClass.maskValue_standsFor (own : Bool) (features : Features) (mask : UInt32) :
    MClass.StandsFor mask.toNat (MClass.maskValue own features mask) := by
  have hbyte := MClass.isSome_basic?_iff ((mask &&& 0xfff).toUInt16 &&& 0xff)
  rw [MClass.number8_toNat] at hbyte
  simp only [MClass.maskValue]
  split
  next r hfound =>
    have hbasic : (MClass.basic? ((mask &&& 0xfff).toUInt16 &&& 0xff)).isSome := by
      -- In whichever table the register was found, the basic one has its low byte.
      simp only [Option.or_eq_some_iff] at hfound
      rcases hfound with (hdsp | ⟨-, hnewer⟩) | ⟨-, hfound⟩
      · split at hdsp
        · obtain ⟨e, he, -⟩ := Option.map_eq_some_iff.mp hdsp
          exact MClass.isSome_basic?_of_extended? (Option.filter_eq_some_iff.mp he).1
        · cases hdsp
      · split at hnewer
        · exact MClass.isSome_basic?_of_flags? hnewer
        · cases hnewer
      · exact Option.isSome_of_eq_some hfound
    exact ⟨fun _ => ⟨r, rfl⟩, fun hnot => absurd (hbyte.mp hbasic) hnot⟩
  next hnone =>
    obtain ⟨-, hnone⟩ := Option.or_eq_none_iff.mp hnone
    refine ⟨fun hmem => ?_, fun _ => by rw [MClass.number8_toNat]⟩
    rw [hnone] at hbyte
    cases hbyte.mpr hmem

/-- The features that a register number is read with. -/
def MClass.preferences (dsp newer : Bool) : Features :=
  ⟨(if dsp then 1 else 0) ||| (if newer then 2 else 0)⟩

theorem MClass.preferences_contains : ∀ dsp newer : Bool,
    (MClass.preferences dsp newer).contains .dsp = dsp ∧
      (MClass.preferences dsp newer).contains .v7 = newer := by
  decide

/-- The value of a register number, with or without the two extensions. -/
def MClass.numberValue (dsp newer : Bool) (number : Nat) : OperandValue :=
  MClass.maskValue true (MClass.preferences dsp newer) (.ofNat number)

theorem MClass.maskValue_eq_numberValue (own : Bool) (features : Features) (raw : Int64) :
    MClass.maskValue own features raw.toUInt64.toUInt32 =
      MClass.numberValue (own && features.contains .dsp) (own && features.contains .v7)
        (lowBits 12 raw) := by
  have hmask : raw.toUInt64.toUInt32 &&& 0xfff = UInt32.ofNat (lowBits 12 raw) &&& 0xfff := by
    rw [← lowMask_eq (by decide) raw, UInt32.and_assoc]
    rfl
  simp only [MClass.numberValue, MClass.maskValue, hmask, MClass.preferences_contains,
    Bool.true_and]

end Numbers

section Fields

/-- The letters of the fields of a status register, from the highest mask bit to the
lowest. -/
def letterTable : List (Nat × Char) := [(3, 'f'), (2, 's'), (1, 'x'), (0, 'c')]

/-- The letters of the fields in a mask. -/
def lettersOf (mask : Nat) : String :=
  .ofList ((letterTable.filter fun field => mask.testBit field.1).map (·.2))

/-- The register that five mask bits select, if they have a field. -/
def fieldRegister (bits : Nat) : SystemRegister :=
  match maskValue? (.ofNat bits) with
  | some (.sysreg r) => r
  | _ => default

theorem maskValue?_of_bits :
    ∀ bits : Fin 32, bits.val % 16 ≠ 0 →
      maskValue? (.ofNat bits) = some (.sysreg (fieldRegister bits)) := by
  decide

theorem maskValue?_eq_fieldRegister {raw : Int64} (hfields : lowBits 4 raw ≠ 0) :
    maskValue? raw.toUInt64.toUInt32 = some (.sysreg (fieldRegister (lowBits 5 raw))) := by
  -- A part of the five bits is a part of the mask.
  have hpart (part : UInt32) (hpart : 0x1f &&& part = part) :
      raw.toUInt64.toUInt32 &&& part = UInt32.ofNat (lowBits 5 raw) &&& part := by
    rw [← lowMask_eq (by decide) raw, UInt32.and_assoc]
    exact congrArg _ hpart.symm
  have hlow : maskValue? raw.toUInt64.toUInt32 = maskValue? (.ofNat (lowBits 5 raw)) := by
    simp only [maskValue?, hpart 0xf rfl, hpart 0x10 rfl]
  have hlt : lowBits 5 raw < 32 := lowBits_lt 5 raw
  have hmod : lowBits 5 raw % 16 = lowBits 4 raw :=
    Nat.mod_mod_of_dvd _ (by decide)
  rw [hlow]
  exact maskValue?_of_bits ⟨_, hlt⟩ (by rwa [hmod])

/-- Different bits select different registers. -/
theorem fieldRegister_injective :
    ∀ bits other : Fin 32, bits.val % 16 ≠ 0 → other.val % 16 ≠ 0 →
      fieldRegister bits = fieldRegister other → bits = other := by
  decide

/-- A register is named for its fields, unless the current one has a name of its own. -/
theorem name?_fieldRegister :
    ∀ bits : Fin 32, bits.val % 16 ≠ 0 → 16 ≤ bits.val ∨ bits.val ∉ [4, 8, 12] →
      (fieldRegister bits).name? =
        some ((if 16 ≤ bits.val then "spsr_" else "cpsr_") ++ lettersOf bits) := by
  decide

end Fields

/-- A builder with room for an operand, at work on a status register move with a mask in a
slot. -/
structure Builder.AtStatusMask (b : Builder) (o : Opcode) (slot : Nat) (mask : Int64) :
    Prop where
  opcode : Opcode.ofWord? b.inst.opcode = some o
  move : o = .msr ∨ o = .t2msrM
  slot_lt : slot < Descriptor.maxSlots
  operand : b.inst.operand slot = .imm mask
  room : b.count < maxOperands

/-- The values that a mask stands for: on a microcontroller core that of its number, and
otherwise the register of its bits if it has a field. -/
def Builder.maskValues (b : Builder) (o : Opcode) (mask : Int64)
    (number : Bool → Bool → Nat → OperandValue) (register : Nat → SystemRegister) :
    List OperandValue :=
  if b.inst.isMClass then
    [number (o = .t2msrM && b.features.contains .dsp) (o = .t2msrM && b.features.contains .v7)
      (lowBits 12 mask)]
  else if lowBits 4 mask = 0 then []
  else [.sysreg (register (lowBits 5 mask))]

section Builders
variable {b : Builder} {o : Opcode} {slot : Nat} {mask : Int64}

theorem statusValue?_eq_maskValues (ho : Opcode.ofWord? b.inst.opcode = some o) :
    (statusValue? b.inst b.features mask.toUInt64.toUInt32).toList =
      b.maskValues o mask MClass.numberValue fieldRegister := by
  simp only [statusValue?, Builder.maskValues, ho, Option.some.injEq]
  split_ifs with hclass hfields
  · rw [MClass.maskValue_eq_numberValue]
    rfl
  · rw [(maskValue?_eq_none_iff _).mpr ((fieldBits_eq_zero_iff mask).mpr hfields)]
    rfl
  · rw [maskValue?_eq_fieldRegister hfields]
    rfl

theorem groupOperands_statusMask (h : b.AtStatusMask o slot mask) :
    groupOperands b.inst b.features .statusMask slot =
      .ok (((b.maskValues o mask MClass.numberValue fieldRegister).map fun value =>
        ({ value, access := (o.declared slot).access } : Operand)).map .ok) := by
  simp only [groupOperands, readImm_eq_ok_iff.mpr h.operand, descriptor_eq h.opcode h.slot_lt,
    ok_bind, ← statusValue?_eq_maskValues h.opcode, ← Option.toList_map, Option.map_map]
  rfl

theorem length_maskValues_le (b : Builder) (o : Opcode) (mask : Int64)
    (number : Bool → Bool → Nat → OperandValue) (register : Nat → SystemRegister) :
    (b.maskValues o mask number register).length ≤ 1 := by
  simp only [Builder.maskValues]
  split_ifs <;> simp

/-- The mask of a status register move adds one operand, or none if it has no field outside of
a microcontroller core. On such a core the value is a function of twelve bits, and of two
preferences that its own move alone has and that do not decide between a register and an
immediate. Otherwise it is the register of five bits, another one for other bits, and named
for its fields unless the current register has a name of its own for them. -/
theorem statusMask_adds :
    ∃ number : Bool → Bool → Nat → OperandValue, ∃ register : Nat → SystemRegister,
      (∀ b o slot mask, Builder.AtStatusMask b o slot mask →
        ∃ b', b.classifyGroup .statusMask slot = .ok b' ∧
          b.Adds ((b.maskValues o mask number register).map fun value =>
            { value, access := (o.declared slot).access }) b') ∧
      (∀ dsp newer, ∀ n < 2 ^ 12, MClass.StandsFor n (number dsp newer n)) ∧
      (∀ m < 2 ^ 5, ∀ n < 2 ^ 5, m % 16 ≠ 0 → n % 16 ≠ 0 → register m = register n → m = n) ∧
      (∀ n < 2 ^ 5, n % 16 ≠ 0 → 16 ≤ n ∨ n ∉ [4, 8, 12] →
        (register n).name? = some ((if 16 ≤ n then "spsr_" else "cpsr_") ++ lettersOf n)) := by
  refine ⟨MClass.numberValue, fieldRegister, ?_, ?_, ?_, ?_⟩
  · intro b o slot mask h
    refine classifyGroup_adds rfl (groupOperands_statusMask h) ?_
    rw [List.length_map]
    have hroom := h.room
    have hone := length_maskValues_le b o mask MClass.numberValue fieldRegister
    omega
  · intro dsp newer n hn
    have hnumber : (UInt32.ofNat n).toNat = n := by
      rw [UInt32.toNat_ofNat', Nat.mod_eq_of_lt (by omega)]
    have hstands := MClass.maskValue_standsFor true (MClass.preferences dsp newer) (.ofNat n)
    rwa [hnumber] at hstands
  · intro m hm n hn hmfield hnfield heq
    exact Fin.val_eq_of_eq (fieldRegister_injective ⟨m, hm⟩ ⟨n, hn⟩ hmfield hnfield heq)
  · intro n hn hfield hown
    exact name?_fieldRegister ⟨n, hn⟩ hfield hown

end Builders

/-- A move of the whole saved status register. -/
def savedMove : RawInst where
  opcode := Opcode.msr.word
  operands := ⟨[.imm 0x1f, .reg 66, .imm 14, .reg 0], List.replicate 44 .invalid, rfl, by decide⟩
  address := 0x1000
  mode := .arm

theorem savedMove_adds :
    (Builder.new savedMove usedRecord .all).AtStatusMask .msr 0 0x1f ∧
    ∃ b' r, (Builder.new savedMove usedRecord .all).classifyGroup .statusMask 0 = .ok b' ∧
      (Builder.new savedMove usedRecord .all).Adds [{ value := .sysreg r, access := .write }] b' ∧
      r.name? = some "spsr_fsxc" := by
  have hat : (Builder.new savedMove usedRecord .all).AtStatusMask .msr 0 0x1f :=
    ⟨rfl, .inl rfl, by decide, rfl, by decide⟩
  obtain ⟨number, register, hadds, -, -, hname⟩ := statusMask_adds
  obtain ⟨b', hclassify, hadded⟩ := hadds _ _ _ _ hat
  exact ⟨hat, b', register 31, hclassify, hadded, hname 31 (by decide) (by decide) (by decide)⟩

end Disassembly.Arm
