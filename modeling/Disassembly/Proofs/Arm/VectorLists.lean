import Disassembly.Proofs.Arm.AddedOperands
import Disassembly.Proofs.Arm.Marks

/-!
# Vector lists

A vector list that names a double word is that double word again for each place. One that
names a quad word goes on from the lower half of the quad word through the numbers of the
registers. It stays among the double words unless it starts at the last quad word and has more
than the two places that are left there: the numbers after those of the double words belong to
other registers.
-/

namespace Disassembly.Arm

/-- A register of a bank. -/
def Bank.Holds (bank : Bank) (r : Register) : Prop := ∃ n, bank.register? n = some r

section Banks
variable {r : Register} {n : UInt16}

/-- The registers of a bank that is numbered without a gap. -/
theorem numbered_eq_some_iff {first count : UInt16} (hfit : first.toNat + count.toNat ≤ 65536) :
    (if n < count then some ⟨first + n⟩ else none) = some r ↔
      n.toNat < count.toNat ∧ r.id.toNat = first.toNat + n.toNat := by
  rcases r with ⟨id⟩
  simp only [Option.ite_none_right_eq_some, Option.some.injEq, Register.mk.injEq,
    ← UInt16.toNat_inj, UInt16.lt_iff_toNat_lt, UInt16.toNat_add]
  omega

theorem register?_double :
    Bank.double.register? n = some r ↔ n.toNat < 32 ∧ r.id.toNat = 14 + n.toNat :=
  numbered_eq_some_iff (by decide)

theorem register?_quad :
    Bank.quad.register? n = some r ↔ n.toNat < 16 ∧ r.id.toNat = 50 + n.toNat :=
  numbered_eq_some_iff (by decide)

theorem holds_double_iff : Bank.double.Holds r ↔ 14 ≤ r.id.toNat ∧ r.id.toNat < 46 := by
  constructor
  · rintro ⟨n, hn⟩
    have hn := register?_double.mp hn
    omega
  · intro hr
    refine ⟨UInt16.ofNat (r.id.toNat - 14), register?_double.mpr ?_⟩
    rw [UInt16.toNat_ofNat']
    omega

end Banks

theorem isQuad_iff {r : Register} : r.isQuad = true ↔ 50 ≤ r.id.toNat ∧ r.id.toNat < 66 := by
  simp only [Register.isQuad, Register.q0, Register.q15, Bool.and_eq_true, decide_eq_true_eq,
    UInt16.le_iff_toNat_le, UInt16.reduceToNat]
  omega

section Places
variable {r : Register} {place : Nat}

/-- A raw register fits the check for its width. -/
theorem doubleWord_register (r : Register) (offset : UInt16) :
    (doubleWord offset r.id.toUInt64).toUInt16 =
      if r.isQuad then Register.d0.id + offset + 2 * (r.id - Register.q0.id) else r.id := by
  have hwidth : r.id.toUInt64 ≤ 0xFFFF := by
    have hlt := r.id.toNat_lt
    simp only [UInt64.le_iff_toNat_le, UInt16.toNat_toUInt64, UInt64.reduceToNat]
    omega
  simp only [doubleWord, UInt16.toUInt16_toUInt64, hwidth, decide_true, Bool.true_and]
  split <;> exact UInt16.toUInt16_toUInt64 _

/-- A double word is the register of every place. -/
theorem doubleWord_of_double (hr : Bank.double.Holds r) (offset : UInt16) :
    (doubleWord offset r.id.toUInt64).toUInt16 = r.id := by
  have hquad : ¬ r.isQuad = true := by
    rw [isQuad_iff]
    have hr := holds_double_iff.mp hr
    omega
  rw [doubleWord_register, if_neg hquad]

/-- A quad word is the double word of its lower half, and then goes on from there. -/
theorem doubleWord_of_quad {k : UInt16} (hk : Bank.quad.register? k = some r)
    (hplace : place < 4) :
    (doubleWord (UInt16.ofNat place) r.id.toUInt64).toUInt16.toNat =
      14 + (2 * k.toNat + place) := by
  obtain ⟨hlt, hid⟩ := register?_quad.mp hk
  have hquad : r.isQuad = true := isQuad_iff.mpr (by omega)
  rw [doubleWord_register, if_pos hquad]
  simp only [Register.d0, Register.q0, UInt16.toNat_add, UInt16.toNat_mul, UInt16.toNat_sub,
    UInt16.toNat_ofNat', UInt16.reduceToNat]
  omega

end Places

/-- The registers of a list that names `r`, one for each place. -/
def listedRegisters (r : Register) (size : ListSize) : List Register :=
  (List.range size.toNat).map fun place =>
    ⟨(doubleWord (UInt16.ofNat place) r.id.toUInt64).toUInt16⟩

section Lists
variable {r : Register} {size : ListSize}

theorem length_listedRegisters (r : Register) (size : ListSize) :
    (listedRegisters r size).length = size.toNat := by
  rw [listedRegisters, List.length_map, List.length_range]

theorem listedRegisters_of_double (hr : Bank.double.Holds r) :
    listedRegisters r size = List.replicate size.toNat r := by
  simp only [listedRegisters, doubleWord_of_double hr]
  rw [List.map_const', List.length_range]

theorem ListSize.toNat_le_four (size : ListSize) : size.toNat ≤ 4 := by
  cases size <;> decide

/-- The numbers of the registers at the places of a list that names a quad word. -/
theorem listedRegisters_of_quad {k : UInt16} (hk : Bank.quad.register? k = some r) {place : Nat}
    (hplace : place < size.toNat) :
    ∃ s, (listedRegisters r size)[place]? = some s ∧
      s.id.toNat = 14 + (2 * k.toNat + place) := by
  have hsize := size.toNat_le_four
  refine ⟨⟨(doubleWord (UInt16.ofNat place) r.id.toUInt64).toUInt16⟩, ?_,
    doubleWord_of_quad hk (by omega)⟩
  rw [listedRegisters, List.getElem?_map, List.getElem?_range hplace, Option.map_some]

/-- Up to the last double word the registers are those of the bank. -/
theorem listedRegisters_eq_register? {k : UInt16} (hk : Bank.quad.register? k = some r)
    {place : Nat} (hplace : place < size.toNat) (hbank : 2 * k.toNat + place < 32) :
    (listedRegisters r size)[place]? = Bank.double.register? (2 * k + UInt16.ofNat place) := by
  obtain ⟨s, hs, hid⟩ := listedRegisters_of_quad hk hplace
  have hnumber : (2 * k + UInt16.ofNat place).toNat = 2 * k.toNat + place := by
    simp only [UInt16.toNat_add, UInt16.toNat_mul, UInt16.toNat_ofNat', UInt16.reduceToNat]
    omega
  rw [hs]
  exact (register?_double.mpr ⟨by omega, by omega⟩).symm

/-- Only a list from the last quad word on with more than two places leaves the bank. -/
theorem listedRegisters_double_iff (hbank : Bank.double.Holds r ∨ Bank.quad.Holds r) :
    (∀ s ∈ listedRegisters r size, Bank.double.Holds s) ↔
      ¬ (r = Register.q15 ∧ 2 < size.toNat) := by
  have hlast : r = Register.q15 ↔ r.id.toNat = 65 := by
    cases r
    simp only [Register.q15, Register.mk.injEq, ← UInt16.toNat_inj, UInt16.reduceToNat]
  rw [hlast]
  rcases hbank with hdouble | ⟨k, hk⟩
  · have hr := holds_double_iff.mp hdouble
    rw [listedRegisters_of_double hdouble]
    constructor
    · omega
    · intro _ s hs
      rwa [List.eq_of_mem_replicate hs]
  · obtain ⟨hk16, hid⟩ := register?_quad.mp hk
    constructor
    · -- The third place of the last quad word has the number behind the double words.
      rintro hall ⟨hq15, hsize⟩
      obtain ⟨s, hs, hsid⟩ := listedRegisters_of_quad hk hsize
      have hs := holds_double_iff.mp (hall s (List.mem_of_getElem? hs))
      omega
    · intro hfits s hs
      obtain ⟨place, hplace⟩ := List.mem_iff_getElem?.mp hs
      have hlt := (List.getElem?_eq_some_iff.mp hplace).1
      rw [length_listedRegisters] at hlt
      obtain ⟨s', hs', hsid⟩ := listedRegisters_of_quad hk hlt
      obtain rfl : s = s' := Option.some.inj (hplace.symm.trans hs')
      have hfour := size.toNat_le_four
      rw [holds_double_iff]
      omega

end Lists

section Builders
variable {b : Builder} {slot : Nat} {declared : Descriptor} {r : Register}

theorem groupOperands_vectorList (hdeclared : b.describe slot = .ok declared)
    (htype : declared.type.isRegister = true) (hraw : b.inst.operand slot = .reg r.id)
    (size : ListSize) :
    groupOperands b.inst b.features (.vectorList size) slot =
      .ok (((listedRegisters r size).map fun s =>
        ({ value := .reg s, access := declared.access } : Operand)).map .ok) := by
  have hread (resolve : UInt64 → UInt64) : regOperand b.inst slot resolve =
      .ok { value := .reg ⟨(resolve r.id.toUInt64).toUInt16⟩, access := declared.access } := by
    have hdeclared : descriptor b.inst.opcode slot = .ok declared := hdeclared
    rw [regOperand, hdeclared, ok_bind, if_pos htype, readReg_eq_ok_iff.mpr hraw]
    rfl
  simp only [groupOperands, hread, listedRegisters, List.map_map]
  rfl

/-- A vector list of double words or quad words adds a register for each of its places: the
same double word for all, or the double words from the lower half of the quad word on. All
of them are double words unless the list starts at the last quad word and has more than two
places. -/
theorem vectorList_double_iff (size : ListSize) (hdeclared : b.describe slot = .ok declared)
    (htype : declared.type.isRegister = true) (hraw : b.inst.operand slot = .reg r.id)
    (hbank : Bank.double.Holds r ∨ Bank.quad.Holds r)
    (hroom : b.count + size.toNat ≤ maxOperands) :
    ∃ b' regs, b.classifyGroup (.vectorList size) slot = .ok b' ∧
      b.Adds (regs.map fun s => { value := .reg s, access := declared.access }) b' ∧
      regs.length = size.toNat ∧
      (Bank.double.Holds r → regs = List.replicate size.toNat r) ∧
      (∀ k, Bank.quad.register? k = some r → ∀ place < size.toNat,
        2 * k.toNat + place < 32 →
          regs[place]? = Bank.double.register? (2 * k + UInt16.ofNat place)) ∧
      ((∀ s ∈ regs, Bank.double.Holds s) ↔ ¬ (r = Register.q15 ∧ 2 < size.toNat)) := by
  have hread := groupOperands_vectorList hdeclared htype hraw size
  obtain ⟨b', hclassify, hadds⟩ := classifyGroup_adds rfl hread (by
    rw [List.length_map, length_listedRegisters]
    exact hroom)
  exact ⟨b', listedRegisters r size, hclassify, hadds, length_listedRegisters r size,
    listedRegisters_of_double, fun k hk place => listedRegisters_eq_register? hk,
    listedRegisters_double_iff hbank⟩

end Builders

/-- A load of two vectors from the last quad word on. -/
def lastQuadLoad : RawInst where
  opcode := Opcode.vld2d16.word
  operands :=
    ⟨[.reg Register.q15.id, .reg 66, .imm 0, .imm 14, .reg 0], List.replicate 43 .invalid, rfl, by decide⟩
  address := 0x1000
  mode := .arm

/-- A builder at work on the load, with no operand added yet. -/
def lastQuadBuilder : Builder := .new lastQuadLoad {} .all

theorem lastQuadBuilder_pair :
    lastQuadBuilder.describe 0 = .ok ⟨.reg, .write, Descriptor.doubleWord⟩ ∧
    ∃ b', ∃ regs : List Register,
      lastQuadBuilder.classifyGroup (.vectorList .two) 0 = .ok b' ∧
      lastQuadBuilder.Adds (regs.map fun s => { value := .reg s, access := .write }) b' ∧
      ∀ s ∈ regs, Bank.double.Holds s := by
  have hdeclared : lastQuadBuilder.describe 0 = .ok ⟨.reg, .write, Descriptor.doubleWord⟩ := rfl
  have hraw : lastQuadBuilder.inst.operand 0 = .reg Register.q15.id := rfl
  obtain ⟨b', regs, hclassify, hadds, -, -, -, hdouble⟩ :=
    vectorList_double_iff .two hdeclared rfl hraw (.inr ⟨15, rfl⟩) (by decide)
  exact ⟨hdeclared, b', regs, hclassify, hadds, hdouble.mpr (by decide)⟩

/-- With three places the third register is none of the double words. -/
theorem lastQuadBuilder_leaves_bank :
    Bank.quad.Holds Register.q15 ∧
    lastQuadBuilder.inst.operand 0 = .reg Register.q15.id ∧
    lastQuadBuilder.describe 0 = .ok ⟨.reg, .write, Descriptor.doubleWord⟩ ∧
    lastQuadBuilder.count + ListSize.three.toNat ≤ maxOperands ∧
    ∃ b', lastQuadBuilder.classifyGroup (.vectorList .three) 0 = .ok b' ∧
      b'.record.operands.toList.map (·.value) = [.reg ⟨44⟩, .reg ⟨45⟩, .reg ⟨46⟩] ∧
      ¬ Bank.double.Holds ⟨46⟩ := by
  refine ⟨⟨15, rfl⟩, rfl, rfl, by decide, _, rfl, rfl, ?_⟩
  rw [holds_double_iff]
  decide

end Disassembly.Arm
