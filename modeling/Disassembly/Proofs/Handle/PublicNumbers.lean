import Disassembly.Proofs.Handle.Options

/-!
# Numbers of decoded instructions

The number of an ARM instruction comes from a table, in which a word that is not known has
none. The number of an x86 instruction is what the low half of the word says, whether there is
an instruction with that number or not. An x86 number is therefore public exactly where the low
half is one, and words of one low half have the same number.
-/

namespace Disassembly

/-- The numbers of x86 instructions are those from 1 to 13. -/
theorem X86.Mnemonic.isSome_ofId?_iff (id : UInt16) :
    (X86.Mnemonic.ofId? id).isSome ↔ id ≠ 0 ∧ id.toNat ≤ 13 := by
  rw [X86.Mnemonic.ofId?]
  by_cases hzero : id = 0
  · simp [hzero]
  · have hpos : id.toNat ≠ 0 := fun h => hzero (UInt16.toNat_inj.mp h)
    have hlength : all.length = 13 := rfl
    rw [if_neg hzero, Option.isSome_iff_ne_none, ne_eq, List.getElem?_eq_none_iff, hlength]
    simp only [ne_eq, hzero, not_false_eq_true, true_and]
    omega

namespace Handle

/-- A number that stands for no known instruction, or for one with a name. -/
def IsPublic (h : Handle) (id : UInt16) : Prop := id = 0 ∨ (h.insnName? id).isSome

/-- A handle decodes an instruction, for which its decoder has seen an opcode word. -/
structure Decodes (h : Handle) (code : List UInt8) (address : UInt64) (word : UInt32)
    (insn : Insn) : Prop where
  decoded : h.decodeOne code address = .ok (.ok insn)
  seen : ∃ decoded, h.decoder code (RawInst.new 0 address h.mode) h.handedRecord = .ok decoded ∧
    decoded.inst.opcode = word

variable {h : Handle} {code : List UInt8} {address : UInt64} {word : UInt32} {insn : Insn}

/-- The word alone decides on the number. -/
theorem Decodes.id_eq (hd : h.Decodes code address word insn) :
    insn.id = h.arch.number word := by
  obtain ⟨decoded, hdecoded, hbare⟩ := decodeOne_bare hd.decoded
  obtain ⟨seen, hseen, rfl⟩ := hd.seen
  obtain rfl := Except.ok.inj (hdecoded.symm.trans hseen)
  rw [Decoded.bareInsn] at hbare
  cases hsize : decoded.size with
  | none =>
      rw [hsize] at hbare
      cases hbare
  | some size =>
      rw [hsize] at hbare
      exact congrArg Insn.id (Except.ok.inj hbare)

/-- Numbers from the table of ARM instructions are public. -/
theorem isPublic_arm (harch : h.arch = .arm) (word : UInt32) :
    h.IsPublic (Arch.arm.number word) := by
  simp only [IsPublic, Arch.number, insnName?, harch]
  cases Arm.mnemonic? word with
  | none => exact .inl rfl
  | some m =>
      refine .inr ?_
      simp

/-- The low half of a word is a public number of x86 up to 13. -/
theorem isPublic_x86_iff (harch : h.arch = .x86) (word : UInt32) :
    h.IsPublic (Arch.x86.number word) ↔ word.toNat % 65536 ≤ 13 := by
  simp only [IsPublic, Arch.number, insnName?, harch, Option.isSome_map,
    X86.Mnemonic.isSome_ofId?_iff]
  rw [← UInt32.toNat_toUInt16]
  by_cases hzero : word.toUInt16 = 0
  · rw [hzero]
    exact iff_of_true (.inl rfl) (by decide)
  · constructor
    · rintro (h | ⟨-, hlow⟩)
      · exact absurd h hzero
      · exact hlow
    · intro hlow
      exact .inr ⟨hzero, hlow⟩

/-- The number of a decoded instruction is public exactly unless it is an x86 one and the low
half of its word is no number of an instruction. Two x86 instructions have the same number
exactly when the low halves of their words are the same. -/
theorem decoded_id_public_iff (hd : h.Decodes code address word insn) :
    (h.IsPublic insn.id ↔ (h.arch = .x86 → word.toNat % 65536 ≤ 13)) ∧
    ∀ (k : Handle) (code' : List UInt8) (address' : UInt64) (word' : UInt32) (insn' : Insn),
      h.arch = .x86 → k.arch = .x86 → k.Decodes code' address' word' insn' →
      (insn.id = insn'.id ↔ word.toNat % 65536 = word'.toNat % 65536) := by
  constructor
  · rw [hd.id_eq]
    cases harch : h.arch with
    | arm => exact iff_of_true (isPublic_arm harch word) nofun
    | x86 =>
        rw [isPublic_x86_iff harch]
        exact ⟨fun hlow _ => hlow, fun hlow => hlow rfl⟩
  · intro k code' address' word' insn' harch harch' hd'
    rw [hd.id_eq, hd'.id_eq, harch, harch', Arch.number, Arch.number, ← UInt16.toNat_inj,
      UInt32.toNat_toUInt16, UInt32.toNat_toUInt16]

/-- An x86 handle whose decoder sees the word that the bytes spell, the lowest one first. -/
def spelling : Handle where
  arch := .x86
  mode := .bits64
  options := {}
  decoder := fun code inst _ => .ok
    ⟨some 1, { inst with
      opcode := code.foldr (fun byte word => byte.toUInt32 + 256 * word) 0 }, none⟩

/-- A jump, with a word of more than 16 bits in the place of its number, and the same jump
with the word cut to 16 bits. -/
theorem decoded_id_public_iff_jump :
    ∃ insn insn', spelling.Decodes [5, 0, 1] 0x1000 0x10005 insn ∧
      spelling.Decodes [5] 0x2000 5 insn' ∧ spelling.IsPublic insn.id ∧
      insn.id = insn'.id ∧ spelling.insnName? insn.id = some "jmp" := by
  obtain ⟨insn, hinsn⟩ : ∃ insn, spelling.decodeOne [5, 0, 1] 0x1000 = .ok (.ok insn) :=
    ⟨_, rfl⟩
  obtain ⟨insn', hinsn'⟩ : ∃ insn', spelling.decodeOne [5] 0x2000 = .ok (.ok insn') := ⟨_, rfl⟩
  have hd : spelling.Decodes [5, 0, 1] 0x1000 0x10005 insn := ⟨hinsn, _, rfl, rfl⟩
  have hd' : spelling.Decodes [5] 0x2000 5 insn' := ⟨hinsn', _, rfl, rfl⟩
  obtain ⟨hpublic, hsame⟩ := decoded_id_public_iff hd
  refine ⟨insn, insn', hd, hd', hpublic.mpr fun _ => by decide,
    (hsame _ _ _ _ _ rfl rfl hd').mpr rfl, ?_⟩
  cases hinsn
  rfl

/-- A number without a name, and one number for two words. -/
theorem spelling_ids_not_public :
    (∃ insn, spelling.Decodes [0xE7, 3] 0x1000 999 insn ∧ insn.id ≠ 0 ∧
      spelling.insnName? insn.id = none) ∧
    ∃ insn insn', spelling.Decodes [1] 0x1000 1 insn ∧
      spelling.Decodes [1, 0, 1] 0x1000 0x10001 insn' ∧ insn.id = insn'.id ∧ insn.id ≠ 0 :=
  ⟨⟨_, ⟨rfl, _, rfl, rfl⟩, by decide, rfl⟩,
    _, _, ⟨rfl, _, rfl, rfl⟩, ⟨rfl, _, rfl, rfl⟩, rfl, by decide⟩

end Handle

end Disassembly
