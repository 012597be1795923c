import Disassembly.Handle
import Disassembly.Proofs.Arm.BuildFacts

/-!
# Options and decoding

Options decide what is known beyond the bytes of an instruction, and nothing else. The
number, the address, the length and the bytes come from what the decoder says, by one
rule for each architecture, whether a record is built on the way or not.
-/

namespace Disassembly

/-- The public number that an opcode word has, 0 if the word is not known. -/
def Arch.number : Arch → UInt32 → UInt16
  | .arm, opcode => ((Arm.mnemonic? opcode).map (·.id)).getD 0
  | .x86, opcode => opcode.toUInt16

/-- An instruction without what only detail knows. -/
def Insn.bare (insn : Insn) : Insn := { insn with detail := none }

namespace Decoded

/-- The instruction without detail that a decoder has seen at the start of bytes. -/
def bareInsn (decoded : Decoded) (arch : Arch) (code : List UInt8) (address : UInt64) :
    Except Error Insn :=
  match decoded.size with
  | none => .error (.invalidInstruction address)
  | some size => .ok
      { id := arch.number decoded.inst.opcode, address, size,
        bytes := Insn.leadingBytes code size }

/-- A decoder has seen the same twice: it failed twice or succeeded twice, with one
length, one opcode and the same operands. -/
structure SameInsn (x y : Decoded) : Prop where
  size_eq : x.size = y.size
  opcode_eq : x.inst.opcode = y.inst.opcode
  operands_eq : x.inst.operands = y.inst.operands

variable {x y : Decoded}

theorem SameInsn.of_eq (h : x = y) : SameInsn x y := by
  subst h
  exact ⟨rfl, rfl, rfl⟩

theorem SameInsn.symm (h : SameInsn x y) : SameInsn y x :=
  ⟨h.size_eq.symm, h.opcode_eq.symm, h.operands_eq.symm⟩

theorem SameInsn.bareInsn_eq (h : SameInsn x y) (arch : Arch) (code : List UInt8)
    (address : UInt64) : x.bareInsn arch code address = y.bareInsn arch code address := by
  rw [bareInsn, bareInsn, h.size_eq, h.opcode_eq]

end Decoded

/-- What a decoder sees does not depend on whether it is handed a record. -/
def Decoder.IgnoresRecord (decoder : Decoder) : Prop :=
  ∀ code inst d x y, decoder code inst none = .ok x →
    decoder code inst (some d) = .ok y → x.SameInsn y

/-- Such a decoder sees the same whenever two calls hand it the same record, if any. -/
theorem Decoder.IgnoresRecord.sameInsn {decoder : Decoder} (h : decoder.IgnoresRecord)
    {code : List UInt8} {inst : RawInst} {r : Detail} {d e : Option Detail} {x y : Decoded}
    (hd : ∀ s ∈ d, s = r) (he : ∀ s ∈ e, s = r) (hx : decoder code inst d = .ok x)
    (hy : decoder code inst e = .ok y) : x.SameInsn y := by
  cases d with
  | none =>
      cases e with
      | none => exact .of_eq (Except.ok.inj (hx.symm.trans hy))
      | some e => exact h _ _ _ _ _ hx hy
  | some d =>
      cases e with
      | none => exact (h _ _ _ _ _ hy hx).symm
      | some e =>
          rw [hd d rfl] at hx
          rw [he e rfl] at hy
          exact .of_eq (Except.ok.inj (hx.symm.trans hy))

namespace Handle

variable {h : Handle} {code : List UInt8} {address : UInt64}

/-- The record that the decoder of a handle is given. -/
def handedRecord (h : Handle) : Option Detail :=
  match h.arch with
  | .arm => none
  | .x86 => (h.startingDetail {}).map fun _ => .x86

theorem handedRecord_eq (h : Handle) : ∀ d ∈ h.handedRecord, d = Detail.x86 := by
  intro d hd
  rw [handedRecord] at hd
  split at hd
  · cases hd
  · obtain ⟨_, -, rfl⟩ := Option.map_eq_some_iff.mp hd
    rfl

/-- A record adds nothing to the number of an ARM instruction. -/
theorem armResult_number {inst : RawInst} {d : Option Detail} {r : UInt16 × Option Detail}
    (hr : h.armResult inst d = .ok r) : r.1 = Arch.arm.number inst.opcode := by
  cases d with
  | none =>
      cases hr
      rfl
  | some d =>
      obtain ⟨⟨m, built⟩, hbuild, hresult⟩ := bind_eq_ok_iff.mp hr
      cases hresult
      rw [Arch.number, Arm.build_mnemonic hbuild]

/-- The number and the length are those of what the decoder has seen. -/
theorem decode_found {r : Option (UInt16 × UInt16) × Option Detail}
    (hr : h.decode code address (h.startingDetail {}) = .ok r) :
    ∃ decoded, h.decoder code (RawInst.new 0 address h.mode) h.handedRecord = .ok decoded ∧
      r.1 = decoded.size.map (h.arch.number decoded.inst.opcode, ·) := by
  rw [handedRecord]
  rw [decode] at hr
  cases harch : h.arch with
  | arm =>
      rw [harch] at hr
      obtain ⟨decoded, hdecoded, hr⟩ := bind_eq_ok_iff.mp hr
      refine ⟨decoded, hdecoded, ?_⟩
      cases hsize : decoded.size with
      | none =>
          rw [hsize] at hr
          cases hr
          rfl
      | some size =>
          rw [hsize] at hr
          obtain ⟨result, hresult, hr⟩ := bind_eq_ok_iff.mp hr
          cases hr
          rw [armResult_number hresult]
          rfl
  | x86 =>
      rw [harch] at hr
      obtain ⟨decoded, hdecoded, hr⟩ := bind_eq_ok_iff.mp hr
      cases hr
      exact ⟨decoded, hdecoded, rfl⟩

/-- What a decode gives but for the detail is what the decoder has seen. -/
theorem decodeOne_bare {result : Except Error Insn}
    (hresult : h.decodeOne code address = .ok result) :
    ∃ decoded, h.decoder code (RawInst.new 0 address h.mode) h.handedRecord = .ok decoded ∧
      result.map Insn.bare = decoded.bareInsn h.arch code address := by
  obtain ⟨stored, hinto, hresult⟩ := bind_eq_ok_iff.mp hresult
  obtain ⟨⟨found, detail⟩, hdecode, hinto⟩ := bind_eq_ok_iff.mp hinto
  obtain ⟨decoded, hdecoded, hfound⟩ := decode_found hdecode
  refine ⟨decoded, hdecoded, ?_⟩
  rw [Decoded.bareInsn]
  cases hsize : decoded.size with
  | none =>
      rw [hsize] at hfound
      cases hfound
      cases hinto
      cases hresult
      rfl
  | some size =>
      rw [hsize] at hfound
      cases hfound
      cases hinto
      cases hresult
      rfl

/-- Without detail, an ARM decode fails only where the decoder does. -/
theorem decodeOne_error_iff_of_plain (harch : h.arch = .arm) (hplain : h.options.detail = false)
    {fault : Fault} :
    h.decodeOne code address = .error fault ↔
      h.decoder code (RawInst.new 0 address h.mode) none = .error fault := by
  simp only [decodeOne, decodeInto, decode, startingDetail, harch, hplain, armResult]
  cases h.decoder code (RawInst.new 0 address h.mode) none with
  | error cause => simp only [error_bind, Except.error.injEq]
  | ok decoded =>
      rcases decoded with ⟨_ | size, inst, detail⟩
      · exact ⟨nofun, nofun⟩
      · exact ⟨nofun, nofun⟩

/-- Options never change what is decoded. Two handles that differ in their options
alone, and whose decoder does not look at whether it gets a record, both fail with the
same error or give instructions that differ in the detail alone, if neither decode
faults. How registers are spelled has no part in a decode at all. An ARM handle without
detail faults only where its decoder does. -/
theorem options_keep_decoding (h : Handle) (hdecoder : h.decoder.IgnoresRecord)
    (a b : Options) (code : List UInt8) (address : UInt64) :
    (∀ x y, (h.setOptions a).decodeOne code address = .ok x →
      (h.setOptions b).decodeOne code address = .ok y → x.map Insn.bare = y.map Insn.bare) ∧
    (a.detail = b.detail → a.features = b.features →
      (h.setOptions a).decodeOne code address = (h.setOptions b).decodeOne code address) ∧
    (h.arch = .arm → a.detail = false → ∀ fault,
      (h.setOptions a).decodeOne code address = .error fault ↔
        h.decoder code (RawInst.new 0 address h.mode) none = .error fault) := by
  refine ⟨?_, ?_, ?_⟩
  · intro x y hx hy
    obtain ⟨decoded, hdecoded, hx⟩ := decodeOne_bare hx
    obtain ⟨decoded', hdecoded', hy⟩ := decodeOne_bare hy
    have hsame := hdecoder.sameInsn (handedRecord_eq _) (handedRecord_eq _) hdecoded hdecoded'
    rw [hx, hy]
    exact hsame.bareInsn_eq h.arch code address
  · intro hdetail hfeatures
    obtain ⟨detail, spelling, features⟩ := a
    obtain ⟨detail', spelling', features'⟩ := b
    cases hdetail
    cases hfeatures
    rfl
  · intro harch hplain fault
    exact decodeOne_error_iff_of_plain (h := h.setOptions a) harch hplain

/-- An ARM handle whose decoder sees a bit field insert in one zero byte, and else a
branch. -/
def insertOrBranch : Handle where
  arch := .arm
  mode := .arm
  options := {}
  decoder := fun code inst _ => .ok
    ⟨some 4, { inst with
      opcode := if code = [0] then Arm.Opcode.t2bfi.word else Arm.Opcode.bl.word
      operands := ⟨[.imm 8], List.replicate 47 .invalid, rfl, by decide⟩ }, none⟩

/-- A branch is the same with and without detail. A bit field insert is decoded without
detail alone. -/
theorem insertOrBranch_keep_decoding :
    insertOrBranch.decoder.IgnoresRecord ∧
    (∃ x y, (insertOrBranch.setOptions { detail := true }).decodeOne [1] 0 = .ok x ∧
      (insertOrBranch.setOptions {}).decodeOne [1] 0 = .ok y ∧ x ≠ y ∧
      x.map Insn.bare = y.map Insn.bare) ∧
    (∃ fault, (insertOrBranch.setOptions { detail := true }).decodeOne [0] 0 = .error fault) ∧
    ∀ fault, (insertOrBranch.setOptions {}).decodeOne [0] 0 ≠ .error fault := by
  have hdecoder : insertOrBranch.decoder.IgnoresRecord := by
    intro code inst d x y hx hy
    cases hx
    cases hy
    exact .of_eq rfl
  obtain ⟨x, hx⟩ : ∃ x,
      (insertOrBranch.setOptions { detail := true }).decodeOne [1] 0 = .ok x := ⟨_, rfl⟩
  obtain ⟨y, hy⟩ : ∃ y, (insertOrBranch.setOptions {}).decodeOne [1] 0 = .ok y := ⟨_, rfl⟩
  have hsame := (options_keep_decoding insertOrBranch hdecoder { detail := true } {} [1] 0).1
    x y hx hy
  have hfree := (options_keep_decoding insertOrBranch hdecoder {} {} [0] 0).2.2 rfl rfl
  refine ⟨hdecoder, ⟨x, y, hx, hy, ?_, hsame⟩, ⟨_, rfl⟩, ?_⟩
  · cases hx
    cases hy
    exact nofun
  · intro fault hfault
    cases (hfree fault).mp hfault

end Handle

end Disassembly
