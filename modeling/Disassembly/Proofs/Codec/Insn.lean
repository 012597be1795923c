import Disassembly.Codec.Insn
import Disassembly.Proofs.Codec.X86

/-!
# Instructions, details, options and errors are read back

Options and errors are read back as they were. Instructions, details and register summaries
are read back up to the unused slots of their lists.
-/

namespace Disassembly

open Members (field_gives fieldOrNone_gives)

theorem Arch.codec_exact : Arch.codec.Exact := by
  apply Codec.names_exact
  intro arch
  cases arch <;> decide +kernel

theorem RegSpelling.codec_exact : RegSpelling.codec.Exact := by
  apply Codec.names_exact
  intro spelling
  cases spelling <;> decide +kernel

theorem Mode.flagNames_wellFormed : Mode.flagNames.WellFormed := by decide +kernel

theorem Mode.codec_exact : Mode.codec.Exact := by
  apply Codec.flags_exact flagNames_wellFormed
  case hfits =>
    intro mode
    exact mode.bits.toNat_lt
  case hback =>
    intro mode
    rw [UInt32.ofNat_toNat]

theorem Features.flagNames_wellFormed : Features.flagNames.WellFormed := by decide +kernel

theorem Features.codec_exact : Features.codec.Exact := by
  apply Codec.flags_exact flagNames_wellFormed
  case hfits =>
    intro features
    exact features.bits.toNat_lt
  case hback =>
    intro features
    rw [UInt32.ofNat_toNat]

theorem RawOperand.codec_exact : RawOperand.codec.Exact := by
  intro operand
  cases operand with
  | invalid => exact ⟨.str _, rfl⟩
  | reg id => exact Codec.variant_restores rfl rfl (Codec.u16_exact id)
  | imm v => exact Codec.variant_restores rfl rfl (Codec.i64_exact v)

theorem RawInst.codec_recovers : RawInst.codec.Recovers := by
  intro inst
  obtain ⟨operands, hoperands, heq⟩ :=
    Codec.list_recovers RawOperand.codec_exact maxOperands inst.operands
  have hbeq : ({ inst with operands := operands } == inst) = true := by
    change instBEqRawInst.beq _ _ = true
    simp only [instBEqRawInst.beq, beq_self_eq_true, heq, Bool.and_self]
  refine ⟨{ inst with operands := operands }, ?_, hbeq⟩
  have hopcode := Codec.u32_exact inst.opcode
  have haddress := Codec.u64_exact inst.address
  have hmode := Mode.codec_exact inst.mode
  have hnames : ["opcode", "operands", "address", "mode"].Nodup := by decide
  apply Codec.record_restores hnames
  case hsettled =>
    simp only [List.forall_mem_cons]
    exact ⟨hopcode.settled, hoperands.settled, haddress.settled, hmode.settled, nofun⟩
  case hread =>
    refine .seq (.seq (.seq (.map _ ?_) ?_) ?_) ?_
    · exact field_gives hnames 0 rfl hopcode
    · exact field_gives hnames 1 rfl hoperands
    · exact field_gives hnames 2 rfl haddress
    · exact field_gives hnames 3 rfl hmode

theorem Payload.codec_recovers : Payload.codec.Recovers := by
  intro payload
  cases payload with
  | none => exact ⟨.none, ⟨.str _, rfl⟩, rfl⟩
  | arm record =>
      obtain ⟨record', hrecord, heq⟩ := Arm.Record.codec_recovers record
      exact ⟨.arm record', Codec.variant_restores rfl rfl hrecord, heq⟩
  | x86 record =>
      obtain ⟨record', hrecord, heq⟩ := X86.Record.codec_recovers record
      exact ⟨.x86 record', Codec.variant_restores rfl rfl hrecord, heq⟩

theorem Detail.codec_recovers : Detail.codec.Recovers := by
  intro d
  obtain ⟨regsRead, hregsRead, hread⟩ :=
    Codec.list_recovers Codec.u16_exact maxImplicit d.regsRead
  obtain ⟨regsWrite, hregsWrite, hwrite⟩ :=
    Codec.list_recovers Codec.u16_exact maxImplicit d.regsWrite
  obtain ⟨groups, hgroups, hgroup⟩ := Codec.list_recovers Codec.u8_exact maxGroups d.groups
  obtain ⟨payload, hpayload, hload⟩ := Payload.codec_recovers d.payload
  have hbeq : ((⟨regsRead, regsWrite, groups, payload⟩ : Detail) == d) = true := by
    change instBEqDetail.beq _ _ = true
    simp only [instBEqDetail.beq, hread, hwrite, hgroup, hload, Bool.and_self]
  refine ⟨⟨regsRead, regsWrite, groups, payload⟩, ?_, hbeq⟩
  have hnames : ["regs_read", "regs_write", "groups", "arch"].Nodup := by decide
  apply Codec.record_restores hnames
  case hsettled =>
    simp only [List.forall_mem_cons]
    exact ⟨hregsRead.settled, hregsWrite.settled, hgroups.settled, hpayload.settled, nofun⟩
  case hread =>
    refine .seq (.seq (.seq (.map _ ?_) ?_) ?_) ?_
    · exact field_gives hnames 0 rfl hregsRead
    · exact field_gives hnames 1 rfl hregsWrite
    · exact field_gives hnames 2 rfl hgroups
    · exact field_gives hnames 3 rfl hpayload

theorem RegAccess.codec_recovers : RegAccess.codec.Recovers := by
  intro access
  obtain ⟨regsRead, hregsRead, hread⟩ := Codec.list_recovers Codec.u16_exact maxRegs access.read
  obtain ⟨regsWrite, hregsWrite, hwrite⟩ :=
    Codec.list_recovers Codec.u16_exact maxRegs access.write
  have hbeq : ((⟨regsRead, regsWrite⟩ : RegAccess) == access) = true := by
    change instBEqRegAccess.beq _ _ = true
    simp only [instBEqRegAccess.beq, hread, hwrite, Bool.and_self]
  refine ⟨⟨regsRead, regsWrite⟩, ?_, hbeq⟩
  have hnames : ["read", "write"].Nodup := by decide
  apply Codec.record_restores hnames
  case hsettled =>
    simp only [List.forall_mem_cons]
    exact ⟨hregsRead.settled, hregsWrite.settled, nofun⟩
  case hread =>
    exact .seq (.map _ (field_gives hnames 0 rfl hregsRead))
      (field_gives hnames 1 rfl hregsWrite)

theorem Options.codec_exact : Options.codec.Exact := by
  rintro ⟨detail, spelling, features⟩
  have hdetail := Codec.bool_exact detail
  have hspelling := RegSpelling.codec_exact spelling
  have hfeatures := Features.codec_exact features
  have hnames : ["detail", "syntax", "features"].Nodup := by decide
  apply Codec.record_restores hnames
  case hsettled =>
    simp only [List.forall_mem_cons]
    exact ⟨hdetail.settled, hspelling.settled, hfeatures.settled, nofun⟩
  case hread =>
    refine .seq (.seq (.map _ ?_) ?_) ?_
    · exact field_gives hnames 0 rfl hdetail
    · exact field_gives hnames 1 rfl hspelling
    · exact field_gives hnames 2 rfl hfeatures

namespace Insn

/-- A detail is read back, and so is that there is none. -/
theorem detailCodec_recovers : Detail.codec.optional.Recovers := by
  intro detail
  cases detail with
  | none => exact ⟨none, Codec.optional_restores_none _, rfl⟩
  | some d =>
      obtain ⟨d', hd, heq⟩ := Detail.codec_recovers d
      exact ⟨some d', Codec.optional_restores_some hd nofun, heq⟩

theorem codec_recovers : codec.Recovers := by
  intro insn
  obtain ⟨bytes, hbytes, hbyte⟩ := Codec.list_recovers Codec.u8_exact maxBytes insn.bytes
  obtain ⟨detail, hdetail, heq⟩ := detailCodec_recovers insn.detail
  have hbeq : ({ insn with bytes := bytes, detail := detail } == insn) = true := by
    change instBEqInsn.beq _ _ = true
    simp only [instBEqInsn.beq, beq_self_eq_true, hbyte, heq, Bool.and_self]
  refine ⟨{ insn with bytes := bytes, detail := detail }, ?_, hbeq⟩
  have hid := Codec.u16_exact insn.id
  have haddress := Codec.u64_exact insn.address
  have hsize := Codec.u16_exact insn.size
  have hnames : ["id", "address", "size", "bytes", "detail"].Nodup := by decide
  apply Codec.record_restores hnames
  case hsettled =>
    simp only [List.forall_mem_cons]
    exact ⟨hid.settled, haddress.settled, hsize.settled, hbytes.settled, hdetail.settled, nofun⟩
  case hread =>
    refine .seq (.seq (.seq (.seq (.map _ ?_) ?_) ?_) ?_) ?_
    · exact field_gives hnames 0 rfl hid
    · exact field_gives hnames 1 rfl haddress
    · exact field_gives hnames 2 rfl hsize
    · exact field_gives hnames 3 rfl hbytes
    · exact fieldOrNone_gives hnames 4 rfl hdetail

end Insn

namespace Error

theorem archCodec_exact : archCodec.Exact := by
  intro arch
  have harch := Arch.codec_exact arch
  have hnames : ["arch"].Nodup := by decide
  apply Codec.record_restores hnames
  case hsettled =>
    simp only [List.forall_mem_cons]
    exact ⟨harch.settled, nofun⟩
  case hread => exact field_gives hnames 0 rfl harch

theorem modeCodec_exact : modeCodec.Exact := by
  rintro ⟨arch, mode⟩
  have harch := Arch.codec_exact arch
  have hmode := Mode.codec_exact mode
  have hnames : ["arch", "mode"].Nodup := by decide
  apply Codec.record_restores hnames
  case hsettled =>
    simp only [List.forall_mem_cons]
    exact ⟨harch.settled, hmode.settled, nofun⟩
  case hread =>
    exact .seq (.map _ (field_gives hnames 0 rfl harch)) (field_gives hnames 1 rfl hmode)

theorem addressCodec_exact : addressCodec.Exact := by
  intro address
  have haddress := Codec.u64_exact address
  have hnames : ["address"].Nodup := by decide
  apply Codec.record_restores hnames
  case hsettled =>
    simp only [List.forall_mem_cons]
    exact ⟨haddress.settled, nofun⟩
  case hread => exact field_gives hnames 0 rfl haddress

theorem codec_exact : codec.Exact := by
  intro e
  cases e with
  | unsupportedArch arch => exact Codec.variant_restores rfl rfl (archCodec_exact arch)
  | invalidMode arch mode =>
      apply Codec.variant_restores (f := fun p : Arch × Mode => invalidMode p.1 p.2)
        (y := (arch, mode))
      case h => exact modeCodec_exact (arch, mode)
      case hwrite => rfl
      case hread => rfl
  | invalidInstruction address =>
      exact Codec.variant_restores rfl rfl (addressCodec_exact address)
  | detailDisabled => exact ⟨.str _, rfl⟩

end Error

end Disassembly
