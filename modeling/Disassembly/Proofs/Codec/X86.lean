import Disassembly.Codec.X86
import Disassembly.Proofs.Codec.Arm

/-!
# x86 records are read back

Everything up to an operand is read back as it was, and a record up to the unused slots of
its list of operands.
-/

namespace Disassembly.X86

open Members (field_gives)

theorem Register.codec_exact : Register.codec.Exact :=
  Codec.imap_exact Codec.u16_exact fun _ => rfl

theorem EFlags.flagNames_wellFormed : EFlags.flagNames.WellFormed := by decide +kernel

theorem EFlags.codec_exact : EFlags.codec.Exact := by
  apply Codec.flags_exact flagNames_wellFormed
  case hfits =>
    intro flags
    exact flags.bits.toNat_lt
  case hback =>
    intro flags
    rw [UInt64.ofNat_toNat]

theorem FpuFlags.flagNames_wellFormed : FpuFlags.flagNames.WellFormed := by decide +kernel

theorem FpuFlags.codec_exact : FpuFlags.codec.Exact := by
  apply Codec.flags_exact flagNames_wellFormed
  case hfits =>
    intro flags
    exact flags.bits.toNat_lt
  case hback =>
    intro flags
    rw [UInt64.ofNat_toNat]

theorem Memory.codec_exact : Memory.codec.Exact := by
  rintro ⟨segment, base, index, scale, disp⟩
  have hsegment := Register.codec_exact segment
  have hbase := Register.codec_exact base
  have hindex := Register.codec_exact index
  have hscale := Codec.i32_exact scale
  have hdisp := Codec.i64_exact disp
  have hnames : ["segment", "base", "index", "scale", "disp"].Nodup := by decide
  apply Codec.record_restores hnames
  case hsettled =>
    simp only [List.forall_mem_cons]
    exact ⟨hsegment.settled, hbase.settled, hindex.settled, hscale.settled, hdisp.settled, nofun⟩
  case hread =>
    refine .seq (.seq (.seq (.seq (.map _ ?_) ?_) ?_) ?_) ?_
    · exact field_gives hnames 0 rfl hsegment
    · exact field_gives hnames 1 rfl hbase
    · exact field_gives hnames 2 rfl hindex
    · exact field_gives hnames 3 rfl hscale
    · exact field_gives hnames 4 rfl hdisp

theorem OperandValue.codec_exact : OperandValue.codec.Exact := by
  intro value
  cases value with
  | invalid => exact ⟨.str _, rfl⟩
  | reg r => exact Codec.variant_restores rfl rfl (Register.codec_exact r)
  | imm v => exact Codec.variant_restores rfl rfl (Codec.i64_exact v)
  | mem m => exact Codec.variant_restores rfl rfl (Memory.codec_exact m)

theorem Operand.codec_exact : Operand.codec.Exact := by
  rintro ⟨value, size, access, broadcast, zeroMask⟩
  have hvalue := OperandValue.codec_exact value
  have hsize := Codec.u8_exact size
  have haccess := Access.codec_exact access
  have hbroadcast := Codec.u8_exact broadcast
  have hmask := Codec.bool_exact zeroMask
  have hnames : ["value", "size", "access", "avx_bcast", "avx_zero_opmask"].Nodup := by decide
  apply Codec.record_restores hnames
  case hsettled =>
    simp only [List.forall_mem_cons]
    exact ⟨hvalue.settled, hsize.settled, haccess.settled, hbroadcast.settled, hmask.settled,
      nofun⟩
  case hread =>
    refine .seq (.seq (.seq (.seq (.map _ ?_) ?_) ?_) ?_) ?_
    · exact field_gives hnames 0 rfl hvalue
    · exact field_gives hnames 1 rfl hsize
    · exact field_gives hnames 2 rfl haccess
    · exact field_gives hnames 3 rfl hbroadcast
    · exact field_gives hnames 4 rfl hmask

namespace Record

/-- Records with equal lists of operands that do not differ otherwise are equal. -/
theorem beq_of_operands {r : Record} {operands : BoundedList Operand maxOperands}
    (h : (operands == r.operands) = true) : ({ r with operands := operands } == r) = true := by
  change instBEqRecord.beq _ _ = true
  simp only [instBEqRecord.beq, beq_self_eq_true, Bool.true_and, h]

theorem bytesCodec_exact : bytesCodec.Exact := Codec.vector_exact Codec.u8_exact 4

theorem codec_recovers : codec.Recovers := by
  intro r
  obtain ⟨operands, hoperands, heq⟩ :=
    Codec.list_recovers Operand.codec_exact maxOperands r.operands
  refine ⟨{ r with operands := operands }, ?_, beq_of_operands heq⟩
  have hnames : ["prefix", "opcode", "rex", "addr_size", "modrm", "sib", "disp", "sib_index",
      "sib_scale", "sib_base", "xop_cc", "sse_cc", "avx_cc", "avx_sae", "avx_rm", "eflags",
      "fpu_flags", "operands"].Nodup := by
    decide +kernel
  apply Codec.record_restores hnames
  case hsettled =>
    simp only [List.forall_mem_cons]
    exact ⟨(bytesCodec_exact _).settled, (bytesCodec_exact _).settled,
      (Codec.u8_exact _).settled, (Codec.u8_exact _).settled, (Codec.u8_exact _).settled,
      (Codec.u8_exact _).settled, (Codec.i64_exact _).settled, (Register.codec_exact _).settled,
      (Codec.i8_exact _).settled, (Register.codec_exact _).settled, (Codec.u8_exact _).settled,
      (Codec.u8_exact _).settled, (Codec.u8_exact _).settled, (Codec.bool_exact _).settled,
      (Codec.u8_exact _).settled, (EFlags.codec_exact _).settled,
      (FpuFlags.codec_exact _).settled, hoperands.settled, nofun⟩
  case hread =>
    refine .seq (.seq (.seq (.seq (.seq (.seq (.seq (.seq (.seq (.seq (.seq (.seq (.seq (.seq
      (.seq (.seq (.seq (.map _ ?_) ?_) ?_) ?_) ?_) ?_) ?_) ?_) ?_) ?_) ?_) ?_) ?_) ?_) ?_) ?_)
      ?_) ?_
    · exact field_gives hnames 0 rfl (bytesCodec_exact r.legacyPrefix)
    · exact field_gives hnames 1 rfl (bytesCodec_exact r.opcode)
    · exact field_gives hnames 2 rfl (Codec.u8_exact r.rex)
    · exact field_gives hnames 3 rfl (Codec.u8_exact r.addressSize)
    · exact field_gives hnames 4 rfl (Codec.u8_exact r.modrm)
    · exact field_gives hnames 5 rfl (Codec.u8_exact r.sib)
    · exact field_gives hnames 6 rfl (Codec.i64_exact r.disp)
    · exact field_gives hnames 7 rfl (Register.codec_exact r.sibIndex)
    · exact field_gives hnames 8 rfl (Codec.i8_exact r.sibScale)
    · exact field_gives hnames 9 rfl (Register.codec_exact r.sibBase)
    · exact field_gives hnames 10 rfl (Codec.u8_exact r.xopCondition)
    · exact field_gives hnames 11 rfl (Codec.u8_exact r.sseCondition)
    · exact field_gives hnames 12 rfl (Codec.u8_exact r.avxCondition)
    · exact field_gives hnames 13 rfl (Codec.bool_exact r.avxSuppress)
    · exact field_gives hnames 14 rfl (Codec.u8_exact r.avxRounding)
    · exact field_gives hnames 15 rfl (EFlags.codec_exact r.eflags)
    · exact field_gives hnames 16 rfl (FpuFlags.codec_exact r.fpuFlags)
    · exact field_gives hnames 17 rfl hoperands

end Record

end Disassembly.X86
