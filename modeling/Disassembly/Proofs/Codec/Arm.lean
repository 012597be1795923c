import Disassembly.Codec.Arm
import Disassembly.Proofs.Codec.Record

/-!
# ARM records are read back

Everything up to an operand is read back as it was, and a record up to the unused slots of
its list of operands.
-/

namespace Disassembly

namespace Access

theorem flagNames_wellFormed : flagNames.WellFormed := by decide +kernel

/-- Accesses keep the bits that mean nothing. -/
theorem codec_exact : codec.Exact := by
  apply Codec.flags_exact flagNames_wellFormed
  case hfits =>
    intro access
    exact access.bits.toNat_lt
  case hback =>
    intro access
    rw [UInt8.ofNat_toNat]

end Access

namespace Arm

open Members (field_gives)

theorem Register.codec_exact : Register.codec.Exact :=
  Codec.imap_exact Codec.u16_exact fun _ => rfl

theorem SystemRegister.codec_exact : SystemRegister.codec.Exact :=
  Codec.imap_exact Codec.u16_exact fun _ => rfl

theorem Condition.codec_exact : Condition.codec.Exact := by
  apply Codec.names_exact
  intro cc
  cases cc with
  | none => decide +kernel
  | some cc => cases cc <;> decide +kernel

theorem VectorPredicate.codec_exact : VectorPredicate.codec.Exact := by
  apply Codec.names_exact
  intro vcc
  cases vcc with
  | none => decide +kernel
  | some vcc => cases vcc <;> decide +kernel

theorem ShiftKind.codec_exact : ShiftKind.codec.Exact := by
  apply Codec.names_exact
  intro kind
  cases kind with
  | none => decide +kernel
  | some kind => cases kind <;> decide +kernel

theorem Shift.codec_exact : Shift.codec.Exact := by
  rintro ⟨kind, amount⟩
  have hkind := ShiftKind.codec_exact kind
  have hamount := Codec.u32_exact amount
  have hnames : ["kind", "value"].Nodup := by decide
  apply Codec.record_restores hnames
  case hsettled =>
    simp only [List.forall_mem_cons]
    exact ⟨hkind.settled, hamount.settled, nofun⟩
  case hread =>
    exact .seq (.map _ (field_gives hnames 0 rfl hkind)) (field_gives hnames 1 rfl hamount)

theorem Memory.codec_exact : Memory.codec.Exact := by
  rintro ⟨base, index, scale, disp, lshift⟩
  have hbase := Register.codec_exact base
  have hindex := Register.codec_exact index
  have hscale := Codec.i32_exact scale
  have hdisp := Codec.i32_exact disp
  have hlshift := Codec.i32_exact lshift
  have hnames : ["base", "index", "scale", "disp", "lshift"].Nodup := by decide
  apply Codec.record_restores hnames
  case hsettled =>
    simp only [List.forall_mem_cons]
    exact ⟨hbase.settled, hindex.settled, hscale.settled, hdisp.settled, hlshift.settled, nofun⟩
  case hread =>
    refine .seq (.seq (.seq (.seq (.map _ ?_) ?_) ?_) ?_) ?_
    · exact field_gives hnames 0 rfl hbase
    · exact field_gives hnames 1 rfl hindex
    · exact field_gives hnames 2 rfl hscale
    · exact field_gives hnames 3 rfl hdisp
    · exact field_gives hnames 4 rfl hlshift

theorem OperandValue.codec_exact : OperandValue.codec.Exact := by
  intro value
  cases value with
  | invalid => exact ⟨.str _, rfl⟩
  | reg r => exact Codec.variant_restores rfl rfl (Register.codec_exact r)
  | imm v => exact Codec.variant_restores rfl rfl (Codec.i64_exact v)
  | pimm v => exact Codec.variant_restores rfl rfl (Codec.i64_exact v)
  | cimm v => exact Codec.variant_restores rfl rfl (Codec.i64_exact v)
  | pred v => exact Codec.variant_restores rfl rfl (Codec.i64_exact v)
  | mem m => exact Codec.variant_restores rfl rfl (Memory.codec_exact m)
  | sysreg r => exact Codec.variant_restores rfl rfl (SystemRegister.codec_exact r)

theorem Operand.codec_exact : Operand.codec.Exact := by
  rintro ⟨value, access, shift, vectorIndex, neonLane, subtracted⟩
  have hvalue := OperandValue.codec_exact value
  have haccess := Access.codec_exact access
  have hshift := Shift.codec_exact shift
  have hindex := Codec.i32_exact vectorIndex
  have hlane := Codec.i8_exact neonLane
  have hsubtracted := Codec.bool_exact subtracted
  have hnames :
      ["value", "access", "shift", "vector_index", "neon_lane", "subtracted"].Nodup := by
    decide
  apply Codec.record_restores hnames
  case hsettled =>
    simp only [List.forall_mem_cons]
    exact ⟨hvalue.settled, haccess.settled, hshift.settled, hindex.settled, hlane.settled,
      hsubtracted.settled, nofun⟩
  case hread =>
    refine .seq (.seq (.seq (.seq (.seq (.map _ ?_) ?_) ?_) ?_) ?_) ?_
    · exact field_gives hnames 0 rfl hvalue
    · exact field_gives hnames 1 rfl haccess
    · exact field_gives hnames 2 rfl hshift
    · exact field_gives hnames 3 rfl hindex
    · exact field_gives hnames 4 rfl hlane
    · exact field_gives hnames 5 rfl hsubtracted

/-- Records with equal lists of operands that do not differ otherwise are equal. -/
theorem Record.beq_of_operands {r : Record} {operands : BoundedList Operand maxOperands}
    (h : (operands == r.operands) = true) :
    ({ r with operands := operands } == r) = true := by
  change (r.cc == r.cc && (r.vcc == r.vcc && (r.updateFlags == r.updateFlags &&
    (r.writeback == r.writeback && (r.itLayout == r.itLayout && operands == r.operands))))) = true
  simp only [beq_self_eq_true, Bool.true_and, h]

theorem Record.codec_recovers : Record.codec.Recovers := by
  intro r
  obtain ⟨operands, hoperands, heq⟩ :=
    Codec.list_recovers Operand.codec_exact maxOperands r.operands
  refine ⟨{ r with operands := operands }, ?_, beq_of_operands heq⟩
  have hcc := Condition.codec_exact r.cc
  have hvcc := VectorPredicate.codec_exact r.vcc
  have hflags := Codec.bool_exact r.updateFlags
  have hwriteback := Codec.bool_exact r.writeback
  have hlayout := Codec.u8_exact r.itLayout
  have hnames :
      ["cc", "vcc", "update_flags", "writeback", "pred_mask", "operands"].Nodup := by
    decide
  apply Codec.record_restores hnames
  case hsettled =>
    simp only [List.forall_mem_cons]
    exact ⟨hcc.settled, hvcc.settled, hflags.settled, hwriteback.settled, hlayout.settled,
      hoperands.settled, nofun⟩
  case hread =>
    refine .seq (.seq (.seq (.seq (.seq (.map _ ?_) ?_) ?_) ?_) ?_) ?_
    · exact field_gives hnames 0 rfl hcc
    · exact field_gives hnames 1 rfl hvcc
    · exact field_gives hnames 2 rfl hflags
    · exact field_gives hnames 3 rfl hwriteback
    · exact field_gives hnames 4 rfl hlayout
    · exact field_gives hnames 5 rfl hoperands

end Arm

end Disassembly
