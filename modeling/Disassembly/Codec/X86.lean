import Disassembly.X86.Record
import Disassembly.Codec.Arm

/-!
# x86 records as data
-/

namespace Disassembly.X86

namespace Register

def codec : Codec Register := Codec.u16.imap Register.mk Register.id

end Register

namespace EFlags

def codec : Codec EFlags :=
  .flags flagNames (·.bits.toNat) fun n => ⟨UInt64.ofNat n⟩

end EFlags

namespace FpuFlags

def codec : Codec FpuFlags :=
  .flags flagNames (·.bits.toNat) fun n => ⟨UInt64.ofNat n⟩

end FpuFlags

namespace Memory

def codec : Codec Memory :=
  .record ["segment", "base", "index", "scale", "disp"]
    (fun a => [Register.codec.write a.segment, Register.codec.write a.base,
      Register.codec.write a.index, Codec.i32.write a.scale, Codec.i64.write a.disp])
    (fun m => Memory.mk <$> m.field "segment" Register.codec
      <*> m.field "base" Register.codec <*> m.field "index" Register.codec
      <*> m.field "scale" Codec.i32 <*> m.field "disp" Codec.i64)

end Memory

namespace OperandValue

def codec : Codec OperandValue where
  write
    | .invalid => .str "Invalid"
    | .reg r => Codec.variant "Reg" (Register.codec.write r)
    | .imm v => Codec.variant "Imm" (Codec.i64.write v)
    | .mem m => Codec.variant "Mem" (Memory.codec.write m)
  read := Codec.readVariant fun name data =>
    match name with
    | "Invalid" => Codec.unitData .invalid data
    | "Reg" => (Codec.someData Register.codec.read data).map .reg
    | "Imm" => (Codec.someData Codec.i64.read data).map .imm
    | "Mem" => (Codec.someData Memory.codec.read data).map .mem
    | _ => .error .malformed

end OperandValue

namespace Operand

def codec : Codec Operand :=
  .record ["value", "size", "access", "avx_bcast", "avx_zero_opmask"]
    (fun op => [OperandValue.codec.write op.value, Codec.u8.write op.size,
      Access.codec.write op.access, Codec.u8.write op.avxBroadcast,
      Codec.bool.write op.avxZeroMask])
    (fun m => Operand.mk <$> m.field "value" OperandValue.codec
      <*> m.field "size" Codec.u8 <*> m.field "access" Access.codec
      <*> m.field "avx_bcast" Codec.u8 <*> m.field "avx_zero_opmask" Codec.bool)

end Operand

namespace Record

/-- Four bytes as data. -/
def bytesCodec : Codec (Vector UInt8 4) := .vector Codec.u8 4

/-- The operands as data. -/
def operandsCodec : Codec (BoundedList Operand maxOperands) := .list Operand.codec _

def codec : Codec Record :=
  .record ["prefix", "opcode", "rex", "addr_size", "modrm", "sib", "disp", "sib_index",
      "sib_scale", "sib_base", "xop_cc", "sse_cc", "avx_cc", "avx_sae", "avx_rm", "eflags",
      "fpu_flags", "operands"]
    (fun r => [bytesCodec.write r.legacyPrefix, bytesCodec.write r.opcode,
      Codec.u8.write r.rex, Codec.u8.write r.addressSize, Codec.u8.write r.modrm,
      Codec.u8.write r.sib, Codec.i64.write r.disp, Register.codec.write r.sibIndex,
      Codec.i8.write r.sibScale, Register.codec.write r.sibBase,
      Codec.u8.write r.xopCondition, Codec.u8.write r.sseCondition,
      Codec.u8.write r.avxCondition, Codec.bool.write r.avxSuppress,
      Codec.u8.write r.avxRounding, EFlags.codec.write r.eflags,
      FpuFlags.codec.write r.fpuFlags, operandsCodec.write r.operands])
    (fun m => Record.mk <$> m.field "prefix" bytesCodec <*> m.field "opcode" bytesCodec
      <*> m.field "rex" Codec.u8 <*> m.field "addr_size" Codec.u8
      <*> m.field "modrm" Codec.u8 <*> m.field "sib" Codec.u8
      <*> m.field "disp" Codec.i64 <*> m.field "sib_index" Register.codec
      <*> m.field "sib_scale" Codec.i8 <*> m.field "sib_base" Register.codec
      <*> m.field "xop_cc" Codec.u8 <*> m.field "sse_cc" Codec.u8
      <*> m.field "avx_cc" Codec.u8 <*> m.field "avx_sae" Codec.bool
      <*> m.field "avx_rm" Codec.u8 <*> m.field "eflags" EFlags.codec
      <*> m.field "fpu_flags" FpuFlags.codec <*> m.field "operands" operandsCodec)

end Record

end Disassembly.X86
