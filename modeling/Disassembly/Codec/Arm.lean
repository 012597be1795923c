import Disassembly.Arm.Record
import Disassembly.Codec.Record

/-!
# ARM records as data
-/

namespace Disassembly

namespace Access

def codec : Codec Access :=
  .flags flagNames (·.bits.toNat) fun n => ⟨UInt8.ofNat n⟩

end Access

namespace Arm

namespace Register

def codec : Codec Register := Codec.u16.imap Register.mk Register.id

end Register

namespace SystemRegister

def codec : Codec SystemRegister := Codec.u16.imap SystemRegister.mk SystemRegister.id

end SystemRegister

namespace Condition

/-- The name of an optional condition in data. -/
def dataName : Option Condition → String
  | none => "Invalid"
  | some .eq => "Eq"
  | some .ne => "Ne"
  | some .hs => "Hs"
  | some .lo => "Lo"
  | some .mi => "Mi"
  | some .pl => "Pl"
  | some .vs => "Vs"
  | some .vc => "Vc"
  | some .hi => "Hi"
  | some .ls => "Ls"
  | some .ge => "Ge"
  | some .lt => "Lt"
  | some .gt => "Gt"
  | some .le => "Le"
  | some .al => "Al"

def codec : Codec (Option Condition) := .names dataName (none :: all.map some)

end Condition

namespace VectorPredicate

/-- The name of an optional vector predicate in data. -/
def dataName : Option VectorPredicate → String
  | none => "None"
  | some .thenLanes => "Then"
  | some .elseLanes => "Else"

def codec : Codec (Option VectorPredicate) :=
  .names dataName [none, some .thenLanes, some .elseLanes]

end VectorPredicate

namespace ShiftKind

/-- The name of an optional shift kind in data. -/
def dataName : Option ShiftKind → String
  | none => "Invalid"
  | some .asr => "Asr"
  | some .lsl => "Lsl"
  | some .lsr => "Lsr"
  | some .ror => "Ror"
  | some .rrx => "Rrx"
  | some .asrReg => "AsrReg"
  | some .lslReg => "LslReg"
  | some .lsrReg => "LsrReg"
  | some .rorReg => "RorReg"
  | some .rrxReg => "RrxReg"

def codec : Codec (Option ShiftKind) :=
  .names dataName [none, some .asr, some .lsl, some .lsr, some .ror, some .rrx,
    some .asrReg, some .lslReg, some .lsrReg, some .rorReg, some .rrxReg]

end ShiftKind

namespace Shift

def codec : Codec Shift :=
  .record ["kind", "value"]
    (fun s => [ShiftKind.codec.write s.kind, Codec.u32.write s.amount])
    (fun m => Shift.mk <$> m.field "kind" ShiftKind.codec <*> m.field "value" Codec.u32)

end Shift

namespace Memory

def codec : Codec Memory :=
  .record ["base", "index", "scale", "disp", "lshift"]
    (fun a => [Register.codec.write a.base, Register.codec.write a.index,
      Codec.i32.write a.scale, Codec.i32.write a.disp, Codec.i32.write a.lshift])
    (fun m => Memory.mk <$> m.field "base" Register.codec
      <*> m.field "index" Register.codec <*> m.field "scale" Codec.i32
      <*> m.field "disp" Codec.i32 <*> m.field "lshift" Codec.i32)

end Memory

namespace OperandValue

def codec : Codec OperandValue where
  write
    | .invalid => .str "Invalid"
    | .reg r => Codec.variant "Reg" (Register.codec.write r)
    | .imm v => Codec.variant "Imm" (Codec.i64.write v)
    | .pimm v => Codec.variant "Pimm" (Codec.i64.write v)
    | .cimm v => Codec.variant "Cimm" (Codec.i64.write v)
    | .pred v => Codec.variant "Pred" (Codec.i64.write v)
    | .mem m => Codec.variant "Mem" (Memory.codec.write m)
    | .sysreg r => Codec.variant "Sysreg" (SystemRegister.codec.write r)
  read := Codec.readVariant fun name data =>
    match name with
    | "Invalid" => Codec.unitData .invalid data
    | "Reg" => (Codec.someData Register.codec.read data).map .reg
    | "Imm" => (Codec.someData Codec.i64.read data).map .imm
    | "Pimm" => (Codec.someData Codec.i64.read data).map .pimm
    | "Cimm" => (Codec.someData Codec.i64.read data).map .cimm
    | "Pred" => (Codec.someData Codec.i64.read data).map .pred
    | "Mem" => (Codec.someData Memory.codec.read data).map .mem
    | "Sysreg" => (Codec.someData SystemRegister.codec.read data).map .sysreg
    | _ => .error .malformed

end OperandValue

namespace Operand

def codec : Codec Operand :=
  .record ["value", "access", "shift", "vector_index", "neon_lane", "subtracted"]
    (fun op => [OperandValue.codec.write op.value, Access.codec.write op.access,
      Shift.codec.write op.shift, Codec.i32.write op.vectorIndex,
      Codec.i8.write op.neonLane, Codec.bool.write op.subtracted])
    (fun m => Operand.mk <$> m.field "value" OperandValue.codec
      <*> m.field "access" Access.codec <*> m.field "shift" Shift.codec
      <*> m.field "vector_index" Codec.i32 <*> m.field "neon_lane" Codec.i8
      <*> m.field "subtracted" Codec.bool)

end Operand

namespace Record

/-- The operands as data. -/
def operandsCodec : Codec (BoundedList Operand maxOperands) := .list Operand.codec _

def codec : Codec Record :=
  .record ["cc", "vcc", "update_flags", "writeback", "pred_mask", "operands"]
    (fun r => [Condition.codec.write r.cc, VectorPredicate.codec.write r.vcc,
      Codec.bool.write r.updateFlags, Codec.bool.write r.writeback,
      Codec.u8.write r.itLayout, operandsCodec.write r.operands])
    (fun m => Record.mk <$> m.field "cc" Condition.codec
      <*> m.field "vcc" VectorPredicate.codec <*> m.field "update_flags" Codec.bool
      <*> m.field "writeback" Codec.bool <*> m.field "pred_mask" Codec.u8
      <*> m.field "operands" operandsCodec)

end Record

end Arm

end Disassembly
