import Disassembly.Error
import Disassembly.Insn
import Disassembly.RegAccess
import Disassembly.Codec.X86

/-!
# Instructions, details, options and errors as data
-/

namespace Disassembly

namespace Arch

/-- The name of an architecture in data. -/
def dataName : Arch → String
  | .arm => "Arm"
  | .x86 => "X86"

def codec : Codec Arch := .names dataName [.arm, .x86]

end Arch

namespace RegSpelling

/-- The name of a register spelling in data. -/
def dataName : RegSpelling → String
  | .conventional => "Default"
  | .numeric => "NoRegName"

def codec : Codec RegSpelling := .names dataName [.conventional, .numeric]

end RegSpelling

namespace Mode

def codec : Codec Mode := .flags flagNames (·.bits.toNat) fun n => ⟨UInt32.ofNat n⟩

end Mode

namespace Features

def codec : Codec Features := .flags flagNames (·.bits.toNat) fun n => ⟨UInt32.ofNat n⟩

end Features

namespace RawOperand

def codec : Codec RawOperand where
  write
    | .invalid => .str "Invalid"
    | .reg id => Codec.variant "Reg" (Codec.u16.write id)
    | .imm v => Codec.variant "Imm" (Codec.i64.write v)
  read := Codec.readVariant fun name data =>
    match name with
    | "Invalid" => Codec.unitData .invalid data
    | "Reg" => (Codec.someData Codec.u16.read data).map .reg
    | "Imm" => (Codec.someData Codec.i64.read data).map .imm
    | _ => .error .malformed

end RawOperand

namespace RawInst

/-- The raw operands as data. -/
def operandsCodec : Codec (BoundedList RawOperand maxOperands) := .list RawOperand.codec _

def codec : Codec RawInst :=
  .record ["opcode", "operands", "address", "mode"]
    (fun inst => [Codec.u32.write inst.opcode, operandsCodec.write inst.operands,
      Codec.u64.write inst.address, Mode.codec.write inst.mode])
    (fun m => RawInst.mk <$> m.field "opcode" Codec.u32
      <*> m.field "operands" operandsCodec <*> m.field "address" Codec.u64
      <*> m.field "mode" Mode.codec)

end RawInst

namespace Payload

def codec : Codec Payload where
  write
    | .none => .str "None"
    | .arm record => Codec.variant "Arm" (Arm.Record.codec.write record)
    | .x86 record => Codec.variant "X86" (X86.Record.codec.write record)
  read := Codec.readVariant fun name data =>
    match name with
    | "None" => Codec.unitData .none data
    | "Arm" => (Codec.someData Arm.Record.codec.read data).map .arm
    | "X86" => (Codec.someData X86.Record.codec.read data).map .x86
    | _ => .error .malformed

end Payload

namespace Detail

/-- Implicit registers as data. -/
def implicitCodec : Codec (BoundedList UInt16 maxImplicit) := .list Codec.u16 _

/-- Groups as data. -/
def groupsCodec : Codec (BoundedList UInt8 maxGroups) := .list Codec.u8 _

def codec : Codec Detail :=
  .record ["regs_read", "regs_write", "groups", "arch"]
    (fun d => [implicitCodec.write d.regsRead, implicitCodec.write d.regsWrite,
      groupsCodec.write d.groups, Payload.codec.write d.payload])
    (fun m => Detail.mk <$> m.field "regs_read" implicitCodec
      <*> m.field "regs_write" implicitCodec <*> m.field "groups" groupsCodec
      <*> m.field "arch" Payload.codec)

end Detail

namespace RegAccess

/-- One side of a summary as data. -/
def regsCodec : Codec (BoundedList UInt16 maxRegs) := .list Codec.u16 _

def codec : Codec RegAccess :=
  .record ["read", "write"]
    (fun a => [regsCodec.write a.read, regsCodec.write a.write])
    (fun m => RegAccess.mk <$> m.field "read" regsCodec <*> m.field "write" regsCodec)

end RegAccess

namespace Options

def codec : Codec Options :=
  .record ["detail", "syntax", "features"]
    (fun o => [Codec.bool.write o.detail, RegSpelling.codec.write o.spelling,
      Features.codec.write o.features])
    (fun m => Options.mk <$> m.field "detail" Codec.bool
      <*> m.field "syntax" RegSpelling.codec <*> m.field "features" Features.codec)

end Options

namespace Insn

/-- The bytes of an instruction as data. -/
def bytesCodec : Codec (BoundedList UInt8 maxBytes) := .list Codec.u8 _

/-- An instruction as data; a missing detail member means no detail. -/
def codec : Codec Insn :=
  .record ["id", "address", "size", "bytes", "detail"]
    (fun insn => [Codec.u16.write insn.id, Codec.u64.write insn.address,
      Codec.u16.write insn.size, bytesCodec.write insn.bytes,
      Detail.codec.optional.write insn.detail])
    (fun m => Insn.mk <$> m.field "id" Codec.u16 <*> m.field "address" Codec.u64
      <*> m.field "size" Codec.u16 <*> m.field "bytes" bytesCodec
      <*> m.fieldOrNone "detail" Detail.codec)

end Insn

namespace Error

/-- The data of an error about an architecture. -/
def archCodec : Codec Arch :=
  .record ["arch"] (fun arch => [Arch.codec.write arch])
    (fun m => m.field "arch" Arch.codec)

/-- The data of an error about a mode. -/
def modeCodec : Codec (Arch × Mode) :=
  .record ["arch", "mode"] (fun p => [Arch.codec.write p.1, Mode.codec.write p.2])
    (fun m => Prod.mk <$> m.field "arch" Arch.codec <*> m.field "mode" Mode.codec)

/-- The data of an error about an address. -/
def addressCodec : Codec UInt64 :=
  .record ["address"] (fun address => [Codec.u64.write address])
    (fun m => m.field "address" Codec.u64)

def codec : Codec Error where
  write
    | .unsupportedArch arch => Codec.variant "UnsupportedArch" (archCodec.write arch)
    | .invalidMode arch mode => Codec.variant "InvalidMode" (modeCodec.write (arch, mode))
    | .invalidInstruction address =>
        Codec.variant "InvalidInstruction" (addressCodec.write address)
    | .detailDisabled => .str "DetailDisabled"
  read := Codec.readVariant fun name data =>
    match name with
    | "UnsupportedArch" => (Codec.someData archCodec.read data).map .unsupportedArch
    | "InvalidMode" =>
        (Codec.someData modeCodec.read data).map fun p => .invalidMode p.1 p.2
    | "InvalidInstruction" =>
        (Codec.someData addressCodec.read data).map .invalidInstruction
    | "DetailDisabled" => Codec.unitData .detailDisabled data
    | _ => .error .malformed

end Error

end Disassembly
