import Disassembly.Numeral
import Disassembly.RegAccess
import Disassembly.Arch
import Disassembly.X86.Group

/-!
# x86 detail lines

The one-line rendering of an x86 record: a list of fields, each after a bar.
The fields of the scale-index-base byte are left out in 16-bit mode.
-/

namespace Disassembly.X86

/-- A field of a line. Operand fields carry the position of the operand. -/
inductive LineField where
  | legacyPrefix (bytes : List UInt8)
  | opcode (bytes : List UInt8)
  | rex (value : UInt8)
  | addressSize (value : UInt8)
  | modrm (value : UInt8)
  | disp (value : Int64)
  | sib (value : UInt8)
  | sibBase (r : Register)
  | sibIndex (r : Register)
  | sibScale (value : Int8)
  | xopCondition (value : UInt8)
  | sseCondition (value : UInt8)
  | avxCondition (value : UInt8)
  | avxSuppress
  | avxRounding (value : UInt8)
  | immediateCount (n : Nat)
  | immediate (nth : Nat) (value : Int64)
  | operandCount (n : Nat)
  | reg (i : Nat) (r : Register)
  | imm (i : Nat) (value : Int64)
  | mem (i : Nat)
  | memSegment (i : Nat) (r : Register)
  | memBase (i : Nat) (r : Register)
  | memIndex (i : Nat) (r : Register)
  | memScale (i : Nat) (scale : Int32)
  | memDisp (i : Nat) (disp : Int64)
  | avxBroadcast (i : Nat) (value : UInt8)
  | avxZeroMask (i : Nat)
  | size (i : Nat) (value : UInt8)
  | access (i : Nat) (label : String)
  | regsRead (regs : List Register)
  | regsWrite (regs : List Register)
  | fpuFlags (names : List String)
  | eflags (names : List String)
deriving DecidableEq, Repr

namespace LineField

/-- A field of the operand at a position. -/
def ofOperand (i : Nat) (rest : String) : String :=
  "operands[" ++ Numeral.decimal i ++ "]" ++ rest

/-- Texts after a heading, each after a blank. -/
def listing (heading : String) (texts : List String) : String :=
  heading ++ String.join (texts.map (" " ++ ·))

/-- Bytes after a heading, each before a blank. -/
def byteListing (heading : String) (bytes : List UInt8) : String :=
  heading ++ String.join (bytes.map (Numeral.hexByte · ++ " "))

def byte (heading : String) (value : UInt8) : String :=
  heading ++ Numeral.decimal value.toNat

def hexWord (value : Int64) : String := Numeral.hex value.toUInt64.toNat

/-- The text of a field, without the bar before it. -/
def text : LineField → String
  | .legacyPrefix bytes => byteListing "Prefix:" bytes
  | .opcode bytes => byteListing "Opcode:" bytes
  | .rex value => "rex: " ++ Numeral.hex value.toNat
  | .addressSize value => byte "addr_size: " value
  | .modrm value => "modrm: " ++ Numeral.hex value.toNat
  | .disp value => "disp: " ++ hexWord value
  | .sib value => "sib: " ++ Numeral.hex value.toNat
  | .sibBase r => "sib_base: " ++ r.label
  | .sibIndex r => "sib_index: " ++ r.label
  | .sibScale value => "sib_scale: " ++ Numeral.signedDecimal value.toInt
  | .xopCondition value => byte "xop_cc: " value
  | .sseCondition value => byte "sse_cc: " value
  | .avxCondition value => byte "avx_cc: " value
  | .avxSuppress => "avx_sae: 1"
  | .avxRounding value => byte "avx_rm: " value
  | .immediateCount n => "imm_count: " ++ Numeral.decimal n
  | .immediate nth value => "imms[" ++ Numeral.decimal nth ++ "]: " ++ hexWord value
  | .operandCount n => "op_count: " ++ Numeral.decimal n
  | .reg i r => ofOperand i ".type: REG = " ++ r.label
  | .imm i value => ofOperand i ".type: IMM = " ++ hexWord value
  | .mem i => ofOperand i ".type: MEM"
  | .memSegment i r => ofOperand i ".mem.segment: REG = " ++ r.label
  | .memBase i r => ofOperand i ".mem.base: REG = " ++ r.label
  | .memIndex i r => ofOperand i ".mem.index: REG = " ++ r.label
  | .memScale i scale => ofOperand i ".mem.scale: " ++ Numeral.signedDecimal scale.toInt
  | .memDisp i offset => ofOperand i ".mem.disp: " ++ hexWord offset
  | .avxBroadcast i value => ofOperand i ".avx_bcast: " ++ Numeral.decimal value.toNat
  | .avxZeroMask i => ofOperand i ".avx_zero_opmask: TRUE"
  | .size i value => ofOperand i ".size: " ++ Numeral.decimal value.toNat
  | .access i label => ofOperand i ".access: " ++ label
  | .regsRead regs => listing "Registers read:" (regs.map (·.label))
  | .regsWrite regs => listing "Registers modified:" (regs.map (·.label))
  | .fpuFlags names => listing "FPU_FLAGS:" names
  | .eflags names => listing "EFLAGS:" names

end LineField

/-- A field, if a condition holds. -/
def fieldIf (condition : Bool) (field : LineField) : List LineField :=
  if condition then [field] else []

namespace Record

/-- The fields of the encoding, which are always shown. -/
def headerFields (r : Record) : List LineField :=
  [.legacyPrefix r.legacyPrefix.toList, .opcode r.opcode.toList, .rex r.rex,
    .addressSize r.addressSize, .modrm r.modrm, .disp r.disp]

/-- The fields of the scale-index-base byte. -/
def sibFields (r : Record) : List LineField :=
  [.sib r.sib] ++ fieldIf (r.sibBase ≠ .absent) (.sibBase r.sibBase) ++
    fieldIf (r.sibIndex ≠ .absent) (.sibIndex r.sibIndex) ++
    fieldIf (r.sibScale ≠ 0) (.sibScale r.sibScale)

/-- The conditions and vector settings that are not zero. -/
def conditionFields (r : Record) : List LineField :=
  fieldIf (r.xopCondition ≠ 0) (.xopCondition r.xopCondition) ++
    fieldIf (r.sseCondition ≠ 0) (.sseCondition r.sseCondition) ++
    fieldIf (r.avxCondition ≠ 0) (.avxCondition r.avxCondition) ++
    fieldIf r.avxSuppress .avxSuppress ++
    fieldIf (r.avxRounding ≠ 0) (.avxRounding r.avxRounding)

/-- The immediates, counted from 1. -/
def immediateFields (r : Record) : List LineField :=
  let n := r.count .imm
  if n = 0 then []
  else .immediateCount n ::
    (List.range' 1 n).map fun nth => .immediate nth (r.immediate nth)

end Record

/-- The fields of what an operand is; the parts of an address that have their
usual value are left out. -/
def OperandValue.lineFields (i : Nat) : OperandValue → List LineField
  | .invalid => []
  | .reg r => [.reg i r]
  | .imm value => [.imm i value]
  | .mem m =>
      [.mem i] ++ fieldIf (m.segment ≠ .absent) (.memSegment i m.segment) ++
        fieldIf (m.base ≠ .absent) (.memBase i m.base) ++
        fieldIf (m.index ≠ .absent) (.memIndex i m.index) ++
        fieldIf (m.scale ≠ 1) (.memScale i m.scale) ++
        fieldIf (m.disp ≠ 0) (.memDisp i m.disp)

/-- The fields of the operand at a position. -/
def Operand.lineFields (op : Operand) (i : Nat) : List LineField :=
  op.value.lineFields i ++
    fieldIf (op.avxBroadcast ≠ 0) (.avxBroadcast i op.avxBroadcast) ++
    fieldIf op.avxZeroMask (.avxZeroMask i) ++
    [.size i op.size] ++
    (op.access.label?.map (LineField.access i)).toList

namespace Record

/-- The fields of all operands, after their number. -/
def operandFields (r : Record) : List LineField :=
  let operands := r.operands.toList
  fieldIf (!operands.isEmpty) (.operandCount operands.length) ++
    operands.zipIdx.flatMap fun p => p.1.lineFields p.2

/-- The names of the flag effects, if there are any at all. An instruction in the
floating point group shows its floating point effects, and any other its effects
on the processor flags. -/
def flagFields (r : Record) (floatingPoint : Bool) : List LineField :=
  if r.eflags.bits = 0 ∧ r.fpuFlags.bits = 0 then []
  else if floatingPoint then [.fpuFlags r.fpuFlags.partNames]
  else [.eflags r.eflags.partNames]

end Record

/-- The fields of a register summary; empty lists are left out. -/
def accessFields (access : RegAccess) : List LineField :=
  let reads := access.read.toList
  let writes := access.write.toList
  fieldIf (!reads.isEmpty) (.regsRead (reads.map Register.mk)) ++
    fieldIf (!writes.isEmpty) (.regsWrite (writes.map Register.mk))

/-- The fields of a detail record, none without an x86 payload. -/
def lineFields (d : Detail) (mode : Mode) : Except CapacityError (List LineField) :=
  match d.x86? with
  | none => .ok []
  | some r => do
      let access ← regAccess d
      return r.headerFields ++
        (if mode.contains .bits16 then [] else r.sibFields) ++
        r.conditionFields ++ r.immediateFields ++ r.operandFields ++
        accessFields access ++ r.flagFields (d.inGroup Group.fpu.id)

/-- The line of a detail record, empty without one or without an x86 payload. -/
def detailLine (detail : Option Detail) (mode : Mode) : Except CapacityError String :=
  match detail with
  | none => .ok ""
  | some d =>
      (lineFields d mode).map fun fields =>
        String.join (fields.map fun field => " | " ++ field.text)

end Disassembly.X86
