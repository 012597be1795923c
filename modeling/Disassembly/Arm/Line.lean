import Disassembly.Numeral
import Disassembly.RegAccess
import Disassembly.Arm.Group

/-!
# ARM detail lines

The one-line rendering of an ARM record: a list of items, each operand's items
before those of the instruction, separated by semicolons and closed by one.
-/

namespace Disassembly.Arm

/-- An item of a line. Operand items carry the position of the operand. -/
inductive LineItem where
  | operandCount (n : Nat)
  | reg (i : Nat) (r : Register)
  | imm (i : Nat) (value : Int64)
  | pimm (i : Nat) (value : Int64)
  | cimm (i : Nat) (value : Int64)
  | pred (i : Nat) (value : Int64)
  | sysreg (i : Nat) (r : SystemRegister)
  | mem (i : Nat)
  | memBase (i : Nat) (r : Register)
  | memIndex (i : Nat) (r : Register)
  | memScale (i : Nat) (scale : Int32)
  | memDisp (i : Nat) (disp : Int32)
  | memShift (i : Nat) (lshift : Int32)
  | neonLane (i : Nat) (lane : Int8)
  | vectorIndex (i : Nat) (index : Int32)
  | access (i : Nat) (label : String)
  | shift (kind : ShiftKind) (amount : UInt32)
  | subtracted (i : Nat)
  | condition (cc : Condition)
  | updateFlags
  | writeback
  | itLayout (layout : UInt8)
  | regsRead (regs : List Register)
  | regsWrite (regs : List Register)
  | groups (ids : List UInt8)
deriving DecidableEq, Repr

namespace LineItem

/-- A field of the operand at a position. -/
def operandField (i : Nat) (rest : String) : String :=
  "operands[" ++ Numeral.decimal i ++ "]" ++ rest

/-- Texts after a heading, each after a blank. -/
def listing (heading : String) (texts : List String) : String :=
  heading ++ String.join (texts.map (" " ++ ·))

/-- The text of an item, with registers spelled as asked. -/
def text (spelling : RegSpelling) : LineItem → String
  | .operandCount n => "op_count: " ++ Numeral.decimal n
  | .reg i r => operandField i ".type: REG = " ++ r.label spelling
  | .imm i value => operandField i ".type: IMM = " ++ Numeral.signedHex value.toInt
  | .pimm i value => operandField i ".type: P-IMM = " ++ Numeral.signedDecimal value.toInt
  | .cimm i value => operandField i ".type: C-IMM = " ++ Numeral.signedDecimal value.toInt
  | .pred i value => operandField i ".type: PRED = " ++ Numeral.signedDecimal value.toInt
  | .sysreg i r => operandField i ".type: SYSREG = " ++ r.label
  | .mem i => operandField i ".type: MEM"
  | .memBase i r => operandField i ".mem.base: REG = " ++ r.label spelling
  | .memIndex i r => operandField i ".mem.index: REG = " ++ r.label spelling
  | .memScale i scale => operandField i ".mem.scale: " ++ Numeral.signedDecimal scale.toInt
  | .memDisp i disp => operandField i ".mem.disp: " ++ Numeral.signedHex disp.toInt
  | .memShift i lshift =>
      operandField i ".mem.lshift: " ++ Numeral.hex lshift.toUInt32.toNat
  | .neonLane i lane => operandField i ".neon_lane = " ++ Numeral.signedDecimal lane.toInt
  | .vectorIndex i index =>
      operandField i ".vector_index = " ++ Numeral.signedDecimal index.toInt
  | .access i label => operandField i ".access: " ++ label
  | .shift kind amount =>
      "Shift: " ++ Numeral.decimal kind.number ++ " = " ++
        if kind.byRegister then (Register.mk amount.toUInt16).label spelling
        else Numeral.decimal amount.toNat
  | .subtracted i => operandField i ".subtracted = True"
  | .condition cc => "Code condition: " ++ Numeral.decimal cc.code
  | .updateFlags => "Update-flags: True"
  | .writeback => "Write-back: True"
  | .itLayout layout => "Predicate Mask: " ++ Numeral.hex layout.toNat
  | .regsRead regs => listing "Registers read:" (regs.map (·.label spelling))
  | .regsWrite regs => listing "Registers modified:" (regs.map (·.label spelling))
  | .groups ids => listing "Groups:" (ids.map Group.label)

end LineItem

/-- An item, if a condition holds. -/
def itemIf (condition : Bool) (item : LineItem) : List LineItem :=
  if condition then [item] else []

/-- The items of what an operand is; the parts of an address that have their
usual value are left out. -/
def OperandValue.lineItems (i : Nat) : OperandValue → List LineItem
  | .invalid => []
  | .reg r => [.reg i r]
  | .imm value => [.imm i value]
  | .pimm value => [.pimm i value]
  | .cimm value => [.cimm i value]
  | .pred value => [.pred i value]
  | .sysreg r => [.sysreg i r]
  | .mem m =>
      [.mem i] ++ itemIf (m.base ≠ .absent) (.memBase i m.base) ++
        itemIf (m.index ≠ .absent) (.memIndex i m.index) ++
        itemIf (m.scale ≠ 1) (.memScale i m.scale) ++
        itemIf (m.disp ≠ 0) (.memDisp i m.disp) ++
        itemIf (m.lshift ≠ 0) (.memShift i m.lshift)

/-- The item of a shift by some amount. -/
def Shift.lineItems (s : Shift) : List LineItem :=
  match s.kind with
  | some kind => itemIf (s.amount ≠ 0) (.shift kind s.amount)
  | .none => []

/-- The items of the operand at a position. -/
def Operand.lineItems (op : Operand) (i : Nat) : List LineItem :=
  op.value.lineItems i ++
    itemIf (op.neonLane ≠ noLane) (.neonLane i op.neonLane) ++
    itemIf (op.vectorIndex ≠ noVectorIndex) (.vectorIndex i op.vectorIndex) ++
    (op.access.label?.map (LineItem.access i)).toList ++
    op.shift.lineItems ++
    itemIf op.subtracted (.subtracted i)

/-- The item of a condition, unless it always holds. -/
def conditionItems : Option Condition → List LineItem
  | some cc => itemIf (cc ≠ .al) (.condition cc)
  | none => []

/-- The items of a record: the operands and then the facts about the whole
instruction. -/
def Record.lineItems (r : Record) : List LineItem :=
  let operands := r.operands.toList
  itemIf (!operands.isEmpty) (.operandCount operands.length) ++
    operands.zipIdx.flatMap (fun p => p.1.lineItems p.2) ++
    conditionItems r.cc ++
    itemIf r.updateFlags .updateFlags ++
    itemIf r.writeback .writeback ++
    itemIf (r.itLayout ≠ 0) (.itLayout r.itLayout)

/-- The items of a register summary and of the groups; empty lists are left
out. -/
def summaryItems (access : RegAccess) (groups : List UInt8) : List LineItem :=
  let reads := access.read.toList
  let writes := access.write.toList
  itemIf (!reads.isEmpty) (.regsRead (reads.map Register.mk)) ++
    itemIf (!writes.isEmpty) (.regsWrite (writes.map Register.mk)) ++
    itemIf (!groups.isEmpty) (.groups groups)

/-- The items of a detail record, none without an ARM payload. -/
def lineItems (d : Detail) : Except CapacityError (List LineItem) :=
  match d.arm? with
  | none => .ok []
  | some r => do
      let access ← regAccess d
      return r.lineItems ++ summaryItems access d.groups.toList

/-- Items separated and closed by semicolons; no items give no text. -/
def joinItems (texts : List String) : String :=
  if texts.isEmpty then "" else " ; ".intercalate texts ++ " ;"

/-- The line of a detail record, empty without one or without an ARM payload. -/
def detailLine (detail : Option Detail) (spelling : RegSpelling) :
    Except CapacityError String :=
  match detail with
  | none => .ok ""
  | some d => (lineItems d).map fun items => joinItems (items.map (·.text spelling))

end Disassembly.Arm
