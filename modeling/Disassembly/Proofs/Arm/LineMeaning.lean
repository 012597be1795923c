import Disassembly.Proofs.Arm.ItemText

/-!
# What the items of a line say

Every item states a fact about a record. A line has exactly the items whose facts hold.
-/

namespace Disassembly.Arm

variable {item : LineItem} {i : Nat}

@[simp] theorem mem_itemIf {condition : Bool} {x : LineItem} :
    item ∈ itemIf condition x ↔ condition ∧ item = x := by
  cases condition <;> simp [itemIf]

/-- An item stands at a position: that of its operand, or any if it names no operand. -/
def LineItem.At (item : LineItem) (i : Nat) : Prop := ∀ j, item.position = some j → j = i

namespace OperandValue

/-- What an item says of a value. -/
def Shows (value : OperandValue) : LineItem → Prop
  | .reg _ r => value = .reg r
  | .imm _ n => value = .imm n
  | .pimm _ n => value = .pimm n
  | .cimm _ n => value = .cimm n
  | .pred _ n => value = .pred n
  | .sysreg _ r => value = .sysreg r
  | .mem _ => ∃ m, value = .mem m
  | .memBase _ r => ∃ m, value = .mem m ∧ m.base ≠ .absent ∧ r = m.base
  | .memIndex _ r => ∃ m, value = .mem m ∧ m.index ≠ .absent ∧ r = m.index
  | .memScale _ scale => ∃ m, value = .mem m ∧ m.scale ≠ 1 ∧ scale = m.scale
  | .memDisp _ disp => ∃ m, value = .mem m ∧ m.disp ≠ 0 ∧ disp = m.disp
  | .memShift _ lshift => ∃ m, value = .mem m ∧ m.lshift ≠ 0 ∧ lshift = m.lshift
  | _ => False

theorem mem_lineItems (value : OperandValue) :
    item ∈ value.lineItems i ↔ item.At i ∧ value.Shows item := by
  cases value <;> cases item <;>
    simp [lineItems, Shows, LineItem.At, LineItem.position]
  -- where the kinds agree, the two sides differ in the order of their parts
  all_goals grind

end OperandValue

theorem Shift.mem_lineItems (s : Shift) :
    item ∈ s.lineItems ↔
      ∃ kind, s.kind = some kind ∧ s.amount ≠ 0 ∧ item = .shift kind s.amount := by
  rw [lineItems]
  split <;> simp [*]

namespace Operand

/-- What an item says of an operand. -/
def Shows (op : Operand) : LineItem → Prop
  | .neonLane _ lane => op.neonLane ≠ noLane ∧ lane = op.neonLane
  | .vectorIndex _ index => op.vectorIndex ≠ noVectorIndex ∧ index = op.vectorIndex
  | .access _ label => op.access.label? = some label
  | .shift kind amount =>
      op.shift.kind = some kind ∧ op.shift.amount ≠ 0 ∧ amount = op.shift.amount
  | .subtracted _ => op.subtracted
  | item => op.value.Shows item

theorem mem_lineItems (op : Operand) :
    item ∈ op.lineItems i ↔ item.At i ∧ op.Shows item := by
  cases item <;>
    simp [lineItems, OperandValue.mem_lineItems, Shift.mem_lineItems, Shows,
      OperandValue.Shows, LineItem.At, LineItem.position]
  all_goals grind

end Operand

theorem mem_conditionItems {cc : Option Condition} :
    item ∈ conditionItems cc ↔ ∃ c, cc = some c ∧ c ≠ .al ∧ item = .condition c := by
  rw [conditionItems.eq_def]
  split <;> simp

namespace Record

/-- What an item says of a record, its register summary and the groups. -/
def Shows (r : Record) (access : RegAccess) (groups : List UInt8) : LineItem → Prop
  | .operandCount n => r.operands.toList ≠ [] ∧ n = r.operands.toList.length
  | .condition cc => cc ≠ .al ∧ r.cc = some cc
  | .updateFlags => r.updateFlags
  | .writeback => r.writeback
  | .itLayout layout => r.itLayout ≠ 0 ∧ layout = r.itLayout
  | .regsRead regs => access.read.toList ≠ [] ∧ regs = access.read.toList.map Register.mk
  | .regsWrite regs => access.write.toList ≠ [] ∧ regs = access.write.toList.map Register.mk
  | .groups ids => groups ≠ [] ∧ ids = groups
  | item => ∃ i op, r.operands.get? i = some op ∧ item.At i ∧ op.Shows item

theorem mem_lineItems (r : Record) (access : RegAccess) (groups : List UInt8) :
    item ∈ r.lineItems ++ summaryItems access groups ↔ r.Shows access groups item := by
  have hops : item ∈ r.operands.toList.zipIdx.flatMap (fun p => p.1.lineItems p.2) ↔
      ∃ i op, r.operands.get? i = some op ∧ item.At i ∧ op.Shows item := by
    simp only [List.mem_flatMap, List.mem_zipIdx_iff_getElem?, Operand.mem_lineItems]
    constructor
    · rintro ⟨⟨op, i⟩, hop, hitem⟩
      exact ⟨i, op, hop, hitem⟩
    · rintro ⟨i, op, hop, hitem⟩
      exact ⟨⟨op, i⟩, hop, hitem⟩
  cases item <;>
    simp [lineItems, summaryItems, Shows, hops, mem_conditionItems, Operand.Shows,
      OperandValue.Shows]
  all_goals grind

/-- What is said at the position of an operand is said of that operand. -/
theorem shows_at {r : Record} {op : Operand} {access : RegAccess} {groups : List UInt8}
    (hop : r.operands.get? i = some op) (hitem : item.position = some i) :
    r.Shows access groups item ↔ op.Shows item := by
  have hexists : (∃ i op, r.operands.get? i = some op ∧ item.At i ∧ op.Shows item) ↔
      op.Shows item := by
    constructor
    · rintro ⟨j, op', hop', hat, hshows⟩
      obtain rfl := hat i hitem
      cases hop.symm.trans hop'
      exact hshows
    · intro hshows
      refine ⟨i, op, hop, ?_, hshows⟩
      intro j hj
      exact Option.some.inj (hj.symm.trans hitem)
  cases item <;> first | exact hexists | cases hitem

end Record

end Disassembly.Arm
