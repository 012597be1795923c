import Disassembly.Proofs.Arm.LineFidelity
import Disassembly.Proofs.Pieces

/-!
# Shifts in a line

A line is cut at its semicolons, and the pieces that show a shift are counted. They are those
of the operands with a shift by some amount.
-/

namespace Disassembly.Arm

/-- What stands before each semicolon of a line and behind the last one. A blank is put
before the line, so that one stands before every item. -/
def linePieces (line : String) : List (List Char) := (' ' :: line.toList).splitOn ';'

/-- The pieces of a line that show a shift. -/
def shiftPieces (line : String) : List (List Char) :=
  (linePieces line).filter (' ' :: "Shift: ".toList <+: ·)

theorem between_injective {t u : String} (h : between t = between u) : t = u := by
  apply String.toList_inj.mp
  simpa [between] using h

namespace LineItem

/-- The item shows a shift. -/
def isShift : LineItem → Bool
  | .shift _ _ => true
  | _ => false

variable {s : RegSpelling} {items : List LineItem}

/-- An item shows a shift exactly when it begins like one. -/
theorem startsShift_iff (item : LineItem) (s : RegSpelling) :
    ' ' :: "Shift: ".toList <+: between (item.text s) ↔ item.isShift = true := by
  constructor
  · rintro ⟨rest, hrest⟩
    have htail : "Shift: ".toList ++ rest = (item.text s).toList ++ " ".toList :=
      List.tail_eq_of_cons_eq hrest
    have hrest : "Shift: " ++ String.ofList rest = item.text s ++ " " := by
      apply String.toList_inj.mp
      rw [String.toList_append, String.toList_append, String.toList_ofList (l := rest), htail]
    obtain ⟨heading, hheading, htext⟩ := item.exists_heading s
    have hshift : ("operands[" :: headings)[17]? = some "Shift: " := rfl
    rw [htext] at hrest
    cases hposition : item.position with
    | some i =>
        have hzero : ("operands[" :: headings)[0]? = some "operands[" := rfl
        rw [hposition, placed, operandField, String.append_assoc, String.append_assoc,
          String.append_assoc] at hrest
        exact absurd (prefixFree_headings.append_inj hshift hzero hrest).1 (by decide)
    | none =>
        rw [hposition, placed, String.append_assoc] at hrest
        have hkind := (prefixFree_headings.append_inj hshift
          (List.getElem?_cons_succ.trans hheading) hrest).1
        -- the kinds before the shift have a position or another place in the table
        cases item <;> first | rfl | cases hkind
  · intro hshift
    cases item with
    | shift kind amount =>
        obtain ⟨heading, hheading, htext⟩ := (LineItem.shift kind amount).exists_heading s
        cases hheading
        change _ = "Shift: " ++ _ at htext
        refine ⟨((LineItem.shift kind amount).payload s).toList ++ [' '], ?_⟩
        rw [between, htext, String.toList_append, List.cons_append, List.cons_append,
          List.append_assoc]
    | _ => cases hshift

/-- The shifts of a line of items are those of the items. -/
theorem shiftPieces_joinItems (hclean : ∀ item ∈ items, ';' ∉ (item.text s).toList) :
    shiftPieces (joinItems (items.map (·.text s))) =
      (items.filter isShift).map fun item => between (item.text s) := by
  have hfilter :
      ((items.map (·.text s)).map between).filter (' ' :: "Shift: ".toList <+: ·) =
        (items.filter isShift).map fun item => between (item.text s) := by
    have hstarts (item : LineItem) :
        decide (' ' :: "Shift: ".toList <+: between (item.text s)) = item.isShift :=
      Bool.eq_iff_iff.mpr (decide_eq_true_iff.trans (item.startsShift_iff s))
    rw [List.map_map, List.filter_map]
    simp only [Function.comp_def, hstarts]
  rw [← hfilter]
  cases items with
  | nil => rfl
  | cons first rest =>
      have hpieces : ∀ p ∈ ((first :: rest).map (·.text s)).map between, ';' ∉ p := by
        intro p hp
        obtain ⟨t, ht, rfl⟩ := List.mem_map.mp hp
        obtain ⟨item, hitem, rfl⟩ := List.mem_map.mp ht
        simpa [between] using hclean item hitem
      rw [shiftPieces, linePieces, List.map_cons, toList_joinItems, ← List.map_cons,
        splitOn_flatMap_closed _ hpieces, List.filter_append]
      exact List.append_nil _

end LineItem

section Records
variable {item : LineItem}

theorem filter_itemIf (condition : Bool) (h : ¬ item.isShift) :
    (itemIf condition item).filter LineItem.isShift = [] := by
  cases condition <;> simp [itemIf, h]

theorem OperandValue.filter_lineItems (value : OperandValue) (i : Nat) :
    (value.lineItems i).filter LineItem.isShift = [] := by
  cases value with
  | mem m =>
      have hmem : [LineItem.mem i].filter LineItem.isShift = [] := rfl
      simp (disch := simp [LineItem.isShift]) only [lineItems, List.filter_append, hmem,
        filter_itemIf, List.append_nil]
  | _ => rfl

theorem Shift.filter_lineItems (s : Shift) :
    s.lineItems.filter LineItem.isShift = s.lineItems := by
  apply List.filter_eq_self.mpr
  intro item hitem
  obtain ⟨kind, -, -, rfl⟩ := s.mem_lineItems.mp hitem
  rfl

theorem Operand.filter_lineItems (op : Operand) (i : Nat) :
    (op.lineItems i).filter LineItem.isShift = op.shift.lineItems := by
  have haccess :
      (op.access.label?.map (LineItem.access i)).toList.filter LineItem.isShift = [] := by
    cases op.access.label? <;> rfl
  simp (disch := simp [LineItem.isShift]) only [lineItems, List.filter_append,
    OperandValue.filter_lineItems, haccess, Shift.filter_lineItems, filter_itemIf,
    List.nil_append, List.append_nil]

/-- The shifts among the items of a line are those of the operands, in order. -/
theorem Record.filter_lineItems (r : Record) (access : RegAccess) (groups : List UInt8) :
    (r.lineItems ++ summaryItems access groups).filter LineItem.isShift =
      r.operands.toList.flatMap (·.shift.lineItems) := by
  have hcondition : (conditionItems r.cc).filter LineItem.isShift = [] := by
    cases r.cc with
    | none => rfl
    | some cc => exact filter_itemIf _ (by simp [LineItem.isShift])
  have hoperands : r.operands.toList.zipIdx.flatMap (fun p => p.1.shift.lineItems) =
      r.operands.toList.flatMap (·.shift.lineItems) :=
    flatMap_zipIdx _ fun op : Operand => op.shift.lineItems
  simp (disch := simp [LineItem.isShift]) only [lineItems, summaryItems, List.filter_append,
    List.filter_flatMap, Operand.filter_lineItems, filter_itemIf, hcondition, hoperands,
    List.nil_append, List.append_nil]

/-- A shift that a line does not show: none at all or one by no amount. -/
def Shift.Hidden (s : Shift) : Prop := s.kind = .none ∨ s.amount = 0

instance (s : Shift) : Decidable s.Hidden := instDecidableOr

theorem Shift.length_lineItems (s : Shift) :
    s.lineItems.length = if s.Hidden then 0 else 1 := by
  rw [lineItems]
  split
  next kind hkind => by_cases hamount : s.amount = 0 <;> simp [itemIf, Hidden, hkind, hamount]
  next hkind => simp [Hidden, hkind]

variable {d : Detail} {r : Record} {spelling : RegSpelling} {line : String}

/-- The pieces of a line that show a shift are those of the operands, in order. -/
theorem shiftPieces_detailLine (hr : d.arm? = some r)
    (hline : detailLine (some d) spelling = .ok line) :
    shiftPieces line = (r.operands.toList.flatMap (·.shift.lineItems)).map fun item =>
      between (item.text spelling) := by
  obtain ⟨access, -, rfl⟩ := exists_summary_of_line hr hline
  rw [LineItem.shiftPieces_joinItems fun item hitem => semicolon_notMem_of_mem hitem spelling,
    Record.filter_lineItems]

/-- A line shows as many shifts as there are operands whose shift is not hidden. -/
theorem length_shiftPieces (hr : d.arm? = some r)
    (hline : detailLine (some d) spelling = .ok line) :
    (shiftPieces line).length = r.operands.toList.countP (¬ ·.shift.Hidden) := by
  rw [shiftPieces_detailLine hr hline, List.length_map]
  induction r.operands.toList with
  | nil => rfl
  | cons op ops ih =>
      rw [List.flatMap_cons, List.length_append, ih, Shift.length_lineItems, List.countP_cons]
      by_cases hhidden : op.shift.Hidden <;> simp [hhidden, Nat.add_comm]

end Records

end Disassembly.Arm
