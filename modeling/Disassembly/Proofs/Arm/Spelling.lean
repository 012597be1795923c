import Disassembly.Proofs.Arm.LineFidelity
import Disassembly.Proofs.Arm.RegSummary

/-!
# Spellings of a line

A line is made of fragments: text that stands as it is, and the names of registers. How
registers are spelled has a part in the names only, and only three registers have a name that
differs between the spellings.
-/

namespace Disassembly.Arm

/-- A part of a line. -/
inductive Fragment where
  | plain (text : String)
  | name (r : Register)
deriving DecidableEq, Repr

namespace Fragment

def text (spelling : RegSpelling) : Fragment → String
  | .plain text => text
  | .name r => r.label spelling

def register? : Fragment → Option Register
  | .plain _ => none
  | .name r => some r

end Fragment

/-- Fragments put together, with registers spelled as asked. -/
def spelled (spelling : RegSpelling) (fragments : List Fragment) : String :=
  String.join (fragments.map (·.text spelling))

/-- The registers named by fragments, in order. -/
def namedIn (fragments : List Fragment) : List Register := fragments.filterMap Fragment.register?

section Fragments
variable {spelling : RegSpelling} {fragment : Fragment} {fragments more : List Fragment}

@[simp] theorem spelled_nil : spelled spelling [] = "" := rfl

@[simp] theorem spelled_cons :
    spelled spelling (fragment :: fragments) =
      fragment.text spelling ++ spelled spelling fragments := by
  rw [spelled, List.map_cons, String.join_cons, spelled]

@[simp] theorem spelled_append :
    spelled spelling (fragments ++ more) = spelled spelling fragments ++ spelled spelling more := by
  rw [spelled, List.map_append, String.join_append, spelled, spelled]

@[simp] theorem namedIn_append : namedIn (fragments ++ more) = namedIn fragments ++ namedIn more :=
  List.filterMap_append

end Fragments

namespace Register

/-- The registers that are spelled by their number on demand. -/
def numbered : List Register := [lr, pc, sp]

theorem label_numbered :
    (lr.label .conventional = "lr" ∧ lr.label .numeric = "r14") ∧
    (pc.label .conventional = "pc" ∧ pc.label .numeric = "r15") ∧
    (sp.label .conventional = "sp" ∧ sp.label .numeric = "r13") := by
  decide

/-- All others are always spelled in the same way. -/
theorem label_numeric_of_notMem {r : Register} (h : r ∉ numbered) :
    r.label .numeric = r.label .conventional := by
  simp only [numbered, List.mem_cons, List.not_mem_nil, or_false, not_or] at h
  obtain ⟨hlr, hpc, hsp⟩ := h
  simp only [label, name?, numericName?, if_neg hsp, if_neg hlr, if_neg hpc, Option.none_or]

theorem length_label_numeric (r : Register) :
    (r.label .numeric).length =
      (r.label .conventional).length + if r ∈ numbered then 1 else 0 := by
  by_cases h : r ∈ numbered
  · rw [if_pos h]
    simp only [numbered, List.mem_cons, List.not_mem_nil, or_false] at h
    rcases h with rfl | rfl | rfl <;> decide
  · rw [if_neg h, label_numeric_of_notMem h, Nat.add_zero]

end Register

section Fragments
variable (fragments : List Fragment)

/-- Numbers in place of names add one character for each register that has one. -/
theorem length_spelled_numeric :
    (spelled .numeric fragments).length = (spelled .conventional fragments).length +
      (namedIn fragments).countP (· ∈ Register.numbered) := by
  induction fragments with
  | nil => rfl
  | cons fragment fragments ih =>
      rw [spelled_cons, spelled_cons, String.length_append, String.length_append, ih]
      cases fragment with
      | plain text =>
          simp only [Fragment.text, namedIn, List.filterMap_cons, Fragment.register?]
          omega
      | name r =>
          have hlabel := r.length_label_numeric
          simp only [Fragment.text, namedIn, List.filterMap_cons, Fragment.register?,
            List.countP_cons, decide_eq_true_eq]
          omega

/-- The spellings agree exactly where none of these registers is named. -/
theorem spelled_numeric_eq_iff :
    spelled .conventional fragments = spelled .numeric fragments ↔
      ∀ r ∈ namedIn fragments, r ∉ Register.numbered := by
  constructor
  · intro heq r hr hnumbered
    have hlength := length_spelled_numeric fragments
    have hcount : 0 < (namedIn fragments).countP (· ∈ Register.numbered) :=
      List.countP_pos_iff.mpr ⟨r, hr, decide_eq_true hnumbered⟩
    rw [← heq] at hlength
    omega
  · intro h
    rw [spelled, spelled]
    congr 1
    apply List.map_congr_left
    intro fragment hfragment
    cases fragment with
    | plain text => rfl
    | name r =>
        have hr := h r (List.mem_filterMap.mpr ⟨_, hfragment, rfl⟩)
        exact (Register.label_numeric_of_notMem hr).symm

end Fragments

namespace LineItem

/-- Names after a heading, each after a blank. -/
def listedFragments (heading : String) (regs : List Register) : List Fragment :=
  .plain heading :: regs.flatMap fun r => [.plain " ", .name r]

/-- The fragments of the text of an item. -/
def fragments : LineItem → List Fragment
  | .reg i r => [.plain (operandField i ".type: REG = "), .name r]
  | .memBase i r => [.plain (operandField i ".mem.base: REG = "), .name r]
  | .memIndex i r => [.plain (operandField i ".mem.index: REG = "), .name r]
  | .shift kind amount =>
      [.plain ("Shift: " ++ Numeral.decimal kind.number ++ " = "),
        if kind.byRegister then .name ⟨amount.toUInt16⟩ else .plain (Numeral.decimal amount.toNat)]
  | .regsRead regs => listedFragments "Registers read:" regs
  | .regsWrite regs => listedFragments "Registers modified:" regs
  | item => [.plain (item.text .conventional)]

theorem spelled_listedFragments (spelling : RegSpelling) (heading : String)
    (regs : List Register) :
    spelled spelling (listedFragments heading regs) =
      listing heading (regs.map (·.label spelling)) := by
  have hregs : spelled spelling (regs.flatMap fun r => [.plain " ", .name r]) =
      String.join ((regs.map (·.label spelling)).map (" " ++ ·)) := by
    induction regs with
    | nil => rfl
    | cons r regs ih =>
        rw [List.flatMap_cons, spelled_append, ih, List.map_cons, List.map_cons,
          String.join_cons]
        simp [Fragment.text]
  rw [listedFragments, spelled_cons, hregs]
  rfl

theorem namedIn_listedFragments (heading : String) (regs : List Register) :
    namedIn (listedFragments heading regs) = regs := by
  have hregs : namedIn (regs.flatMap fun r => [.plain " ", .name r]) = regs := by
    induction regs with
    | nil => rfl
    | cons r regs ih =>
        rw [List.flatMap_cons, namedIn_append, ih]
        rfl
  exact hregs

/-- The text of an item in either spelling is that of its fragments. -/
theorem text_eq (item : LineItem) (spelling : RegSpelling) :
    item.text spelling = spelled spelling item.fragments := by
  cases item with
  | regsRead regs => exact (spelled_listedFragments spelling _ regs).symm
  | regsWrite regs => exact (spelled_listedFragments spelling _ regs).symm
  | shift kind amount =>
      dsimp only [text, fragments]
      cases kind.byRegister <;>
        simp only [Bool.false_eq_true, if_true, if_false, spelled_cons, spelled_nil,
          Fragment.text, String.append_empty, String.append_assoc]
  | reg i r | memBase i r | memIndex i r =>
      dsimp only [text, fragments]
      simp only [spelled_cons, spelled_nil, Fragment.text, operandField, String.append_empty,
        String.append_assoc]
  | _ =>
      dsimp only [fragments]
      rw [spelled_cons, spelled_nil, String.append_empty]
      rfl

/-- The registers named by the text of an item. -/
def registers (item : LineItem) : List Register := namedIn item.fragments

end LineItem

/-- The fragments of a line with such items. -/
def lineFragments : List LineItem → List Fragment
  | [] => []
  | [item] => item.fragments ++ [.plain " ;"]
  | item :: rest => item.fragments ++ .plain " ; " :: lineFragments rest

theorem joinItems_eq (items : List LineItem) (spelling : RegSpelling) :
    joinItems (items.map (·.text spelling)) = spelled spelling (lineFragments items) := by
  induction items with
  | nil => rfl
  | cons item rest ih =>
      cases rest with
      | nil =>
          rw [lineFragments, spelled_append, ← item.text_eq]
          rfl
      | cons next rest =>
          have hrest : lineFragments (item :: next :: rest) =
              item.fragments ++ .plain " ; " :: lineFragments (next :: rest) := rfl
          rw [hrest, spelled_append, spelled_cons, ← ih, ← item.text_eq]
          simp only [joinItems, List.map_cons, List.isEmpty_cons, Bool.false_eq_true, if_false,
            String.intercalate_cons_cons, Fragment.text, String.append_assoc]

theorem namedIn_lineFragments (items : List LineItem) :
    namedIn (lineFragments items) = items.flatMap LineItem.registers := by
  induction items with
  | nil => rfl
  | cons item rest ih =>
      cases rest with
      | nil =>
          rw [lineFragments, namedIn_append, List.flatMap_singleton]
          exact List.append_nil _
      | cons next rest =>
          have hrest : lineFragments (item :: next :: rest) =
              item.fragments ++ .plain " ; " :: lineFragments (next :: rest) := rfl
          rw [hrest, namedIn_append, List.flatMap_cons, ← ih]
          rfl

/-- The registers that a line names for a value: a register operand, and the base and the index
of a memory operand. -/
def OperandValue.printedRegs : OperandValue → List Register
  | .reg r => [r]
  | .mem m => [m.base, m.index].filter (· ≠ .absent)
  | _ => []

/-- The register that a line names as the amount of a shift. -/
def Shift.printedRegs (s : Shift) : List Register :=
  match s.kind with
  | some kind => if kind.byRegister ∧ s.amount ≠ 0 then [⟨s.amount.toUInt16⟩] else []
  | .none => []

/-- The registers that the line of a record and its summary names, in order. -/
def Record.printedRegs (r : Record) (access : RegAccess) : List Register :=
  r.operands.toList.flatMap (fun op => op.value.printedRegs ++ op.shift.printedRegs) ++
    access.read.toList.map Register.mk ++ access.write.toList.map Register.mk

section Records

theorem flatMap_itemIf (condition : Bool) (item : LineItem) :
    (itemIf condition item).flatMap LineItem.registers =
      if condition then item.registers else [] := by
  cases condition with
  | false => rfl
  | true => exact List.append_nil _

theorem OperandValue.flatMap_lineItems (value : OperandValue) (i : Nat) :
    (value.lineItems i).flatMap LineItem.registers = value.printedRegs := by
  cases value with
  | mem m =>
      have hbase : (LineItem.memBase i m.base).registers = [m.base] := rfl
      have hindex : (LineItem.memIndex i m.index).registers = [m.index] := rfl
      have hmem : [LineItem.mem i].flatMap LineItem.registers = [] := rfl
      have hscale : (LineItem.memScale i m.scale).registers = [] := rfl
      have hdisp : (LineItem.memDisp i m.disp).registers = [] := rfl
      have hlshift : (LineItem.memShift i m.lshift).registers = [] := rfl
      simp only [lineItems, printedRegs, List.flatMap_append, flatMap_itemIf, hbase, hindex, hmem,
        hscale, hdisp, hlshift, ite_self, List.nil_append, List.append_nil]
      by_cases hb : m.base = .absent <;> by_cases hi : m.index = .absent <;> simp [hb, hi]
  | _ => rfl

theorem Shift.flatMap_lineItems (s : Shift) :
    s.lineItems.flatMap LineItem.registers = s.printedRegs := by
  rw [lineItems, printedRegs]
  cases s.kind with
  | none => rfl
  | some kind =>
      have hshift : (LineItem.shift kind s.amount).registers =
          if kind.byRegister then [⟨s.amount.toUInt16⟩] else [] := by
        cases kind <;> rfl
      simp only [flatMap_itemIf, hshift]
      by_cases hkind : kind.byRegister = true <;> by_cases hamount : s.amount = 0 <;>
        simp [hkind, hamount]

theorem Operand.flatMap_lineItems (op : Operand) (i : Nat) :
    (op.lineItems i).flatMap LineItem.registers =
      op.value.printedRegs ++ op.shift.printedRegs := by
  have hlane : (LineItem.neonLane i op.neonLane).registers = [] := rfl
  have hindex : (LineItem.vectorIndex i op.vectorIndex).registers = [] := rfl
  have hsubtracted : (LineItem.subtracted i).registers = [] := rfl
  have haccess :
      (op.access.label?.map (LineItem.access i)).toList.flatMap LineItem.registers = [] := by
    cases op.access.label? <;> rfl
  simp only [lineItems, List.flatMap_append, flatMap_itemIf, OperandValue.flatMap_lineItems,
    Shift.flatMap_lineItems, hlane, hindex, hsubtracted, haccess, ite_self, List.append_nil]

/-- The items of a line name the printed registers. -/
theorem Record.flatMap_lineItems (r : Record) (access : RegAccess) (groups : List UInt8) :
    (r.lineItems ++ summaryItems access groups).flatMap LineItem.registers =
      r.printedRegs access := by
  have hcondition : (conditionItems r.cc).flatMap LineItem.registers = [] := by
    cases r.cc with
    | none => rfl
    | some cc => exact (flatMap_itemIf _ _).trans (ite_self _)
  have hoperands :
      (r.operands.toList.zipIdx.flatMap fun p => p.1.lineItems p.2).flatMap LineItem.registers =
        r.operands.toList.flatMap fun op => op.value.printedRegs ++ op.shift.printedRegs := by
    rw [List.flatMap_assoc]
    simp only [Operand.flatMap_lineItems]
    exact flatMap_zipIdx _ fun op : Operand => op.value.printedRegs ++ op.shift.printedRegs
  have hread : (LineItem.regsRead (access.read.toList.map Register.mk)).registers =
      access.read.toList.map Register.mk := LineItem.namedIn_listedFragments _ _
  have hwrite : (LineItem.regsWrite (access.write.toList.map Register.mk)).registers =
      access.write.toList.map Register.mk := LineItem.namedIn_listedFragments _ _
  have hlisted (regs : List UInt16) :
      (if (!regs.isEmpty) = true then regs.map Register.mk else []) = regs.map Register.mk := by
    cases regs <;> rfl
  have hcount (n : Nat) : (LineItem.operandCount n).registers = [] := rfl
  have hflags : LineItem.updateFlags.registers = [] := rfl
  have hwriteback : LineItem.writeback.registers = [] := rfl
  have hlayout : (LineItem.itLayout r.itLayout).registers = [] := rfl
  have hgroups : (LineItem.groups groups).registers = [] := rfl
  simp only [lineItems, summaryItems, printedRegs, List.flatMap_append, flatMap_itemIf, hoperands,
    hcondition, hread, hwrite, hlisted, hcount, hflags, hwriteback, hlayout, hgroups, ite_self,
    List.nil_append, List.append_nil, List.append_assoc]

end Records

/-- Asking for numbers respells three registers and changes nothing else. Both lines of a
record are put together from the same fragments, in which the printed registers are named in
order. The line with numbers is longer by one character for each of the three that is printed,
and the lines are the same exactly when none of them is. -/
theorem numeric_line_respells {d : Detail} {r : Record} {spelling : RegSpelling}
    {produced : String} (hr : d.arm? = some r)
    (h : detailLine (some d) spelling = .ok produced) :
    (∃ access fragments, regAccess d = .ok access ∧
      (∀ s, detailLine (some d) s = .ok (spelled s fragments)) ∧
      namedIn fragments = r.printedRegs access ∧
      (spelled .numeric fragments).length = (spelled .conventional fragments).length +
        (r.printedRegs access).countP (· ∈ [.lr, .pc, .sp]) ∧
      (spelled .conventional fragments = spelled .numeric fragments ↔
        ∀ reg ∈ r.printedRegs access, reg ∉ [.lr, .pc, .sp])) ∧
    (Register.lr.label .conventional = "lr" ∧ Register.lr.label .numeric = "r14") ∧
    (Register.pc.label .conventional = "pc" ∧ Register.pc.label .numeric = "r15") ∧
    (Register.sp.label .conventional = "sp" ∧ Register.sp.label .numeric = "r13") ∧
    ∀ reg : Register, reg ∉ [.lr, .pc, .sp] → reg.label .numeric = reg.label .conventional := by
  obtain ⟨access, haccess, -⟩ := exists_summary_of_line hr h
  let items := r.lineItems ++ summaryItems access d.groups.toList
  have hlines (s : RegSpelling) :
      detailLine (some d) s = .ok (spelled s (lineFragments items)) := by
    obtain ⟨line, hline⟩ := detailLine_total hr ⟨access, haccess⟩ s
    obtain ⟨access', haccess', rfl⟩ := exists_summary_of_line hr hline
    obtain rfl : access' = access := Except.ok.inj (haccess'.symm.trans haccess)
    rw [hline, joinItems_eq]
  have hnames : namedIn (lineFragments items) = r.printedRegs access :=
    (namedIn_lineFragments items).trans (r.flatMap_lineItems access d.groups.toList)
  obtain ⟨hlr, hpc, hsp⟩ := Register.label_numbered
  refine ⟨⟨access, lineFragments items, haccess, hlines, hnames, ?_, ?_⟩, hlr, hpc, hsp,
    fun reg => Register.label_numeric_of_notMem⟩
  · rw [← hnames]
    exact length_spelled_numeric _
  · rw [← hnames]
    exact spelled_numeric_eq_iff _

/-- A branch to what is loaded from the stack, at an index that is shifted by a register. Only
the low half of the amount is the number of that register. -/
def stackJump : Record where
  operands := ⟨[{ value := .reg .pc, access := .write },
    { value := .mem { base := .sp, index := .lr }, shift := ⟨some .lslReg, 0x1000A⟩ }],
    List.replicate 34 .blank, rfl, by decide⟩

/-- Each of the three registers is printed with its operand and in the summary, and `lr` once
more as the amount of the shift. -/
theorem numeric_line_respells_stackJump :
    let line := "op_count: 2 ; operands[0].type: REG = pc ; operands[0].access: WRITE ; " ++
      "operands[1].type: MEM ; operands[1].mem.base: REG = sp ; " ++
      "operands[1].mem.index: REG = lr ; Shift: 7 = lr ; " ++
      "Registers read: sp lr ; Registers modified: pc ;"
    let d : Detail := { payload := .arm stackJump }
    detailLine (some d) .conventional = .ok line ∧
      ∃ line', detailLine (some d) .numeric = .ok line' ∧ line'.length = line.length + 7 ∧
        line ≠ line' := by
  intro line d
  let items : List LineItem := [.operandCount 2, .reg 0 .pc, .access 0 "WRITE", .mem 1,
    .memBase 1 .sp, .memIndex 1 .lr, .shift .lslReg 0x1000A, .regsRead [.sp, .lr],
    .regsWrite [.pc]]
  have hitems : lineItems d = .ok items := rfl
  have htext : joinItems (items.map (·.text .conventional)) = line := by decide +kernel
  have hline : detailLine (some d) .conventional = .ok line := by
    simp only [detailLine, hitems, Except.map, htext]
  obtain ⟨⟨access, fragments, haccess, hlines, -, hlength, hsame⟩, -⟩ :=
    numeric_line_respells rfl hline
  cases haccess
  have hspelled : spelled .conventional fragments = line :=
    Except.ok.inj ((hlines .conventional).symm.trans hline)
  rw [hspelled] at hlength hsame
  refine ⟨hline, spelled .numeric fragments, hlines .numeric, hlength, ?_⟩
  intro heq
  exact hsame.mp heq .pc List.mem_cons_self (by decide)

end Disassembly.Arm
