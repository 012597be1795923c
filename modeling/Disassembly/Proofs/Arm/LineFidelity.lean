import Disassembly.Proofs.Arm.LineMeaning
import Disassembly.Proofs.Arm.WalkFits

/-!
# A line is faithful

Two records with the same line agree on everything that the line tells.
-/

namespace Disassembly.Arm

/-- A value is known by what is said of it if only the usual value goes unsaid. -/
theorem eq_of_said {α : Type} (usual : α) {a b : α}
    (h : ∀ x, a ≠ usual ∧ x = a ↔ b ≠ usual ∧ x = b) : a = b := by
  by_cases ha : a = usual
  · by_cases hb : b = usual
    · rw [ha, hb]
    · exact ((h b).mpr ⟨hb, rfl⟩).2.symm
  · exact ((h a).mp ⟨ha, rfl⟩).2

/-- A label is that of one access only. -/
theorem Access.eq_or_improper {a b : Access} (h : a.label? = b.label?) :
    a = b ∨ ¬ a.Proper ∧ ¬ b.Proper := by
  simp only [Access.label?, Access.Proper] at *
  grind

namespace OperandValue

/-- A value is known by what items say of it. -/
theorem eq_of_shows {v w : OperandValue} (i : Nat)
    (h : ∀ item : LineItem, item.position = some i → (v.Shows item ↔ w.Shows item)) : v = w := by
  cases v with
  | reg r => exact ((h (.reg i r) rfl).mp rfl).symm
  | imm n => exact ((h (.imm i n) rfl).mp rfl).symm
  | pimm n => exact ((h (.pimm i n) rfl).mp rfl).symm
  | cimm n => exact ((h (.cimm i n) rfl).mp rfl).symm
  | pred n => exact ((h (.pred i n) rfl).mp rfl).symm
  | sysreg r => exact ((h (.sysreg i r) rfl).mp rfl).symm
  | mem m =>
      obtain ⟨m', rfl⟩ := (h (.mem i) rfl).mp ⟨m, rfl⟩
      have hbase : m.base = m'.base := eq_of_said .absent fun r => by
        simpa [Shows] using h (.memBase i r) rfl
      have hindex : m.index = m'.index := eq_of_said .absent fun r => by
        simpa [Shows] using h (.memIndex i r) rfl
      have hscale : m.scale = m'.scale := eq_of_said 1 fun n => by
        simpa [Shows] using h (.memScale i n) rfl
      have hdisp : m.disp = m'.disp := eq_of_said 0 fun n => by
        simpa [Shows] using h (.memDisp i n) rfl
      have hlshift : m.lshift = m'.lshift := eq_of_said 0 fun n => by
        simpa [Shows] using h (.memShift i n) rfl
      cases m
      cases m'
      simp_all
  | invalid =>
      cases w with
      | invalid => rfl
      | reg r => exact (h (.reg i r) rfl).mpr rfl
      | imm n => exact (h (.imm i n) rfl).mpr rfl
      | pimm n => exact (h (.pimm i n) rfl).mpr rfl
      | cimm n => exact (h (.cimm i n) rfl).mpr rfl
      | pred n => exact (h (.pred i n) rfl).mpr rfl
      | sysreg r => exact (h (.sysreg i r) rfl).mpr rfl
      | mem m =>
          obtain ⟨m', hm'⟩ := (h (.mem i) rfl).mpr ⟨m, rfl⟩
          exact absurd hm' (by simp)

end OperandValue

/-- Operands that a line tells alike. Shifts are left out, and of an access only which of the
proper ones it is is told. -/
structure Operand.ToldAlike (a b : Operand) : Prop where
  value : a.value = b.value
  neonLane : a.neonLane = b.neonLane
  vectorIndex : a.vectorIndex = b.vectorIndex
  subtracted : a.subtracted = b.subtracted
  access : a.access = b.access ∨ ¬ a.access.Proper ∧ ¬ b.access.Proper

theorem Operand.toldAlike_of_shows {a b : Operand} (i : Nat)
    (h : ∀ item : LineItem, item.position = some i → (a.Shows item ↔ b.Shows item)) :
    a.ToldAlike b := by
  constructor
  · apply OperandValue.eq_of_shows i
    intro item hitem
    -- an item that is about no value says nothing of either value
    cases item with
    | neonLane | vectorIndex | access | shift | subtracted => exact Iff.rfl
    | _ => exact h _ hitem
  · exact eq_of_said noLane fun n => h (.neonLane i n) rfl
  · exact eq_of_said noVectorIndex fun n => h (.vectorIndex i n) rfl
  · exact Bool.eq_iff_iff.mpr (h (.subtracted i) rfl)
  · apply Access.eq_or_improper
    ext label
    exact h (.access i label) rfl

/-- Records that a line tells alike. A condition that always holds is told like none. -/
structure Record.ToldAlike (a b : Record) : Prop where
  count : a.operands.length = b.operands.length
  operand : ∀ i op op', a.operands.get? i = some op → b.operands.get? i = some op' →
    op.ToldAlike op'
  cc : a.cc.getD .al = b.cc.getD .al
  updateFlags : a.updateFlags = b.updateFlags
  writeback : a.writeback = b.writeback
  itLayout : a.itLayout = b.itLayout

section Lines
variable {d d' : Detail} {r r' : Record} {access access' : RegAccess}
  {groups groups' : List UInt8} {spelling : RegSpelling} {line : String}

/-- Only a condition that does not always hold is said. -/
theorem shows_condition_iff (c : Condition) :
    r.Shows access groups (.condition c) ↔ r.cc.getD .al ≠ .al ∧ c = r.cc.getD .al := by
  cases hcc : r.cc with
  | none => simp [Record.Shows, hcc]
  | some cc =>
      simp only [Record.Shows, hcc, Option.some.injEq, Option.getD_some]
      constructor
      · rintro ⟨hc, rfl⟩
        exact ⟨hc, rfl⟩
      · rintro ⟨hcc, rfl⟩
        exact ⟨hcc, rfl⟩

theorem Record.toldAlike_of_shows
    (h : ∀ item : LineItem, (∀ kind amount, item ≠ .shift kind amount) →
      (r.Shows access groups item ↔ r'.Shows access' groups' item)) : r.ToldAlike r' := by
  constructor
  · apply eq_of_said 0
    intro n
    simpa [Shows, BoundedList.length, BoundedList.toList] using h (.operandCount n) (by simp)
  · intro i op op' hop hop'
    apply Operand.toldAlike_of_shows i
    intro item hitem
    have hshift : ∀ kind amount, item ≠ .shift kind amount := by
      rintro kind amount rfl
      cases hitem
    exact (shows_at hop hitem).symm.trans ((h item hshift).trans (shows_at hop' hitem))
  · apply eq_of_said .al
    intro c
    exact (shows_condition_iff c).symm.trans
      ((h (.condition c) (by simp)).trans (shows_condition_iff c))
  · exact Bool.eq_iff_iff.mpr (h .updateFlags (by simp))
  · exact Bool.eq_iff_iff.mpr (h .writeback (by simp))
  · exact eq_of_said 0 fun layout => h (.itLayout layout) (by simp)

/-- No item of a line has a semicolon in its text. -/
theorem semicolon_notMem_of_mem {item : LineItem}
    (hitem : item ∈ r.lineItems ++ summaryItems access groups) (spelling : RegSpelling) :
    ';' ∉ (item.text spelling).toList := by
  apply item.semicolon_notMem_text
  rintro i label rfl
  obtain ⟨i, op, -, -, hlabel⟩ := (r.mem_lineItems access groups).mp hitem
  change op.access.label? = some label at hlabel
  simp only [Access.label?] at hlabel
  split at hlabel
  · cases hlabel
    decide
  · split at hlabel
    · cases hlabel
      decide
    · split at hlabel
      · cases hlabel
        decide
      · cases hlabel

/-- A line is made of the items of the record, of its summary and of the groups. -/
theorem exists_summary_of_line (hr : d.arm? = some r)
    (hline : detailLine (some d) spelling = .ok line) :
    ∃ access, regAccess d = .ok access ∧
      line = joinItems
        ((r.lineItems ++ summaryItems access d.groups.toList).map (·.text spelling)) := by
  obtain ⟨items, hitems, rfl⟩ := map_eq_ok_iff.mp hline
  rw [lineItems, hr] at hitems
  obtain ⟨access, haccess, hreturn⟩ := bind_eq_ok_iff.mp hitems
  cases hreturn
  exact ⟨access, haccess, rfl⟩

/-- Items other than shifts are known by the line that they are written to. -/
theorem shows_iff_of_joinItems_eq
    (h : joinItems ((r.lineItems ++ summaryItems access groups).map (·.text spelling)) =
      joinItems ((r'.lineItems ++ summaryItems access' groups').map (·.text spelling)))
    {item : LineItem} (hshift : ∀ kind amount, item ≠ .shift kind amount) :
    r.Shows access groups item ↔ r'.Shows access' groups' item := by
  have hclean {r : Record} {access : RegAccess} {groups : List UInt8} :
      ∀ t ∈ (r.lineItems ++ summaryItems access groups).map (·.text spelling),
        ';' ∉ t.toList := by
    intro t ht
    obtain ⟨item, hitem, rfl⟩ := List.mem_map.mp ht
    exact semicolon_notMem_of_mem hitem spelling
  have htexts := joinItems_injective hclean hclean h
  have hmem {items items' : List LineItem}
      (htexts : items.map (·.text spelling) = items'.map (·.text spelling))
      (hitem : item ∈ items) : item ∈ items' := by
    obtain ⟨item', hitem', htext⟩ :=
      List.mem_map.mp (htexts ▸ List.mem_map.mpr ⟨item, hitem, rfl⟩)
    rwa [LineItem.text_injective hshift htext.symm]
  rw [← Record.mem_lineItems, ← Record.mem_lineItems]
  exact ⟨hmem htexts, hmem htexts.symm⟩

/-- Records with the same line are told alike, with the same register summary and the same
groups. -/
theorem detailLine_faithful (hr : d.arm? = some r) (hr' : d'.arm? = some r')
    (hline : detailLine (some d) spelling = .ok line)
    (hline' : detailLine (some d') spelling = .ok line) :
    r.ToldAlike r' ∧
    (∃ access access', regAccess d = .ok access ∧ regAccess d' = .ok access' ∧
      access.read.toList = access'.read.toList ∧
      access.write.toList = access'.write.toList) ∧
    d.groups.toList = d'.groups.toList := by
  obtain ⟨access, haccess, rfl⟩ := exists_summary_of_line hr hline
  obtain ⟨access', haccess', hlines⟩ := exists_summary_of_line hr' hline'
  have hshows (item : LineItem) (hshift : ∀ kind amount, item ≠ .shift kind amount) :=
    shows_iff_of_joinItems_eq hlines hshift
  have hregs {regs regs' : List UInt16} (h : regs.map Register.mk = regs'.map Register.mk) :
      regs = regs' := (List.map_inj_right fun _ _ => Register.mk.inj).mp h
  refine ⟨Record.toldAlike_of_shows hshows, ⟨access, access', haccess, haccess', ?_, ?_⟩, ?_⟩
  · apply hregs
    apply eq_of_said []
    intro regs
    simpa [Record.Shows] using hshows (.regsRead regs) (by simp)
  · apply hregs
    apply eq_of_said []
    intro regs
    simpa [Record.Shows] using hshows (.regsWrite regs) (by simp)
  · exact eq_of_said [] fun ids => hshows (.groups ids) (by simp)

end Lines

/-- The record of a load. -/
def usualLoad : Record where
  operands := ⟨[{ value := .reg .r0, access := .write },
    { value := .mem { base := .sp, disp := -8 } }], List.replicate 34 .blank, rfl, by decide⟩

/-- A record that a line tells no different: a condition that always holds, an access without
a label, a shift without a kind and a slot that was used before. -/
def unusualLoad : Record where
  cc := some .al
  vcc := some .thenLanes
  operands := ⟨[{ value := .reg .r0, access := .write },
    { value := .mem { base := .sp, disp := -8 }, access := ⟨4⟩, shift := ⟨none, 3⟩ }],
    { value := .imm 7 } :: List.replicate 33 .blank, rfl, by decide⟩

/-- What is told of both. -/
def loadItems : List LineItem :=
  [.operandCount 2, .reg 0 .r0, .access 0 "WRITE", .mem 1, .memBase 1 .sp, .memDisp 1 (-8),
    .regsRead [.sp], .regsWrite [.r0]]

theorem detailLine_faithful_loads :
    let line := "op_count: 2 ; operands[0].type: REG = r0 ; operands[0].access: WRITE ; " ++
      "operands[1].type: MEM ; operands[1].mem.base: REG = sp ; operands[1].mem.disp: -0x8 ; " ++
      "Registers read: sp ; Registers modified: r0 ;"
    let d : Detail := { payload := .arm usualLoad }
    let d' : Detail := { payload := .arm unusualLoad }
    detailLine (some d) .conventional = .ok line ∧
      detailLine (some d') .conventional = .ok line ∧ usualLoad.ToldAlike unusualLoad := by
  intro line d d'
  have hitems : lineItems d = .ok loadItems := rfl
  have hitems' : lineItems d' = .ok loadItems := rfl
  have htext : joinItems (loadItems.map (·.text .conventional)) = line := by decide +kernel
  have hline : detailLine (some d) .conventional = .ok line := by
    simp only [detailLine, hitems, Except.map, htext]
  have hline' : detailLine (some d') .conventional = .ok line := by
    simp only [detailLine, hitems', Except.map, htext]
  exact ⟨hline, hline', (detailLine_faithful rfl rfl hline hline').1⟩

end Disassembly.Arm
