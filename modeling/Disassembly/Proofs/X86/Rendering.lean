import Disassembly.Proofs.Outcome
import Disassembly.Proofs.RegAccess.Summary
import Disassembly.Proofs.X86.LineParts
import Disassembly.Proofs.X86.OperandQueries

/-!
# Rendering of x86 records

Any x86 record has a register summary and a line in any mode. The summary lists what the
record reads and writes, each register once. The immediates of the operands stand in the line
one after the other, behind their number, and the line shows no other immediates.
-/

namespace Disassembly.X86

/-- The registers that an operand reads: a register operand by its access, a memory
operand the parts of its address. -/
def Operand.readRegs (op : Operand) : List UInt16 :=
  match op.value with
  | .reg r => if r ≠ .absent ∧ op.access.reads then [r.id] else []
  | .mem m => [m.segment.id, m.base.id, m.index.id].filter (· ≠ 0)
  | _ => []

/-- The registers that an operand writes: a register operand by its access. -/
def Operand.writtenRegs (op : Operand) : List UInt16 :=
  match op.value with
  | .reg r => if r ≠ .absent ∧ op.access.writes then [r.id] else []
  | _ => []

section Operands
variable (op : Operand)

theorem Operand.readsOf_touches : readsOf op.touches = op.readRegs := by
  rw [Operand.touches, Operand.readRegs]
  cases op.value with
  | reg r =>
      by_cases hr : r = .absent
      · simp [hr, readsOf]
      · simp [hr, Disassembly.readsOf_touches]
  | mem m =>
      simp only [readsOf_append, readsOf_readPart]
      by_cases hsegment : m.segment.id = 0 <;> by_cases hbase : m.base.id = 0 <;>
        by_cases hindex : m.index.id = 0 <;> simp [hsegment, hbase, hindex]
  | invalid | imm value => rfl

theorem Operand.writesOf_touches : writesOf op.touches = op.writtenRegs := by
  rw [Operand.touches, Operand.writtenRegs]
  cases op.value with
  | reg r =>
      by_cases hr : r = .absent
      · simp [hr, writesOf]
      · simp [hr, Disassembly.writesOf_touches]
  | mem m => simp only [writesOf_append, writesOf_readPart, List.append_nil]
  | invalid | imm value => rfl

/-- An address has three parts that are read. -/
theorem Operand.length_readRegs_le : op.readRegs.length ≤ 3 := by
  rw [Operand.readRegs]
  cases op.value with
  | reg r =>
      dsimp only
      split <;> simp
  | mem m => exact List.length_filter_le _ _
  | invalid | imm value => simp

theorem Operand.length_writtenRegs_le : op.writtenRegs.length ≤ 1 := by
  rw [Operand.writtenRegs]
  cases op.value with
  | reg r =>
      dsimp only
      split <;> simp
  | invalid | imm value | mem m => simp

end Operands

/-- The registers that an instruction reads, as often as it does: first those that are
no operand. -/
def readRegs (d : Detail) (r : Record) : List UInt16 :=
  d.regsRead.toList ++ r.operands.toList.flatMap (·.readRegs)

/-- The registers that an instruction writes, as often as it does. -/
def writtenRegs (d : Detail) (r : Record) : List UInt16 :=
  d.regsWrite.toList ++ r.operands.toList.flatMap (·.writtenRegs)

section Details
variable (d : Detail) (r : Record)

theorem readsOf_all : readsOf (d.implicitTouches ++ r.touches) = readRegs d r := by
  rw [readsOf_append, readsOf_implicitTouches, Record.touches, readsOf_flatMap, readRegs]
  simp only [Operand.readsOf_touches]

theorem writesOf_all : writesOf (d.implicitTouches ++ r.touches) = writtenRegs d r := by
  rw [writesOf_append, writesOf_implicitTouches, Record.touches, writesOf_flatMap,
    writtenRegs]
  simp only [Operand.writesOf_touches]

/-- At most 20 registers that are no operand and three for each of 8 operands are read. -/
theorem length_readRegs_eraseDups_le : (readRegs d r).eraseDups.length ≤ 44 := by
  have himplicit : d.regsRead.toList.length ≤ 20 := d.regsRead.length_le
  have hoperands : r.operands.toList.length ≤ 8 := r.operands.length_le
  have hread : (r.operands.toList.flatMap (·.readRegs)).length ≤ 3 * r.operands.toList.length :=
    length_flatMap_le _ fun op _ => op.length_readRegs_le
  have hdups := (eraseDups_sublist (readRegs d r)).length_le
  rw [readRegs, List.length_append] at hdups
  rw [readRegs]
  omega

theorem length_writtenRegs_eraseDups_le : (writtenRegs d r).eraseDups.length ≤ 44 := by
  have himplicit : d.regsWrite.toList.length ≤ 20 := d.regsWrite.length_le
  have hoperands : r.operands.toList.length ≤ 8 := r.operands.length_le
  have hwritten : (r.operands.toList.flatMap (·.writtenRegs)).length ≤
      1 * r.operands.toList.length :=
    length_flatMap_le _ fun op _ => op.length_writtenRegs_le
  have hdups := (eraseDups_sublist (writtenRegs d r)).length_le
  rw [writtenRegs, List.length_append] at hdups
  rw [writtenRegs]
  omega

/-- Any x86 record has a summary, which lists what is read and what is written. -/
theorem exists_regAccess {d : Detail} {r : Record} (h : d.x86? = some r) :
    ∃ access, regAccess d = .ok access ∧
      access.read.toList = (readRegs d r).eraseDups ∧
        access.write.toList = (writtenRegs d r).eraseDups := by
  have hroom : ¬ RegAccess.Overfull (d.implicitTouches ++ r.touches) := by
    have hread := length_readRegs_eraseDups_le d r
    have hwritten := length_writtenRegs_eraseDups_le d r
    rw [RegAccess.Overfull, readsOf_all, writesOf_all]
    rintro (hfull | hfull)
    · exact absurd (Nat.lt_of_lt_of_le hfull hread) (by decide)
    · exact absurd (Nat.lt_of_lt_of_le hfull hwritten) (by decide)
  obtain ⟨access, haccess, hsummary⟩ := RegAccess.exists_ofTouches hroom
  refine ⟨access, ?_, ?_, ?_⟩
  · rw [regAccess, h]
    exact haccess
  · rw [hsummary.read, readsOf_all]
  · rw [hsummary.write, writesOf_all]

end Details

/-- What a line shows of the immediates: how many there are, if any, and then each of them as a
64-bit word, counted from 1. -/
def Record.immediateTexts (r : Record) : List String :=
  if r.immediates = [] then []
  else ("imm_count: " ++ Numeral.decimal r.immediates.length) ::
    r.immediates.mapIdx fun k value =>
      "imms[" ++ Numeral.decimal (k + 1) ++ "]: " ++ Numeral.hex value.toUInt64.toNat

theorem Record.map_text_immediateFields (r : Record) :
    r.immediateFields.map (·.text) = r.immediateTexts := by
  rw [r.immediateFields_eq, immediateTexts]
  split
  · rfl
  · rw [List.map_cons, List.mapIdx_eq_zipIdx_map, List.mapIdx_eq_zipIdx_map, List.map_map]
    rfl

/-- The line of a record, part by part. -/
theorem detailLine_parts {d : Detail} {r : Record} {access : RegAccess} (h : d.x86? = some r)
    (haccess : regAccess d = .ok access) (mode : Mode) :
    detailLine (some d) mode = .ok (barred (r.headerFields ++
      (if mode.contains .bits16 then [] else r.sibFields) ++ r.conditionFields ++
      r.immediateFields ++ r.operandFields ++ accessFields access ++
      r.flagFields (d.inGroup Group.fpu.id))) := by
  simp only [detailLine, lineFields, h, haccess]
  rfl

/-- The immediates are one block of a line, and nothing before or behind that block reads as
one. -/
theorem exists_detailLine {d : Detail} {r : Record} (h : d.x86? = some r) (mode : Mode) :
    ∃ front rest, detailLine (some d) mode =
        .ok (barred front ++ barred r.immediateFields ++ barred rest) ∧
      immediatePieces (barred front ++ barred r.immediateFields ++ barred rest) =
        r.immediateFields.map fun field => spaced field.text := by
  obtain ⟨access, haccess, -⟩ := exists_regAccess h
  let sib := if mode.contains .bits16 then [] else r.sibFields
  let front := r.headerFields ++ sib ++ r.conditionFields
  let rest := r.operandFields ++ accessFields access ++ r.flagFields (d.inGroup Group.fpu.id)
  have hsib : AllIn .sib sib := r.sibFields_part.omitted
  refine ⟨front, rest, ?_, ?_⟩
  · rw [detailLine_parts h haccess, ← barred_append, ← barred_append]
    simp only [front, rest, sib, List.append_assoc]
  · rw [← barred_append, ← barred_append, immediatePieces_barred]
    simp only [front, rest, List.flatMap_append, r.headerFields_part.immediates,
      hsib.immediates, r.conditionFields_part.immediates, r.immediateFields_part.immediates,
      r.operandFields_part.immediates, (accessFields_part access).immediates,
      (r.flagFields_part _).immediates]
    simp

/-- Any x86 record renders, whatever it holds. Its register summary lists what it reads
and what it writes, each register where it comes first. The look-up by kind inverts the
count, goes up with the number, and the counts add up. The line shows the immediates of the
operands in order, each of which is found under its number, and nothing else in the line
reads as one. -/
theorem record_renders (d : Detail) (r : Record) (h : d.x86? = some r) :
    (∃ access, regAccess d = .ok access ∧
      access.read.toList = (readRegs d r).eraseDups ∧
      access.write.toList = (writtenRegs d r).eraseDups ∧
      access.read.length ≤ 44 ∧ access.write.length ≤ 44) ∧
    (∀ kind nth i, r.index? kind nth = some i ↔
      1 ≤ nth ∧ nth ≤ r.count kind ∧
        (∃ op, r.operands.get? i = some op ∧ op.value.kind = kind) ∧
        (r.operands.toList.take i).countP (·.value.kind = kind) = nth - 1) ∧
    (∀ kind nth nth' i j, r.index? kind nth = some i → r.index? kind nth' = some j →
      nth < nth' → i < j) ∧
    r.count .invalid + r.count .reg + r.count .imm + r.count .mem = r.operands.length ∧
    (∀ k value, r.immediates[k]? = some value →
      ∃ i op, r.index? .imm (k + 1) = some i ∧ r.operands.get? i = some op ∧
        op.value = .imm value) ∧
    ∀ mode, ∃ line front rest, detailLine (some d) mode = .ok line ∧
      line = front ++ String.join (r.immediateTexts.map (" | " ++ ·)) ++ rest ∧
      immediatePieces line = r.immediateTexts.map spaced := by
  refine ⟨?_, r.index?_eq_some, fun _ _ _ _ _ => Record.index?_lt, r.count_sum,
    fun _ _ => Record.operand_of_immediates, ?_⟩
  · obtain ⟨access, haccess, hread, hwrite⟩ := exists_regAccess h
    refine ⟨access, haccess, hread, hwrite, ?_, ?_⟩
    · have hle := length_readRegs_eraseDups_le d r
      rwa [← hread] at hle
    · have hle := length_writtenRegs_eraseDups_le d r
      rwa [← hwrite] at hle
  · intro mode
    obtain ⟨front, rest, hline, hpieces⟩ := exists_detailLine h mode
    have hblock : barred r.immediateFields =
        String.join (r.immediateTexts.map (" | " ++ ·)) := by
      rw [← r.map_text_immediateFields, List.map_map]
      rfl
    refine ⟨_, barred front, barred rest, hline, by rw [hblock], ?_⟩
    rw [hpieces, ← r.map_text_immediateFields, List.map_map]
    rfl

/-- A record with an operand that nothing was stored in between two immediates, the second
of which is zero, and with an address, a register and bits that have no name. -/
def scattered : Record where
  rex := 0x4f
  eflags := ⟨0xffffffffffffffff⟩
  operands := ⟨[{ value := .reg ⟨0xfff0⟩, access := ⟨0xff⟩ }, { value := .imm (-1) }, {},
    { value := .mem { segment := ⟨11⟩, base := ⟨35⟩, index := ⟨35⟩ } }, { value := .imm 0 }],
    List.replicate 3 { value := .imm 7 }, rfl, by decide⟩

def scatteredDetail : Detail where
  regsRead := ⟨[35], List.replicate 19 0, rfl, by decide⟩
  payload := .x86 scattered

theorem scattered_renders :
    scatteredDetail.x86? = some scattered ∧
    (∃ access, regAccess scatteredDetail = .ok access ∧
      access.read.toList = [35, 0xfff0, 11] ∧ access.write.toList = [0xfff0]) ∧
    scattered.index? .imm 2 = some 4 ∧
    ∃ line front rest, detailLine (some scatteredDetail) .bits64 = .ok line ∧
      line = front ++
        " | imm_count: 2 | imms[1]: 0xffffffffffffffff | imms[2]: 0x0" ++ rest ∧
      immediatePieces line =
        [spaced "imm_count: 2", spaced "imms[1]: 0xffffffffffffffff", spaced "imms[2]: 0x0"] := by
  obtain ⟨⟨access, haccess, hread, hwrite, -⟩, hindex, -, -, -, hlines⟩ :=
    record_renders scatteredDetail scattered rfl
  obtain ⟨line, front, rest, hline, hparts, hpieces⟩ := hlines .bits64
  have htexts : scattered.immediateTexts =
      ["imm_count: 2", "imms[1]: 0xffffffffffffffff", "imms[2]: 0x0"] := by decide +kernel
  have hblock : String.join
      (["imm_count: 2", "imms[1]: 0xffffffffffffffff", "imms[2]: 0x0"].map (" | " ++ ·)) =
        " | imm_count: 2 | imms[1]: 0xffffffffffffffff | imms[2]: 0x0" := by decide +kernel
  rw [htexts] at hparts hpieces
  refine ⟨rfl, ⟨access, haccess, ?_, ?_⟩, ?_, line, front, rest, hline, ?_, hpieces⟩
  · rw [hread]
    decide
  · rw [hwrite]
    decide
  · exact (hindex .imm 2 4).mpr ⟨by decide, by decide, ⟨_, rfl, rfl⟩, by decide⟩
  · rw [hparts, hblock]

end Disassembly.X86
