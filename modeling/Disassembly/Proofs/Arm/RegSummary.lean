import Disassembly.Arm.Line
import Disassembly.Proofs.Arm.BuildDomain
import Disassembly.Proofs.Arm.BuildFacts
import Disassembly.Proofs.Arm.MemoryOperands
import Disassembly.Proofs.RegAccess.Summary

/-!
# The register summary of an ARM record

The summary of any ARM record lists what the record reads and what it writes, each
register once. Only the reads can be too many for it, and those of a built record never
are.
-/

namespace Disassembly.Arm

/-- The registers that an operand reads: a register operand by its access, a memory
operand its base and then its index. -/
def Operand.readRegs (op : Operand) : List UInt16 :=
  match op.value with
  | .reg r => if r ≠ .absent ∧ op.access.reads then [r.id] else []
  | .mem m => [m.base.id, m.index.id].filter (· ≠ 0)
  | _ => []

/-- The registers that an operand writes: a register operand by its access, a memory
operand its base if that is written back. -/
def Operand.writtenRegs (op : Operand) (writeback : Bool) : List UInt16 :=
  match op.value with
  | .reg r => if r ≠ .absent ∧ op.access.writes then [r.id] else []
  | .mem m => if writeback ∧ m.base ≠ .absent then [m.base.id] else []
  | _ => []

section Operands
variable (op : Operand) (writeback : Bool)

theorem Operand.readsOf_touches : readsOf (op.touches writeback) = op.readRegs := by
  rw [Operand.touches, Operand.readRegs]
  cases op.value with
  | reg r =>
      by_cases hr : r = .absent
      · simp [hr, readsOf]
      · simp [hr, Disassembly.readsOf_touches]
  | mem m =>
      have hnone : readsOf (if writeback ∧ m.base ≠ .absent then [.write m.base.id] else []) =
          [] := by
        split <;> rfl
      simp only [readsOf_append, readsOf_readPart, hnone, List.append_nil]
      by_cases hbase : m.base.id = 0 <;> by_cases hindex : m.index.id = 0 <;>
        simp [hbase, hindex]
  | invalid | imm value | pimm value | cimm value | pred value | sysreg r => rfl

theorem Operand.writesOf_touches :
    writesOf (op.touches writeback) = op.writtenRegs writeback := by
  rw [Operand.touches, Operand.writtenRegs]
  cases op.value with
  | reg r =>
      by_cases hr : r = .absent
      · simp [hr, writesOf]
      · simp [hr, Disassembly.writesOf_touches]
  | mem m =>
      simp only [writesOf_append, writesOf_readPart, List.append_nil, List.nil_append]
      split <;> rfl
  | invalid | imm value | pimm value | cimm value | pred value | sysreg r => rfl

/-- Only a memory operand reads two registers. -/
theorem Operand.length_readRegs_le : op.readRegs.length ≤ 1 + memories [op] := by
  rw [Operand.readRegs, memories]
  cases h : op.value with
  | reg r =>
      dsimp only
      split <;> simp
  | mem m =>
      have hle := List.length_filter_le (fun id : UInt16 => id ≠ 0) [m.base.id, m.index.id]
      simpa [h, OperandValue.isMemory] using hle
  | invalid | imm value | pimm value | cimm value | pred value | sysreg r => simp

theorem Operand.length_writtenRegs_le : (op.writtenRegs writeback).length ≤ 1 := by
  rw [Operand.writtenRegs]
  cases op.value with
  | reg r =>
      dsimp only
      split <;> simp
  | mem m =>
      dsimp only
      split <;> simp
  | invalid | imm value | pimm value | cimm value | pred value | sysreg r => simp

end Operands

/-- Operands read at most one register each, and one more for every memory operand. -/
theorem length_readRegs_le (ops : List Operand) :
    (ops.flatMap (·.readRegs)).length ≤ ops.length + memories ops := by
  induction ops with
  | nil => exact Nat.le_refl _
  | cons op rest ih =>
      have hop := op.length_readRegs_le
      have hsplit : memories (op :: rest) = memories [op] + memories rest :=
        memories_append [op] rest
      simp only [List.flatMap_cons, List.length_append, List.length_cons, hsplit]
      omega

/-- The registers that an instruction reads, as often as it does: first those that are
no operand. -/
def readRegs (d : Detail) (r : Record) : List UInt16 :=
  d.regsRead.toList ++ r.operands.toList.flatMap (·.readRegs)

/-- The registers that an instruction writes, as often as it does. -/
def writtenRegs (d : Detail) (r : Record) : List UInt16 :=
  d.regsWrite.toList ++ r.operands.toList.flatMap (·.writtenRegs r.writeback)

section Details
variable {d : Detail} {r : Record}

theorem regAccess_eq (h : d.arm? = some r) :
    regAccess d = RegAccess.ofTouches (d.implicitTouches ++ r.touches) := by
  rw [regAccess, h]
  rfl

theorem readsOf_all (d : Detail) (r : Record) :
    readsOf (d.implicitTouches ++ r.touches) = readRegs d r := by
  rw [readsOf_append, readsOf_implicitTouches, Record.touches, readsOf_flatMap, readRegs]
  simp only [Operand.readsOf_touches]

theorem writesOf_all (d : Detail) (r : Record) :
    writesOf (d.implicitTouches ++ r.touches) = writtenRegs d r := by
  rw [writesOf_append, writesOf_implicitTouches, Record.touches, writesOf_flatMap,
    writtenRegs]
  simp only [Operand.writesOf_touches]

/-- The registers written are never too many: 20 that are no operand and one for each of
36 operands. -/
theorem length_writtenRegs_eraseDups_le (d : Detail) (r : Record) :
    (writtenRegs d r).eraseDups.length ≤ 56 := by
  have himplicit : d.regsWrite.toList.length ≤ 20 := d.regsWrite.length_le
  have hoperands : r.operands.toList.length ≤ 36 := r.operands.length_le
  have hwritten : (r.operands.toList.flatMap (·.writtenRegs r.writeback)).length ≤
      1 * r.operands.toList.length :=
    length_flatMap_le _ fun op _ => op.length_writtenRegs_le r.writeback
  have hdups := (eraseDups_sublist (writtenRegs d r)).length_le
  have hsplit : (writtenRegs d r).length = d.regsWrite.toList.length +
      (r.operands.toList.flatMap (·.writtenRegs r.writeback)).length := List.length_append
  omega

/-- A summary of an ARM record lists what is read and what is written, once each. -/
theorem regAccess_lists {access : RegAccess} (h : d.arm? = some r)
    (haccess : regAccess d = .ok access) :
    access.read.toList = (readRegs d r).eraseDups ∧
      access.write.toList = (writtenRegs d r).eraseDups := by
  rw [regAccess_eq h] at haccess
  have hsummary := RegAccess.ofTouches_summarizes haccess
  rw [← readsOf_all, ← writesOf_all]
  exact ⟨hsummary.read, hsummary.write⟩

/-- There is no summary exactly when too many registers are read. -/
theorem regAccess_eq_error_iff (h : d.arm? = some r) (e : CapacityError) :
    regAccess d = .error e ↔
      e = .full RegAccess.maxRegs ∧ RegAccess.maxRegs < (readRegs d r).eraseDups.length := by
  have hwritten := length_writtenRegs_eraseDups_le d r
  rw [regAccess_eq h, RegAccess.ofTouches_eq_error_iff, RegAccess.Overfull, readsOf_all,
    writesOf_all]
  constructor
  · rintro ⟨he, hread | hwrite⟩
    · exact ⟨he, hread⟩
    · exact absurd (Nat.lt_of_lt_of_le hwrite hwritten) (by decide)
  · rintro ⟨he, hread⟩
    exact ⟨he, .inl hread⟩

/-- A line fails only where there is no summary. -/
theorem detailLine_total (h : d.arm? = some r) (haccess : ∃ access, regAccess d = .ok access)
    (spelling : RegSpelling) : ∃ line, detailLine (some d) spelling = .ok line := by
  obtain ⟨access, haccess⟩ := haccess
  simp only [detailLine, lineItems, h, haccess, ok_bind, pure_eq_ok]
  exact ⟨_, rfl⟩

/-- A record that is not crowded with registers has a summary. -/
theorem exists_regAccess (h : d.arm? = some r)
    (hfew : (readRegs d r).length ≤ RegAccess.maxRegs) : ∃ access, regAccess d = .ok access := by
  cases haccess : regAccess d with
  | ok access => exact ⟨access, rfl⟩
  | error e =>
      have hmany := ((regAccess_eq_error_iff h e).mp haccess).2
      have hdups := (eraseDups_sublist (readRegs d r)).length_le
      omega

end Details

/-- A built record reads few enough registers: at most one that is no operand, one for
each of 36 operands and one more for each of two memory operands. -/
theorem build_readRegs_le {inst : RawInst} {d d' : Detail} {features : Features}
    {m : Option Mnemonic} (h : build inst d features = .ok (m, d')) :
    ∃ r, d'.arm? = some r ∧ (readRegs d' r).length ≤ RegAccess.maxRegs := by
  cases hword : Facts.ofWord? inst.opcode with
  | none =>
      rw [build_eq_none hword] at h
      cases h
      exact ⟨{}, rfl, Nat.zero_le _⟩
  | some facts =>
      obtain ⟨o, ho, hfacts⟩ := Option.bind_eq_some_iff.mp hword
      obtain ⟨start, record, -, hrecord, hnoted⟩ := build_parts ho hfacts h
      have hpayload : d'.arm? = some record := by
        rw [noteFlags_keeps hnoted]
        rfl
      have himplicit : d'.regsRead.toList.length ≤ 1 := build_regsRead_le ho hfacts h
      have hmemories := buildOperands_memories ho rfl hrecord
      have hoperands : record.operands.toList.length ≤ 36 := record.operands.length_le
      have hread := length_readRegs_le record.operands.toList
      refine ⟨record, hpayload, ?_⟩
      change _ ≤ 64
      rw [readRegs, List.length_append]
      omega

/-- A build that names a mnemonic has put the facts and the operands of an opcode into the
record, and the record has a summary. -/
theorem build_some_parts {inst : RawInst} {d d' : Detail} {features : Features}
    {m : Mnemonic} (h : build inst d features = .ok (some m, d')) :
    ∃ o facts start record access, Opcode.ofWord? inst.opcode = some o ∧
      Facts.ofOpcode? o = some facts ∧ facts.addTo Detail.arm = .ok start ∧
      buildOperands inst { updateFlags := facts.setsFlags } features = .ok record ∧
      noteFlags record { start with payload := .arm record } = .ok d' ∧
      d'.arm? = some record ∧ regAccess d' = .ok access := by
  have hword : Facts.ofWord? inst.opcode ≠ none := by
    intro hnone
    rw [build_eq_none hnone] at h
    cases h
  obtain ⟨o, facts, ho, hfacts⟩ := exists_facts hword
  obtain ⟨start, record, hstart, hrecord, hnoted⟩ := build_parts ho hfacts h
  have hpayload : d'.arm? = some record := by
    rw [noteFlags_keeps hnoted]
    rfl
  obtain ⟨r, hr, hfew⟩ := build_readRegs_le h
  obtain ⟨access, haccess⟩ := exists_regAccess hr hfew
  exact ⟨o, facts, start, record, access, ho, hfacts, hstart, hrecord, hnoted, hpayload,
    haccess⟩

/-- The register summary of any ARM record: when there is one, it lists the registers
that are read and those that are written, each where it comes first, those that are no
operand before the operands. There is none exactly when more than 64 registers are read;
at most 56 are ever written. The record of a build has a summary and a line, however
registers are spelled. -/
theorem regAccess_summary :
    (∀ (d : Detail) (r : Record), d.arm? = some r →
      (∀ access, regAccess d = .ok access →
        access.read.toList = (readRegs d r).eraseDups ∧
          access.write.toList = (writtenRegs d r).eraseDups) ∧
      (∀ e, regAccess d = .error e ↔
        e = .full 64 ∧ 64 < (readRegs d r).eraseDups.length) ∧
      (writtenRegs d r).eraseDups.length ≤ 56) ∧
    ∀ (inst : RawInst) (d d' : Detail) (features : Features) (m : Option Mnemonic),
      build inst d features = .ok (m, d') →
        (∃ access, regAccess d' = .ok access) ∧
          ∀ spelling, ∃ line, detailLine (some d') spelling = .ok line := by
  constructor
  · intro d r h
    exact ⟨fun access haccess => regAccess_lists h haccess, regAccess_eq_error_iff h,
      length_writtenRegs_eraseDups_le d r⟩
  · intro inst d d' features m h
    obtain ⟨r, hr, hfew⟩ := build_readRegs_le h
    have haccess := exists_regAccess hr hfew
    exact ⟨haccess, detailLine_total hr haccess⟩

/-- The record of a load from the stack that writes the stack pointer back, and that
names it and a general register twice. -/
def stackLoad : Record where
  writeback := true
  operands := ⟨[{ value := .reg .r0, access := .readWrite },
    { value := .mem { base := .sp, index := ⟨67⟩ }, access := .read }],
    List.replicate 34 .blank, rfl, by decide⟩

def stackLoadDetail : Detail where
  regsRead := ⟨[12, 66], List.replicate 18 0, rfl, by decide⟩
  regsWrite := ⟨[66], List.replicate 19 0, rfl, by decide⟩
  payload := .arm stackLoad

/-- A record with 36 memory operands and no two of their 72 registers equal. -/
def crowded : Record where
  operands := ⟨(List.range 36).map fun i =>
    { value := .mem { base := ⟨.ofNat (i + 1)⟩, index := ⟨.ofNat (i + 37)⟩ } }, [], rfl, by decide⟩

theorem regAccess_summary_stackLoad :
    (∃ access, regAccess stackLoadDetail = .ok access ∧
      access.read.toList = [12, 66, 67] ∧ access.write.toList = [66, 12]) ∧
    regAccess { payload := .arm crowded } = .error (.full 64) ∧
    ∃ m d', build laneLoad Detail.x86 .all = .ok (some m, d') ∧
      (∃ access, regAccess d' = .ok access) ∧
        ∀ spelling, ∃ line, detailLine (some d') spelling = .ok line := by
  refine ⟨?_, ?_, ?_⟩
  · obtain ⟨hlists, -, -⟩ := regAccess_summary.1 stackLoadDetail stackLoad rfl
    obtain ⟨access, haccess⟩ : ∃ access, regAccess stackLoadDetail = .ok access := ⟨_, rfl⟩
    obtain ⟨hread, hwrite⟩ := hlists access haccess
    refine ⟨access, haccess, ?_, ?_⟩
    · rw [hread]
      decide
    · rw [hwrite]
      decide
  · obtain ⟨-, herror, -⟩ := regAccess_summary.1 { payload := .arm crowded } crowded rfl
    exact (herror _).mpr ⟨rfl, by decide +kernel⟩
  · obtain ⟨m, d', h⟩ : ∃ m d', build laneLoad Detail.x86 .all = .ok (some m, d') :=
      ⟨_, _, rfl⟩
    exact ⟨m, d', h, regAccess_summary.2 laneLoad Detail.x86 d' .all (some m) h⟩

end Disassembly.Arm
