import Disassembly.Proofs.Arm.BaseRegisters
import Disassembly.Proofs.Arm.RegSummary

/-!
# Write-back in the register summary

A record is marked as writing its base back exactly when the walk of its opcode has a step
for that. The base that the walk visits is then both read and written. In a record without
the mark only what is no operand and register operands are written.
-/

namespace Disassembly.Arm

/-- A base is that of a memory operand, or a register that is both read and written. -/
theorem Operand.base?_eq_some {op : Operand} {id : UInt16} (h : op.base? = some id) :
    (∃ m, op.value = .mem m ∧ m.base = ⟨id⟩) ∨
      op.value = .reg ⟨id⟩ ∧ op.access = .readWrite := by
  rw [Operand.base?] at h
  cases hvalue : op.value with
  | mem m =>
      rw [hvalue] at h
      cases h
      exact .inl ⟨m, rfl, rfl⟩
  | reg r =>
      rw [hvalue] at h
      dsimp only at h
      split at h
      next haccess =>
          cases h
          exact .inr ⟨rfl, haccess⟩
      next => cases h
  | invalid | imm value | pimm value | cimm value | pred value | sysreg r =>
      rw [hvalue] at h
      cases h

/-- A base that an operand bears is read, and it is written if it is written back. -/
theorem Operand.mem_of_base {op : Operand} {id : UInt16} (hbase : op.base? = some id)
    (hid : id ≠ 0) : id ∈ op.readRegs ∧ id ∈ op.writtenRegs true := by
  have hpresent : (⟨id⟩ : Register) ≠ .absent := fun habsent => hid (congrArg Register.id habsent)
  rcases Operand.base?_eq_some hbase with ⟨m, hvalue, hm⟩ | ⟨hvalue, haccess⟩
  · simp only [Operand.readRegs, Operand.writtenRegs, hvalue, hm]
    constructor
    · exact List.mem_filter.mpr ⟨List.mem_cons_self, decide_eq_true hid⟩
    · rw [if_pos ⟨trivial, hpresent⟩]
      exact List.mem_cons_self
  · have hboth : Access.readWrite.reads = true ∧ Access.readWrite.writes = true := by decide
    simp only [Operand.readRegs, Operand.writtenRegs, hvalue, haccess]
    constructor
    · rw [if_pos ⟨hpresent, hboth.1⟩]
      exact List.mem_cons_self
    · rw [if_pos ⟨hpresent, hboth.2⟩]
      exact List.mem_cons_self

theorem mem_baseRegs {ops : List Operand} {id : UInt16} :
    id ∈ baseRegs ops ↔ ∃ op ∈ ops, op.base? = some id := by
  rw [baseRegs, List.mem_filterMap]
  constructor
  · rintro ⟨base, hbase, rfl⟩
    exact List.mem_map.mp hbase
  · rintro ⟨op, hop, hbase⟩
    exact ⟨some id, hbase ▸ List.mem_map_of_mem hop, rfl⟩

/-- Without write-back an operand writes only a register that it is. -/
theorem Operand.eq_of_mem_writtenRegs {op : Operand} {id : UInt16}
    (h : id ∈ op.writtenRegs false) : op.value = .reg ⟨id⟩ ∧ op.access.writes = true := by
  rw [Operand.writtenRegs] at h
  cases hvalue : op.value with
  | reg r =>
      rw [hvalue] at h
      dsimp only at h
      split at h
      next hwrites =>
          rw [List.mem_singleton.mp h]
          exact ⟨rfl, hwrites.2⟩
      next => cases h
  | mem m =>
      rw [hvalue] at h
      cases h
  | invalid | imm value | pimm value | cimm value | pred value | sysreg r =>
      rw [hvalue] at h
      cases h

section Summary
variable {d : Detail} {r : Record} {access : RegAccess} {id : UInt16}

/-- The bases of a record with write-back are read and written. -/
theorem mem_access_of_base (h : d.arm? = some r) (haccess : regAccess d = .ok access)
    (hback : r.writeback = true) (hborne : id ∈ baseRegs r.operands.toList) (hid : id ≠ 0) :
    id ∈ access.read.toList ∧ id ∈ access.write.toList := by
  obtain ⟨hread, hwrite⟩ := regAccess_lists h haccess
  obtain ⟨op, hop, hbase⟩ := mem_baseRegs.mp hborne
  constructor
  · rw [hread, List.mem_eraseDups, readRegs]
    exact List.mem_append_right _
      (List.mem_flatMap.mpr ⟨op, hop, (Operand.mem_of_base hbase hid).1⟩)
  · rw [hwrite, List.mem_eraseDups, writtenRegs, hback]
    exact List.mem_append_right _
      (List.mem_flatMap.mpr ⟨op, hop, (Operand.mem_of_base hbase hid).2⟩)

/-- What a record without write-back writes is no operand or a register operand. -/
theorem of_mem_write (h : d.arm? = some r) (haccess : regAccess d = .ok access)
    (hback : r.writeback = false) (hwritten : id ∈ access.write.toList) :
    id ∈ d.regsWrite.toList ∨
      ∃ op ∈ r.operands.toList, op.value = .reg ⟨id⟩ ∧ op.access.writes = true := by
  rw [(regAccess_lists h haccess).2, List.mem_eraseDups, writtenRegs, hback,
    List.mem_append] at hwritten
  rcases hwritten with himplicit | hoperand
  · exact .inl himplicit
  · obtain ⟨op, hop, hid⟩ := List.mem_flatMap.mp hoperand
    exact .inr ⟨op, hop, Operand.eq_of_mem_writtenRegs hid⟩

end Summary

/-- A walk that writes back visits one base. -/
theorem exists_base {o : Opcode} (h : .writeback ∈ o.walk) : ∃ slot, o.bases = [slot] := by
  have hone : .writeback ∈ o.walk → o.bases.length = 1 := by
    cases o <;> decide
  exact List.length_eq_one_iff.mp (hone h)

theorem any_writesBack_iff (steps : List Step) :
    steps.any (·.writesBack) = true ↔ .writeback ∈ steps := by
  rw [List.any_eq_true]
  constructor
  · rintro ⟨s, hs, hback⟩
    cases s with
    | writeback => exact hs
    | _ => cases hback
  · intro hs
    exact ⟨_, hs, rfl⟩

/-- Write-back as a built record and its register summary show it. -/
structure WriteBack (inst : RawInst) (o : Opcode) (d : Detail) (record : Record)
    (access : RegAccess) : Prop where
  writeback_iff : record.writeback = true ↔ .writeback ∈ o.walk
  /-- The walk visits one base, and this base is read and written unless it is absent. -/
  base_of_writeback : record.writeback = true →
    ∃ slot id, o.bases = [slot] ∧ inst.operand slot = .reg id ∧
      (id ≠ 0 → id ∈ access.read.toList ∧ id ∈ access.write.toList)
  /-- What is written is no operand, or it is a register operand that is written. So the
  base and the index of a memory operand are not, unless they are one of these. -/
  of_not_writeback : record.writeback = false → ∀ id ∈ access.write.toList,
    id ∈ d.regsWrite.toList ∨
      ∃ op ∈ record.operands.toList, op.value = .reg ⟨id⟩ ∧ op.access.writes = true

/-- A built record writes back exactly where the walk of its opcode says so, and its
register summary shows it. -/
theorem build_writeBack {inst : RawInst} {d d' : Detail} {features : Features} {m : Mnemonic}
    (h : build inst d features = .ok (some m, d')) :
    ∃ o record access, Opcode.ofWord? inst.opcode = some o ∧ d'.arm? = some record ∧
      regAccess d' = .ok access ∧ WriteBack inst o d' record access := by
  obtain ⟨o, facts, start, record, access, ho, -, -, hrecord, -, hpayload, haccess⟩ :=
    build_some_parts h
  have hback : record.writeback = true ↔ .writeback ∈ o.walk := by
    rw [(buildOperands_marked ho rfl hrecord).2, Bool.false_or, any_writesBack_iff]
  refine ⟨o, record, access, ho, hpayload, haccess, hback, ?_, ?_⟩
  · intro hset
    obtain ⟨slot, hslot⟩ := exists_base (hback.mp hset)
    obtain ⟨id, hraw, hborne⟩ := buildOperands_bears ho rfl hrecord slot
      (hslot ▸ List.mem_cons_self)
    exact ⟨slot, id, hslot, hraw, mem_access_of_base hpayload haccess hset hborne⟩
  · intro hset id hwritten
    exact of_mem_write hpayload haccess hset hwritten

/-- A load of several registers that writes its base back and has the base among the
registers that it loads. -/
def loadOverBase : RawInst where
  opcode := Opcode.tLdmiaUpd.word
  operands := ⟨[.reg 66, .reg 67, .imm 14, .reg 0, .reg 68, .reg 67],
    List.replicate 42 .invalid, rfl, by decide⟩
  address := 0
  mode := .thumb

theorem build_writeBack_loadOverBase :
    ∃ m d' record access, build loadOverBase .x86 .all = .ok (some m, d') ∧
      record.writeback = true ∧ 67 ∈ access.read.toList ∧ 67 ∈ access.write.toList ∧
      WriteBack loadOverBase .tLdmiaUpd d' record access := by
  obtain ⟨m, d', h⟩ : ∃ m d', build loadOverBase .x86 .all = .ok (some m, d') :=
    ⟨_, _, rfl⟩
  obtain ⟨o, record, access, ho, -, -, hwrite⟩ := build_writeBack h
  cases ho
  have hset : record.writeback = true := hwrite.writeback_iff.mpr (by decide)
  obtain ⟨slot, id, hslot, hraw, hlisted⟩ := hwrite.base_of_writeback hset
  cases hslot
  cases hraw
  obtain ⟨hread, hwritten⟩ := hlisted (by decide)
  exact ⟨m, d', record, access, h, hset, hread, hwritten, hwrite⟩

end Disassembly.Arm
