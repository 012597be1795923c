import Mathlib.Data.List.Count
import Mathlib.Data.List.Nodup
import Mathlib.Tactic.SplitIfs
import Disassembly.Proofs.Arm.Marks
import Disassembly.Proofs.Arm.RegSummary
import Disassembly.Proofs.BoundedList.Slots

/-!
# Flags and branches in a built record

What a record says of the flags is decided in three places: by the facts of the opcode, by
the flag setters of its walk, and last by the note that an instruction which updates the
flags writes the status register. The lists of a built record name no register and no group
twice, so the status register and the group of the jumps are there once or not at all.
-/

namespace Disassembly

/-- Adding one by one appends. -/
theorem BoundedList.toList_pushAll {α : Type} {n : Nat} {l r : BoundedList α n}
    {items : List α} (h : l.pushAll items = .ok r) : r.toList = l.toList ++ items := by
  induction items generalizing l with
  | nil =>
      cases h
      exact (List.append_nil _).symm
  | cons a rest ih =>
      obtain ⟨next, hnext, h⟩ := bind_eq_ok_iff.mp h
      rw [ih h, BoundedList.toList_push hnext, List.append_assoc, List.singleton_append]

namespace Arm

theorem Group.id_injective : Function.Injective Group.id := by
  intro g g' h
  have hname := congrArg Group.ofId? h
  rw [Group.ofId?_id, Group.ofId?_id] at hname
  exact Option.some_inj.mp hname

theorem Group.id_ne_zero (g : Group) : g.id ≠ 0 := by
  cases g <;> decide

/-- The numbers of the registers that are there. -/
def presentIds (regs : List Register) : List UInt16 := (regs.filter (· ≠ .absent)).map (·.id)

theorem zero_notMem_presentIds (regs : List Register) : 0 ∉ presentIds regs := by
  intro hmem
  obtain ⟨r, hr, hid⟩ := List.mem_map.mp hmem
  have hpresent := of_decide_eq_true (List.mem_filter.mp hr).2
  exact hpresent (congrArg Register.mk hid)

theorem mem_presentIds {regs : List Register} {r : Register} (hr : r ≠ .absent) :
    r.id ∈ presentIds regs ↔ r ∈ regs := by
  constructor
  · intro hmem
    obtain ⟨r', hr', hid⟩ := List.mem_map.mp hmem
    have heq : r' = r := congrArg Register.mk hid
    rw [← heq]
    exact (List.mem_filter.mp hr').1
  · intro hmem
    exact List.mem_map.mpr ⟨r, List.mem_filter.mpr ⟨hmem, decide_eq_true hr⟩, rfl⟩

/-- The facts of an opcode added to a record with the registers and the groups at the end
of its lists. -/
structure Facts.Added (facts : Facts) (d d' : Detail) : Prop where
  regsRead : d'.regsRead.toList = d.regsRead.toList ++ presentIds facts.reads
  regsWrite : d'.regsWrite.toList = d.regsWrite.toList ++ presentIds facts.writes

theorem Facts.addTo_added {facts : Facts} {d d' : Detail} (h : facts.addTo d = .ok d') :
    facts.Added d d' := by
  obtain ⟨regsRead, hread, h⟩ := bind_eq_ok_iff.mp h
  obtain ⟨regsWrite, hwrite, h⟩ := bind_eq_ok_iff.mp h
  obtain ⟨groups, -, h⟩ := bind_eq_ok_iff.mp h
  have hread := BoundedList.toList_pushAll hread
  have hwrite := BoundedList.toList_pushAll hwrite
  dsimp only at h
  split_ifs at h
  · obtain ⟨jumps, -, h⟩ := bind_eq_ok_iff.mp h
    cases h
    exact ⟨hread, hwrite⟩
  · cases h
    exact ⟨hread, hwrite⟩

/-- Facts that name no register and no group twice, and that leave the group of the jumps
to be added. -/
structure Facts.Distinct (facts : Facts) : Prop where
  reads : (presentIds facts.reads).Nodup
  writes : (presentIds facts.writes).Nodup
  groups : facts.allGroups.Nodup
  jump : .jump ∉ facts.groups

section Build
variable {inst : RawInst} {o : Opcode} {facts : Facts} {d d' : Detail} {features : Features}
  {record : Record} {m : Option Mnemonic}

theorem ofOpcode?_distinct (hfacts : Facts.ofOpcode? o = some facts) : facts.Distinct := by
  cases o <;> cases hfacts <;> exact ⟨by decide, by decide, by decide, by decide⟩

/-- The group of the jumps is there exactly for a branch of any kind. -/
theorem count_jump (hfacts : Facts.ofOpcode? o = some facts) :
    (facts.allGroups.map (·.id)).count Group.jump.id = if facts.isJump then 1 else 0 := by
  have hdistinct := ofOpcode?_distinct hfacts
  rw [List.count_map_of_injective _ _ Group.id_injective, hdistinct.groups.count]
  have hmem : .jump ∈ facts.allGroups ↔ facts.isJump := by
    rw [Facts.allGroups, List.mem_append]
    constructor
    · rintro (hown | hadded)
      · exact absurd hown hdistinct.jump
      · by_contra hjump
        rw [if_neg hjump] at hadded
        cases hadded
    · intro hjump
      rw [if_pos hjump]
      exact .inr List.mem_cons_self
  simp only [hmem]

/-- Noting the flags adds the status register where the flags are updated and it is not yet
there. -/
theorem noteFlags_regsWrite (h : noteFlags record d = .ok d') :
    d'.regsWrite.toList = d.regsWrite.toList ++
      if record.updateFlags ∧ Register.cpsr.id ∉ d.regsWrite.toList then [Register.cpsr.id]
      else [] := by
  have hwrites : d.writes Register.cpsr.id = decide (Register.cpsr.id ∈ d.regsWrite.toList) :=
    List.contains_eq_mem _ _
  simp only [noteFlags, hwrites, Bool.and_eq_true, Bool.not_eq_true', decide_eq_false_iff_not]
    at h
  split at h
  next hnote =>
      obtain ⟨regs, hregs, h⟩ := bind_eq_ok_iff.mp h
      cases h
      rw [if_pos hnote]
      exact BoundedList.toList_push hregs
  next hnote =>
      cases h
      rw [if_neg hnote, List.append_nil]

/-- The opcode writes the flags without naming them, or a flag setter of its walk has a
register in its slot. -/
def FlagsSet (facts : Facts) (o : Opcode) (inst : RawInst) : Prop :=
  .cpsr ∈ facts.writes ∨
    ∃ slot id, .classify .flagSetter slot ∈ o.walk ∧ inst.operand slot = .reg id ∧ id ≠ 0

theorem any_setsFlags_iff (steps : List Step) :
    steps.any (·.setsFlags inst) = true ↔
      ∃ slot id, .classify .flagSetter slot ∈ steps ∧ inst.operand slot = .reg id ∧ id ≠ 0 := by
  rw [List.any_eq_true]
  constructor
  · rintro ⟨s, hs, hsets⟩
    simp only [Step.setsFlags] at hsets
    split at hsets
    next slot =>
        cases hraw : inst.operand slot with
        | reg id =>
            rw [hraw] at hsets
            exact ⟨slot, id, hs, hraw, of_decide_eq_true hsets⟩
        | invalid | imm value =>
            rw [hraw] at hsets
            cases hsets
    next => cases hsets
  · rintro ⟨slot, id, hs, hraw, hpresent⟩
    refine ⟨_, hs, ?_⟩
    rw [Step.setsFlags, hraw]
    exact decide_eq_true hpresent

/-- A built record updates the flags exactly when the facts or the walk of its opcode say
so. -/
theorem buildOperands_updateFlags (ho : Opcode.ofWord? inst.opcode = some o)
    (hrecord : buildOperands inst { updateFlags := facts.setsFlags } features = .ok record) :
    record.updateFlags = true ↔ FlagsSet facts o inst := by
  rw [(buildOperands_marked ho rfl hrecord).1, Bool.or_eq_true, any_setsFlags_iff, FlagsSet,
    Facts.setsFlags, List.contains_iff_mem]

/-- The registers written without being an operand name none twice and leave out the one
that is absent. The status register is among them where the flags are updated. -/
structure WritesOnce (d : Detail) (updates : Bool) : Prop where
  nodup : d.regsWrite.toList.Nodup
  zero_notMem : 0 ∉ d.regsWrite.toList
  cpsr_mem_iff : Register.cpsr.id ∈ d.regsWrite.toList ↔ updates = true

theorem WritesOnce.count_cpsr {updates : Bool} (h : WritesOnce d updates) :
    d.regsWrite.toList.count Register.cpsr.id = if updates then 1 else 0 := by
  rw [h.nodup.count]
  simp only [h.cpsr_mem_iff]

/-- The note on the flags follows the facts: a status register that they name is not added
a second time. -/
theorem noteFlags_writesOnce (hdistinct : facts.Distinct)
    (hlist : d.regsWrite.toList = presentIds facts.writes)
    (hflags : .cpsr ∈ facts.writes → record.updateFlags = true)
    (h : noteFlags record d = .ok d') : WritesOnce d' record.updateFlags := by
  have hmem : Register.cpsr.id ∈ d.regsWrite.toList ↔ .cpsr ∈ facts.writes := by
    rw [hlist, mem_presentIds (by decide)]
  have hwrite := noteFlags_regsWrite h
  have hnodup : d.regsWrite.toList.Nodup := by
    rw [hlist]
    exact hdistinct.writes
  have hzero : 0 ∉ d.regsWrite.toList := by
    rw [hlist]
    exact zero_notMem_presentIds facts.writes
  by_cases hnote : record.updateFlags ∧ Register.cpsr.id ∉ d.regsWrite.toList
  · obtain ⟨hupdates, hnew⟩ := hnote
    rw [if_pos ⟨hupdates, hnew⟩] at hwrite
    constructor
    · rw [hwrite]
      exact List.nodup_append_comm.mp (List.nodup_cons.mpr ⟨hnew, hnodup⟩)
    · rw [hwrite, List.mem_append, List.mem_singleton, not_or]
      exact ⟨hzero, by decide⟩
    · rw [hwrite, List.mem_append]
      exact iff_of_true (.inr List.mem_cons_self) hupdates
  · rw [if_neg hnote, List.append_nil] at hwrite
    constructor
    · rw [hwrite]
      exact hnodup
    · rw [hwrite]
      exact hzero
    · rw [hwrite]
      constructor
      · intro hold
        exact hflags (hmem.mp hold)
      · intro hupdates
        by_contra hnew
        exact hnote ⟨hupdates, hnew⟩

/-- What a record and its register summary say of the flags and of branches. -/
structure FlagEffects (inst : RawInst) (o : Opcode) (facts : Facts) (d : Detail)
    (record : Record) (access : RegAccess) : Prop where
  /-- The status register is written once or not at all. -/
  count_cpsr : d.regsWrite.toList.count Register.cpsr.id = if record.updateFlags then 1 else 0
  updateFlags_iff : record.updateFlags = true ↔ FlagsSet facts o inst
  regsRead : d.regsRead.toList.Nodup ∧ 0 ∉ d.regsRead.toList
  regsWrite : d.regsWrite.toList.Nodup ∧ 0 ∉ d.regsWrite.toList
  groups : d.groups.toList.Nodup ∧ 0 ∉ d.groups.toList
  /-- The group of the jumps is there exactly for a branch to a fixed or to a computed
  target. -/
  count_jump : d.groups.toList.count Group.jump.id =
    if facts.branch || facts.indirectBranch then 1 else 0
  cpsr_written : record.updateFlags = true → Register.cpsr.id ∈ access.write.toList

/-- The flags and the branches of a built record agree with each other, with the facts of
the opcode and with its walk, and the register summary lists the status register as
written whenever the flags are updated. -/
theorem build_flag_effects {m : Mnemonic} (h : build inst d features = .ok (some m, d')) :
    ∃ o facts record access, Opcode.ofWord? inst.opcode = some o ∧
      Facts.ofOpcode? o = some facts ∧ d'.arm? = some record ∧ regAccess d' = .ok access ∧
      FlagEffects inst o facts d' record access := by
  obtain ⟨o, facts, start, record, access, ho, hfacts, hstart, hrecord, hnoted, hpayload,
    haccess⟩ := build_some_parts h
  have hdistinct := ofOpcode?_distinct hfacts
  have hadded := Facts.addTo_added hstart
  have hupdates := buildOperands_updateFlags ho hrecord
  have honce : WritesOnce d' record.updateFlags :=
    noteFlags_writesOnce (d := { start with payload := .arm record }) hdistinct
      hadded.regsWrite (fun hmem => hupdates.mpr (.inl hmem)) hnoted
  have hreads : d'.regsRead.toList = presentIds facts.reads := by
    rw [noteFlags_keeps hnoted]
    exact hadded.regsRead
  have hgroups := build_groups ho hfacts h
  refine ⟨o, facts, record, access, ho, hfacts, hpayload, haccess, ?_⟩
  constructor
  case count_cpsr => exact honce.count_cpsr
  case updateFlags_iff => exact hupdates
  case regsRead =>
    rw [hreads]
    exact ⟨hdistinct.reads, zero_notMem_presentIds facts.reads⟩
  case regsWrite => exact ⟨honce.nodup, honce.zero_notMem⟩
  case groups =>
    rw [hgroups]
    refine ⟨hdistinct.groups.map Group.id_injective, ?_⟩
    intro hmem
    obtain ⟨g, -, hzero⟩ := List.mem_map.mp hmem
    exact g.id_ne_zero hzero
  case count_jump =>
    rw [hgroups]
    exact count_jump hfacts
  case cpsr_written =>
    intro hset
    rw [(regAccess_lists hpayload haccess).2, List.mem_eraseDups, writtenRegs]
    exact List.mem_append_left _ (honce.cpsr_mem_iff.mpr hset)

end Build

/-- A move between registers whose flag setter has the status register in its slot. -/
def moveWithFlags : RawInst where
  opcode := Opcode.movr.word
  operands := ⟨[.reg 66, .reg 67, .imm 14, .reg 0, .reg 3], List.replicate 43 .invalid, rfl, by decide⟩
  address := 0
  mode := .arm

theorem build_flag_effects_moveWithFlags :
    ∃ m d' facts record access, build moveWithFlags .x86 .all = .ok (some m, d') ∧
      .cpsr ∉ facts.writes ∧ record.updateFlags = true ∧
      FlagEffects moveWithFlags .movr facts d' record access := by
  obtain ⟨m, d', h⟩ : ∃ m d', build moveWithFlags .x86 .all = .ok (some m, d') :=
    ⟨_, _, rfl⟩
  obtain ⟨o, facts, record, access, ho, hfacts, -, -, heffects⟩ := build_flag_effects h
  cases ho
  cases hfacts
  have hset : FlagsSet (.plain .mov [.isArm]) .movr moveWithFlags :=
    .inr ⟨4, 3, by decide, rfl, by decide⟩
  exact ⟨m, d', _, record, access, h, by decide, heffects.updateFlags_iff.mpr hset, heffects⟩

end Arm

end Disassembly
