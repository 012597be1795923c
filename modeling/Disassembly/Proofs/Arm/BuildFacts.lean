import Disassembly.Proofs.Arm.BuildRun

/-!
# Facts of an opcode in a built record

A build names the mnemonic of the opcode and puts the groups of the opcode into the
record, whatever the raw operands are and whatever the record held.
-/

namespace Disassembly.Arm

/-- The groups of an instruction: those of its facts, and last that of the jumps if it
branches. -/
def Facts.allGroups (facts : Facts) : List Group :=
  facts.groups ++ if facts.isJump then [.jump] else []

variable {inst : RawInst} {o : Opcode} {facts : Facts} {d d' : Detail} {features : Features}
  {m : Option Mnemonic}

/-- What a record held before has no part in a build. -/
theorem build_forgets (inst : RawInst) (d e : Detail) (features : Features) :
    build inst d features = build inst e features := rfl

/-- A build names the mnemonic of the opcode, if it has one. -/
theorem build_mnemonic (h : build inst d features = .ok (m, d')) :
    m = mnemonic? inst.opcode := by
  cases hword : Facts.ofWord? inst.opcode with
  | none =>
      rw [build_eq_none hword] at h
      cases h
      rw [mnemonic?, hword]
      rfl
  | some facts =>
      obtain ⟨o, ho, hfacts⟩ := Option.bind_eq_some_iff.mp hword
      obtain ⟨finish, -, hbuild⟩ := build_eq_operands ho hfacts d features
      rw [hbuild] at h
      obtain ⟨record, -, hresult⟩ := bind_eq_ok_iff.mp h
      cases hresult
      rw [mnemonic?, hword]
      rfl

/-- No opcode lists the group of the jumps among its own. -/
theorem addTo_groups (hfacts : Facts.ofOpcode? o = some facts)
    (h : facts.addTo Detail.arm = .ok d) :
    d.groups.toList = facts.allGroups.map (·.id) := by
  cases o <;> cases hfacts <;> cases h <;> rfl

/-- Noting the flags adds to the registers written and changes nothing else. -/
theorem noteFlags_keeps {record : Record} (h : noteFlags record d = .ok d') :
    d' = { d with regsWrite := d'.regsWrite } := by
  simp only [noteFlags] at h
  split at h
  · obtain ⟨regs, -, hresult⟩ := bind_eq_ok_iff.mp h
    cases hresult
    rfl
  · cases h
    rfl

/-- A build adds the facts of the opcode to an empty record, then the operands, and then
notes the flags. -/
theorem build_parts (ho : Opcode.ofWord? inst.opcode = some o)
    (hfacts : Facts.ofOpcode? o = some facts) (h : build inst d features = .ok (m, d')) :
    ∃ start record, facts.addTo Detail.arm = .ok start ∧
      buildOperands inst { updateFlags := facts.setsFlags } features = .ok record ∧
      noteFlags record { start with payload := .arm record } = .ok d' := by
  have hword : Facts.ofWord? inst.opcode = some facts := by
    rw [Facts.ofWord?, ho]
    exact hfacts
  obtain ⟨start, hstart, hpayload, -⟩ := addTo_arm hfacts
  have hclassify : classify inst.opcode d.resetArm = .ok (some facts.mnemonic, start) := by
    simp only [classify, hword, Detail.resetArm, hstart]
    rfl
  simp only [build, hclassify, orFault_ok, ok_bind, hpayload] at h
  obtain ⟨record, hrecord, h⟩ := bind_eq_ok_iff.mp h
  obtain ⟨noted, hnoted, hresult⟩ := bind_eq_ok_iff.mp h
  cases hresult
  exact ⟨start, record, hstart, hrecord, orFault_eq_ok_iff.mp hnoted⟩

/-- A built record is in the groups of its opcode. -/
theorem build_groups (ho : Opcode.ofWord? inst.opcode = some o)
    (hfacts : Facts.ofOpcode? o = some facts) (h : build inst d features = .ok (m, d')) :
    d'.groups.toList = facts.allGroups.map (·.id) := by
  obtain ⟨start, record, hstart, -, hnoted⟩ := build_parts ho hfacts h
  have hkeeps : d'.groups = start.groups := by rw [noteFlags_keeps hnoted]
  rw [hkeeps]
  exact addTo_groups hfacts hstart

/-- At most one register is read without being an operand of a built record. -/
theorem build_regsRead_le (ho : Opcode.ofWord? inst.opcode = some o)
    (hfacts : Facts.ofOpcode? o = some facts) (h : build inst d features = .ok (m, d')) :
    d'.regsRead.length ≤ 1 := by
  obtain ⟨start, record, hstart, -, hnoted⟩ := build_parts ho hfacts h
  have hkeeps : d'.regsRead = start.regsRead := by rw [noteFlags_keeps hnoted]
  rw [hkeeps]
  clear hkeeps hnoted h
  cases o <;> cases hfacts <;> cases hstart <;> decide

/-- The words of relative branches are those whose facts have the group, and those facts
are of a branch to a fixed target. -/
theorem isRelativeBranch_iff (word : UInt32) :
    (isRelativeBranch word = true ↔
      ∃ facts, Facts.ofWord? word = some facts ∧ .branchRelative ∈ facts.groups) ∧
    ∀ facts, Facts.ofWord? word = some facts → .branchRelative ∈ facts.groups →
      facts.branch = true ∧ facts.indirectBranch = false := by
  simp only [isRelativeBranch, Facts.ofWord?]
  cases Opcode.ofWord? word with
  | none => simp
  | some o => cases o <;> simp [Opcode.isRelativeBranch, Facts.ofOpcode?, Facts.plain,
      Facts.relative, Facts.conditional, Facts.call, Facts.indirect, Facts.stack]

/-- A built record is in the group of the relative branches exactly when its opcode is
one. -/
theorem build_inGroup_branchRelative (ho : Opcode.ofWord? inst.opcode = some o)
    (hfacts : Facts.ofOpcode? o = some facts) (h : build inst d features = .ok (m, d')) :
    d'.inGroup Group.branchRelative.id = isRelativeBranch inst.opcode := by
  have hgroups : d'.groups.used = facts.allGroups.map (·.id) := build_groups ho hfacts h
  rw [Detail.inGroup, BoundedList.contains, hgroups, isRelativeBranch, ho]
  cases o <;> cases hfacts <;> rfl

end Disassembly.Arm
