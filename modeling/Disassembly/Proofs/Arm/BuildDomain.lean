import Disassembly.Proofs.Arm.BuildRun

/-!
# The domain of a build

Whether a build gives a record, gives none or fails is decided by the instruction
alone: by the facts of its opcode, and by what the walk of its opcode finds in its raw
operands. Features and the record before have no part in it.
-/

namespace Disassembly.Arm

variable {inst : RawInst} {o : Opcode} {facts : Facts}

/-- A build of an opcode with facts gives a record to an instruction that can be built,
or fails for a reason that the instruction has. -/
theorem build_ends (ho : Opcode.ofWord? inst.opcode = some o)
    (hfacts : Facts.ofOpcode? o = some facts) (d : Detail) (features : Features) :
    Ends (fun result => result.1 = some facts.mnemonic ∧ Buildable o inst)
      (Fails o inst .closed 0 o.walk) (build inst d features) := by
  obtain ⟨finish, -, hbuild⟩ := build_eq_operands ho hfacts d features
  let start : Record := { updateFlags := facts.setsFlags }
  have hat : (Draft.ofRecord start).At .closed 0 := Draft.at_ofRecord rfl
  have hoperands := (buildOperands_alike ho rfl features).ends
    (run_ends ho o.walk (walk_fits o inst) hat)
    (A := fun _ => Buildable o inst) fun _ d' _ ⟨haccepts, hclosed⟩ => by
      have hle := hclosed.le
      rw [Nat.zero_add] at hle
      exact ⟨haccepts, hle⟩
  rw [hbuild]
  exact hoperands.bind fun r hbuildable => .ok ⟨rfl, hbuildable⟩

/-- A word with facts is that of an opcode with facts. -/
theorem exists_facts (h : Facts.ofWord? inst.opcode ≠ none) :
    ∃ o facts, Opcode.ofWord? inst.opcode = some o ∧ Facts.ofOpcode? o = some facts := by
  obtain ⟨facts, hfacts⟩ := Option.ne_none_iff_exists'.mp h
  obtain ⟨o, ho, hfacts⟩ := Option.bind_eq_some_iff.mp hfacts
  exact ⟨o, facts, ho, hfacts⟩

/-- A build gives nothing exactly to the words without facts. -/
theorem build_none_iff (inst : RawInst) (d : Detail) (features : Features) :
    (∃ d', build inst d features = .ok (none, d')) ↔ Facts.ofWord? inst.opcode = none := by
  constructor
  · rintro ⟨d', hbuild⟩
    by_cases hnone : Facts.ofWord? inst.opcode = none
    · exact hnone
    · obtain ⟨o, facts, ho, hfacts⟩ := exists_facts hnone
      cases ((build_ends ho hfacts d features).of_ok hbuild).1
  · intro hnone
    exact ⟨d.resetArm, build_eq_none hnone d features⟩

/-- A build gives a record exactly to the instructions that can be built. -/
theorem build_some_iff (ho : Opcode.ofWord? inst.opcode = some o)
    (hfacts : Facts.ofOpcode? o = some facts) (d : Detail) (features : Features) :
    (∃ m d', build inst d features = .ok (some m, d')) ↔ Buildable o inst := by
  have hends := build_ends ho hfacts d features
  constructor
  · rintro ⟨m, d', hbuild⟩
    exact (hends.of_ok hbuild).2
  · intro hbuildable
    cases hbuild : build inst d features with
    | error fault => exact absurd hbuildable (hends.of_error hbuild).not_buildable
    | ok result =>
        obtain ⟨hname, -⟩ := hends.of_ok hbuild
        exact ⟨facts.mnemonic, result.2, by rw [← hname]⟩

/-- The mask of a bit field insert is a group without detail. -/
theorem not_buildable_t2bfi (inst : RawInst) : ¬ Buildable .t2bfi inst := by
  intro hbuildable
  have hmask : .classify (.unmapped (.plain .bitfieldInvMaskImm)) 3 ∈ Opcode.t2bfi.walk := by
    decide
  exact (hbuildable.accepts _ hmask).inRange

/-- A build that fails has a reason for it in the instruction. -/
theorem build_fails {d : Detail} {features : Features} {fault : Fault}
    (hbuild : build inst d features = .error fault) :
    ∃ o, Opcode.ofWord? inst.opcode = some o ∧ Fails o inst .closed 0 o.walk fault := by
  have hsome : Facts.ofWord? inst.opcode ≠ none := by
    intro hnone
    rw [build_eq_none hnone d features] at hbuild
    cases hbuild
  obtain ⟨o, facts, ho, hfacts⟩ := exists_facts hsome
  exact ⟨o, ho, (build_ends ho hfacts d features).of_error hbuild⟩

/-- The exact domain of a build, for any record before and any features. A word
without facts gives nothing and does not fail. A bit field insert always fails. Any
other opcode gives a record exactly to the instructions that can be built. Every
failure names a raw operand of the wrong kind, a code or a mask out of range or a group
without detail that the walk really meets, or the operands are too many. -/
theorem build_domain (inst : RawInst) (d : Detail) (features : Features) :
    ((∃ d', build inst d features = .ok (none, d')) ↔
      Facts.ofWord? inst.opcode = none) ∧
    (Opcode.ofWord? inst.opcode = some .t2bfi →
      ∃ fault, build inst d features = .error fault) ∧
    (∀ o facts, Opcode.ofWord? inst.opcode = some o → Facts.ofOpcode? o = some facts →
      ((∃ m d', build inst d features = .ok (some m, d')) ↔ Buildable o inst)) ∧
    (∀ fault, build inst d features = .error fault →
      ∃ o, Opcode.ofWord? inst.opcode = some o ∧ Fails o inst .closed 0 o.walk fault) := by
  have hinsert (ho : Opcode.ofWord? inst.opcode = some .t2bfi) :
      ∃ fault, build inst d features = .error fault := by
    cases hbuild : build inst d features with
    | error fault => exact ⟨fault, rfl⟩
    | ok result =>
        have hbuildable := ((build_ends ho rfl d features).of_ok hbuild).2
        exact absurd hbuildable (not_buildable_t2bfi inst)
  have hrecord (o : Opcode) (facts : Facts) (ho : Opcode.ofWord? inst.opcode = some o)
      (hfacts : Facts.ofOpcode? o = some facts) := build_some_iff ho hfacts d features
  exact ⟨build_none_iff inst d features, hinsert, hrecord, fun _ hbuild => build_fails hbuild⟩

theorem build_domain_laneLoad :
    Buildable .vld1lnd8 laneLoad ∧
      ∃ m d', build laneLoad Detail.x86 .all = .ok (some m, d') := by
  have hbuildable : Buildable .vld1lnd8 laneLoad := by
    decide
  obtain ⟨-, -, hdomain, -⟩ := build_domain laneLoad Detail.x86 .all
  exact ⟨hbuildable, (hdomain .vld1lnd8 _ rfl rfl).mpr hbuildable⟩

end Disassembly.Arm
