import Disassembly.Proofs.Arm.Immediates

/-!
# Marks of a record

A walk marks a record as one that updates the flags, and as one that writes its base back.
Both marks are only ever set: the first one by a flag setter with a register in its slot,
the second one by a step of its own. All other steps leave them as they are.
-/

namespace Disassembly.Arm

namespace Step

/-- A flag setter whose slot holds a register. -/
def setsFlags (inst : RawInst) : Step → Bool
  | .classify .flagSetter slot => (inst.operand slot).reg?.any (· ≠ 0)
  | _ => false

def writesBack : Step → Bool
  | .writeback => true
  | _ => false

/-- What a step leaves of the two marks that are only ever set. -/
structure Marked (inst : RawInst) (s : Step) (m m' : Marks) : Prop where
  updateFlags : m'.updateFlags = (m.updateFlags || s.setsFlags inst)
  writeback : m'.writeback = (m.writeback || s.writesBack)

/-- A step that leaves all marks as they are and is none that sets one. -/
theorem Marked.of_eq {inst : RawInst} {s : Step} {m m' : Marks} (h : m' = m)
    (hflags : s.setsFlags inst = false) (hback : s.writesBack = false) :
    s.Marked inst m m' where
  updateFlags := by rw [hflags, Bool.or_false, h]
  writeback := by rw [hback, Bool.or_false, h]

end Step

section Steps
variable {inst : RawInst} {features : Features} {slot : Nat} {d d' : Draft} {s : Step}

theorem adds_marks {group : OperandGroup}
    (h : groupOperands inst features group slot >>= d.appendAll = .ok d') :
    d'.marks = d.marks := by
  obtain ⟨reads, -, h⟩ := bind_eq_ok_iff.mp h
  obtain ⟨ops, -, rfl⟩ := Draft.appendAll_eq_ok h
  rfl

theorem append_marks {op : Operand} (h : d.append op = .ok d') : d'.marks = d.marks := by
  rw [Draft.append_eq_ok h]

theorem foldLane_marks (h : d.foldLane inst slot = .ok d') : d'.marks = d.marks := by
  obtain ⟨first, last, lane, -, rfl⟩ := Draft.foldLane_eq_ok h
  rfl

theorem readReg_eq_ok_iff {id : UInt16} :
    readReg inst slot = .ok id ↔ inst.operand slot = .reg id := by
  rw [readReg]
  cases inst.operand slot <;> simp [RawOperand.reg?]

theorem classifyGroup_marked {group : OperandGroup}
    (h : d.classifyGroup inst features group slot = .ok d') :
    (Step.classify group slot).Marked inst d.marks d'.marks := by
  cases group with
  | flagSetter =>
      obtain ⟨raw, hraw, h⟩ := bind_eq_ok_iff.mp h
      cases h
      constructor
      · rw [Step.setsFlags, readReg_eq_ok_iff.mp hraw]
        by_cases hzero : raw = 0 <;> simp [Draft.mark, RawOperand.reg?, hzero]
      · exact (Bool.or_false _).symm
  | predicate kind | vectorPredicate | itMask =>
      obtain ⟨value, -, h⟩ := bind_eq_ok_iff.mp h
      cases h
      exact ⟨(Bool.or_false _).symm, (Bool.or_false _).symm⟩
  | alignedAddress =>
      obtain ⟨op, -, h⟩ := bind_eq_ok_iff.mp h
      obtain ⟨op', -, h⟩ := bind_eq_ok_iff.mp h
      obtain ⟨op'', -, h⟩ := bind_eq_ok_iff.mp h
      exact .of_eq (append_marks h) rfl rfl
  | baseAddress =>
      obtain ⟨op, -, h⟩ := bind_eq_ok_iff.mp h
      obtain ⟨op', -, h⟩ := bind_eq_ok_iff.mp h
      exact .of_eq (append_marks h) rfl rfl
  | bareImmediate =>
      simp only [Draft.classifyGroup] at h
      split at h
      · exact .of_eq (foldLane_marks h) rfl rfl
      · exact .of_eq (adds_marks h) rfl rfl
  | generic =>
      obtain ⟨declared, -, h⟩ := bind_eq_ok_iff.mp h
      cases hopened : d.opened with
      | none =>
          simp only [hopened] at h
          exact .of_eq (adds_marks h) rfl rfl
      | some op =>
          simp only [hopened] at h
          split at h
          · obtain ⟨op', -, h⟩ := bind_eq_ok_iff.mp h
            cases h
            exact .of_eq rfl rfl rfl
          · exact .of_eq (adds_marks h) rfl rfl
  | coprocessor | coprocessorRegister | alignedOffset | vectorList size | registerList
  | statusMask | unmapped g => exact .of_eq (adds_marks h) rfl rfl

/-- A step sets the marks that it is there to set, and no others. -/
theorem step_marked (h : d.step inst features s = .ok d') : s.Marked inst d.marks d'.marks := by
  cases s with
  | classify group slot => exact classifyGroup_marked h
  | shiftLeft slot | packedShift slot =>
      obtain ⟨raw, -, h⟩ := bind_eq_ok_iff.mp h
      exact .of_eq (Draft.attachShift_view (·.value) (fun _ _ _ => rfl) h).2.2 rfl rfl
  | openMemory =>
      obtain ⟨op, -, h⟩ := bind_eq_ok_iff.mp h
      cases h
      exact .of_eq rfl rfl rfl
  | closeMemory =>
      simp only [Draft.step, Draft.closeMemory] at h
      cases hopened : d.opened with
      | none =>
          rw [hopened] at h
          cases h
      | some op =>
          rw [hopened] at h
          have hmarks : d'.marks = d.marks := append_marks (d := { d with opened := none }) h
          exact .of_eq hmarks rfl rfl
  | writeback =>
      cases h
      exact ⟨(Bool.or_false _).symm, (Bool.or_true _).symm⟩

/-- A run sets a mark exactly when one of its steps does. -/
theorem run_marked (steps : List Step) (h : d.run inst features steps = .ok d') :
    d'.marks.updateFlags = (d.marks.updateFlags || steps.any (·.setsFlags inst)) ∧
      d'.marks.writeback = (d.marks.writeback || steps.any (·.writesBack)) := by
  induction steps generalizing d with
  | nil =>
      cases h
      exact ⟨(Bool.or_false _).symm, (Bool.or_false _).symm⟩
  | cons s rest ih =>
      simp only [Draft.run, List.foldlM_cons] at h
      obtain ⟨d₁, hd₁, h⟩ := bind_eq_ok_iff.mp h
      have hstep := step_marked hd₁
      obtain ⟨hflags, hback⟩ := ih h
      constructor
      · rw [hflags, hstep.updateFlags, List.any_cons, Bool.or_assoc]
      · rw [hback, hstep.writeback, List.any_cons, Bool.or_assoc]

end Steps

/-- The marks of a record that a build of operands gives: those it started with, and those
that a step of the walk sets. -/
theorem buildOperands_marked {o : Opcode} {inst : RawInst} {features : Features}
    (ho : Opcode.ofWord? inst.opcode = some o) {start record : Record}
    (hempty : start.operands.toList = []) (h : buildOperands inst start features = .ok record) :
    record.updateFlags = (start.updateFlags || o.walk.any (·.setsFlags inst)) ∧
      record.writeback = (start.writeback || o.walk.any (·.writesBack)) := by
  have hrun : Yields
      (fun d => d.marks.updateFlags = (start.updateFlags || o.walk.any (·.setsFlags inst)) ∧
        d.marks.writeback = (start.writeback || o.walk.any (·.writesBack)))
      ((Draft.ofRecord start).run inst features o.walk) := by
    cases hd : (Draft.ofRecord start).run inst features o.walk with
    | error fault => exact .error trivial
    | ok d => exact .ok (run_marked o.walk hd)
  refine ((buildOperands_alike ho hempty features).ends hrun
    (A := fun r => r.marks.updateFlags = _ ∧ r.marks.writeback = _) ?_).of_ok h
  rintro r d ⟨-, hmarks⟩ hmarked
  rw [hmarks]
  exact hmarked

end Disassembly.Arm
