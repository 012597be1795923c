import Disassembly.Arm.Build
import Disassembly.Proofs.Arm.DraftSimulation
import Disassembly.Proofs.Arm.WalkRun

/-!
# Builds as runs of drafts

A build of an opcode with facts puts operands into an empty record, and what it does
before and after that never fails. The operands are those of a draft that the walk of
the opcode has been run on.
-/

namespace Disassembly.Arm

section Walk
variable {o : Opcode} {inst : RawInst} {features : Features} {p : Opening} {n : Nat}
  {b b' : Builder} {d d' : Draft} {s : Step}

/-- A step of a walk adds no operand under an open one. -/
theorem mirrors_of_follows (h : Mirrors inst features b d) (hat : d.At p n)
    (h' : Follows inst features b b' d') (hat' : d'.At (s.next p) (n + s.added inst p)) :
    Mirrors inst features b' d' := by
  apply h'.mirrors
  intro hbuilding
  have hopen : s.next p ≠ .closed := by
    apply hat'.opened.mp
    rw [h'.memory_eq, Draft.memory] at hbuilding
    by_cases hsome : d'.opened.isSome = true
    · exact hsome
    · rw [if_neg hsome] at hbuilding
      cases hbuilding
  have hcount := hat.count
  have hcount' := hat'.count
  rw [Step.added_of_next_ne inst hopen] at hcount'
  rw [h.count_eq, h'.count_eq]
  cases p with
  | folded =>
      have hnext : s.next .folded = .folded := by
        cases s with
        | closeMemory => exact absurd rfl hopen
        | _ => rfl
      rw [hnext] at hcount'
      omega
  | closed | fresh =>
      simp only [reduceCtorEq, if_false] at hcount
      omega

/-- A builder and a draft carry out a walk in the same way. -/
theorem run_mirrors (ho : Opcode.ofWord? inst.opcode = some o) (steps : List Step)
    (hfits : StepsFit o inst p n steps) (hat : d.At p n) (h : Mirrors inst features b d) :
    Alike (Mirrors inst features) (b.run steps) (d.run inst features steps) := by
  induction steps generalizing p n b d with
  | nil => exact .ok h
  | cons s rest ih =>
      obtain ⟨hstep, hrest⟩ := hfits
      simp only [Builder.run, Draft.run, List.foldlM_cons]
      apply ((step_follows h s).and_ends (step_ends ho hstep hat)).bind
      rintro b₁ d₁ ⟨hfollows, _, hat₁⟩
      exact ih hrest hat₁ (mirrors_of_follows h hat hfollows hat₁)

end Walk

/-- A record holds the operands and the fields of a draft. -/
def Record.HoldsDraft (r : Record) (d : Draft) : Prop :=
  r.operands.toList = d.committed ∧ r.marks = d.marks

/-- What a build of operands puts into a record is what the walk puts into a draft. -/
theorem buildOperands_alike {o : Opcode} {inst : RawInst}
    (ho : Opcode.ofWord? inst.opcode = some o) {record : Record}
    (hempty : record.operands.toList = []) (features : Features) :
    Alike Record.HoldsDraft (buildOperands inst record features)
      ((Draft.ofRecord record).run inst features o.walk) := by
  have hat := Draft.at_ofRecord hempty
  have hfits := walk_fits o inst
  have hwalk : walk inst.opcode = o.walk := by
    simp only [walk, ho]
  simp only [buildOperands, hwalk]
  have hrun := (run_mirrors ho o.walk hfits hat (mirrors_new inst features record)).and_ends
    (run_ends ho o.walk hfits hat)
  generalize (Builder.new inst record features).run o.walk = x at hrun ⊢
  generalize (Draft.ofRecord record).run inst features o.walk = y at hrun ⊢
  cases hrun with
  | ok related =>
      obtain ⟨hmirrors, -, hclosed⟩ := related
      simp only [ok_bind, Builder.finish, hmirrors.idle hclosed.eq_none, reduceCtorEq, if_false]
      exact .ok ⟨hmirrors.operands_eq, hmirrors.marks_eq⟩
  | error fault => exact .error fault

/-- The facts of every opcode fit into an empty record, with room for one more register
written. -/
theorem addTo_arm {o : Opcode} {facts : Facts} (hfacts : Facts.ofOpcode? o = some facts) :
    ∃ d, facts.addTo Detail.arm = .ok d ∧
      d.payload = .arm { updateFlags := facts.setsFlags } ∧
      d.regsWrite.length < Detail.maxImplicit := by
  cases o <;> cases hfacts <;> exact ⟨_, rfl, rfl, by decide⟩

/-- There is room for the status register. -/
theorem noteFlags_eq_ok (record : Record) {d : Detail} (hpayload : d.payload = .arm record)
    (hroom : d.regsWrite.length < Detail.maxImplicit) :
    ∃ d', noteFlags record d = .ok d' ∧ d'.arm? = some record := by
  simp only [noteFlags]
  by_cases hnote : (record.updateFlags && !d.writes Register.cpsr.id) = true
  · obtain ⟨r, hr, -⟩ := (d.regsWrite.push_eq_ok_iff (by decide) Register.cpsr.id).mpr hroom
    rw [if_pos hnote, hr]
    exact ⟨_, rfl, by simp only [Detail.arm?, hpayload]⟩
  · rw [if_neg hnote]
    exact ⟨d, rfl, by simp only [Detail.arm?, hpayload]⟩

/-- A word without facts gets an empty record. -/
theorem build_eq_none {inst : RawInst} (h : Facts.ofWord? inst.opcode = none) (d : Detail)
    (features : Features) : build inst d features = .ok (none, d.resetArm) := by
  simp only [build, classify, h]
  rfl

/-- A build of an opcode with facts builds operands into an empty record. What it does
afterwards does not fail and keeps the operands. -/
theorem build_eq_operands {inst : RawInst} {o : Opcode} {facts : Facts}
    (ho : Opcode.ofWord? inst.opcode = some o) (hfacts : Facts.ofOpcode? o = some facts)
    (d : Detail) (features : Features) :
    ∃ finish : Record → Detail, (∀ r, (finish r).arm? = some r) ∧
      build inst d features =
        buildOperands inst { updateFlags := facts.setsFlags } features >>= fun r =>
          .ok (some facts.mnemonic, finish r) := by
  have hword : Facts.ofWord? inst.opcode = some facts := by
    rw [Facts.ofWord?, ho]
    exact hfacts
  obtain ⟨start, hstart, hpayload, hroom⟩ := addTo_arm hfacts
  have hnote (r : Record) : ∃ d', noteFlags r { start with payload := .arm r } = .ok d' ∧
      d'.arm? = some r := noteFlags_eq_ok r rfl hroom
  obtain ⟨finish, hfinish⟩ := Classical.axiomOfChoice hnote
  have hclassify : classify inst.opcode d.resetArm = .ok (some facts.mnemonic, start) := by
    simp only [classify, hword, Detail.resetArm, hstart]
    rfl
  have hrest (r : Record) :
      orFault (noteFlags r { start with payload := .arm r }) >>= (fun d' =>
        .ok (some facts.mnemonic, d')) = .ok (some facts.mnemonic, finish r) := by
    rw [(hfinish r).1]
    rfl
  refine ⟨finish, ?_, ?_⟩
  · intro r
    exact (hfinish r).2
  · simp only [build, hclassify, orFault_ok, ok_bind, hpayload]
    exact bind_congr hrest

end Disassembly.Arm
