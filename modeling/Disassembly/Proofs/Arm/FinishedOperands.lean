import Disassembly.Proofs.Arm.PlainOperands

/-!
# Operands of finished records

Every operand of a record that a build gives is well formed. Most walks only add plain
operands. Three opcodes have one step each that changes an operand that is already
there, and their walks are followed one by one.
-/

namespace Disassembly.Arm

/-- What holds of the operand at a position of a finished record with so many of them:
it is finished, only the first operand of a lane load has a lane, and only the last
operand of a shifted addition and the memory operand of a shifted load may have a
shift. -/
structure Operand.FinishedAt (o : Opcode) (inst : RawInst) (i count : Nat) (op : Operand) :
    Prop extends op.Finished where
  lane : o = .vld1lnd8 → i = 0 →
    ∃ lane, inst.operand 4 = .imm lane ∧ op.neonLane = lane.toInt8
  noLane : ¬ (o = .vld1lnd8 ∧ i = 0) → op.neonLane = Arm.noLane
  shifted : op.shift.kind ≠ none →
    (o = .addrsi ∧ i + 1 = count) ∨ (o = .t2ldrs ∧ ∃ m, op.value = .mem m)

section Shifts
variable {inst : RawInst} {op : Operand} {d : Draft} {kind : ShiftKind} {imm : UInt32}

/-- A shift by an immediate leaves a plain operand finished, since a rotation through
the carry keeps an amount of 0. -/
theorem shifted_finished (hop : op.Plain) (hkind : kind.byRegister = false) (imm : UInt32) :
    (op.shifted kind imm).Finished := by
  have hamount : op.shift.amount = 0 := by
    rw [hop.unshifted]
    rfl
  have hdecoded : Shift.decodeAmount imm ≠ 0 := by
    simp only [Shift.decodeAmount]
    split
    · decide
    · assumption
  have hshift : (op.shifted kind imm).shift.Finished := by
    cases kind with
    | asr | lsl | lsr | ror => exact hdecoded
    | rrx => exact hamount
    | asrReg | lslReg | lsrReg | rorReg | rrxReg => cases hkind
  exact { hop with shift := hshift }

/-- Shift opcodes name the shifts by an immediate. -/
theorem byRegister_of_ofOpcode? {code : UInt8}
    (h : ShiftKind.ofOpcode? code = some (some kind)) : kind.byRegister = false := by
  simp only [ShiftKind.ofOpcode?] at h
  grind [ShiftKind.byRegister]

theorem readShift_yields (code : UInt8) (imm : UInt32) :
    Yields (fun kind? => ∀ kind, kind? = some kind → kind.byRegister = false)
      (readShift inst code imm) := by
  simp only [readShift]
  rcases hcode : ShiftKind.ofOpcode? code with _ | _ | kind
  · exact .error trivial
  · apply Ends.ok
    intro kind hkind
    cases hkind
  · apply Ends.ok
    intro kind' hkind'
    split at hkind'
    · cases hkind'
    · cases hkind'
      exact byRegister_of_ofOpcode? hcode

/-- With nothing open a shift changes the last operand or nothing. -/
theorem attachShift_last (hopened : d.opened = none) (code : UInt8) (imm : UInt32) :
    Yields
      (fun d' => d' = d ∨ ∃ kind, kind.byRegister = false ∧ d'.committed =
        d.committed.modify (d.committed.length - 1) (·.shifted kind imm))
      (d.attachShift inst code imm) := by
  apply (readShift_yields code imm).bind
  intro kind? hkind
  cases kind? with
  | none => exact .ok (.inl rfl)
  | some kind =>
      simp only [hopened]
      split
      · exact .error trivial
      · exact .ok (.inr ⟨kind, hkind kind rfl, rfl⟩)

/-- A shift changes the open operand or nothing. -/
theorem attachShift_open (hopened : d.opened = some op) (code : UInt8) (imm : UInt32) :
    Yields
      (fun d' => d' = d ∨ ∃ kind, kind.byRegister = false ∧
        d' = { d with opened := some (op.shifted kind imm) })
      (d.attachShift inst code imm) := by
  apply (readShift_yields code imm).bind
  intro kind? hkind
  cases kind? with
  | none => exact .ok (.inl rfl)
  | some kind =>
      simp only [hopened]
      exact .ok (.inr ⟨kind, hkind kind rfl, rfl⟩)

end Shifts

section Places
variable {o : Opcode} {inst : RawInst} {op : Operand} {i count : Nat}

/-- A plain operand is finished in every place that is not that of a lane. -/
theorem Operand.Plain.finishedAt (h : op.Plain) (hlane : o = .vld1lnd8 → i ≠ 0) :
    op.FinishedAt o inst i count :=
  { h with
    lane := fun ho hi => absurd hi (hlane ho)
    noLane := fun _ => h.noLane
    shifted := fun hkind => absurd (congrArg Shift.kind h.unshifted) hkind }

/-- A plain operand may be shifted in the places for it. -/
theorem Operand.Plain.shifted_finishedAt (h : op.Plain) (hlane : o ≠ .vld1lnd8)
    {kind : ShiftKind} (hkind : kind.byRegister = false) (imm : UInt32)
    (hplace : (o = .addrsi ∧ i + 1 = count) ∨ (o = .t2ldrs ∧ ∃ m, op.value = .mem m)) :
    (op.shifted kind imm).FinishedAt o inst i count :=
  { shifted_finished h hkind imm with
    lane := fun ho _ => absurd ho hlane
    noLane := fun _ => h.noLane
    shifted := fun _ => hplace }

/-- Every operand of a draft is finished in its place. -/
def Draft.Finished (o : Opcode) (inst : RawInst) (d : Draft) : Prop :=
  ∀ i (op : Operand), d.committed[i]? = some op →
    op.FinishedAt o inst i d.committed.length

variable {d : Draft}

/-- An operand that is finished as the last one can be added to plain ones. -/
theorem append_finished (hplain : ∀ op ∈ d.committed, op.Plain) (hlane : o ≠ .vld1lnd8)
    (hlast : op.FinishedAt o inst d.committed.length (d.committed.length + 1)) :
    Yields (Draft.Finished o inst) (d.append op) := by
  simp only [Draft.append]
  split
  · apply Ends.ok
    intro i op' hop'
    rw [List.length_append, List.length_singleton]
    rw [List.getElem?_append] at hop'
    split at hop'
    · exact (hplain op' (List.mem_of_getElem? hop')).finishedAt fun ho => absurd ho hlane
    · have hi : i = d.committed.length := by
        have hlt := (List.getElem?_eq_some_iff.mp hop').1
        rw [List.length_singleton] at hlt
        omega
      subst hi
      rw [Nat.sub_self, List.getElem?_cons_zero] at hop'
      cases hop'
      exact hlast
  · exact .error trivial

/-- The last of plain operands may be shifted by a shifted addition. -/
theorem modifyLast_finished (hplain : ∀ op ∈ d.committed, op.Plain) (hopcode : o = .addrsi)
    {kind : ShiftKind} (hkind : kind.byRegister = false) {imm : UInt32} {d' : Draft}
    (hcommitted : d'.committed =
      d.committed.modify (d.committed.length - 1) (·.shifted kind imm)) :
    d'.Finished o inst := by
  have hlane : o ≠ .vld1lnd8 := by
    rw [hopcode]
    decide
  intro i op' hop'
  rw [hcommitted, List.getElem?_modify] at hop'
  rw [hcommitted, List.length_modify]
  obtain ⟨op, hop, rfl⟩ := Option.map_eq_some_iff.mp hop'
  have hop' := hplain op (List.mem_of_getElem? hop)
  by_cases hlast : d.committed.length - 1 = i
  · have hlt : i < d.committed.length := (List.getElem?_eq_some_iff.mp hop).1
    have hplace : i + 1 = d.committed.length := by
      omega
    rw [if_pos hlast]
    exact hop'.shifted_finishedAt hlane hkind _ (.inl ⟨hopcode, hplace⟩)
  · rw [if_neg hlast]
    exact hop'.finishedAt fun ho => absurd ho hlane

end Places

section Walks
variable {o : Opcode} {inst : RawInst} {features : Features} {d : Draft}
  (ho : Opcode.ofWord? inst.opcode = some o) (hat : d.At .closed 0)
include ho hat

/-- The first steps of a walk, where they do not reach back, leave plain operands. -/
theorem walk_yields_of_append {first rest : List Step} (hwalk : o.walk = first ++ rest)
    (hgrows : onlyGrows .closed first = true) {A : Draft → Prop}
    (hrest : ∀ d₁ : Draft, (∀ op ∈ d₁.committed, op.Plain) → d₁.OpensPlain →
      d₁.At (openAfter .closed first) (0 + addedBy inst .closed first) →
      StepsFit o inst (openAfter .closed first) (0 + addedBy inst .closed first) rest →
      Yields A (d₁.run inst features rest)) :
    Yields A (d.run inst features o.walk) := by
  have hfits := walk_fits o inst
  have hopens := Draft.opensPlain_of_closed hat.eq_none
  rw [hwalk] at hfits ⊢
  simp only [Draft.run, List.foldlM_append]
  apply (run_grown ho first rest hfits hgrows hat hopens).bind
  rintro d₁ ⟨hgrown, hat₁⟩
  have hplain : ∀ op ∈ d₁.committed, op.Plain := by
    obtain ⟨new, hnew, hplain⟩ := hgrown.added
    rw [hnew, List.eq_nil_of_length_eq_zero hat.length_eq, List.nil_append]
    exact hplain
  exact hrest d₁ hplain hgrown.opened hat₁ hfits.of_append

/-- A walk that never reaches back. -/
theorem walk_finished_of_grows (hgrows : onlyGrows .closed o.walk = true)
    (hlane : o ≠ .vld1lnd8) :
    Yields (Draft.Finished o inst) (d.run inst features o.walk) := by
  apply walk_yields_of_append ho hat (List.append_nil _).symm hgrows
  intro d₁ hplain _ _ _
  apply Ends.ok
  intro i op hop
  exact (hplain op (List.mem_of_getElem? hop)).finishedAt fun ho => absurd ho hlane

/-- A shifted addition: the last operand takes the shift. -/
theorem walk_finished_addrsi (hopcode : o = .addrsi) :
    Yields (Draft.Finished o inst) (d.run inst features o.walk) := by
  let first : List Step := [.classify .flagSetter 6, .pred 4, .op 0, .op 1, .op 2]
  have hwalk : o.walk = first ++ [.packedShift 3] := by
    rw [hopcode]
    rfl
  apply walk_yields_of_append ho hat hwalk rfl
  intro d₁ hplain _ hat₁ _
  simp only [Draft.run, List.foldlM_cons, List.foldlM_nil, bind_pure, Draft.step]
  apply Yields.after
  intro raw
  apply (attachShift_last hat₁.eq_none _ _).imp
  rintro d₂ (rfl | ⟨kind, hkind, hcommitted⟩)
  · intro i op hop
    refine (hplain op (List.mem_of_getElem? hop)).finishedAt ?_
    intro hlane
    rw [hopcode] at hlane
    cases hlane
  · exact modifyLast_finished hplain hopcode hkind hcommitted

/-- A shifted load: the memory operand takes the shift before it is closed. -/
theorem walk_finished_t2ldrs (hopcode : o = .t2ldrs) :
    Yields (Draft.Finished o inst) (d.run inst features o.walk) := by
  let first : List Step := [.pred 4, .op 0, .openMemory, .op 1, .op 2]
  have hwalk : o.walk = first ++ [.shiftLeft 3, .closeMemory] := by
    rw [hopcode]
    rfl
  have hlane : o ≠ .vld1lnd8 := by
    rw [hopcode]
    decide
  apply walk_yields_of_append ho hat hwalk rfl
  intro d₁ hplain hopens hat₁ _
  obtain ⟨op, hopened⟩ := hat₁.eq_some (by decide)
  obtain ⟨hop, m, hmem⟩ := hopens op hopened
  let closed : Draft := { d₁ with opened := none }
  simp only [Draft.run, List.foldlM_cons, List.foldlM_nil, bind_pure, Draft.step, bind_assoc]
  apply Yields.after
  intro raw
  apply (attachShift_open hopened _ _).bind
  rintro d₂ (rfl | ⟨kind, hkind, rfl⟩)
  · simp only [Draft.closeMemory, hopened]
    apply append_finished (d := closed) hplain hlane
    exact hop.finishedAt fun ho => absurd ho hlane
  · simp only [Draft.closeMemory]
    apply append_finished (d := closed) hplain hlane
    exact hop.shifted_finishedAt hlane hkind _ (.inr ⟨hopcode, m, hmem⟩)

/-- A lane load: the first operand is taken back and added again with its lane. -/
theorem walk_finished_vld1lnd8 (hopcode : o = .vld1lnd8) :
    Yields (Draft.Finished o inst) (d.run inst features o.walk) := by
  let first : List Step := [.pred 5, .op 0, .openMemory]
  have hwalk : o.walk = first ++
      [.classify .bareImmediate 4, .closeMemory, .classify .alignedAddress 1] := by
    rw [hopcode]
    rfl
  apply walk_yields_of_append ho hat hwalk rfl
  rintro d₁ hplain hopens hat₁ ⟨_, _, hfits, _⟩
  obtain ⟨op, hop⟩ := List.length_eq_one_iff.mp (hat₁.count : d₁.committed.length = 1)
  obtain ⟨opened, hopened⟩ := hat₁.eq_some (by decide)
  have hop' : op.Plain := hplain op (by simp [hop])
  have hread : Yields (fun lane => inst.operand 4 = .imm lane) (readImm inst 4) :=
    .of_ends (readImm_ends (o := o) (p := .fresh) (n := 1)
      (s := .classify .bareImmediate 4) List.mem_cons_self)
  simp only [Draft.run, List.foldlM_cons, List.foldlM_nil, bind_pure, Draft.step,
    Draft.classifyGroup, hopened, Option.isSome_some, if_true, Draft.foldLane, hop,
    List.getLast?_singleton, bind_assoc]
  apply hread.bind
  intro lane hlane
  let d₃ : Draft :=
    { d₁ with committed := [{ op with neonLane := lane.toInt8 }], opened := none }
  have hat₃ : d₃.At .closed 1 := ⟨by simp [d₃], rfl, by decide⟩
  change Yields _ (d₃.classifyGroup inst features .alignedAddress 1)
  have hfits₃ : OperandGroup.alignedAddress.FitsClosed o 1 1 := hfits
  apply (classifyGroup_grown ho hfits₃ hat₃).imp
  intro d₄ hgrown
  obtain ⟨new, hnew, hnewPlain⟩ := hgrown.added
  intro i op' hop'
  rw [hnew] at hop'
  cases i with
  | zero =>
      cases hop'
      exact { hop' with
        lane := fun _ _ => ⟨lane, hlane, rfl⟩
        noLane := fun h => absurd ⟨hopcode, rfl⟩ h
        shifted := fun hkind => absurd (congrArg Shift.kind hop'.unshifted) hkind }
  | succ i =>
      have hmem : op' ∈ new := List.mem_of_getElem? (i := i) hop'
      exact (hnewPlain op' hmem).finishedAt fun _ => Nat.succ_ne_zero i

omit ho hat in
/-- The walks that reach back are those of three opcodes. -/
theorem onlyGrows_walk (o : Opcode) (haddrsi : o ≠ .addrsi) (ht2ldrs : o ≠ .t2ldrs)
    (hvld1lnd8 : o ≠ .vld1lnd8) : onlyGrows .closed o.walk = true := by
  cases o <;> first | rfl | contradiction

/-- What a walk puts into an empty draft is finished. -/
theorem walk_finished : Yields (Draft.Finished o inst) (d.run inst features o.walk) := by
  by_cases haddrsi : o = .addrsi
  · exact walk_finished_addrsi ho hat haddrsi
  · by_cases ht2ldrs : o = .t2ldrs
    · exact walk_finished_t2ldrs ho hat ht2ldrs
    · by_cases hvld1lnd8 : o = .vld1lnd8
      · exact walk_finished_vld1lnd8 ho hat hvld1lnd8
      · have hgrows := onlyGrows_walk o haddrsi ht2ldrs hvld1lnd8
        exact walk_finished_of_grows ho hat hgrows hvld1lnd8

end Walks

/-- Every operand of a record that a build gives is finished in its place, whatever the
features and the record before. -/
theorem build_operands_finished {inst : RawInst} {d d' : Detail} {features : Features}
    {m : Mnemonic} (h : build inst d features = .ok (some m, d')) :
    ∃ o record, Opcode.ofWord? inst.opcode = some o ∧ d'.arm? = some record ∧
      ∀ i (op : Operand), record.operands.get? i = some op →
        op.FinishedAt o inst i record.operands.length := by
  cases hfacts : Facts.ofWord? inst.opcode with
  | none =>
      rw [build_eq_none hfacts] at h
      cases h
  | some facts =>
      obtain ⟨o, ho, hfacts⟩ := Option.bind_eq_some_iff.mp hfacts
      obtain ⟨finish, hfinish, hbuild⟩ := build_eq_operands ho hfacts d features
      let start : Record := { updateFlags := facts.setsFlags }
      have hat : (Draft.ofRecord start).At .closed 0 := Draft.at_ofRecord rfl
      have hoperands := (buildOperands_alike ho rfl features).ends (walk_finished ho hat)
        (A := fun r => ∀ i (op : Operand), r.operands.get? i = some op →
          op.FinishedAt o inst i r.operands.length)
        fun r d' hholds hfinished i op hop => by
          have hsame : r.operands.used = d'.committed := hholds.1
          simp only [BoundedList.get?, BoundedList.length, hsame] at hop ⊢
          exact hfinished i op hop
      rw [hbuild] at h
      obtain ⟨record, hrecord, hresult⟩ := bind_eq_ok_iff.mp h
      cases hresult
      exact ⟨o, record, ho, hfinish record, hoperands.of_ok hrecord⟩

/-- The register takes the lane, and the address is the second operand. -/
theorem laneLoad_operands_finished :
    ∃ m d', build laneLoad Detail.x86 .all = .ok (some m, d') ∧
      ∃ o record, Opcode.ofWord? laneLoad.opcode = some o ∧ d'.arm? = some record ∧
        record.operands.length = 2 ∧
        (record.operands.get? 0).map (·.neonLane) = some 3 ∧
        ∀ i (op : Operand), record.operands.get? i = some op →
          op.FinishedAt o laneLoad i record.operands.length := by
  obtain ⟨m, d', built, h, hbuilt, hlength, hlane⟩ : ∃ m d' built,
      build laneLoad Detail.x86 .all = .ok (some m, d') ∧ d'.arm? = some built ∧
        built.operands.length = 2 ∧
        (built.operands.get? 0).map (·.neonLane) = some 3 :=
    ⟨_, _, _, rfl, rfl, rfl, rfl⟩
  obtain ⟨o, record, ho, hrecord, hall⟩ := build_operands_finished h
  obtain rfl : built = record := Option.some.inj (hbuilt.symm.trans hrecord)
  exact ⟨m, d', h, o, built, ho, hrecord, hlength, hlane, hall⟩

end Disassembly.Arm
