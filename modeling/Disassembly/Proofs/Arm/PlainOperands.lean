import Disassembly.Proofs.Arm.BuildRun

/-!
# Plain operands

What most steps of a walk do to a draft is to add operands at its end, and what they
add is plain: a well-formed operand with neither a shift nor a lane.
-/

namespace Disassembly.Arm

/-- A system register with a number and a name. -/
def SystemRegister.Named (r : SystemRegister) : Prop := r.id ≠ 0 ∧ r.name?.isSome = true

instance (r : SystemRegister) : Decidable r.Named :=
  inferInstanceAs (Decidable (_ ∧ _))

/-- A value that an operand of a finished record may have. -/
def OperandValue.Finished : OperandValue → Prop
  | .invalid | .pred _ => False
  | .mem m => m.scale = 1 ∧ m.lshift = 0
  | .sysreg r => r.Named
  | .reg _ | .imm _ | .pimm _ | .cimm _ => True

/-- A shift that an operand of a finished record may have. -/
def Shift.Finished (shift : Shift) : Prop :=
  match shift.kind with
  | .none | some .rrx => shift.amount = 0
  | some .asr | some .lsl | some .lsr | some .ror => shift.amount ≠ 0
  | some _ => False

structure Operand.Finished (op : Operand) : Prop where
  value : op.value.Finished
  access : op.access.Proper
  vectorIndex : op.vectorIndex = noVectorIndex
  notSubtracted : op.subtracted = false
  shift : op.shift.Finished

/-- A finished operand without a shift and without a lane. -/
structure Operand.Plain (op : Operand) : Prop extends op.Finished where
  unshifted : op.shift = .none
  noLane : op.neonLane = Arm.noLane

section Readings
variable {o : Opcode} {inst : RawInst} {features : Features} {slot : Nat}

/-- An operand with nothing but a value and an access. -/
theorem plain_of_value {value : OperandValue} {access : Access} (hvalue : value.Finished)
    (haccess : access.Proper) : Operand.Plain { value, access } :=
  { value := hvalue, access := haccess, vectorIndex := rfl, notSubtracted := rfl,
    shift := rfl, unshifted := rfl, noLane := rfl }

theorem emptyMemory_plain {access : Access} (haccess : access.Proper) :
    Operand.Plain { value := .mem {}, access } := by
  have hvalue : (OperandValue.mem {}).Finished := ⟨rfl, rfl⟩
  exact plain_of_value hvalue haccess

theorem memory_finished {op : Operand} (h : op.value.Finished) :
    op.memory.scale = 1 ∧ op.memory.lshift = 0 := by
  simp only [Operand.memory]
  cases hvalue : op.value with
  | mem m =>
      rw [hvalue] at h
      exact h
  | _ => exact ⟨rfl, rfl⟩

/-- The saved and the current fields of a status register have names, if there are any. -/
theorem fields_named (fields : Fin 16) (h : fields ≠ 0) :
    (SystemRegister.savedFields (UInt16.ofNat fields)).Named ∧
      (SystemRegister.currentFields (UInt16.ofNat fields)).Named := by
  decide +revert

theorem maskValue?_finished {mask : UInt32} {value : OperandValue}
    (h : maskValue? mask = some value) : value.Finished := by
  have hlt : (mask &&& 0xf).toUInt16.toNat < 16 := by
    rw [fieldBits_toNat]
    exact Nat.mod_lt _ (by decide)
  obtain ⟨fields, hfields⟩ : ∃ fields : Fin 16,
      (mask &&& 0xf).toUInt16 = UInt16.ofNat fields :=
    ⟨⟨_, hlt⟩, UInt16.ofNat_toNat.symm⟩
  have hnamed := fields_named fields
  have hapsr : SystemRegister.apsrG.Named ∧ SystemRegister.apsrNzcvq.Named ∧
      SystemRegister.apsrNzcvqg.Named := by decide
  simp only [maskValue?, hfields] at h
  by_cases hzero : UInt16.ofNat fields = 0
  · rw [if_pos hzero] at h
    cases h
  · rw [if_neg hzero] at h
    obtain ⟨hsaved, hcurrent⟩ := hnamed (by rintro rfl; exact hzero rfl)
    split at h
    · cases h
      exact hsaved
    · split at h
      · cases h
        exact hapsr.1
      · split at h
        · cases h
          exact hapsr.2.1
        · split at h
          · cases h
            exact hapsr.2.2
          · cases h
            exact hcurrent

theorem lookup_named {table : List (UInt16 × SystemRegister)}
    (htable : ∀ e ∈ table, e.2.Named) {number : UInt16} {r : SystemRegister}
    (h : table.lookup number = some r) : r.Named := by
  obtain ⟨before, after, htable', -⟩ := List.lookup_eq_some_iff.mp h
  exact htable (number, r) (by simp [htable'])

/-- The registers of a microcontroller core all have names. -/
theorem maskValue_finished (ownMove : Bool) (features : Features) (mask : UInt32) :
    (MClass.maskValue ownMove features mask).Finished := by
  have hextended : ∀ e ∈ MClass.extendedNumbers, e.register.Named := by decide
  simp only [MClass.maskValue]
  split
  next r hfound =>
      simp only [Option.or_eq_some_iff] at hfound
      rcases hfound with (hdsp | ⟨-, hnewer⟩) | ⟨-, hbasic⟩
      · split at hdsp
        · obtain ⟨e, he, rfl⟩ := Option.map_eq_some_iff.mp hdsp
          obtain ⟨he, -⟩ := Option.filter_eq_some_iff.mp he
          exact hextended e (List.mem_of_find?_eq_some he)
        · cases hdsp
      · split at hnewer
        · have hflags : ∀ e ∈ MClass.flagNumbers, e.2.Named := by decide
          exact lookup_named hflags hnewer
        · cases hnewer
      · have hnumbers : ∀ e ∈ MClass.basicNumbers, e.2.Named := by decide
        exact lookup_named hnumbers hbasic
  next => trivial

variable (ho : Opcode.ofWord? inst.opcode = some o)
include ho

theorem regOperand_plain (hdeclares : o.Declares slot (·.isRegister))
    (resolve : UInt64 → UInt64) :
    Yields Operand.Plain (regOperand inst slot resolve) := by
  obtain ⟨hslot, htype, hproper⟩ := hdeclares
  simp only [regOperand, descriptor_eq ho hslot, ok_bind, if_pos htype]
  apply Yields.after
  intro id
  exact .ok (plain_of_value trivial hproper)

theorem immOperand_plain (hslot : slot < Descriptor.maxSlots)
    (hproper : (o.declared slot).access.Proper) {kind : Int64 → OperandValue}
    (hkind : ∀ value, (kind value).Finished) (resolve : UInt64 → UInt64) :
    Yields Operand.Plain (immOperand inst slot kind resolve) := by
  apply Yields.after
  intro value
  simp only [descriptor_eq ho hslot, ok_bind]
  exact .ok (plain_of_value (hkind _) hproper)

/-- A part of a memory operand keeps it plain. -/
theorem memoryPart_plain (hdeclares : o.Declares slot (·.isPlain)) {op : Operand}
    (hop : op.Plain) (isBase : Bool) (resolve : UInt64 → UInt64) :
    Yields (fun op' => op'.Plain ∧ ∃ m, op'.value = .mem m)
      (memoryPart inst slot isBase resolve op) := by
  obtain ⟨hslot, -, hproper⟩ := hdeclares
  obtain ⟨hscale, hlshift⟩ := memory_finished hop.value
  have hstored {m : Memory} (hm : m.scale = 1 ∧ m.lshift = 0) :
      Operand.Plain { op with
        value := .mem m, access := (o.declared slot).access, subtracted := false } :=
    { hop with value := hm, access := hproper, notSubtracted := rfl }
  simp only [memoryPart, descriptor_eq ho hslot, ok_bind]
  split
  · apply Yields.after
    intro id
    cases isBase with
    | true => exact .ok ⟨hstored ⟨hscale, hlshift⟩, _, rfl⟩
    | false => exact .ok ⟨hstored ⟨hscale, hlshift⟩, _, rfl⟩
  · split
    · apply Yields.after
      intro value
      exact .ok ⟨hstored ⟨hscale, hlshift⟩, _, rfl⟩
    · exact .error trivial

/-- What a group adds is plain. -/
theorem groupOperands_plain {group : OperandGroup} {n : Nat} (hadds : group.adds = true)
    (hfits : group.FitsClosed o n slot) :
    Yields (fun reads => ∀ read ∈ reads, Yields Operand.Plain read)
      (groupOperands inst features group slot) := by
  have hone {read : Except Fault Operand} (hread : Yields Operand.Plain read) :
      Yields (fun reads => ∀ read ∈ reads, Yields Operand.Plain read) (.ok [read]) := by
    apply Ends.ok
    intro read' hread'
    rw [List.mem_singleton] at hread'
    rw [hread']
    exact hread
  cases group with
  | generic =>
      obtain ⟨hslot, htype, hproper⟩ := hfits
      simp only [groupOperands, descriptor_eq ho hslot, ok_bind]
      cases hdeclared : (o.declared slot).type with
      | imm | memImm =>
          apply hone
          apply immOperand_plain ho hslot hproper
          intro value
          trivial
      | reg | memReg | memIndexReg =>
          have hregister : o.Declares slot (·.isRegister) :=
            ⟨hslot, by rw [hdeclared]; rfl, hproper⟩
          exact hone (regOperand_plain ho hregister id)
      | pred | undeclared =>
          rw [hdeclared] at htype
          cases htype
  | coprocessor | coprocessorRegister | bareImmediate =>
      apply hone
      apply immOperand_plain ho hfits.1 hfits.2.2
      intro value
      trivial
  | alignedOffset =>
      apply Yields.after
      intro raw
      by_cases hzero : raw = 0
      · rw [if_pos hzero]
        exact .ok fun read hread => absurd hread List.not_mem_nil
      · rw [if_neg hzero]
        exact hone (regOperand_plain ho hfits _)
  | vectorList size =>
      apply Ends.ok
      intro read hread
      obtain ⟨offset, -, rfl⟩ := List.mem_map.mp hread
      exact regOperand_plain ho hfits _
  | registerList =>
      obtain ⟨hslot, -, hproper⟩ := hfits
      simp only [groupOperands, descriptor_eq ho hslot, ok_bind]
      apply Ends.ok
      intro read hread
      obtain ⟨i, -, rfl⟩ := List.mem_map.mp hread
      apply Yields.after
      intro id
      exact .ok (plain_of_value trivial hproper)
  | statusMask =>
      obtain ⟨hslot, -, hproper⟩ := hfits
      apply Yields.after
      intro raw
      simp only [descriptor_eq ho hslot, ok_bind]
      apply Ends.ok
      intro read hread
      simp only [Option.mem_toList, Option.map_eq_some_iff] at hread
      obtain ⟨value, hvalue, rfl⟩ := hread
      apply Ends.ok
      apply plain_of_value _ hproper
      simp only [statusValue?] at hvalue
      split at hvalue
      · cases hvalue
        exact maskValue_finished _ _ _
      · exact maskValue?_finished hvalue
  | unmapped g => exact .error trivial
  | predicate kind | vectorPredicate | flagSetter | itMask | alignedAddress
  | baseAddress => cases hadds

end Readings

/-- The open operand is a plain memory operand. -/
def Draft.OpensPlain (d : Draft) : Prop :=
  ∀ op, d.opened = some op → op.Plain ∧ ∃ m, op.value = .mem m

/-- A draft goes on from an earlier one: plain operands have been added at the end. -/
structure Draft.Grown (before d : Draft) : Prop where
  added : ∃ new, d.committed = before.committed ++ new ∧ ∀ op ∈ new, op.Plain
  opened : d.OpensPlain

/-- The step changes an operand that is already there, or puts it back. -/
def Step.reachesBack : Opening → Step → Bool
  | .fresh, .classify .bareImmediate _ => true
  | .folded, _ => true
  | _, .shiftLeft _ | _, .packedShift _ => true
  | _, _ => false

/-- No step reaches back. -/
def onlyGrows : Opening → List Step → Bool
  | _, [] => true
  | p, s :: rest => !s.reachesBack p && onlyGrows (s.next p) rest

namespace Draft

variable {d d₁ d₂ : Draft}

theorem opensPlain_of_closed (h : d.opened = none) : d.OpensPlain := by
  intro op hop
  rw [h] at hop
  cases hop

/-- A draft goes on from one with the same operands, adding none. -/
theorem grown_of_committed_eq (h : d₁.committed = d.committed) (hopens : d₁.OpensPlain) :
    d.Grown d₁ := by
  constructor
  · refine ⟨[], ?_, ?_⟩
    · rw [h, List.append_nil]
    · exact nofun
  · exact hopens

theorem grown_of_opened {op : Operand} (hop : op.Plain ∧ ∃ m, op.value = .mem m) :
    d.Grown { d with opened := some op } := by
  have hopens : { d with opened := some op }.OpensPlain := by
    intro op' hop'
    cases hop'
    exact hop
  exact grown_of_committed_eq rfl hopens

theorem Grown.trans (h : d.Grown d₁) (h' : d₁.Grown d₂) : d.Grown d₂ := by
  obtain ⟨new, hnew, hplain⟩ := h.added
  obtain ⟨new', hnew', hplain'⟩ := h'.added
  constructor
  · refine ⟨new ++ new', ?_, ?_⟩
    · rw [hnew', hnew, List.append_assoc]
    · intro op hop
      rcases List.mem_append.mp hop with hop | hop
      · exact hplain op hop
      · exact hplain' op hop
  · exact h'.opened

theorem append_grown (hopens : d.OpensPlain) {op : Operand} (hop : op.Plain) :
    Yields d.Grown (d.append op) := by
  simp only [append]
  split
  · exact .ok ⟨⟨[op], rfl, by simpa using hop⟩, hopens⟩
  · exact .error trivial

theorem appendAll_grown (hopens : d.OpensPlain) (reads : List (Except Fault Operand))
    (hreads : ∀ read ∈ reads, Yields Operand.Plain read) :
    Yields d.Grown (d.appendAll reads) := by
  induction reads generalizing d with
  | nil => exact .ok (grown_of_committed_eq rfl hopens)
  | cons read rest ih =>
      simp only [appendAll, List.foldlM_cons, bind_assoc]
      apply (hreads read List.mem_cons_self).bind
      intro op hop
      apply (append_grown hopens hop).bind
      intro d₁ h₁
      apply (ih h₁.opened fun r hr => hreads r (List.mem_cons_of_mem read hr)).imp
      intro d₂ h₂
      exact h₁.trans h₂

end Draft

section Steps
variable {o : Opcode} {inst : RawInst} {features : Features} {p : Opening} {n slot : Nat}
  {d : Draft} {s : Step} (ho : Opcode.ofWord? inst.opcode = some o)
include ho

/-- A group with nothing open adds plain operands. -/
theorem classifyGroup_grown {group : OperandGroup} (hfits : group.FitsClosed o n slot)
    (h : d.At .closed n) :
    Yields d.Grown (d.classifyGroup inst features group slot) := by
  have hopens := Draft.opensPlain_of_closed h.eq_none
  have hmark (f : Marks → Marks) : d.Grown (d.mark f) :=
    Draft.grown_of_committed_eq rfl hopens
  cases hadds : group.adds with
  | true =>
      rw [classifyGroup_closed hadds h.eq_none]
      apply (groupOperands_plain ho hadds hfits).bind
      intro reads hreads
      exact Draft.appendAll_grown hopens reads hreads
  | false =>
      cases group with
      | predicate kind => exact Yields.after _ fun cc => .ok (hmark _)
      | vectorPredicate => exact Yields.after _ fun vcc => .ok (hmark _)
      | itMask => exact Yields.after _ fun layout => .ok (hmark _)
      | flagSetter => exact Yields.after _ fun raw => .ok (hmark _)
      | baseAddress =>
          obtain ⟨hnew, hslot, htype, hproper⟩ := hfits
          simp only [Draft.classifyGroup, newMemory_eq ho h hnew, ok_bind]
          apply (memoryPart_plain ho ⟨hslot, isPlain_of_isRegister htype, hproper⟩
            (emptyMemory_plain hnew.2.2) true id).bind
          intro op hop
          exact Draft.append_grown hopens hop.1
      | alignedAddress =>
          obtain ⟨hnew, ⟨hslot, htype, hproper⟩, hslot', htype', hproper'⟩ := hfits
          simp only [Draft.classifyGroup, newMemory_eq ho h hnew, ok_bind]
          apply (memoryPart_plain ho ⟨hslot, isPlain_of_isRegister htype, hproper⟩
            (emptyMemory_plain hnew.2.2) true id).bind
          intro op hop
          apply (memoryPart_plain ho ⟨hslot', isPlain_of_isImmediate htype', hproper'⟩
            hop.1 false alignmentBits).bind
          intro op' hop'
          exact Draft.append_grown hopens hop'.1
      | _ => cases hadds

theorem step_closed_grown (hfits : s.Fits o n .closed) (hgrows : s.reachesBack .closed = false)
    (h : d.At .closed n) : Yields d.Grown (d.step inst features s) := by
  cases s with
  | classify group slot => exact classifyGroup_grown ho hfits h
  | openMemory =>
      simp only [Draft.step, Draft.openMemory, newMemory_eq ho h hfits, ok_bind]
      exact .ok (Draft.grown_of_opened ⟨emptyMemory_plain hfits.2.2, _, rfl⟩)
  | writeback =>
      exact .ok (Draft.grown_of_committed_eq rfl (Draft.opensPlain_of_closed h.eq_none))
  | shiftLeft slot | packedShift slot => cases hgrows
  | closeMemory => exact hfits.elim

theorem step_fresh_grown (hfits : s.Fits o n .fresh) (hgrows : s.reachesBack .fresh = false)
    (h : d.At .fresh n) (hopens : d.OpensPlain) :
    Yields d.Grown (d.step inst features s) := by
  obtain ⟨op, hop⟩ := h.eq_some (by decide)
  obtain ⟨hplain, hmem⟩ := hopens op hop
  cases s with
  | classify group slot =>
      cases group with
      | generic =>
          have hdeclared : ((o.declared slot).type.isRegister ||
            (o.declared slot).type.isImmediate) = true := hfits.2.1
          simp only [Draft.step, Draft.classifyGroup, descriptor_eq ho hfits.1, ok_bind,
            hop, if_pos hdeclared]
          apply (memoryPart_plain ho hfits hplain _ id).bind
          intro op' hop'
          exact .ok (Draft.grown_of_opened hop')
      | bareImmediate => cases hgrows
      | _ => exact hfits.elim
  | closeMemory =>
      simp only [Draft.step, Draft.closeMemory, hop]
      have hclosed := Draft.opensPlain_of_closed (d := { d with opened := none }) rfl
      apply (Draft.append_grown hclosed hplain).imp
      intro d' h'
      exact ⟨h'.added, h'.opened⟩
  | shiftLeft slot => cases hgrows
  | packedShift slot | openMemory | writeback => exact hfits.elim

/-- A step that does not reach back adds plain operands. -/
theorem step_grown (hfits : s.Fits o n p) (hgrows : s.reachesBack p = false)
    (h : d.At p n) (hopens : d.OpensPlain) :
    Yields d.Grown (d.step inst features s) := by
  cases p with
  | closed => exact step_closed_grown ho hfits hgrows h
  | fresh => exact step_fresh_grown ho hfits hgrows h hopens
  | folded => cases hgrows

/-- Steps that do not reach back add plain operands. -/
theorem run_grown (first rest : List Step) (hfits : StepsFit o inst p n (first ++ rest))
    (hgrows : onlyGrows p first = true) (h : d.At p n) (hopens : d.OpensPlain) :
    Yields (fun d' => d.Grown d' ∧ d'.At (openAfter p first) (n + addedBy inst p first))
      (d.run inst features first) := by
  induction first generalizing p n d with
  | nil => exact .ok ⟨Draft.grown_of_committed_eq rfl hopens, h⟩
  | cons s first ih =>
      obtain ⟨hstep, hrest⟩ := hfits
      simp only [onlyGrows, Bool.and_eq_true, Bool.not_eq_true'] at hgrows
      simp only [Draft.run, List.foldlM_cons]
      have hends : Yields (fun d₁ => d₁.At (s.next p) (n + s.added inst p) ∧ d.Grown d₁)
          (d.step inst features s) :=
        .of_ends (((step_ends ho hstep h).imp fun _ h => h.2).and
          (step_grown ho hstep hgrows.1 h hopens))
      apply hends.bind
      rintro d₁ ⟨hat₁, hgrown₁⟩
      apply (ih hrest hgrows.2 hat₁ hgrown₁.opened).imp
      rintro d₂ ⟨hgrown₂, hat₂⟩
      constructor
      · exact hgrown₁.trans hgrown₂
      · rw [addedBy, ← Nat.add_assoc]
        exact hat₂

end Steps

end Disassembly.Arm
