import Disassembly.Proofs.Arm.Marks

/-!
# Base registers of a record

A walk visits a base register as the base of a memory operand, or as a register operand
that is declared to be both read and written. The operand that bears it stays among the
operands of the draft to the end of the walk: only a second base of the same memory operand,
or an operand that is taken back in its place, could drop it, and no walk does either.
-/

namespace Disassembly.Arm

/-- The register that an operand bears as a base: that of a memory operand, or a register
that is both read and written. -/
def Operand.base? (op : Operand) : Option UInt16 :=
  match op.value with
  | .mem m => some m.base.id
  | .reg r => if op.access = .readWrite then some r.id else none
  | _ => none

/-- The base registers that operands bear, in order. -/
def baseRegs (ops : List Operand) : List UInt16 := (ops.map (·.base?)).filterMap id

@[simp] theorem baseRegs_append (ops ops' : List Operand) :
    baseRegs (ops ++ ops') = baseRegs ops ++ baseRegs ops' := by
  simp only [baseRegs, List.map_append, List.filterMap_append]

theorem baseRegs_singleton (op : Operand) : baseRegs [op] = op.base?.toList := by
  cases h : op.base? with
  | none => simp [baseRegs, h]
  | some id => simp [baseRegs, h]

theorem base?_of_memory {op : Operand} {m : Memory} (h : op.value = .mem m) :
    op.base? = some op.memory.base.id := by
  simp only [Operand.base?, Operand.memory, h]

theorem isRegister_of_isBase {t : OperandType} (h : t.isBase = true) :
    t.isRegister = true := by
  cases t with
  | reg | memReg => rfl
  | _ => cases h

/-- The slots that a group visits as bases with nothing open. -/
def OperandGroup.bases (o : Opcode) (slot : Nat) : OperandGroup → List Nat
  | .alignedAddress | .baseAddress => [slot]
  | .generic =>
      if (o.declared slot).type.isRegister ∧ (o.declared slot).access = .readWrite then [slot]
      else []
  | _ => []

namespace Step

/-- The slots that a step visits as bases. -/
def bases (o : Opcode) : Opening → Step → List Nat
  | .closed, .classify group slot => group.bases o slot
  | .fresh, .classify .generic slot => if (o.declared slot).type.isBase then [slot] else []
  | _, _ => []

/-- The step may drop the base of the open operand. -/
def drops (o : Opcode) : Opening → Step → Bool
  | .fresh, .classify .generic slot => (o.declared slot).type.isBase
  | .fresh, .classify .bareImmediate _ => true
  | _, _ => false

end Step

/-- The slots that steps visit as bases. -/
def basesOf (o : Opcode) : Opening → List Step → List Nat
  | _, [] => []
  | p, s :: rest => s.bases o p ++ basesOf o (s.next p) rest

/-- None of the steps drops a base. -/
def keepsBases (o : Opcode) : Opening → List Step → Bool
  | _, [] => true
  | p, s :: rest => !s.drops o p && keepsBases o (s.next p) rest

/-- Nothing is dropped once a base has been visited. -/
def basesStay (o : Opcode) : Opening → List Step → Bool
  | _, [] => true
  | p, s :: rest =>
      ((s.bases o p).isEmpty || keepsBases o (s.next p) rest) && basesStay o (s.next p) rest

/-- The slots that the walk of an opcode visits as bases. -/
def Opcode.bases (o : Opcode) : List Nat := basesOf o .closed o.walk

/-- No walk drops a base that it has visited. -/
theorem walk_basesStay (o : Opcode) : basesStay o .closed o.walk = true := by
  cases o <;> decide

section Readings
variable {o : Opcode} {inst : RawInst} {features : Features} {slot : Nat} {op op' : Operand}
  (ho : Opcode.ofWord? inst.opcode = some o)
include ho

/-- The register in a slot is stored as the base. -/
theorem memoryPart_base (hregister : o.Declares slot (·.isRegister))
    (h : memoryPart inst slot true id op = .ok op') :
    ∃ raw, inst.operand slot = .reg raw ∧ op'.base? = some raw := by
  simp only [memoryPart, descriptor_eq ho hregister.1, ok_bind, if_pos hregister.2.1] at h
  obtain ⟨raw, hraw, h⟩ := bind_eq_ok_iff.mp h
  cases h
  exact ⟨raw, readReg_eq_ok_iff.mp hraw, by simp [Operand.base?]⟩

omit ho in
/-- Another part leaves the base alone. -/
theorem memoryPart_keepsBase {resolve : UInt64 → UInt64} {m : Memory}
    (hvalue : op.value = .mem m) (h : memoryPart inst slot false resolve op = .ok op') :
    op'.base? = op.base? := by
  rw [base?_of_memory hvalue]
  obtain ⟨declared, -, h⟩ := bind_eq_ok_iff.mp h
  split at h
  · obtain ⟨raw, -, h⟩ := bind_eq_ok_iff.mp h
    cases h
    rfl
  · split at h
    · obtain ⟨raw, -, h⟩ := bind_eq_ok_iff.mp h
      cases h
      rfl
    · cases h

/-- A register slot that is declared to be read and written is added as it is. -/
theorem regOperand_base (hregister : o.Declares slot (·.isRegister))
    (haccess : (o.declared slot).access = .readWrite)
    (h : regOperand inst slot id = .ok op) :
    ∃ raw, inst.operand slot = .reg raw ∧ op.base? = some raw := by
  simp only [regOperand, descriptor_eq ho hregister.1, ok_bind, if_pos hregister.2.1] at h
  obtain ⟨raw, hraw, h⟩ := bind_eq_ok_iff.mp h
  cases h
  exact ⟨raw, readReg_eq_ok_iff.mp hraw, by simp [Operand.base?, haccess]⟩

end Readings

section Steps
variable {o : Opcode} {inst : RawInst} {features : Features} {p : Opening} {n slot : Nat}
  {d d' : Draft} {s : Step}

theorem append_bases {op : Operand} (hclosed : d.opened = none) (h : d.append op = .ok d') :
    baseRegs d'.operands = baseRegs d.operands ++ op.base?.toList := by
  rw [Draft.append_eq_ok h]
  simp only [Draft.operands, hclosed, Option.toList_none, List.append_nil, baseRegs_append,
    baseRegs_singleton]

theorem closeMemory_operands (h : d.closeMemory inst = .ok d') : d'.operands = d.operands := by
  cases hopened : d.opened with
  | none =>
      simp only [Draft.closeMemory, hopened] at h
      cases h
  | some op =>
      simp only [Draft.closeMemory, hopened] at h
      rw [Draft.append_eq_ok h, Draft.operands, Draft.operands, hopened]
      exact List.append_nil _

/-- A shift keeps the bases of all operands. -/
theorem attachShift_bases {code : UInt8} {imm : UInt32}
    (h : d.attachShift inst code imm = .ok d') :
    baseRegs d'.operands = baseRegs d.operands := by
  obtain ⟨hcommitted, hopened, -⟩ := Draft.attachShift_view (·.base?) (fun _ _ _ => rfl) h
  rw [baseRegs, Draft.operands_map, hcommitted, hopened, ← Draft.operands_map, baseRegs]

/-- A step goes on with the bases that operands bear, and adds those that it visits. -/
structure Step.Bears (o : Opcode) (inst : RawInst) (p : Opening) (s : Step)
    (d d' : Draft) : Prop where
  keeps : s.drops o p = false → baseRegs d.operands ⊆ baseRegs d'.operands
  visits : ∀ slot ∈ s.bases o p,
    ∃ id, inst.operand slot = .reg id ∧ id ∈ baseRegs d'.operands

/-- A step that visits no base and keeps those that are borne. -/
theorem Step.Bears.of_keeps (hnone : s.bases o p = [])
    (h : baseRegs d.operands ⊆ baseRegs d'.operands) : s.Bears o inst p d d' where
  keeps _ := h
  visits slot hslot := by
    rw [hnone] at hslot
    cases hslot

/-- A memory operand that is added bears its base. -/
theorem addressed_bears {group : OperandGroup} {op : Operand} {id : UInt16}
    (hgroup : group.bases o slot = [slot]) (hclosed : d.opened = none)
    (hraw : inst.operand slot = .reg id) (hbase : op.base? = some id)
    (h : d.append op = .ok d') : (Step.classify group slot).Bears o inst .closed d d' := by
  have hbases := append_bases hclosed h
  constructor
  case keeps =>
    intro _
    rw [hbases]
    exact List.subset_append_left _ _
  case visits =>
    intro visited hvisited
    rw [Step.bases, hgroup, List.mem_singleton] at hvisited
    rw [hvisited, hbases, hbase]
    exact ⟨id, hraw, List.mem_append_right _ List.mem_cons_self⟩

variable (ho : Opcode.ofWord? inst.opcode = some o)
include ho

/-- A group that adds operands keeps the bases. A register that is read and written is one
more. -/
theorem adds_bears {group : OperandGroup} (hfits : group.FitsClosed o n slot)
    (hadds : group.adds = true) (hclosed : d.opened = none)
    (h : d.classifyGroup inst features group slot = .ok d') :
    (Step.classify group slot).Bears o inst .closed d d' := by
  rw [classifyGroup_closed hadds hclosed] at h
  obtain ⟨reads, hreads, h⟩ := bind_eq_ok_iff.mp h
  obtain ⟨ops, rfl, rfl⟩ := Draft.appendAll_eq_ok h
  have hbases : baseRegs { d with committed := d.committed ++ ops }.operands =
      baseRegs d.operands ++ baseRegs ops := by
    simp only [Draft.operands, hclosed, Option.toList_none, List.append_nil, baseRegs_append]
  constructor
  case keeps =>
    intro _
    rw [hbases]
    exact List.subset_append_left _ _
  case visits =>
    intro visited hvisited
    cases group with
    | generic =>
        rw [Step.bases, OperandGroup.bases] at hvisited
        split at hvisited
        next hbase =>
            obtain ⟨hregister, haccess⟩ := hbase
            have hdeclares : o.Declares slot (·.isRegister) := ⟨hfits.1, hregister, hfits.2.2⟩
            have hread : [regOperand inst slot id] = ops.map .ok := by
              simp only [groupOperands, descriptor_eq ho hfits.1, ok_bind] at hreads
              cases htype : (o.declared slot).type with
              | reg | memReg | memIndexReg =>
                  rw [htype] at hreads
                  exact Except.ok.inj hreads
              | undeclared | imm | pred | memImm =>
                  rw [htype] at hregister
                  cases hregister
            obtain ⟨op, rfl, hop⟩ := List.map_eq_singleton_iff.mp hread.symm
            obtain ⟨raw, hraw, hbase⟩ := regOperand_base ho hdeclares haccess hop.symm
            rw [List.mem_singleton.mp hvisited, hbases, baseRegs_singleton, hbase]
            exact ⟨raw, hraw, List.mem_append_right _ List.mem_cons_self⟩
        next => cases hvisited
    | alignedAddress | baseAddress => cases hadds
    | _ => cases hvisited

theorem step_closed_bears (hfits : s.Fits o n .closed) (hat : d.At .closed n)
    (h : d.step inst features s = .ok d') : s.Bears o inst .closed d d' := by
  have hclosed := hat.eq_none
  cases s with
  | classify group slot =>
      cases hadds : group.adds with
      | true => exact adds_bears ho hfits hadds hclosed h
      | false =>
          cases group with
          | predicate kind | vectorPredicate | itMask | flagSetter =>
              obtain ⟨value, -, h⟩ := bind_eq_ok_iff.mp h
              cases h
              exact .of_keeps rfl (List.Subset.refl _)
          | baseAddress =>
              obtain ⟨op, -, h⟩ := bind_eq_ok_iff.mp h
              obtain ⟨op', hop', h⟩ := bind_eq_ok_iff.mp h
              obtain ⟨raw, hraw, hbase⟩ := memoryPart_base ho hfits.2 hop'
              exact addressed_bears rfl hclosed hraw hbase h
          | alignedAddress =>
              obtain ⟨op, -, h⟩ := bind_eq_ok_iff.mp h
              obtain ⟨op', hop', h⟩ := bind_eq_ok_iff.mp h
              obtain ⟨op'', hop'', h⟩ := bind_eq_ok_iff.mp h
              obtain ⟨raw, hraw, hbase⟩ := memoryPart_base ho hfits.2.1 hop'
              obtain ⟨m, hvalue⟩ := memoryPart_value hop'
              have hkept := (memoryPart_keepsBase hvalue hop'').trans hbase
              exact addressed_bears rfl hclosed hraw hkept h
          | _ => cases hadds
  | packedShift slot =>
      obtain ⟨raw, -, h⟩ := bind_eq_ok_iff.mp h
      refine .of_keeps rfl ?_
      rw [attachShift_bases h]
      exact List.Subset.refl _
  | openMemory =>
      obtain ⟨op, -, h⟩ := bind_eq_ok_iff.mp h
      cases h
      refine .of_keeps rfl ?_
      simp only [Draft.operands, hclosed, Option.toList_none, List.append_nil, baseRegs_append]
      exact List.subset_append_left _ _
  | writeback =>
      cases h
      exact .of_keeps rfl (List.Subset.refl _)
  | shiftLeft slot | closeMemory => exact hfits.elim

theorem step_fresh_bears (hfits : s.Fits o n .fresh) (hmemory : d.BuildsMemory .fresh)
    (h : d.step inst features s = .ok d') : s.Bears o inst .fresh d d' := by
  obtain ⟨op, m, hopened, hvalue⟩ := hmemory rfl
  cases s with
  | classify group slot =>
      cases group with
      | generic =>
          have hplain : ((o.declared slot).type.isRegister ||
            (o.declared slot).type.isImmediate) = true := hfits.2.1
          simp only [Draft.step, Draft.classifyGroup, descriptor_eq ho hfits.1, ok_bind,
            hopened, if_pos hplain] at h
          obtain ⟨op', hop', h⟩ := bind_eq_ok_iff.mp h
          cases h
          cases hisBase : (o.declared slot).type.isBase with
          | true =>
              rw [hisBase] at hop'
              have hregister : o.Declares slot (·.isRegister) :=
                ⟨hfits.1, isRegister_of_isBase hisBase, hfits.2.2⟩
              obtain ⟨raw, hraw, hbase⟩ := memoryPart_base ho hregister hop'
              constructor
              case keeps =>
                intro hkeeps
                rw [Step.drops, hisBase] at hkeeps
                cases hkeeps
              case visits =>
                intro visited hvisited
                rw [Step.bases, if_pos hisBase, List.mem_singleton] at hvisited
                refine ⟨raw, hvisited ▸ hraw, ?_⟩
                simp only [Draft.operands, Option.toList_some, baseRegs_append,
                  baseRegs_singleton, hbase]
                exact List.mem_append_right _ List.mem_cons_self
          | false =>
              rw [hisBase] at hop'
              refine .of_keeps ?_ ?_
              · rw [Step.bases, hisBase]
                rfl
              · simp only [Draft.operands, hopened, Option.toList_some, baseRegs_append,
                  baseRegs_singleton, memoryPart_keepsBase hvalue hop']
                exact List.Subset.refl _
      | bareImmediate =>
          constructor
          case keeps =>
            intro hkeeps
            cases hkeeps
          case visits =>
            intro visited hvisited
            cases hvisited
      | _ => exact hfits.elim
  | shiftLeft slot =>
      obtain ⟨raw, -, h⟩ := bind_eq_ok_iff.mp h
      refine .of_keeps rfl ?_
      rw [attachShift_bases h]
      exact List.Subset.refl _
  | closeMemory =>
      refine .of_keeps rfl ?_
      rw [closeMemory_operands h]
      exact List.Subset.refl _
  | packedShift slot | openMemory | writeback => exact hfits.elim

/-- Every step bears on the bases as it says. -/
theorem step_bears (hfits : s.Fits o n p) (hat : d.At p n) (hmemory : d.BuildsMemory p)
    (h : d.step inst features s = .ok d') : s.Bears o inst p d d' := by
  cases p with
  | closed => exact step_closed_bears ho hfits hat h
  | fresh => exact step_fresh_bears ho hfits hmemory h
  | folded =>
      cases s with
      | closeMemory =>
          refine .of_keeps rfl ?_
          rw [closeMemory_operands h]
          exact List.Subset.refl _
      | _ => exact hfits.elim

/-- Steps that drop no base keep all that are borne. -/
theorem run_keepsBases (steps : List Step) (hfits : StepsFit o inst p n steps)
    (hat : d.At p n) (hmemory : d.BuildsMemory p) (hkeeps : keepsBases o p steps = true)
    (h : d.run inst features steps = .ok d') : baseRegs d.operands ⊆ baseRegs d'.operands := by
  induction steps generalizing p n d with
  | nil =>
      cases h
      exact List.Subset.refl _
  | cons s rest ih =>
      obtain ⟨hstep, hrest⟩ := hfits
      simp only [keepsBases, Bool.and_eq_true, Bool.not_eq_true'] at hkeeps
      simp only [Draft.run, List.foldlM_cons] at h
      obtain ⟨d₁, hd₁, h⟩ := bind_eq_ok_iff.mp h
      have hat₁ := (step_ends ho hstep hat |>.of_ok hd₁).2
      have hmemory₁ := (step_stored ho hstep hat hmemory hd₁).memory
      have hbears := step_bears ho hstep hat hmemory hd₁
      exact List.Subset.trans (hbears.keeps hkeeps.1) (ih hrest hat₁ hmemory₁ hkeeps.2 h)

/-- What steps visit as a base is a register, and is borne in the end if none is dropped
once it has been visited. -/
theorem run_bears (steps : List Step) (hfits : StepsFit o inst p n steps)
    (hat : d.At p n) (hmemory : d.BuildsMemory p) (hstay : basesStay o p steps = true)
    (h : d.run inst features steps = .ok d') :
    ∀ slot ∈ basesOf o p steps,
      ∃ id, inst.operand slot = .reg id ∧ id ∈ baseRegs d'.operands := by
  induction steps generalizing p n d with
  | nil => exact nofun
  | cons s rest ih =>
      obtain ⟨hstep, hrest⟩ := hfits
      simp only [basesStay, Bool.and_eq_true, Bool.or_eq_true, List.isEmpty_iff] at hstay
      simp only [Draft.run, List.foldlM_cons] at h
      obtain ⟨d₁, hd₁, h⟩ := bind_eq_ok_iff.mp h
      have hat₁ := (step_ends ho hstep hat |>.of_ok hd₁).2
      have hmemory₁ := (step_stored ho hstep hat hmemory hd₁).memory
      have hbears := step_bears ho hstep hat hmemory hd₁
      intro slot hslot
      rw [basesOf, List.mem_append] at hslot
      rcases hslot with hvisited | hlater
      · have hkeeps := hstay.1.resolve_left (List.ne_nil_of_mem hvisited)
        obtain ⟨id, hraw, hborne⟩ := hbears.visits slot hvisited
        exact ⟨id, hraw, run_keepsBases ho rest hrest hat₁ hmemory₁ hkeeps h hborne⟩
      · exact ih hrest hat₁ hmemory₁ hstay.2 h slot hlater

end Steps

/-- Every slot that a walk visits as a base holds a register, and an operand of the built
record bears it. -/
theorem buildOperands_bears {o : Opcode} {inst : RawInst} {features : Features}
    (ho : Opcode.ofWord? inst.opcode = some o) {start record : Record}
    (hempty : start.operands.toList = []) (h : buildOperands inst start features = .ok record) :
    ∀ slot ∈ o.bases,
      ∃ id, inst.operand slot = .reg id ∧ id ∈ baseRegs record.operands.toList := by
  have hat := Draft.at_ofRecord hempty
  have hfits := walk_fits o inst
  have hrun : Yields
      (fun d => d.opened = none ∧ ∀ slot ∈ o.bases,
        ∃ id, inst.operand slot = .reg id ∧ id ∈ baseRegs d.operands)
      ((Draft.ofRecord start).run inst features o.walk) := by
    cases hd : (Draft.ofRecord start).run inst features o.walk with
    | error fault => exact .error trivial
    | ok d =>
        have hclosed := (run_ends ho o.walk hfits hat |>.of_ok hd).2
        exact .ok ⟨hclosed.eq_none, run_bears ho o.walk hfits hat Draft.buildsMemory_closed
          (walk_basesStay o) hd⟩
  refine ((buildOperands_alike ho hempty features).ends hrun
    (A := fun r => ∀ slot ∈ o.bases,
      ∃ id, inst.operand slot = .reg id ∧ id ∈ baseRegs r.operands.toList) ?_).of_ok h
  rintro r d ⟨hoperands, -⟩ ⟨hclosed, hborne⟩
  rw [Draft.operands, hclosed, Option.toList_none, List.append_nil] at hborne
  rw [hoperands]
  exact hborne

end Disassembly.Arm
