import Disassembly.Arm.Build
import Disassembly.Proofs.Arm.Acceptance
import Disassembly.Proofs.Arm.DraftSimulation

/-!
# What influences a record

Two instructions of one opcode get the same detail when they agree on the raw operands
that the walk of the opcode reads, and on the few other inputs that some opcodes depend
on. Everything else, and the record before, has no influence.
-/

namespace Disassembly.Arm

/-- Two instructions with features of their own agree on everything that the build of
their opcode depends on. -/
structure Agree (i j : RawInst) (f g : Features) : Prop where
  opcode : i.opcode = j.opcode
  /-- The raw operands that the walk reads. -/
  reads : ∀ o, Opcode.ofWord? i.opcode = some o → ∀ s ∈ o.walk,
    ∀ r ∈ s.reads o i.operands.length, i.operand r.1 = j.operand r.1
  /-- How many raw operands a list has. -/
  listLength : ∀ o, Opcode.ofWord? i.opcode = some o → ∀ slot,
    .classify .registerList slot ∈ o.walk →
      i.operands.length - slot = j.operands.length - slot
  /-- What a relative branch starts from. -/
  branch : isRelativeBranch i.opcode = true →
    i.address.toUInt32 = j.address.toUInt32 ∧ i.isThumb = j.isThumb
  /-- What decides which table a status mask is looked up in. -/
  status : Opcode.ofWord? i.opcode = some .msr ∨ Opcode.ofWord? i.opcode = some .t2msrM →
    i.isMClass = j.isMClass
  /-- What decides which names a status mask may have. -/
  names : Opcode.ofWord? i.opcode = some .t2msrM → i.isMClass = true →
    f.contains .dsp = g.contains .dsp ∧ f.contains .v7 = g.contains .v7

section Readings
variable {i j : RawInst} {f g : Features} {slot : Nat}

theorem readReg_congr (hopcode : i.opcode = j.opcode)
    (h : i.operand slot = j.operand slot) : readReg i slot = readReg j slot := by
  rw [readReg, readReg, hopcode, h]

theorem readImm_congr (hopcode : i.opcode = j.opcode)
    (h : i.operand slot = j.operand slot) : readImm i slot = readImm j slot := by
  rw [readImm, readImm, hopcode, h]

theorem readCondition_congr (hopcode : i.opcode = j.opcode)
    (h : i.operand slot = j.operand slot) (kind : PredicateKind) :
    readCondition i kind slot = readCondition j kind slot := by
  rw [readCondition, readCondition, readImm_congr hopcode h, hopcode]

theorem readVectorPredicate_congr (hopcode : i.opcode = j.opcode)
    (h : i.operand slot = j.operand slot) :
    readVectorPredicate i slot = readVectorPredicate j slot := by
  rw [readVectorPredicate, readVectorPredicate, readImm_congr hopcode h, hopcode]

theorem readItLayout_congr (hopcode : i.opcode = j.opcode)
    (h : i.operand slot = j.operand slot)
    (hbefore : i.operand (slot - 1) = j.operand (slot - 1)) :
    readItLayout i slot = readItLayout j slot := by
  rw [readItLayout, readItLayout, readImm_congr hopcode h, readImm_congr hopcode hbefore,
    hopcode]

theorem regOperand_congr (hopcode : i.opcode = j.opcode)
    (h : i.operand slot = j.operand slot) (resolve : UInt64 → UInt64) :
    regOperand i slot resolve = regOperand j slot resolve := by
  rw [regOperand, regOperand, readReg_congr hopcode h, hopcode]

theorem immOperand_congr (hopcode : i.opcode = j.opcode)
    (h : i.operand slot = j.operand slot) (kind : Int64 → OperandValue)
    (resolve : UInt64 → UInt64) :
    immOperand i slot kind resolve = immOperand j slot kind resolve := by
  rw [immOperand, immOperand, readImm_congr hopcode h, hopcode]

theorem listOperand_congr (hopcode : i.opcode = j.opcode)
    (h : i.operand slot = j.operand slot) (access : Access) :
    listOperand i access slot = listOperand j access slot := by
  rw [listOperand, listOperand, readReg_congr hopcode h]

theorem memoryPart_congr (hopcode : i.opcode = j.opcode)
    (h : i.operand slot = j.operand slot) (isBase : Bool) (resolve : UInt64 → UInt64)
    (op : Operand) :
    memoryPart i slot isBase resolve op = memoryPart j slot isBase resolve op := by
  rw [memoryPart, memoryPart, readReg_congr hopcode h, readImm_congr hopcode h, hopcode]

theorem readShift_congr (hopcode : i.opcode = j.opcode) (code : UInt8) (imm : UInt32) :
    readShift i code imm = readShift j code imm := by
  rw [readShift, readShift, hopcode]

/-- A relative branch depends on the low half of the address and on the state. -/
theorem resolveBranch_congr (h : Agree i j f g) : resolveBranch i = resolveBranch j := by
  funext value
  rw [resolveBranch, resolveBranch, ← h.opcode]
  by_cases hbranch : isRelativeBranch i.opcode = true
  · obtain ⟨haddress, hthumb⟩ := h.branch hbranch
    rw [branchBase, branchBase, haddress, hthumb, h.opcode]
  · rw [if_neg hbranch, if_neg hbranch]

/-- Only the move of a microcontroller core looks at the features. -/
theorem maskValue_congr {ownMove : Bool} (h : ownMove = true →
    f.contains .dsp = g.contains .dsp ∧ f.contains .v7 = g.contains .v7) (mask : UInt32) :
    MClass.maskValue ownMove f mask = MClass.maskValue ownMove g mask := by
  cases ownMove with
  | false => rfl
  | true =>
      obtain ⟨hdsp, hv7⟩ := h rfl
      rw [MClass.maskValue, MClass.maskValue, hdsp, hv7]

theorem statusValue?_congr (h : Agree i j f g) {o : Opcode}
    (ho : Opcode.ofWord? i.opcode = some o) (hs : .classify .statusMask slot ∈ o.walk)
    (mask : UInt32) : statusValue? i f mask = statusValue? j g mask := by
  have hmclass : i.isMClass = j.isMClass := by
    apply h.status
    rw [ho]
    rcases statusMask_mem_walk hs with rfl | rfl
    · exact .inl rfl
    · exact .inr rfl
  rw [statusValue?, statusValue?, ← hmclass, ← h.opcode]
  by_cases hclass : i.isMClass = true
  · rw [if_pos hclass, if_pos hclass, maskValue_congr fun hown => ?_]
    exact h.names (of_decide_eq_true hown) hclass
  · rw [if_neg hclass, if_neg hclass]

/-- Both instructions give the same operands to a group. -/
theorem groupOperands_congr (h : Agree i j f g) {o : Opcode}
    (ho : Opcode.ofWord? i.opcode = some o) {group : OperandGroup}
    (hs : .classify group slot ∈ o.walk) :
    groupOperands i f group slot = groupOperands j g group slot := by
  have hreads := h.reads o ho _ hs
  have hopcode := h.opcode
  cases group with
  | generic =>
      have hop := hreads _ List.mem_cons_self
      simp only [groupOperands, immOperand_congr hopcode hop, regOperand_congr hopcode hop,
        resolveBranch_congr h, hopcode]
  | coprocessor | coprocessorRegister | bareImmediate =>
      have hop := hreads _ List.mem_cons_self
      simp only [groupOperands, immOperand_congr hopcode hop]
  | alignedOffset | vectorList size =>
      have hop := hreads _ List.mem_cons_self
      simp only [groupOperands, readReg_congr hopcode hop, regOperand_congr hopcode hop]
  | registerList =>
      have hlist (access : Access) :
          (List.range' slot (i.operands.length - slot)).map (listOperand i access) =
            (List.range' slot (j.operands.length - slot)).map (listOperand j access) := by
        rw [← h.listLength o ho slot hs]
        apply List.map_congr_left
        intro n hn
        exact listOperand_congr hopcode (hreads (n, .register) (List.mem_map_of_mem hn)) access
      simp only [groupOperands, hlist, hopcode]
  | statusMask =>
      have hop := hreads _ List.mem_cons_self
      simp only [groupOperands, readImm_congr hopcode hop, statusValue?_congr h ho hs, hopcode]
  | unmapped group => simp only [groupOperands, hopcode]
  | predicate kind | vectorPredicate | flagSetter | itMask | alignedAddress
  | baseAddress => rfl

end Readings

/-- Two builders in the same state, each at work on an instruction of its own. -/
structure SameState (i j : RawInst) (f g : Features) (b c : Builder) : Prop where
  left : b.inst = i ∧ b.features = f
  right : c.inst = j ∧ c.features = g
  record : b.record = c.record
  memory : b.memory = c.memory

section Operations
variable {i j : RawInst} {f g : Features} {b c : Builder}

theorem SameState.update (h : SameState i j f g b c) (change : Record → Record) :
    SameState i j f g (b.update change) (c.update change) :=
  ⟨h.left, h.right, congrArg change h.record, h.memory⟩

theorem SameState.withOperands (h : SameState i j f g b c)
    (operands : BoundedList Operand maxOperands) :
    SameState i j f g (b.withOperands operands) (c.withOperands operands) :=
  h.update _

theorem append_same (h : SameState i j f g b c) (op : Operand) :
    Alike (SameState i j f g) (b.append op) (c.append op) := by
  simp only [Builder.append, h.record]
  exact .bind_same _ fun operands _ => .ok (h.withOperands operands)

theorem appendAll_same (h : SameState i j f g b c) (ops : List (Except Fault Operand)) :
    Alike (SameState i j f g) (b.appendAll ops) (c.appendAll ops) := by
  have hstep (read : Except Fault Operand) (_ : read ∈ ops) (b' c' : Builder)
      (h' : SameState i j f g b' c') :
      Alike (SameState i j f g) (read >>= b'.append) (read >>= c'.append) :=
    .bind_same read fun op _ => append_same h' op
  exact Alike.foldlM ops hstep h

theorem modifyOpen_same (h : SameState i j f g b c) (change : Operand → Operand) :
    Alike (SameState i j f g) (b.modifyOpen change) (c.modifyOpen change) := by
  simp only [Builder.modifyOpen, h.record]
  exact .bind_same _ fun operands _ => .ok (h.withOperands operands)

theorem SameState.opcode_eq (h : SameState i j f g b c) (hopcode : i.opcode = j.opcode) :
    b.inst.opcode = c.inst.opcode := by
  rw [h.left.1, h.right.1, hopcode]

theorem SameState.building (h : SameState i j f g b c) (memory : MemoryState) :
    SameState i j f g { b with memory } { c with memory } :=
  ⟨h.left, h.right, h.record, rfl⟩

variable (hopcode : i.opcode = j.opcode)
include hopcode

theorem openMemory_same (h : SameState i j f g b c) :
    Alike (SameState i j f g) b.openMemory c.openMemory := by
  have hcount : b.count = c.count := congrArg (·.operands.length) h.record
  simp only [Builder.openMemory, Builder.describe, hcount, h.memory, h.opcode_eq hopcode]
  split
  · exact .error _
  · apply Alike.bind_same
    intro declared _
    exact modifyOpen_same (h.building .building) _

theorem closeMemory_same (h : SameState i j f g b c) :
    Alike (SameState i j f g) b.closeMemory c.closeMemory := by
  have hcommit : b.record.operands.commit = c.record.operands.commit := by
    rw [h.record]
  simp only [Builder.closeMemory, hcommit, h.memory, h.opcode_eq hopcode]
  split
  · exact .error _
  · apply Alike.bind_same
    intro operands _
    exact .ok ((h.building .idle).withOperands operands)

theorem setMemory_same (h : SameState i j f g b c) {slot : Nat}
    (hop : i.operand slot = j.operand slot) (isBase : Bool) (resolve : UInt64 → UInt64) :
    Alike (SameState i j f g) (b.setMemory slot isBase resolve)
      (c.setMemory slot isBase resolve) := by
  cases hactive : b.record.operands.active? with
  | some op =>
      rw [b.setMemory_eq hactive, c.setMemory_eq (h.record ▸ hactive), h.left.1, h.right.1,
        memoryPart_congr hopcode hop]
      exact .bind_same _ fun op' _ => modifyOpen_same h _
  | none =>
      simp only [Builder.setMemory, Builder.describe, Builder.openOperand, h.opcode_eq hopcode,
        ← h.record, hactive]
      exact .bind_same _ fun declared _ => .error _

theorem setLane_same (h : SameState i j f g b c) {slot : Nat}
    (hop : i.operand slot = j.operand slot) :
    Alike (SameState i j f g) (b.setLane slot) (c.setLane slot) := by
  change Alike _ (readImm b.inst slot >>= _) (readImm c.inst slot >>= _)
  rw [h.left.1, h.right.1, readImm_congr hopcode hop]
  apply Alike.bind_same
  intro lane _
  simp only [h.record, Builder.violate, h.opcode_eq hopcode]
  split
  · exact .error _
  · exact modifyOpen_same (h.withOperands _) _

theorem attachShift_same (h : SameState i j f g b c) (code : UInt8) (imm : UInt32) :
    Alike (SameState i j f g) (b.attachShift code imm) (c.attachShift code imm) := by
  rw [b.attachShift_eq, c.attachShift_eq, h.left.1, h.right.1, readShift_congr hopcode]
  apply Alike.bind_same
  intro kind? _
  cases kind? with
  | none => exact .ok h
  | some kind =>
      simp only [h.memory, h.record, Builder.violate, h.opcode_eq hopcode]
      split
      · exact modifyOpen_same h _
      · split
        · exact .error _
        · exact .ok (h.withOperands _)

end Operations

section Steps
variable {i j : RawInst} {f g : Features} {b c : Builder} {o : Opcode}

/-- Both builders classify what they agree on in the same way. -/
theorem classifyGroup_same (hagree : Agree i j f g) (ho : Opcode.ofWord? i.opcode = some o)
    {group : OperandGroup} {slot : Nat} (hs : .classify group slot ∈ o.walk)
    (h : SameState i j f g b c) :
    Alike (SameState i j f g) (b.classifyGroup group slot) (c.classifyGroup group slot) := by
  have hreads := hagree.reads o ho _ hs
  have hopcode := hagree.opcode
  have hadds (hgroup : group.addsOnly = true) : Alike (SameState i j f g)
      (b.classifyGroup group slot) (c.classifyGroup group slot) := by
    rw [b.classifyGroup_eq hgroup, c.classifyGroup_eq hgroup, h.left.1, h.left.2, h.right.1,
      h.right.2, groupOperands_congr hagree ho hs]
    exact .bind_same _ fun ops _ => appendAll_same h ops
  cases group with
  | predicate kind =>
      have hop := hreads _ List.mem_cons_self
      simp only [Builder.classifyGroup, Builder.setCondition_eq, h.left.1, h.right.1,
        readCondition_congr hopcode hop]
      exact .bind_same _ fun cc _ => .ok (h.update _)
  | vectorPredicate =>
      have hop := hreads _ List.mem_cons_self
      simp only [Builder.classifyGroup, Builder.setVectorPredicate_eq, h.left.1, h.right.1,
        readVectorPredicate_congr hopcode hop]
      exact .bind_same _ fun vcc _ => .ok (h.update _)
  | itMask =>
      have hop := hreads _ List.mem_cons_self
      have hbefore := hreads _ (List.mem_cons_of_mem _ List.mem_cons_self)
      simp only [Builder.classifyGroup, Builder.setItLayout_eq, h.left.1, h.right.1,
        readItLayout_congr hopcode hop hbefore]
      exact .bind_same _ fun layout _ => .ok (h.update _)
  | flagSetter =>
      have hop := hreads _ List.mem_cons_self
      change Alike _ (readReg b.inst slot >>= _) (readReg c.inst slot >>= _)
      rw [h.left.1, h.right.1, readReg_congr hopcode hop]
      apply Alike.bind_same
      intro raw _
      split
      · exact .ok h
      · exact .ok (h.update _)
  | generic =>
      have hop := hreads _ List.mem_cons_self
      have himm (kind : Int64 → OperandValue) (resolve : UInt64 → UInt64) :
          Alike (SameState i j f g) (b.appendImm slot kind resolve)
            (c.appendImm slot kind resolve) := by
        rw [b.appendImm_eq, c.appendImm_eq, h.left.1, h.right.1, immOperand_congr hopcode hop]
        exact .bind_same _ fun op _ => append_same h op
      simp only [Builder.classifyGroup, Builder.classifyGeneric, Builder.describe, h.memory,
        h.left.1, h.right.1, hopcode, resolveBranch_congr hagree]
      apply Alike.bind_same
      intro declared _
      cases declared.type with
      | imm | memImm =>
          by_cases hbuilding : c.memory = .building
          · simp only [if_pos hbuilding]
            exact setMemory_same hopcode h hop _ _
          · simp only [if_neg hbuilding]
            exact himm _ _
      | reg | memReg | memIndexReg =>
          by_cases hbuilding : c.memory = .building
          · simp only [if_pos hbuilding]
            exact setMemory_same hopcode h hop _ _
          · simp only [if_neg hbuilding, b.appendReg_eq, c.appendReg_eq, h.left.1, h.right.1,
              regOperand_congr hopcode hop]
            exact .bind_same _ fun op _ => append_same h op
      | pred => exact himm _ _
      | undeclared =>
          simp only [Builder.violate, h.opcode_eq hopcode]
          exact .error _
  | bareImmediate =>
      have hop := hreads _ List.mem_cons_self
      simp only [Builder.classifyGroup, h.memory]
      split
      · exact setLane_same hopcode h hop
      · rw [b.appendImm_eq, c.appendImm_eq, h.left.1, h.right.1, immOperand_congr hopcode hop]
        exact .bind_same _ fun op _ => append_same h op
  | alignedAddress =>
      have hbase := hreads _ List.mem_cons_self
      have halign := hreads _ (List.mem_cons_of_mem _ List.mem_cons_self)
      apply (openMemory_same hopcode h).bind
      intro b₁ c₁ h₁
      apply (setMemory_same hopcode h₁ hbase _ _).bind
      intro b₂ c₂ h₂
      apply (setMemory_same hopcode h₂ halign _ _).bind
      intro b₃ c₃ h₃
      exact closeMemory_same hopcode h₃
  | baseAddress =>
      have hbase := hreads _ List.mem_cons_self
      apply (openMemory_same hopcode h).bind
      intro b₁ c₁ h₁
      apply (setMemory_same hopcode h₁ hbase _ _).bind
      intro b₂ c₂ h₂
      exact closeMemory_same hopcode h₂
  | coprocessor | coprocessorRegister | alignedOffset | vectorList size | registerList
  | statusMask | unmapped g => exact hadds rfl

/-- Both builders carry out a step of the walk in the same way. -/
theorem step_same (hagree : Agree i j f g) (ho : Opcode.ofWord? i.opcode = some o) {s : Step}
    (hs : s ∈ o.walk) (h : SameState i j f g b c) :
    Alike (SameState i j f g) (b.step s) (c.step s) := by
  have hopcode := hagree.opcode
  cases s with
  | classify group slot => exact classifyGroup_same hagree ho hs h
  | shiftLeft slot =>
      have hop := hagree.reads o ho _ hs _ List.mem_cons_self
      change Alike _ (readImm b.inst slot >>= _) (readImm c.inst slot >>= _)
      rw [h.left.1, h.right.1, readImm_congr hopcode hop]
      exact .bind_same _ fun raw _ => attachShift_same hopcode h 2 raw.toUInt64.toUInt32
  | packedShift slot =>
      have hop := hagree.reads o ho _ hs _ List.mem_cons_self
      change Alike _ (readImm b.inst slot >>= _) (readImm c.inst slot >>= _)
      rw [h.left.1, h.right.1, readImm_congr hopcode hop]
      apply Alike.bind_same
      intro raw _
      let imm := raw.toUInt64.toUInt32
      exact attachShift_same hopcode h (imm &&& 7).toUInt8 (imm >>> 3)
  | openMemory => exact openMemory_same hopcode h
  | closeMemory => exact closeMemory_same hopcode h
  | writeback => exact .ok (h.update _)

/-- Both instructions put the same operands into a record. -/
theorem buildOperands_congr (hagree : Agree i j f g)
    (ho : Opcode.ofWord? i.opcode = some o) (record : Record) :
    buildOperands i record f = buildOperands j record g := by
  have hwalk : walk i.opcode = o.walk := by
    simp only [walk, ho]
  have hstart : SameState i j f g (Builder.new i record f) (Builder.new j record g) :=
    ⟨⟨rfl, rfl⟩, ⟨rfl, rfl⟩, rfl, rfl⟩
  have hrun : Alike (SameState i j f g) ((Builder.new i record f).run o.walk)
      ((Builder.new j record g).run o.walk) :=
    Alike.foldlM (f := Builder.step) (g := Builder.step) o.walk
      (fun _ hs _ _ h => step_same hagree ho hs h) hstart
  have hfinish (b c : Builder) (h : SameState i j f g b c) :
      Alike Eq b.finish c.finish := by
    simp only [Builder.finish, h.memory, h.record, h.opcode_eq hagree.opcode]
    split
    · exact .error _
    · exact .ok rfl
  simp only [buildOperands, ← hagree.opcode, hwalk]
  exact (hrun.bind hfinish).eq_of_eq

end Steps

/-- Only what the walk of an opcode reads, where a relative branch starts from, and the
core and the features that a status mask is looked up for influence a build. The other
raw operands, the rest of the address, of the mode and of the features, and the record
before do not. -/
theorem build_eq_of_agree {i j : RawInst} {f g : Features} (h : Agree i j f g)
    (d e : Detail) : build i d f = build j e g := by
  have hrecords : d.resetArm = e.resetArm := rfl
  simp only [build, ← h.opcode, hrecords]
  cases ho : Opcode.ofWord? i.opcode with
  | none =>
      have hfacts : Facts.ofWord? i.opcode = none := by
        rw [Facts.ofWord?, ho]
        rfl
      simp only [classify, hfacts]
      rfl
  | some o => simp only [buildOperands_congr h ho]

/-- A load of the same lane somewhere else and in another mode, without the register
that is read again and the one of the condition. -/
def movedLaneLoad : RawInst where
  opcode := Opcode.vld1lnd8.word
  operands := ⟨[.reg 14, .reg 66, .imm 0, .invalid, .imm 3, .imm 14],
    List.replicate 42 .invalid, rfl, by decide⟩
  address := 0x8000
  mode := .thumb

theorem movedLaneLoad_build_eq :
    Agree laneLoad movedLaneLoad .all .none ∧
      build laneLoad Detail.x86 .all = build movedLaneLoad {} .none := by
  have hagree : Agree laneLoad movedLaneLoad .all .none := by
    constructor
    · rfl
    · rintro o ho
      cases ho
      decide
    · rintro o ho slot hs
      cases ho
      simp [Opcode.walk, Step.pred, Step.op] at hs
    · decide
    · decide
    · decide
  exact ⟨hagree, build_eq_of_agree hagree Detail.x86 {}⟩

end Disassembly.Arm
