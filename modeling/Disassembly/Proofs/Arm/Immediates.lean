import Disassembly.Proofs.Arm.BuildRun

/-!
# Immediates of a record

The immediates among the operands of a draft are those that the steps of a walk have
stored, in the order of the steps. A step with nothing open stores the immediate in its
slot, resolved if it is an offset of a branch, or the value of a status mask. A memory
operand and what is done to it, or to an operand that was there before, store none.
-/

namespace Disassembly.Arm

/-- The immediate that a value is. -/
def OperandValue.imm? : OperandValue → Option Int64
  | .imm value => some value
  | _ => none

/-- The immediates among operands, in order. -/
def immediates (ops : List Operand) : List Int64 :=
  (ops.map (·.value)).filterMap (·.imm?)

@[simp] theorem immediates_append (ops ops' : List Operand) :
    immediates (ops ++ ops') = immediates ops ++ immediates ops' := by
  simp only [immediates, List.map_append, List.filterMap_append]

theorem immediates_singleton (op : Operand) :
    immediates [op] = op.value.imm?.toList := by
  simp only [immediates, List.map_cons, List.map_nil]
  cases h : op.value.imm? with
  | none => simp [h]
  | some value => simp [h]

/-- Operands with no immediate among them. -/
theorem immediates_eq_nil {ops : List Operand} (h : ∀ op ∈ ops, op.value.imm? = none) :
    immediates ops = [] := by
  rw [immediates, List.filterMap_eq_nil_iff]
  intro value hvalue
  obtain ⟨op, hop, rfl⟩ := List.mem_map.mp hvalue
  exact h op hop

/-- Readings that give no immediate. -/
theorem immediates_eq_nil_of_reads {reads : List (Except Fault Operand)} {ops : List Operand}
    (hreads : reads = ops.map .ok)
    (h : ∀ op : Operand, .ok op ∈ reads → op.value.imm? = none) : immediates ops = [] := by
  apply immediates_eq_nil
  intro op hop
  apply h
  rw [hreads]
  exact List.mem_map_of_mem hop

/-- A change of one operand that keeps a view of it keeps that view of all. -/
theorem view_modify {β : Type} (view : Operand → β) (ops : List Operand) (i : Nat)
    {f : Operand → Operand} (hf : ∀ op, view (f op) = view op) :
    (ops.modify i f).map view = ops.map view := by
  apply List.ext_getElem?
  intro j
  rw [List.getElem?_map, List.getElem?_map, List.getElem?_modify]
  cases ops[j]? with
  | none => rfl
  | some op =>
      by_cases hj : i = j
      · simp [hj, hf]
      · simp [hj]

/-- The immediates that a group stores with nothing open. -/
def OperandGroup.stores (o : Opcode) (inst : RawInst) (features : Features) (slot : Nat) :
    OperandGroup → List Int64
  | .generic =>
      if (o.declared slot).type.isImmediate then
        (inst.operand slot).imm?.toList.map fun raw =>
          (resolveBranch inst raw.toUInt64).toInt64
      else []
  | .bareImmediate => (inst.operand slot).imm?.toList
  | .statusMask =>
      (inst.operand slot).imm?.toList.filterMap fun raw =>
        (statusValue? inst features raw.toUInt64.toUInt32).bind (·.imm?)
  | _ => []

/-- The immediates that a step stores. -/
def Step.stores (o : Opcode) (inst : RawInst) (features : Features) :
    Opening → Step → List Int64
  | .closed, .classify group slot => group.stores o inst features slot
  | _, _ => []

/-- The immediates that steps store. -/
def storedBy (o : Opcode) (inst : RawInst) (features : Features) :
    Opening → List Step → List Int64
  | _, [] => []
  | p, s :: rest => s.stores o inst features p ++ storedBy o inst features (s.next p) rest

section Readings
variable {o : Opcode} {inst : RawInst} {features : Features} {slot : Nat}

theorem readImm_eq_ok_iff {value : Int64} :
    readImm inst slot = .ok value ↔ inst.operand slot = .imm value := by
  rw [readImm]
  cases inst.operand slot <;> simp [RawOperand.imm?]

/-- A register operand has a register for its value. -/
theorem regOperand_value {resolve : UInt64 → UInt64} {op : Operand}
    (h : regOperand inst slot resolve = .ok op) : ∃ r, op.value = .reg r := by
  obtain ⟨declared, -, h⟩ := bind_eq_ok_iff.mp h
  split at h
  · obtain ⟨raw, -, h⟩ := bind_eq_ok_iff.mp h
    cases h
    exact ⟨_, rfl⟩
  · cases h

theorem listOperand_value {access : Access} {op : Operand}
    (h : listOperand inst access slot = .ok op) : ∃ r, op.value = .reg r := by
  obtain ⟨raw, -, h⟩ := bind_eq_ok_iff.mp h
  cases h
  exact ⟨_, rfl⟩

theorem immOperand_value {kind : Int64 → OperandValue} {resolve : UInt64 → UInt64}
    {op : Operand} (h : immOperand inst slot kind resolve = .ok op) :
    ∃ raw, inst.operand slot = .imm raw ∧
      op.value = kind (resolve raw.toUInt64).toInt64 := by
  obtain ⟨raw, hraw, h⟩ := bind_eq_ok_iff.mp h
  obtain ⟨declared, -, h⟩ := bind_eq_ok_iff.mp h
  cases h
  exact ⟨raw, readImm_eq_ok_iff.mp hraw, rfl⟩

theorem memoryPart_value {isBase : Bool} {resolve : UInt64 → UInt64} {op op' : Operand}
    (h : memoryPart inst slot isBase resolve op = .ok op') : ∃ m, op'.value = .mem m := by
  obtain ⟨declared, -, h⟩ := bind_eq_ok_iff.mp h
  split at h
  · obtain ⟨raw, -, h⟩ := bind_eq_ok_iff.mp h
    cases h
    exact ⟨_, rfl⟩
  · split at h
    · obtain ⟨raw, -, h⟩ := bind_eq_ok_iff.mp h
      cases h
      exact ⟨_, rfl⟩
    · cases h

theorem descriptor_eq_ok (ho : Opcode.ofWord? inst.opcode = some o) {declared : Descriptor}
    (h : descriptor inst.opcode slot = .ok declared) : declared = o.declared slot := by
  simp only [descriptor, ho] at h
  split at h
  · cases h
  · cases h
    rfl

/-- What a group adds with nothing open has the immediates that the group stores. -/
theorem groupOperands_immediates (ho : Opcode.ofWord? inst.opcode = some o)
    {group : OperandGroup} {ops : List Operand}
    (h : groupOperands inst features group slot = .ok (ops.map .ok)) :
    immediates ops = group.stores o inst features slot := by
  have hone {read : Except Fault Operand} (h : [read] = ops.map .ok) :
      ∃ op, ops = [op] ∧ read = .ok op := by
    obtain ⟨op, hops, hop⟩ := List.map_eq_singleton_iff.mp h.symm
    exact ⟨op, hops, hop.symm⟩
  cases group with
  | generic =>
      obtain ⟨declared, hdeclared, h⟩ := bind_eq_ok_iff.mp h
      rw [descriptor_eq_ok ho hdeclared] at h
      rw [OperandGroup.stores]
      cases htype : (o.declared slot).type with
      | imm | memImm =>
          rw [htype] at h
          obtain ⟨op, rfl, hop⟩ := hone (Except.ok.inj h)
          obtain ⟨raw, hraw, hvalue⟩ := immOperand_value hop
          rw [immediates_singleton, hvalue, hraw]
          rfl
      | reg | memReg | memIndexReg =>
          rw [htype] at h
          obtain ⟨op, rfl, hop⟩ := hone (Except.ok.inj h)
          obtain ⟨r, hvalue⟩ := regOperand_value hop
          rw [immediates_singleton, hvalue]
          rfl
      | pred =>
          rw [htype] at h
          obtain ⟨op, rfl, hop⟩ := hone (Except.ok.inj h)
          obtain ⟨raw, -, hvalue⟩ := immOperand_value hop
          rw [immediates_singleton, hvalue]
          rfl
      | undeclared =>
          rw [htype] at h
          cases h
  | coprocessor | coprocessorRegister =>
      obtain ⟨op, rfl, hop⟩ := hone (Except.ok.inj h)
      obtain ⟨raw, -, hvalue⟩ := immOperand_value hop
      rw [immediates_singleton, hvalue]
      rfl
  | bareImmediate =>
      obtain ⟨op, rfl, hop⟩ := hone (Except.ok.inj h)
      obtain ⟨raw, hraw, hvalue⟩ := immOperand_value hop
      rw [immediates_singleton, hvalue, OperandGroup.stores, hraw]
      rfl
  | alignedOffset =>
      obtain ⟨raw, -, h⟩ := bind_eq_ok_iff.mp h
      apply immediates_eq_nil_of_reads (Except.ok.inj h)
      intro op hop
      split at hop
      · cases hop
      · obtain ⟨r, hvalue⟩ := regOperand_value (List.mem_singleton.mp hop).symm
        rw [hvalue]
        rfl
  | vectorList size =>
      apply immediates_eq_nil_of_reads (Except.ok.inj h)
      intro op hop
      obtain ⟨offset, -, hop⟩ := List.mem_map.mp hop
      obtain ⟨r, hvalue⟩ := regOperand_value hop
      rw [hvalue]
      rfl
  | registerList =>
      obtain ⟨declared, -, h⟩ := bind_eq_ok_iff.mp h
      apply immediates_eq_nil_of_reads (Except.ok.inj h)
      intro op hop
      obtain ⟨i, -, hop⟩ := List.mem_map.mp hop
      obtain ⟨r, hvalue⟩ := listOperand_value hop
      rw [hvalue]
      rfl
  | statusMask =>
      obtain ⟨raw, hraw, h⟩ := bind_eq_ok_iff.mp h
      obtain ⟨declared, -, h⟩ := bind_eq_ok_iff.mp h
      rw [OperandGroup.stores, readImm_eq_ok_iff.mp hraw]
      simp only [RawOperand.imm?, Option.toList_some, List.filterMap_cons, List.filterMap_nil]
      cases hvalue : statusValue? inst features raw.toUInt64.toUInt32 with
      | none =>
          rw [hvalue] at h
          rw [List.map_eq_nil_iff.mp (Except.ok.inj h).symm]
          rfl
      | some value =>
          rw [hvalue] at h
          obtain ⟨op, rfl, hop⟩ := hone (Except.ok.inj h)
          cases hop
          rw [immediates_singleton, Option.bind_some]
          cases value.imm? <;> rfl
  | unmapped g => cases h
  | predicate kind | vectorPredicate | flagSetter | itMask | alignedAddress
  | baseAddress =>
      rw [List.map_eq_nil_iff.mp (Except.ok.inj h).symm]
      rfl

end Readings

namespace Draft

variable {d d' : Draft}

/-- All operands, an open one last. -/
def operands (d : Draft) : List Operand := d.committed ++ d.opened.toList

theorem append_eq_ok {op : Operand} (h : d.append op = .ok d') :
    d' = { d with committed := d.committed ++ [op] } := by
  rw [append] at h
  split at h
  · cases h
    rfl
  · cases h

/-- What is added has all been read, and comes last. -/
theorem appendAll_eq_ok {reads : List (Except Fault Operand)}
    (h : d.appendAll reads = .ok d') :
    ∃ ops, reads = ops.map .ok ∧ d' = { d with committed := d.committed ++ ops } := by
  induction reads generalizing d with
  | nil =>
      cases h
      exact ⟨[], rfl, by rw [List.append_nil]⟩
  | cons read rest ih =>
      simp only [appendAll, List.foldlM_cons, bind_assoc] at h
      obtain ⟨op, hread, hrest⟩ := bind_eq_ok_iff.mp h
      obtain ⟨d₁, hd₁, hrest⟩ := bind_eq_ok_iff.mp hrest
      obtain ⟨ops, hops, hd'⟩ := ih hrest
      refine ⟨op :: ops, ?_, ?_⟩
      · rw [hread, hops, List.map_cons]
      · rw [hd', append_eq_ok hd₁]
        simp only [List.append_assoc, List.singleton_append]

theorem operands_map {β : Type} (view : Operand → β) :
    d.operands.map view = d.committed.map view ++ (d.opened.map view).toList := by
  rw [operands, List.map_append]
  cases d.opened <;> rfl

/-- A shift leaves the marks alone, and every view of the operands that does not look at
shifts. -/
theorem attachShift_view {β : Type} (view : Operand → β)
    (hview : ∀ op kind imm, view (op.shifted kind imm) = view op) {inst : RawInst}
    {code : UInt8} {imm : UInt32} (h : d.attachShift inst code imm = .ok d') :
    d'.committed.map view = d.committed.map view ∧ d'.opened.map view = d.opened.map view ∧
      d'.marks = d.marks := by
  obtain ⟨kind?, -, h⟩ := bind_eq_ok_iff.mp h
  cases kind? with
  | none =>
      cases h
      exact ⟨rfl, rfl, rfl⟩
  | some kind =>
      cases hopened : d.opened with
      | some op =>
          simp only [hopened] at h
          cases h
          exact ⟨rfl, congrArg some (hview op kind imm), rfl⟩
      | none =>
          simp only [hopened] at h
          split at h
          · cases h
          · cases h
            exact ⟨view_modify view _ _ fun op => hview op kind imm, rfl, rfl⟩

/-- The last operand is taken back with a lane. -/
theorem foldLane_eq_ok {inst : RawInst} {slot : Nat} (h : d.foldLane inst slot = .ok d') :
    ∃ first last lane, d.committed = first ++ [last] ∧
      d' = { d with committed := first, opened := some { last with neonLane := lane } } := by
  obtain ⟨lane, -, h⟩ := bind_eq_ok_iff.mp h
  cases hlast : d.committed.getLast? with
  | none =>
      simp only [hlast] at h
      cases h
  | some last =>
      simp only [hlast] at h
      cases h
      obtain ⟨first, hfirst⟩ := List.getLast?_eq_some_iff.mp hlast
      refine ⟨first, last, lane.toInt8, hfirst, ?_⟩
      rw [hfirst, List.dropLast_concat]

/-- What is put together is a memory operand. -/
def BuildsMemory (p : Opening) (d : Draft) : Prop :=
  p = .fresh → ∃ op m, d.opened = some op ∧ op.value = .mem m

theorem immediates_of_closed (h : d.opened = none) :
    immediates d.operands = immediates d.committed := by
  rw [operands, h, Option.toList_none, List.append_nil]

theorem buildsMemory_closed : d.BuildsMemory .closed := nofun

theorem buildsMemory_folded : d.BuildsMemory .folded := nofun

/-- A memory operand is no immediate. -/
theorem BuildsMemory.immediates_eq (h : d.BuildsMemory .fresh) :
    immediates d.operands = immediates d.committed := by
  obtain ⟨op, m, hopened, hvalue⟩ := h rfl
  rw [operands, hopened, immediates_append, Option.toList_some, immediates_singleton, hvalue]
  exact List.append_nil _

end Draft

section Steps
variable {o : Opcode} {inst : RawInst} {features : Features} {p : Opening} {n slot : Nat}
  {d d' : Draft} {s : Step}

/-- Operands added with nothing open add what they hold. -/
theorem immediates_added (hclosed : d.opened = none) (ops : List Operand) :
    immediates { d with committed := d.committed ++ ops }.operands =
      immediates d.operands ++ immediates ops := by
  have hclosed' : { d with committed := d.committed ++ ops }.opened = none := hclosed
  rw [Draft.immediates_of_closed hclosed', Draft.immediates_of_closed hclosed,
    immediates_append]

theorem append_immediates {op : Operand} (hclosed : d.opened = none)
    (h : d.append op = .ok d') :
    immediates d'.operands = immediates d.operands ++ op.value.imm?.toList := by
  rw [Draft.append_eq_ok h, immediates_added hclosed, immediates_singleton]

/-- A shift keeps the values of all operands. -/
theorem attachShift_keeps {code : UInt8} {imm : UInt32}
    (h : d.attachShift inst code imm = .ok d') :
    immediates d'.operands = immediates d.operands ∧
      d'.opened.map (·.value) = d.opened.map (·.value) := by
  obtain ⟨hcommitted, hopened, -⟩ := Draft.attachShift_view (·.value) (fun _ _ _ => rfl) h
  refine ⟨?_, hopened⟩
  rw [immediates, Draft.operands_map, hcommitted, hopened, ← Draft.operands_map, immediates]

/-- A group with nothing open stores its immediates. -/
theorem classifyGroup_immediates (ho : Opcode.ofWord? inst.opcode = some o)
    {group : OperandGroup} (hclosed : d.opened = none)
    (h : d.classifyGroup inst features group slot = .ok d') :
    immediates d'.operands = immediates d.operands ++ group.stores o inst features slot := by
  cases hadds : group.adds with
  | true =>
      rw [classifyGroup_closed hadds hclosed] at h
      obtain ⟨reads, hreads, h⟩ := bind_eq_ok_iff.mp h
      obtain ⟨ops, rfl, rfl⟩ := Draft.appendAll_eq_ok h
      rw [← groupOperands_immediates ho hreads, immediates_added hclosed]
  | false =>
      cases group with
      | predicate kind | vectorPredicate | itMask | flagSetter =>
          obtain ⟨value, -, h⟩ := bind_eq_ok_iff.mp h
          cases h
          exact (List.append_nil _).symm
      | baseAddress =>
          obtain ⟨op, -, h⟩ := bind_eq_ok_iff.mp h
          obtain ⟨op', hop', h⟩ := bind_eq_ok_iff.mp h
          obtain ⟨m, hvalue⟩ := memoryPart_value hop'
          rw [append_immediates hclosed h, hvalue]
          rfl
      | alignedAddress =>
          obtain ⟨op, -, h⟩ := bind_eq_ok_iff.mp h
          obtain ⟨op', -, h⟩ := bind_eq_ok_iff.mp h
          obtain ⟨op'', hop'', h⟩ := bind_eq_ok_iff.mp h
          obtain ⟨m, hvalue⟩ := memoryPart_value hop''
          rw [append_immediates hclosed h, hvalue]
          rfl
      | _ => cases hadds

/-- A step stores immediates after those that were there, and goes on with the memory
operand that is put together. -/
structure Step.Stored (o : Opcode) (inst : RawInst) (features : Features) (p : Opening)
    (s : Step) (d d' : Draft) : Prop where
  immediates_eq :
    immediates d'.operands = immediates d.operands ++ s.stores o inst features p
  memory : d'.BuildsMemory (s.next p)

variable (ho : Opcode.ofWord? inst.opcode = some o)
include ho

theorem step_closed_stored (hfits : s.Fits o n .closed) (hat : d.At .closed n)
    (h : d.step inst features s = .ok d') : s.Stored o inst features .closed d d' := by
  have hclosed := hat.eq_none
  cases s with
  | classify group slot => exact ⟨classifyGroup_immediates ho hclosed h, Draft.buildsMemory_closed⟩
  | packedShift slot =>
      obtain ⟨raw, -, h⟩ := bind_eq_ok_iff.mp h
      refine ⟨?_, Draft.buildsMemory_closed⟩
      rw [(attachShift_keeps h).1]
      exact (List.append_nil _).symm
  | openMemory =>
      simp only [Draft.step, Draft.openMemory, newMemory_eq ho hat hfits, ok_bind] at h
      cases h
      have hmemory : Draft.BuildsMemory .fresh
          { d with opened := some { value := .mem {}, access := (o.declared n).access } } :=
        fun _ => ⟨_, {}, rfl, rfl⟩
      refine ⟨?_, hmemory⟩
      rw [hmemory.immediates_eq, Draft.immediates_of_closed hclosed]
      exact (List.append_nil _).symm
  | writeback =>
      cases h
      exact ⟨(List.append_nil _).symm, Draft.buildsMemory_closed⟩
  | shiftLeft slot | closeMemory => exact hfits.elim

omit ho in
/-- The operand that is taken back keeps its value. -/
theorem foldLane_immediates (hmemory : d.BuildsMemory .fresh)
    (h : d.foldLane inst slot = .ok d') :
    immediates d'.operands = immediates d.operands := by
  obtain ⟨first, last, lane, hfirst, rfl⟩ := Draft.foldLane_eq_ok h
  rw [hmemory.immediates_eq, hfirst]
  simp only [Draft.operands, Option.toList_some, immediates_append, immediates_singleton]

theorem step_fresh_stored (hfits : s.Fits o n .fresh) (hmemory : d.BuildsMemory .fresh)
    (h : d.step inst features s = .ok d') : s.Stored o inst features .fresh d d' := by
  obtain ⟨op, m, hopened, hvalue⟩ := hmemory rfl
  cases s with
  | classify group slot =>
      cases group with
      | generic =>
          have hplain : ((o.declared slot).type.isRegister ||
            (o.declared slot).type.isImmediate) = true := hfits.2.1
          simp only [Draft.step, Draft.classifyGroup, descriptor_eq ho hfits.1, ok_bind,
            hopened, if_pos hplain] at h
          obtain ⟨op', hop', h⟩ := bind_eq_ok_iff.mp h
          cases h
          obtain ⟨m', hvalue'⟩ := memoryPart_value hop'
          have hmemory' : Draft.BuildsMemory .fresh { d with opened := some op' } :=
            fun _ => ⟨op', m', rfl, hvalue'⟩
          refine ⟨?_, hmemory'⟩
          rw [hmemory'.immediates_eq, hmemory.immediates_eq]
          exact (List.append_nil _).symm
      | bareImmediate =>
          simp only [Draft.step, Draft.classifyGroup, hopened, Option.isSome_some,
            if_true] at h
          refine ⟨?_, Draft.buildsMemory_folded⟩
          rw [foldLane_immediates hmemory h]
          exact (List.append_nil _).symm
      | _ => exact hfits.elim
  | shiftLeft slot =>
      obtain ⟨raw, -, h⟩ := bind_eq_ok_iff.mp h
      obtain ⟨himm, hvalues⟩ := attachShift_keeps h
      rw [hopened] at hvalues
      obtain ⟨op', hopened', hvalue'⟩ := Option.map_eq_some_iff.mp hvalues
      refine ⟨?_, fun _ => ⟨op', m, hopened', hvalue'.trans hvalue⟩⟩
      rw [himm]
      exact (List.append_nil _).symm
  | closeMemory =>
      simp only [Draft.step, Draft.closeMemory, hopened] at h
      refine ⟨?_, Draft.buildsMemory_closed⟩
      rw [append_immediates rfl h, hmemory.immediates_eq, Draft.immediates_of_closed rfl, hvalue]
      rfl
  | packedShift slot | openMemory | writeback => exact hfits.elim

omit ho in
theorem step_folded_stored (hfits : s.Fits o n .folded) (hat : d.At .folded n)
    (h : d.step inst features s = .ok d') : s.Stored o inst features .folded d d' := by
  obtain ⟨op, hopened⟩ := hat.eq_some (by decide)
  cases s with
  | closeMemory =>
      simp only [Draft.step, Draft.closeMemory, hopened] at h
      refine ⟨?_, Draft.buildsMemory_closed⟩
      rw [append_immediates rfl h, Draft.immediates_of_closed rfl, Draft.operands, hopened,
        immediates_append, Option.toList_some, immediates_singleton]
      exact (List.append_nil _).symm
  | _ => exact hfits.elim

/-- Every step stores its immediates. -/
theorem step_stored (hfits : s.Fits o n p) (hat : d.At p n) (hmemory : d.BuildsMemory p)
    (h : d.step inst features s = .ok d') : s.Stored o inst features p d d' := by
  cases p with
  | closed => exact step_closed_stored ho hfits hat h
  | fresh => exact step_fresh_stored ho hfits hmemory h
  | folded => exact step_folded_stored hfits hat h

/-- Steps that fit store their immediates one after the other. -/
theorem run_immediates (steps : List Step) (hfits : StepsFit o inst p n steps)
    (hat : d.At p n) (hmemory : d.BuildsMemory p) (h : d.run inst features steps = .ok d') :
    immediates d'.operands = immediates d.operands ++ storedBy o inst features p steps := by
  induction steps generalizing p n d with
  | nil =>
      cases h
      exact (List.append_nil _).symm
  | cons s rest ih =>
      obtain ⟨hstep, hrest⟩ := hfits
      simp only [Draft.run, List.foldlM_cons] at h
      obtain ⟨d₁, hd₁, h⟩ := bind_eq_ok_iff.mp h
      have hat₁ := (step_ends ho hstep hat |>.of_ok hd₁).2
      have hstored := step_stored ho hstep hat hmemory hd₁
      rw [ih hrest hat₁ hstored.memory h, hstored.immediates_eq, List.append_assoc]
      rfl

end Steps

/-- The immediates of a record that a build gives are those that the walk of the opcode
stores. -/
theorem buildOperands_immediates {o : Opcode} {inst : RawInst} {features : Features}
    (ho : Opcode.ofWord? inst.opcode = some o) {start record : Record}
    (hempty : start.operands.toList = []) (h : buildOperands inst start features = .ok record) :
    immediates record.operands.toList = storedBy o inst features .closed o.walk := by
  have hat := Draft.at_ofRecord hempty
  have hfits := walk_fits o inst
  have hends : Ends
      (fun d => d.opened = none ∧
        immediates d.operands = storedBy o inst features .closed o.walk)
      (fun _ => True) ((Draft.ofRecord start).run inst features o.walk) := by
    cases hd : (Draft.ofRecord start).run inst features o.walk with
    | error fault => exact .error trivial
    | ok d =>
        have himm := run_immediates ho o.walk hfits hat Draft.buildsMemory_closed hd
        have hclosed := (run_ends ho o.walk hfits hat |>.of_ok hd).2
        refine .ok ⟨hclosed.eq_none, ?_⟩
        rw [himm, Draft.immediates_of_closed rfl, Draft.ofRecord, hempty]
        rfl
  refine ((buildOperands_alike ho hempty features).ends hends
    (A := fun r => immediates r.operands.toList = _) ?_).of_ok h
  rintro r d ⟨hoperands, -⟩ ⟨hclosed, himm⟩
  rw [hoperands, ← himm, Draft.immediates_of_closed hclosed]

end Disassembly.Arm
