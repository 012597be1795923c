import Mathlib.Tactic.SplitIfs
import Disassembly.Proofs.Arm.Immediates

/-!
# Memory operands of a record

Every memory operand of a record has been opened by a step of the walk, and the walk of
an opcode opens at most two. Nothing else that a step adds is a memory operand.
-/

namespace Disassembly.Arm

/-- The value is a memory reference. -/
def OperandValue.isMemory : OperandValue → Bool
  | .mem _ => true
  | _ => false

/-- The number of memory operands among operands. -/
def memories (ops : List Operand) : Nat :=
  (ops.map (·.value)).countP OperandValue.isMemory

@[simp] theorem memories_append (ops ops' : List Operand) :
    memories (ops ++ ops') = memories ops + memories ops' := by
  simp only [memories, List.map_append, List.countP_append]

theorem memories_singleton_le (op : Operand) : memories [op] ≤ 1 := List.countP_le_length

/-- Operands with no memory operand among them. -/
theorem memories_eq_zero {ops : List Operand} (h : ∀ op ∈ ops, op.value.isMemory = false) :
    memories ops = 0 := by
  rw [memories, List.countP_eq_zero]
  intro value hvalue
  obtain ⟨op, hop, rfl⟩ := List.mem_map.mp hvalue
  simp [h op hop]

/-- A step opens a memory operand. -/
def Step.opens : Step → Bool
  | .openMemory | .classify .alignedAddress _ | .classify .baseAddress _ => true
  | _ => false

section Readings
variable {inst : RawInst} {features : Features} {slot : Nat} {op : Operand}

theorem regOperand_not_memory {resolve : UInt64 → UInt64}
    (h : regOperand inst slot resolve = .ok op) : op.value.isMemory = false := by
  obtain ⟨r, hvalue⟩ := regOperand_value h
  rw [hvalue]
  rfl

theorem immOperand_not_memory {kind : Int64 → OperandValue}
    (hkind : ∀ value, (kind value).isMemory = false) {resolve : UInt64 → UInt64}
    (h : immOperand inst slot kind resolve = .ok op) : op.value.isMemory = false := by
  obtain ⟨raw, -, hvalue⟩ := immOperand_value h
  rw [hvalue]
  exact hkind _

/-- A status mask stands for a register or for an immediate. -/
theorem statusValue?_not_memory {mask : UInt32} {value : OperandValue}
    (h : statusValue? inst features mask = some value) : value.isMemory = false := by
  simp only [statusValue?, MClass.maskValue, maskValue?] at h
  split at h
  · cases h
    split <;> rfl
  · split_ifs at h <;> cases h <;> rfl

/-- What a group adds outside of a memory operand is no memory operand. -/
theorem groupOperands_not_memory {group : OperandGroup} {reads : List (Except Fault Operand)}
    (h : groupOperands inst features group slot = .ok reads) (hop : .ok op ∈ reads) :
    op.value.isMemory = false := by
  cases group with
  | generic =>
      obtain ⟨declared, -, h⟩ := bind_eq_ok_iff.mp h
      cases htype : declared.type with
      | imm | memImm | pred =>
          rw [htype] at h
          cases h
          exact immOperand_not_memory (fun _ => rfl) (List.mem_singleton.mp hop).symm
      | reg | memReg | memIndexReg =>
          rw [htype] at h
          cases h
          exact regOperand_not_memory (List.mem_singleton.mp hop).symm
      | undeclared =>
          rw [htype] at h
          cases h
  | coprocessor | coprocessorRegister | bareImmediate =>
      cases h
      exact immOperand_not_memory (fun _ => rfl) (List.mem_singleton.mp hop).symm
  | alignedOffset =>
      obtain ⟨raw, -, h⟩ := bind_eq_ok_iff.mp h
      cases h
      split at hop
      · cases hop
      · exact regOperand_not_memory (List.mem_singleton.mp hop).symm
  | vectorList size =>
      cases h
      obtain ⟨offset, -, hread⟩ := List.mem_map.mp hop
      exact regOperand_not_memory hread
  | registerList =>
      obtain ⟨declared, -, h⟩ := bind_eq_ok_iff.mp h
      cases h
      obtain ⟨i, -, hread⟩ := List.mem_map.mp hop
      obtain ⟨r, hvalue⟩ := listOperand_value hread
      rw [hvalue]
      rfl
  | statusMask =>
      obtain ⟨raw, -, h⟩ := bind_eq_ok_iff.mp h
      obtain ⟨declared, -, h⟩ := bind_eq_ok_iff.mp h
      cases h
      obtain ⟨value, hvalue, hread⟩ := Option.map_eq_some_iff.mp (Option.mem_toList.mp hop)
      cases hread
      exact statusValue?_not_memory hvalue
  | unmapped g => cases h
  | predicate kind | vectorPredicate | flagSetter | itMask | alignedAddress
  | baseAddress =>
      cases h
      cases hop

end Readings

/-- The memory operands of a draft, with a place for the one that is open. -/
def Draft.memories (d : Draft) : Nat := Arm.memories d.committed + d.opened.toList.length

section Steps
variable {inst : RawInst} {features : Features} {slot : Nat} {d d' : Draft} {s : Step}

/-- What a group adds outside of a memory operand leaves the number as it is. -/
theorem adds_memories {group : OperandGroup}
    (h : groupOperands inst features group slot >>= d.appendAll = .ok d') :
    d'.memories = d.memories := by
  obtain ⟨reads, hreads, h⟩ := bind_eq_ok_iff.mp h
  obtain ⟨ops, rfl, rfl⟩ := Draft.appendAll_eq_ok h
  have hnone : memories ops = 0 := by
    apply memories_eq_zero
    intro op hop
    exact groupOperands_not_memory hreads (List.mem_map_of_mem hop)
  simp only [Draft.memories, memories_append, hnone, Nat.add_zero]

theorem append_memories {op : Operand} (h : d.append op = .ok d') :
    d'.memories ≤ d.memories + 1 := by
  have hle := memories_singleton_le op
  rw [Draft.append_eq_ok h]
  simp only [Draft.memories, memories_append]
  omega

/-- The operand that is taken back takes the place of the open one. -/
theorem foldLane_memories (h : d.foldLane inst slot = .ok d') (hopen : d.opened.isSome) :
    d'.memories ≤ d.memories := by
  obtain ⟨opened, hopened⟩ := Option.isSome_iff_exists.mp hopen
  obtain ⟨first, last, lane, hfirst, rfl⟩ := Draft.foldLane_eq_ok h
  simp only [Draft.memories, hfirst, memories_append, hopened, Option.toList_some,
    List.length_singleton]
  omega

theorem attachShift_memories {code : UInt8} {imm : UInt32}
    (h : d.attachShift inst code imm = .ok d') : d'.memories = d.memories := by
  obtain ⟨hcommitted, hopened, -⟩ := Draft.attachShift_view (·.value) (fun _ _ _ => rfl) h
  have hsome : d'.opened.isSome = d.opened.isSome := by
    rw [← Option.isSome_map, hopened, Option.isSome_map]
  rw [Draft.memories, Draft.memories, memories, memories, hcommitted, Option.length_toList,
    Option.length_toList, hsome]

theorem classifyGroup_memories {group : OperandGroup}
    (h : d.classifyGroup inst features group slot = .ok d') :
    d'.memories ≤ d.memories + (Step.classify group slot).opens.toNat := by
  cases group with
  | predicate kind | vectorPredicate | itMask | flagSetter =>
      obtain ⟨value, -, h⟩ := bind_eq_ok_iff.mp h
      cases h
      exact Nat.le_refl _
  | alignedAddress =>
      obtain ⟨op, -, h⟩ := bind_eq_ok_iff.mp h
      obtain ⟨op', -, h⟩ := bind_eq_ok_iff.mp h
      obtain ⟨op'', -, h⟩ := bind_eq_ok_iff.mp h
      exact append_memories h
  | baseAddress =>
      obtain ⟨op, -, h⟩ := bind_eq_ok_iff.mp h
      obtain ⟨op', -, h⟩ := bind_eq_ok_iff.mp h
      exact append_memories h
  | bareImmediate =>
      simp only [Draft.classifyGroup] at h
      split at h
      next hopen => exact foldLane_memories h hopen
      next => exact Nat.le_of_eq (adds_memories h)
  | generic =>
      obtain ⟨declared, -, h⟩ := bind_eq_ok_iff.mp h
      cases hopened : d.opened with
      | none =>
          simp only [hopened] at h
          exact Nat.le_of_eq (adds_memories h)
      | some op =>
          simp only [hopened] at h
          split at h
          · obtain ⟨op', -, h⟩ := bind_eq_ok_iff.mp h
            cases h
            simp only [Draft.memories, hopened, Option.toList_some, List.length_singleton]
            omega
          · exact Nat.le_of_eq (adds_memories h)
  | coprocessor | coprocessorRegister | alignedOffset | vectorList size | registerList
  | statusMask | unmapped g => exact Nat.le_of_eq (adds_memories h)

/-- A step adds at most the memory operand that it opens. -/
theorem step_memories (h : d.step inst features s = .ok d') :
    d'.memories ≤ d.memories + s.opens.toNat := by
  cases s with
  | classify group slot => exact classifyGroup_memories h
  | shiftLeft slot | packedShift slot =>
      obtain ⟨raw, -, h⟩ := bind_eq_ok_iff.mp h
      exact Nat.le_of_eq (attachShift_memories h)
  | openMemory =>
      obtain ⟨op, -, h⟩ := bind_eq_ok_iff.mp h
      cases h
      simp only [Draft.memories, Option.toList_some, List.length_singleton, Step.opens,
        Bool.toNat_true]
      omega
  | closeMemory =>
      simp only [Draft.step, Draft.closeMemory] at h
      cases hopened : d.opened with
      | none =>
          rw [hopened] at h
          cases h
      | some op =>
          rw [hopened] at h
          have hle := append_memories h
          simp only [Draft.memories, hopened, Option.toList_none, Option.toList_some,
            List.length_nil, List.length_singleton] at hle ⊢
          omega
  | writeback =>
      cases h
      exact Nat.le_refl _

/-- Steps add at most the memory operands that they open. -/
theorem run_memories (steps : List Step) (h : d.run inst features steps = .ok d') :
    d'.memories ≤ d.memories + steps.countP Step.opens := by
  induction steps generalizing d with
  | nil =>
      cases h
      exact Nat.le_refl _
  | cons s rest ih =>
      simp only [Draft.run, List.foldlM_cons] at h
      obtain ⟨d₁, hd₁, h⟩ := bind_eq_ok_iff.mp h
      have hstep := step_memories hd₁
      have hrest := ih h
      rw [List.countP_cons]
      cases hopens : s.opens with
      | false =>
          rw [hopens, Bool.toNat_false] at hstep
          simp only [Bool.false_eq_true, if_false]
          omega
      | true =>
          rw [hopens, Bool.toNat_true] at hstep
          simp only [if_true]
          omega

end Steps

/-- A walk opens at most two memory operands. -/
theorem walk_opens_le (o : Opcode) : o.walk.countP Step.opens ≤ 2 := by
  cases o <;> decide

/-- A record that a build gives has at most two memory operands. -/
theorem buildOperands_memories {o : Opcode} {inst : RawInst} {features : Features}
    (ho : Opcode.ofWord? inst.opcode = some o) {start record : Record}
    (hempty : start.operands.toList = []) (h : buildOperands inst start features = .ok record) :
    memories record.operands.toList ≤ 2 := by
  have hrun : Yields (fun d => d.memories ≤ 2)
      ((Draft.ofRecord start).run inst features o.walk) := by
    cases hd : (Draft.ofRecord start).run inst features o.walk with
    | error fault => exact .error trivial
    | ok d =>
        have hle := run_memories o.walk hd
        have hopens := walk_opens_le o
        have hstart : (Draft.ofRecord start).memories = 0 := by
          simp only [Draft.memories, Draft.ofRecord, hempty]
          rfl
        exact .ok (by omega)
  refine ((buildOperands_alike ho hempty features).ends hrun
    (A := fun r => memories r.operands.toList ≤ 2) ?_).of_ok h
  rintro r d ⟨hoperands, -⟩ hle
  rw [hoperands]
  exact Nat.le_trans (Nat.le_add_right _ _) hle

end Disassembly.Arm
