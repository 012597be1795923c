import Disassembly.Proofs.Arm.DraftSimulation
import Disassembly.Proofs.Arm.ReadingEnds

/-!
# How memory operands are put together

While a memory operand is open, a generic request stores one part of it: the base, the
index or the displacement. Which part it is depends on what its slot is declared as and not
on the order of the requests. Of several slots for one part the last one counts, so slots
for different parts can be asked for in any order. Groups that open and close a memory
operand of their own store parts in the same way, but a register is always the base.
-/

namespace Disassembly.Arm

/-- A part of a memory operand. -/
inductive MemoryRole where
  | base
  | index
  | disp
deriving DecidableEq, Repr

/-- The part of a memory operand that a slot of the type holds. -/
def OperandType.role? : OperandType → Option MemoryRole
  | .reg | .memReg => some .base
  | .memIndexReg => some .index
  | .imm | .memImm => some .disp
  | .pred | .undeclared => none

/-- The register in a slot, if there is one. -/
def rawRegister (inst : RawInst) (slot : Nat) : Register :=
  ((inst.operand slot).reg?.map Register.mk).getD .absent

/-- The immediate in a slot, cut to 32 bits. -/
def rawDisplacement (inst : RawInst) (slot : Nat) : Int32 :=
  ((inst.operand slot).imm?.map Int64.toInt32).getD 0

namespace Opcode

/-- A slot is declared as a register and holds one. -/
def HoldsRegister (o : Opcode) (inst : RawInst) (slot : Nat) : Prop :=
  (o.declared slot).type.isRegister = true ∧ RawKind.register.Holds (inst.operand slot)

/-- A slot is declared as an immediate and holds one. -/
def HoldsImmediate (o : Opcode) (inst : RawInst) (slot : Nat) : Prop :=
  (o.declared slot).type.isImmediate = true ∧ RawKind.immediate.Holds (inst.operand slot)

/-- A slot holds a part of a memory operand. -/
def HoldsPart (o : Opcode) (inst : RawInst) (slot : Nat) : Prop :=
  o.HoldsRegister inst slot ∨ o.HoldsImmediate inst slot

instance (o : Opcode) (inst : RawInst) (slot : Nat) : Decidable (o.HoldsPart inst slot) :=
  inferInstanceAs (Decidable ((_ ∧ _) ∨ (_ ∧ _)))

/-- The last of the slots that are declared for a part. -/
def last? (o : Opcode) (role : MemoryRole) (slots : List Nat) : Option Nat :=
  (slots.filter fun slot => (o.declared slot).type.role? = some role).getLast?

/-- The memory reference with the parts that slots hold. -/
def memoryOf (o : Opcode) (inst : RawInst) (slots : List Nat) : Memory where
  base := ((o.last? .base slots).map (rawRegister inst)).getD .absent
  index := ((o.last? .index slots).map (rawRegister inst)).getD .absent
  disp := ((o.last? .disp slots).map (rawDisplacement inst)).getD 0

/-- The operand with the parts that slots hold and the access of the last of them, or that
of slot `n` if there are none. -/
def assembled (o : Opcode) (inst : RawInst) (n : Nat) (slots : List Nat) : Operand :=
  { value := .mem (o.memoryOf inst slots),
    access := (o.declared (slots.getLast?.getD n)).access }

variable {o : Opcode} {inst : RawInst} {slot : Nat} {slots slots' : List Nat}
  {role : MemoryRole}

theorem last?_concat (o : Opcode) (role : MemoryRole) (slots : List Nat) (slot : Nat) :
    o.last? role (slots ++ [slot]) =
      if (o.declared slot).type.role? = some role then some slot else o.last? role slots := by
  by_cases hrole : (o.declared slot).type.role? = some role <;>
    simp [last?, List.filter_append, hrole]

/-- A declared slot can be asked for. -/
theorem lt_maxSlots_of_declared (h : (o.declared slot).type ≠ .undeclared) :
    slot < Descriptor.maxSlots := by
  apply Nat.lt_of_lt_of_le _ (Descriptor.length_ofOpcode_le o)
  apply Nat.lt_of_not_le
  intro hle
  apply h
  rw [declared, List.getElem?_eq_none hle]
  rfl

theorem HoldsRegister.lt_maxSlots (h : o.HoldsRegister inst slot) :
    slot < Descriptor.maxSlots := by
  apply lt_maxSlots_of_declared
  intro htype
  rw [HoldsRegister, htype] at h
  exact Bool.false_ne_true h.1

theorem HoldsImmediate.lt_maxSlots (h : o.HoldsImmediate inst slot) :
    slot < Descriptor.maxSlots := by
  apply lt_maxSlots_of_declared
  intro htype
  rw [HoldsImmediate, htype] at h
  exact Bool.false_ne_true h.1

/-- Where no part has two slots, the order of the slots has no influence. -/
theorem last?_perm (hperm : slots.Perm slots')
    (hroles : (slots.map fun slot => (o.declared slot).type.role?).Nodup) :
    o.last? role slots = o.last? role slots' := by
  have hone : (slots.filter fun slot => (o.declared slot).type.role? = some role).length ≤ 1 := by
    have hcount := List.nodup_iff_count.mp hroles (some role)
    rw [List.count_eq_countP, List.countP_map, List.countP_eq_length_filter] at hcount
    simpa only [Function.comp_def, Bool.beq_eq_decide_eq] using hcount
  have hfilter := hperm.filter fun slot => (o.declared slot).type.role? = some role
  rw [last?, last?]
  generalize (slots.filter _) = found at hone hfilter ⊢
  match found, hone with
  | [], _ => rw [List.nil_perm.mp hfilter]
  | [slot], _ => rw [List.singleton_perm.mp hfilter]

theorem memoryOf_perm (hperm : slots.Perm slots')
    (hroles : (slots.map fun slot => (o.declared slot).type.role?).Nodup) :
    o.memoryOf inst slots = o.memoryOf inst slots' := by
  simp only [memoryOf, last?_perm hperm hroles]

/-- A base and a displacement after it. -/
theorem memoryOf_pair (hbase : (o.declared slot).type.isBase = true)
    (himm : o.HoldsImmediate inst (slot + 1)) :
    o.memoryOf inst [slot, slot + 1] =
      { base := rawRegister inst slot, disp := rawDisplacement inst (slot + 1) } := by
  have hrole : (o.declared slot).type.role? = some .base := by
    cases htype : (o.declared slot).type <;> rw [htype] at hbase <;> first | rfl | cases hbase
  have hrole' : (o.declared (slot + 1)).type.role? = some .disp := by
    have htype' := himm.1
    cases htype : (o.declared (slot + 1)).type <;> rw [htype] at htype' <;>
      first | rfl | cases htype'
  simp [memoryOf, last?, hrole, hrole']

end Opcode

/-- The low 32 bits of an immediate are those of its bits. -/
theorem toInt32_eq (raw : Int64) : raw.toUInt64.toUInt32.toInt32 = raw.toInt32 := by
  apply Int32.toBitVec_inj.mp
  exact (BitVec.signExtend_eq_setWidth_of_le raw.toBitVec (by decide)).symm

/-- An alignment in bits is eight times the one in bytes. -/
theorem alignmentBits_eq (raw : Int64) :
    (alignmentBits raw.toUInt64).toUInt32.toInt32 = 8 * raw.toInt32 := by
  have hbits : (alignmentBits raw.toUInt64).toUInt32 = 8 * raw.toUInt64.toUInt32 := by
    apply UInt32.toNat_inj.mp
    simp only [alignmentBits, UInt64.toNat_toUInt32, UInt64.toNat_shiftLeft, UInt32.toNat_mul,
      UInt32.reduceToNat, UInt64.reduceToNat, Nat.shiftLeft_eq, Nat.reduceMod, Nat.reducePow]
    omega
  rw [hbits, ← toInt32_eq]
  rfl

/-- A memory operand after a part has been stored in it. -/
def Operand.withMemory (op : Operand) (m : Memory) (access : Access) : Operand :=
  { op with value := .mem m, access, subtracted := false }

section Parts
variable {o : Opcode} {inst : RawInst} {slot : Nat}

/-- A register becomes the base or the index. -/
theorem memoryPart_register (ho : Opcode.ofWord? inst.opcode = some o)
    (h : o.HoldsRegister inst slot) (isBase : Bool) (op : Operand) :
    memoryPart inst slot isBase id op =
      .ok (op.withMemory
        (if isBase then { op.memory with base := rawRegister inst slot }
          else { op.memory with index := rawRegister inst slot })
        (o.declared slot).access) := by
  obtain ⟨raw, hraw⟩ := h.2
  simp [memoryPart, descriptor_eq ho h.lt_maxSlots, h.1, readReg, rawRegister, hraw,
    RawOperand.reg?, Operand.withMemory]

/-- An immediate becomes the displacement. -/
theorem memoryPart_immediate (ho : Opcode.ofWord? inst.opcode = some o)
    (h : o.HoldsImmediate inst slot) (isBase : Bool) (resolve : UInt64 → UInt64)
    (op : Operand) :
    ∃ raw, inst.operand slot = .imm raw ∧
      memoryPart inst slot isBase resolve op =
        .ok (op.withMemory
          { op.memory with disp := (resolve raw.toUInt64).toUInt32.toInt32 }
          (o.declared slot).access) := by
  obtain ⟨raw, hraw⟩ := h.2
  refine ⟨raw, hraw, ?_⟩
  simp [memoryPart, descriptor_eq ho h.lt_maxSlots, isRegister_of_isImmediate h.1, h.1, readImm,
    hraw, RawOperand.imm?, Operand.withMemory]

/-- A request for a slot stores the part that the slot holds. -/
theorem memoryPart_assembled (ho : Opcode.ofWord? inst.opcode = some o)
    (h : o.HoldsPart inst slot) (n : Nat) (slots : List Nat) :
    memoryPart inst slot (o.declared slot).type.isBase id (o.assembled inst n slots) =
      .ok (o.assembled inst n (slots ++ [slot])) := by
  have hlast (role : MemoryRole) := o.last?_concat role slots slot
  rcases h with h | h
  · rw [memoryPart_register ho h]
    have hregister := h.1
    cases htype : (o.declared slot).type with
    | reg | memReg | memIndexReg =>
        simp [Operand.withMemory, Operand.memory, Opcode.assembled, Opcode.memoryOf, hlast,
          htype, OperandType.isBase, OperandType.role?]
    | imm | memImm | pred | undeclared =>
        rw [htype] at hregister
        cases hregister
  · obtain ⟨raw, hraw, hpart⟩ := memoryPart_immediate ho h (o.declared slot).type.isBase id
      (o.assembled inst n slots)
    rw [hpart]
    have himm := h.1
    cases htype : (o.declared slot).type with
    | imm | memImm =>
        simp [Operand.withMemory, Operand.memory, Opcode.assembled, Opcode.memoryOf, hlast,
          htype, OperandType.role?, rawDisplacement, hraw, RawOperand.imm?, toInt32_eq]
    | reg | memReg | memIndexReg | pred | undeclared =>
        rw [htype] at himm
        cases himm

end Parts

section Runs
variable {o : Opcode} {inst : RawInst} {features : Features} {n slot : Nat} {slots : List Nat}
  {b : Builder} {d : Draft}

/-- While a memory operand is open, a request for a part is carried out as one. -/
theorem step_op_building (hbuilding : b.memory = .building)
    (ho : Opcode.ofWord? b.inst.opcode = some o) (h : o.HoldsPart b.inst slot) :
    b.step (.op slot) = b.setMemory slot (o.declared slot).type.isBase id := by
  have hslot : slot < Descriptor.maxSlots := h.elim (·.lt_maxSlots) (·.lt_maxSlots)
  simp only [Step.op, Builder.step, Builder.classify, Builder.classifyGroup,
    Builder.classifyGeneric, Builder.describe, descriptor_eq ho hslot, ok_bind, hbuilding, if_true]
  have htype := Or.imp And.left And.left h
  cases hdeclared : (o.declared slot).type with
  | reg | memReg | memIndexReg | imm | memImm => rfl
  | pred | undeclared =>
      rw [hdeclared] at htype
      cases htype with
      | inl htype => cases htype
      | inr htype => cases htype

/-- A request for a slot stores what the slot holds in the open operand. -/
theorem step_op_assembles (ho : Opcode.ofWord? inst.opcode = some o)
    (hpart : o.HoldsPart inst slot)
    (h : Mirrors inst features b { d with opened := some (o.assembled inst n slots) }) :
    ∃ b', b.step (.op slot) = .ok b' ∧
      Mirrors inst features b' { d with opened := some (o.assembled inst n (slots ++ [slot])) } := by
  obtain rfl := h.inst_eq
  rw [step_op_building (h.building rfl).1 ho hpart]
  have halike := setMemory_mirrors h slot (o.declared slot).type.isBase id
  rw [memoryPart_assembled ho hpart] at halike
  exact halike.exists_ok

/-- Requests for slots store what the slots hold, one after another. -/
theorem run_ops_assemble (ho : Opcode.ofWord? inst.opcode = some o) (slots : List Nat)
    (hparts : ∀ slot ∈ slots, o.HoldsPart inst slot) (before : List Nat)
    (h : Mirrors inst features b { d with opened := some (o.assembled inst n before) }) :
    ∃ b', b.run (slots.map Step.op) = .ok b' ∧
      Mirrors inst features b'
        { d with opened := some (o.assembled inst n (before ++ slots)) } := by
  induction slots generalizing b before with
  | nil => exact ⟨b, rfl, by rwa [List.append_nil]⟩
  | cons slot rest ih =>
      obtain ⟨b₁, hb₁, h₁⟩ := step_op_assembles ho (hparts slot List.mem_cons_self) h
      obtain ⟨b₂, hb₂, h₂⟩ := ih (fun s hs => hparts s (List.mem_cons_of_mem _ hs)) _ h₁
      refine ⟨b₂, ?_, ?_⟩
      · rw [List.map_cons, Builder.run_cons, hb₁]
        exact hb₂
      · rwa [List.append_assoc] at h₂

/-- An idle builder mirrors the draft of its record. -/
theorem mirrors_of_idle (hidle : b.memory = .idle) :
    Mirrors b.inst b.features b (Draft.ofRecord b.record) :=
  ⟨⟨rfl, rfl, rfl, rfl⟩, hidle⟩

/-- A memory operand is opened with no part and the access of the slot with its number. -/
theorem newMemory_ofRecord (ho : Opcode.ofWord? b.inst.opcode = some o)
    (hcount : b.count < Descriptor.maxSlots) :
    (Draft.ofRecord b.record).newMemory b.inst = .ok (o.assembled b.inst b.count []) := by
  have hdescriptor : descriptor b.inst.opcode (Draft.ofRecord b.record).committed.length =
      .ok (o.declared b.count) := descriptor_eq ho hcount
  have hroom : (Draft.ofRecord b.record).committed.length < maxOperands :=
    Nat.lt_trans hcount (by decide)
  rw [Draft.newMemory, hdescriptor, ok_bind, if_pos hroom]
  rfl

/-- The steps that put a memory operand together from slots. -/
def memorySteps (slots : List Nat) : List Step :=
  .openMemory :: slots.map Step.op ++ [.closeMemory]

/-- Slots are put together to one operand with the parts that they hold. -/
theorem run_memorySteps (ho : Opcode.ofWord? b.inst.opcode = some o)
    (hidle : b.memory = .idle) (hcount : b.count < Descriptor.maxSlots)
    (hparts : ∀ slot ∈ slots, o.HoldsPart b.inst slot) :
    ∃ b', b.run (memorySteps slots) = .ok b' ∧
      b'.snapshot = ⟨b.record.operands.toList ++ [o.assembled b.inst b.count slots],
        b.record.marks, .idle⟩ := by
  let d := Draft.ofRecord b.record
  have hopen := openMemory_mirrors (mirrors_of_idle hidle)
  rw [newMemory_ofRecord ho hcount] at hopen
  obtain ⟨b₁, hb₁, h₁, -⟩ := hopen.exists_ok
  obtain ⟨b₂, hb₂, h₂⟩ := run_ops_assemble ho slots hparts [] h₁
  have hroom : d.committed.length < maxOperands := Nat.lt_trans hcount (by decide)
  have hclose := closeMemory_mirrors h₂
  simp only [Draft.append] at hclose
  rw [if_pos hroom] at hclose
  obtain ⟨b₃, hb₃, h₃⟩ := hclose.exists_ok
  refine ⟨b₃, ?_, h₃.snapshot_eq⟩
  have hfirst : b.step .openMemory = .ok b₁ := hb₁
  have hlast : b₂.run [.closeMemory] = .ok b₃ := by
    rw [Builder.run_cons]
    change (b₂.closeMemory >>= _) = _
    rw [hb₃]
    rfl
  rw [memorySteps, Builder.run_append, Builder.run_cons, hfirst, ok_bind, hb₂, ok_bind, hlast]

/-- A group that opens and closes a memory operand adds what it adds to a draft. -/
theorem step_address {group : OperandGroup} {op : Operand} (hidle : b.memory = .idle)
    (hcount : b.count < Descriptor.maxSlots)
    (hop : (Draft.ofRecord b.record).classifyGroup b.inst b.features group slot =
      (Draft.ofRecord b.record).append op) :
    ∃ b', b.step (.classify group slot) = .ok b' ∧
      b'.snapshot = ⟨b.record.operands.toList ++ [op], b.record.marks, .idle⟩ := by
  have hroom : (Draft.ofRecord b.record).committed.length < maxOperands :=
    Nat.lt_trans hcount (by decide)
  have halike := classifyGroup_follows (mirrors_of_idle hidle) group slot
  rw [hop, Draft.append, if_pos hroom] at halike
  obtain ⟨b', hb', h'⟩ := halike.exists_ok
  refine ⟨b', hb', ?_⟩
  rw [Builder.snapshot, h'.operands_eq, h'.marks_eq, h'.memory_eq]
  rfl

/-- A register and an alignment are put together to an aligned address. -/
theorem step_alignedAddress (ho : Opcode.ofWord? b.inst.opcode = some o)
    (hidle : b.memory = .idle) (hcount : b.count < Descriptor.maxSlots)
    (hbase : o.HoldsRegister b.inst slot) (halign : o.HoldsImmediate b.inst (slot + 1)) :
    ∃ b', b.step (.classify .alignedAddress slot) = .ok b' ∧
      b'.snapshot = ⟨b.record.operands.toList ++
        [{ value := .mem { base := rawRegister b.inst slot,
                           disp := 8 * rawDisplacement b.inst (slot + 1) },
           access := (o.declared (slot + 1)).access }], b.record.marks, .idle⟩ := by
  apply step_address hidle hcount
  obtain ⟨raw, hraw, hpart⟩ := memoryPart_immediate ho halign false alignmentBits
    ((o.assembled b.inst b.count []).withMemory { base := rawRegister b.inst slot }
      (o.declared slot).access)
  have hdisp : (alignmentBits raw.toUInt64).toUInt32.toInt32 =
      8 * rawDisplacement b.inst (slot + 1) := by
    rw [alignmentBits_eq, rawDisplacement, hraw]
    rfl
  rw [hdisp] at hpart
  rw [Draft.classifyGroup, newMemory_ofRecord ho hcount, ok_bind,
    memoryPart_register ho hbase, ok_bind]
  change (memoryPart _ _ _ _ ((o.assembled b.inst b.count []).withMemory
    { base := rawRegister b.inst slot } (o.declared slot).access) >>= _) = _
  rw [hpart, ok_bind]
  rfl

/-- A register is put together to an address without a displacement. -/
theorem step_baseAddress (ho : Opcode.ofWord? b.inst.opcode = some o)
    (hidle : b.memory = .idle) (hcount : b.count < Descriptor.maxSlots)
    (hbase : o.HoldsRegister b.inst slot) :
    ∃ b', b.step (.classify .baseAddress slot) = .ok b' ∧
      b'.snapshot = ⟨b.record.operands.toList ++
        [{ value := .mem { base := rawRegister b.inst slot },
           access := (o.declared slot).access }], b.record.marks, .idle⟩ := by
  apply step_address hidle hcount
  rw [Draft.classifyGroup, newMemory_ofRecord ho hcount, ok_bind,
    memoryPart_register ho hbase, ok_bind]
  rfl

end Runs

/-- Between opening and closing, slots are put together to one memory operand after those that
are there: each part is that of the last slot declared for it, none or zero if there is no such
slot, the displacement is cut to 32 bits without a program counter, and the access is that of
the last slot, or of the slot with the number of the operand. Slots for different parts give
the same memory reference in any order. The groups for addresses of their own do the same with
a register as the base, and the aligned one with eight times the displacement. -/
theorem memory_assembled_by_role (b : Builder) (o : Opcode)
    (ho : Opcode.ofWord? b.inst.opcode = some o) (hidle : b.memory = .idle)
    (hcount : b.count < 16) :
    (∀ slots, (∀ slot ∈ slots, o.HoldsPart b.inst slot) →
      ∃ b', b.run (memorySteps slots) = .ok b' ∧
        b'.snapshot = ⟨b.record.operands.toList ++
          [{ value := .mem (o.memoryOf b.inst slots),
             access := (o.declared (slots.getLast?.getD b.count)).access }],
          b.record.marks, .idle⟩) ∧
    (∀ slots slots', slots.Perm slots' → (∀ slot ∈ slots, o.HoldsPart b.inst slot) →
      (slots.map fun slot => (o.declared slot).type.role?).Nodup →
      ∃ b' access, b.run (memorySteps slots') = .ok b' ∧
        b'.snapshot = ⟨b.record.operands.toList ++
          [{ value := .mem (o.memoryOf b.inst slots), access }], b.record.marks, .idle⟩) ∧
    (∀ slot, o.HoldsRegister b.inst slot → o.HoldsImmediate b.inst (slot + 1) →
      (∃ b', b.step (.classify .alignedAddress slot) = .ok b' ∧
        b'.snapshot = ⟨b.record.operands.toList ++
          [{ value := .mem { base := rawRegister b.inst slot,
                             disp := 8 * rawDisplacement b.inst (slot + 1) },
             access := (o.declared (slot + 1)).access }], b.record.marks, .idle⟩) ∧
      ((o.declared slot).type.isBase = true → o.memoryOf b.inst [slot, slot + 1] =
        { base := rawRegister b.inst slot, disp := rawDisplacement b.inst (slot + 1) })) ∧
    ∀ slot, o.HoldsRegister b.inst slot →
      ∃ b', b.step (.classify .baseAddress slot) = .ok b' ∧
        b'.snapshot = ⟨b.record.operands.toList ++
          [{ value := .mem { base := rawRegister b.inst slot },
             access := (o.declared slot).access }], b.record.marks, .idle⟩ := by
  refine ⟨?_, ?_, ?_, ?_⟩
  · intro slots hparts
    exact run_memorySteps ho hidle hcount hparts
  · intro slots slots' hperm hparts hroles
    have hparts' : ∀ slot ∈ slots', o.HoldsPart b.inst slot :=
      fun slot hslot => hparts slot (hperm.mem_iff.mpr hslot)
    obtain ⟨b', hrun, hsnapshot⟩ := run_memorySteps ho hidle hcount hparts'
    refine ⟨b', (o.declared (slots'.getLast?.getD b.count)).access, hrun, ?_⟩
    rw [hsnapshot, Opcode.assembled, Opcode.memoryOf_perm hperm hroles]
  · intro slot hbase halign
    exact ⟨step_alignedAddress ho hidle hcount hbase halign,
      fun htype => Opcode.memoryOf_pair htype halign⟩
  · intro slot hbase
    exact step_baseAddress ho hidle hcount hbase

/-- A load with a shifted index: the register, the base, the index and an immediate that does
not fit into 32 bits. -/
def shiftedLoad : RawInst where
  opcode := Opcode.t2ldrs.word
  operands := ⟨[.reg 66, .reg 67, .reg 68, .imm 0x180000001, .imm 14, .reg 0],
    List.replicate 42 .invalid, rfl, by decide⟩
  address := 0
  mode := .thumb

/-- The first register and the base are both declared as a base, and the one asked for last
counts. The index register is the base of an aligned address. -/
theorem memory_assembled_by_role_shiftedLoad :
    let b := Builder.new shiftedLoad usedRecord .all
    let sp : Operand := { value := .reg .sp, access := .read }
    (∃ b', b.run (memorySteps [1, 3, 0, 2]) = .ok b' ∧ b'.snapshot.operands = [sp,
      { value := .mem { base := ⟨66⟩, index := ⟨68⟩, disp := -0x7fffffff }, access := .read }]) ∧
    (∃ b' access, b.run (memorySteps [2, 3, 1]) = .ok b' ∧ b'.snapshot.operands = [sp,
      { value := .mem { base := ⟨67⟩, index := ⟨68⟩, disp := -0x7fffffff }, access }]) ∧
    (∃ b', b.step (.classify .alignedAddress 2) = .ok b' ∧ b'.snapshot.operands = [sp,
      { value := .mem { base := ⟨68⟩, disp := 8 }, access := .read }]) ∧
    ∃ b', b.step (.classify .baseAddress 0) = .ok b' ∧ b'.snapshot.operands = [sp,
      { value := .mem { base := ⟨66⟩ }, access := .write }] := by
  intro b sp
  obtain ⟨hslots, hperm, haligned, hbase⟩ :=
    memory_assembled_by_role b .t2ldrs (by decide) rfl (by decide)
  refine ⟨?_, ?_, ?_, ?_⟩
  · obtain ⟨b', hrun, hsnapshot⟩ := hslots [1, 3, 0, 2] (by decide)
    refine ⟨b', hrun, ?_⟩
    rw [hsnapshot]
    decide
  · obtain ⟨b', access, hrun, hsnapshot⟩ :=
      hperm [1, 2, 3] [2, 3, 1] (by decide) (by decide) (by decide)
    refine ⟨b', access, hrun, ?_⟩
    rw [hsnapshot]
    rfl
  · obtain ⟨⟨b', hrun, hsnapshot⟩, -⟩ := haligned 2 ⟨rfl, _, rfl⟩ ⟨rfl, _, rfl⟩
    refine ⟨b', hrun, ?_⟩
    rw [hsnapshot]
    decide
  · obtain ⟨b', hrun, hsnapshot⟩ := hbase 0 ⟨rfl, _, rfl⟩
    refine ⟨b', hrun, ?_⟩
    rw [hsnapshot]
    decide

end Disassembly.Arm
