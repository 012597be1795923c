import Disassembly.Proofs.Arm.WalkFits

/-!
# Raw operands that a walk accepts

A step of a walk reads raw operands of certain kinds, and takes only some of the codes
and masks that an immediate can be. An instruction can be built when every step of the
walk of its opcode finds what it reads and the operands fit into a record.
-/

namespace Disassembly

/-- The kind of a raw operand. -/
inductive RawKind where
  | register
  | immediate
deriving DecidableEq, Repr

namespace RawKind

/-- A raw operand is of the kind. -/
def Holds : RawKind → RawOperand → Prop
  | .register, op => ∃ id, op = .reg id
  | .immediate, op => ∃ value, op = .imm value

instance : (kind : RawKind) → (op : RawOperand) → Decidable (kind.Holds op)
  | .register, .reg id => .isTrue ⟨id, rfl⟩
  | .register, .imm _ => .isFalse nofun
  | .register, .invalid => .isFalse nofun
  | .immediate, .imm value => .isTrue ⟨value, rfl⟩
  | .immediate, .reg _ => .isFalse nofun
  | .immediate, .invalid => .isFalse nofun

/-- What is wrong with a raw operand in a slot that is not of the kind. -/
def violation (slot : Nat) : RawKind → Arm.Violation
  | .register => .notRegister slot
  | .immediate => .notImmediate slot

end RawKind

/-- A property of all immediates that a raw operand can be is one of the immediate that
it is. -/
theorem RawOperand.forall_imm {P : Int64 → Prop} {op : RawOperand} {value : Int64}
    (hop : op = .imm value) (h : P value) : ∀ v ∈ op.imm?, P v := by
  intro v hv
  rw [hop] at hv
  cases hv
  exact h

namespace Arm

/-- The greatest code of a condition. -/
def PredicateKind.limit : PredicateKind → Int64
  | .plain => 15
  | .mandatory | .mandatoryInverted | .mandatoryRestricted => 14

/-- The slots that a group reads, of so many raw operands, and the kind it reads in
each. -/
def OperandGroup.reads (o : Opcode) (count slot : Nat) :
    OperandGroup → List (Nat × RawKind)
  | .predicate _ | .vectorPredicate | .coprocessor | .coprocessorRegister
  | .bareImmediate | .statusMask => [(slot, .immediate)]
  | .generic =>
      [(slot, if (o.declared slot).type.isRegister then .register else .immediate)]
  | .flagSetter | .baseAddress | .alignedOffset | .vectorList _ => [(slot, .register)]
  | .alignedAddress => [(slot, .register), (slot + 1, .immediate)]
  | .itMask => [(slot, .immediate), (slot - 1, .immediate)]
  | .registerList => (List.range' slot (count - slot)).map (·, .register)
  | .unmapped _ => []

namespace Step

/-- The slots that a step reads, of so many raw operands, and the kind it reads in
each. -/
def reads (o : Opcode) (count : Nat) : Step → List (Nat × RawKind)
  | .classify group slot => group.reads o count slot
  | .shiftLeft slot | .packedShift slot => [(slot, .immediate)]
  | .openMemory | .closeMemory | .writeback => []

/-- The codes and masks that a step takes. No step takes a group without detail. -/
def InRange (inst : RawInst) : Step → Prop
  | .classify (.predicate kind) slot =>
      ∀ code ∈ (inst.operand slot).imm?, 0 ≤ code ∧ code ≤ kind.limit
  | .classify .vectorPredicate slot =>
      ∀ raw ∈ (inst.operand slot).imm?, 0 ≤ raw ∧ raw ≤ 2
  | .classify .itMask slot => ∀ mask ∈ (inst.operand slot).imm?, lowBits 4 mask ≠ 0
  | .packedShift slot => ∀ raw ∈ (inst.operand slot).imm?, lowBits 3 raw ≤ 5
  | .classify (.unmapped _) _ => False
  | _ => True

instance (inst : RawInst) : (s : Step) → Decidable (s.InRange inst)
  | .classify (.predicate _) _ => Option.decidableForallMem _
  | .classify .vectorPredicate _ => Option.decidableForallMem _
  | .classify .itMask _ => Option.decidableForallMem _
  | .packedShift _ => Option.decidableForallMem _
  | .classify (.unmapped _) _ => .isFalse id
  | .classify .generic _ | .classify .coprocessor _ | .classify .coprocessorRegister _
  | .classify .alignedAddress _ | .classify .alignedOffset _ | .classify .baseAddress _
  | .classify .flagSetter _ | .classify (.vectorList _) _ | .classify .bareImmediate _
  | .classify .registerList _ | .classify .statusMask _ | .shiftLeft _ | .openMemory
  | .closeMemory | .writeback => .isTrue trivial

/-- A step finds what it reads. -/
structure Accepts (o : Opcode) (inst : RawInst) (s : Step) : Prop where
  kinds : ∀ r ∈ s.reads o inst.operands.length, r.2.Holds (inst.operand r.1)
  inRange : s.InRange inst

instance (o : Opcode) (inst : RawInst) (s : Step) : Decidable (s.Accepts o inst) :=
  decidable_of_iff
    ((∀ r ∈ s.reads o inst.operands.length, r.2.Holds (inst.operand r.1)) ∧ s.InRange inst)
    ⟨fun h => ⟨h.1, h.2⟩, fun h => ⟨h.kinds, h.inRange⟩⟩

section
variable {o : Opcode} {inst : RawInst} {s : Step} {slot slot' : Nat}

/-- A step that reads nothing accepts every raw operand. -/
theorem Accepts.of_reads_nothing (hreads : s.reads o inst.operands.length = [])
    (hrange : s.InRange inst) : s.Accepts o inst := by
  constructor
  · rw [hreads]
    exact nofun
  · exact hrange

/-- A step that reads one slot accepts an operand of the kind. -/
theorem Accepts.of_reads_one {kind : RawKind}
    (hreads : s.reads o inst.operands.length = [(slot, kind)])
    (hkind : kind.Holds (inst.operand slot)) (hrange : s.InRange inst) :
    s.Accepts o inst := by
  constructor
  · rw [hreads]
    intro r hr
    rw [List.mem_singleton] at hr
    rw [hr]
    exact hkind
  · exact hrange

/-- A step that reads two slots accepts operands of both kinds. -/
theorem Accepts.of_reads_two {kind kind' : RawKind}
    (hreads : s.reads o inst.operands.length = [(slot, kind), (slot', kind')])
    (hkind : kind.Holds (inst.operand slot)) (hkind' : kind'.Holds (inst.operand slot'))
    (hrange : s.InRange inst) : s.Accepts o inst := by
  constructor
  · rw [hreads]
    intro r hr
    rcases List.mem_cons.mp hr with rfl | hr
    · exact hkind
    · rw [List.mem_singleton] at hr
      rw [hr]
      exact hkind'
  · exact hrange

end

/-- A step does not find what it reads, with what is wrong. -/
inductive Rejects (o : Opcode) (inst : RawInst) : Step → Violation → Prop
  | kind {s slot kind} (hread : (slot, kind) ∈ s.reads o inst.operands.length)
      (h : ¬ kind.Holds (inst.operand slot)) : Rejects o inst s (kind.violation slot)
  | condition {kind slot code} (h : inst.operand slot = .imm code)
      (hrange : ¬ (0 ≤ code ∧ code ≤ kind.limit)) :
      Rejects o inst (.classify (.predicate kind) slot) (.conditionOutOfRange code)
  | vectorPredicate {slot raw} (h : inst.operand slot = .imm raw)
      (hrange : ¬ (0 ≤ raw ∧ raw ≤ 2)) :
      Rejects o inst (.classify .vectorPredicate slot) (.vectorPredicateOutOfRange raw)
  | itMask {slot mask} (h : inst.operand slot = .imm mask) (hzero : lowBits 4 mask = 0) :
      Rejects o inst (.classify .itMask slot) .itMaskZero
  | packedShift {slot raw} (h : inst.operand slot = .imm raw)
      (hrange : ¬ lowBits 3 raw ≤ 5) :
      Rejects o inst (.packedShift slot)
        (.shiftOpcodeOutOfRange (UInt8.ofNat (lowBits 3 raw)))
  | unmapped (group : UnmappedGroup) (slot : Nat) :
      Rejects o inst (.classify (.unmapped group) slot) (.unmappedGroup group slot)

/-- No step does both. -/
theorem Rejects.not_accepts {o : Opcode} {inst : RawInst} {s : Step} {cause : Violation}
    (h : Rejects o inst s cause) : ¬ s.Accepts o inst := by
  intro haccepts
  cases h with
  | kind hread hkind => exact hkind (haccepts.kinds _ hread)
  | condition hcode hrange => exact hrange (haccepts.inRange _ (by rw [hcode]; rfl))
  | vectorPredicate hraw hrange => exact hrange (haccepts.inRange _ (by rw [hraw]; rfl))
  | itMask hmask hzero => exact haccepts.inRange _ (by rw [hmask]; rfl) hzero
  | packedShift hraw hrange => exact hrange (haccepts.inRange _ (by rw [hraw]; rfl))
  | unmapped group slot => exact haccepts.inRange

end Step

/-- An instruction that can be built: every step finds what it reads, and the operands
fit into a record. -/
structure Buildable (o : Opcode) (inst : RawInst) : Prop where
  accepts : ∀ s ∈ o.walk, s.Accepts o inst
  fits : addedBy inst .closed o.walk ≤ maxOperands

instance (o : Opcode) (inst : RawInst) : Decidable (Buildable o inst) :=
  decidable_of_iff
    ((∀ s ∈ o.walk, s.Accepts o inst) ∧ addedBy inst .closed o.walk ≤ maxOperands)
    ⟨fun h => ⟨h.1, h.2⟩, fun h => ⟨h.accepts, h.fits⟩⟩

/-- Why steps after `n` operands fail: one of them does not find what it reads, or
together they add too many operands. -/
inductive Fails (o : Opcode) (inst : RawInst) (p : Opening) (n : Nat)
    (steps : List Step) : Fault → Prop
  | rejected {s cause} (hs : s ∈ steps) (h : s.Rejects o inst cause) :
      Fails o inst p n steps (.contract inst.opcode cause)
  | overflow (h : maxOperands < n + addedBy inst p steps) :
      Fails o inst p n steps Draft.overflow

namespace Fails

variable {o : Opcode} {inst : RawInst} {p : Opening} {n : Nat} {s : Step}
  {rest : List Step} {fault : Fault}

/-- Steps fail when the first one does. -/
theorem head (h : Fails o inst p n [s] fault) : Fails o inst p n (s :: rest) fault := by
  cases h with
  | rejected hs hrejects =>
      rw [List.mem_singleton] at hs
      subst hs
      exact .rejected List.mem_cons_self hrejects
  | overflow hmore =>
      apply Fails.overflow
      simp only [addedBy] at hmore ⊢
      omega

/-- Steps fail when those after the first one do. -/
theorem tail (h : Fails o inst (s.next p) (n + s.added inst p) rest fault) :
    Fails o inst p n (s :: rest) fault := by
  cases h with
  | rejected hs hrejects => exact .rejected (List.mem_cons_of_mem _ hs) hrejects
  | overflow hmore =>
      apply Fails.overflow
      simp only [addedBy] at hmore ⊢
      omega

/-- An instruction whose walk fails cannot be built. -/
theorem not_buildable (h : Fails o inst .closed 0 o.walk fault) : ¬ Buildable o inst := by
  intro hbuildable
  cases h with
  | rejected hs hrejects => exact hrejects.not_accepts (hbuildable.accepts _ hs)
  | overflow hmore =>
      have hfits := hbuildable.fits
      omega

end Fails

end Arm

end Disassembly
