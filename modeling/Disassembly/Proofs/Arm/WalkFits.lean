import Disassembly.Proofs.Arm.Draft

/-!
# Walks fit declared slots

The walk of an opcode and the descriptors of its slots are written down apart from
each other. What has to hold between the two is a property of a step, of the memory
operand that is open before it and of the number of operands added before it. It is
checked once for every opcode.
-/

namespace Disassembly

/-- The number in the low bits of an immediate. -/
def lowBits (width : Nat) (value : Int64) : Nat :=
  value.toUInt64.toNat % (1 <<< width)

theorem lowBits_lt (width : Nat) (value : Int64) : lowBits width value < 1 <<< width := by
  apply Nat.mod_lt
  rw [Nat.one_shiftLeft]
  exact Nat.two_pow_pos width

/-- An operand with one of these is read, written or both, and nothing else. -/
def Access.Proper (a : Access) : Prop := a = .read ∨ a = .write ∨ a = .readWrite

instance (a : Access) : Decidable a.Proper :=
  inferInstanceAs (Decidable (_ ∨ _))

namespace Arm

namespace Opcode

/-- The descriptor of a slot, declared or not. -/
def declared (o : Opcode) (slot : Nat) : Descriptor :=
  (Descriptor.ofOpcode o)[slot]?.getD .undeclared

/-- A slot can be asked for, its type is of the wanted sort and its access is proper. -/
def Declares (o : Opcode) (slot : Nat) (wanted : OperandType → Bool) : Prop :=
  slot < Descriptor.maxSlots ∧ wanted (o.declared slot).type = true ∧
    (o.declared slot).access.Proper

instance (o : Opcode) (slot : Nat) (wanted : OperandType → Bool) :
    Decidable (o.Declares slot wanted) :=
  inferInstanceAs (Decidable (_ ∧ _))

end Opcode

/-- The slots in range have descriptors. -/
theorem descriptor_eq {word : UInt32} {o : Opcode} (ho : Opcode.ofWord? word = some o)
    {slot : Nat} (hslot : slot < Descriptor.maxSlots) :
    descriptor word slot = .ok (o.declared slot) := by
  have hle : ¬ Descriptor.maxSlots ≤ slot := Nat.not_le_of_lt hslot
  simp only [descriptor, ho, if_neg hle]
  rfl

/-- The type is that of a register or of an immediate. -/
def OperandType.isPlain (t : OperandType) : Bool := t.isRegister || t.isImmediate

/-- What is open between two steps. -/
inductive Opening where
  | closed
  /-- A memory operand that is put together. -/
  | fresh
  /-- An operand that was added before and taken back. -/
  | folded
deriving DecidableEq, Repr

namespace OperandGroup

/-- The group can be classified after `n` operands with nothing open. -/
def FitsClosed (o : Opcode) (n slot : Nat) : OperandGroup → Prop
  | .predicate _ | .vectorPredicate | .flagSetter | .unmapped _ => True
  | .itMask => slot ≠ 0
  | .generic => o.Declares slot (·.isPlain)
  | .coprocessor | .coprocessorRegister | .bareImmediate | .registerList | .statusMask =>
      o.Declares slot fun _ => true
  | .alignedOffset | .vectorList _ => o.Declares slot (·.isRegister)
  | .baseAddress => o.Declares n (fun _ => true) ∧ o.Declares slot (·.isRegister)
  | .alignedAddress =>
      o.Declares n (fun _ => true) ∧ o.Declares slot (·.isRegister) ∧
        o.Declares (slot + 1) (·.isImmediate)

/-- The group can be classified after `n` operands while a memory operand is put
together. -/
def FitsFresh (o : Opcode) (n slot : Nat) : OperandGroup → Prop
  | .generic => o.Declares slot (·.isPlain)
  | .bareImmediate => 0 < n
  | _ => False

/-- The number of operands that a group adds with nothing open. -/
def added (inst : RawInst) (slot : Nat) : OperandGroup → Nat
  | .predicate _ | .vectorPredicate | .flagSetter | .itMask | .unmapped _ => 0
  | .generic | .coprocessor | .coprocessorRegister | .bareImmediate | .alignedAddress
  | .baseAddress => 1
  | .alignedOffset => if inst.operand slot = .reg 0 then 0 else 1
  | .vectorList size => size.toNat
  | .registerList => inst.operands.length - slot
  | .statusMask =>
      match inst.operand slot with
      | .imm value => if inst.isMClass = false ∧ lowBits 4 value = 0 then 0 else 1
      | _ => 0

end OperandGroup

namespace Step

/-- What is open after a step. -/
def next : Opening → Step → Opening
  | .closed, .openMemory => .fresh
  | .closed, _ => .closed
  | .fresh, .closeMemory => .closed
  | .fresh, .classify .bareImmediate _ => .folded
  | .fresh, _ => .fresh
  | .folded, .closeMemory => .closed
  | .folded, _ => .folded

/-- The step can be taken after `n` operands. -/
def Fits (o : Opcode) (n : Nat) : Opening → Step → Prop
  | .closed, .classify group slot => group.FitsClosed o n slot
  | .closed, .packedShift _ => 0 < n
  | .closed, .openMemory => o.Declares n fun _ => true
  | .closed, .writeback => True
  | .fresh, .classify group slot => group.FitsFresh o n slot
  | .fresh, .shiftLeft _ => True
  | .fresh, .closeMemory => True
  | .folded, .closeMemory => True
  | _, _ => False

/-- The number of operands that a step adds. An operand that was taken back has been
counted before. -/
def added (inst : RawInst) : Opening → Step → Nat
  | .closed, .classify group slot => group.added inst slot
  | .fresh, .closeMemory => 1
  | _, _ => 0

/-- A step that leaves an operand open adds none. -/
theorem added_of_next_ne (inst : RawInst) {p : Opening} {s : Step}
    (h : s.next p ≠ .closed) : s.added inst p = 0 := by
  cases p with
  | closed =>
      cases s with
      | classify group slot => exact absurd rfl h
      | _ => rfl
  | fresh =>
      cases s with
      | closeMemory => exact absurd rfl h
      | _ => rfl
  | folded => rfl

end Step

/-- The number of operands that steps add. -/
def addedBy (inst : RawInst) : Opening → List Step → Nat
  | _, [] => 0
  | p, s :: rest => s.added inst p + addedBy inst (s.next p) rest

/-- Steps can be taken one after the other and leave nothing open. -/
def StepsFit (o : Opcode) (inst : RawInst) : Opening → Nat → List Step → Prop
  | p, _, [] => p = .closed
  | p, n, s :: rest =>
      s.Fits o n p ∧ StepsFit o inst (s.next p) (n + s.added inst p) rest

/-- What is open after steps. -/
def openAfter (p : Opening) (steps : List Step) : Opening :=
  steps.foldl (fun p s => s.next p) p

/-- The rest of steps that fit can be taken after the first ones. -/
theorem StepsFit.of_append {o : Opcode} {inst : RawInst} {p : Opening} {n : Nat}
    {first rest : List Step} (h : StepsFit o inst p n (first ++ rest)) :
    StepsFit o inst (openAfter p first) (n + addedBy inst p first) rest := by
  induction first generalizing p n with
  | nil => exact h
  | cons s first ih =>
      have hrest := ih h.2
      rw [addedBy, ← Nat.add_assoc]
      exact hrest

/-- Every walk fits the declared slots of its opcode. -/
theorem walk_fits (o : Opcode) (inst : RawInst) : StepsFit o inst .closed 0 o.walk := by
  cases o <;>
    simp +decide [Opcode.walk, Step.conditionalBranch, Step.thumbCall, Step.move, Step.load,
      Step.statusMove, Step.op, Step.pred, Step.mandatory, StepsFit, Step.next, Step.Fits,
      Step.added, OperandGroup.FitsClosed, OperandGroup.FitsFresh, OperandGroup.added]

/-- The steps that look up a status mask are those of two opcodes. -/
theorem statusMask_mem_walk {o : Opcode} {slot : Nat}
    (h : .classify .statusMask slot ∈ o.walk) :
    o = .msr ∨ o = .t2msrM := by
  cases o with
  | msr => exact .inl rfl
  | t2msrM => exact .inr rfl
  | _ =>
      simp [Opcode.walk, Step.conditionalBranch, Step.thumbCall, Step.move, Step.load,
        Step.op, Step.pred, Step.mandatory] at h

end Arm

end Disassembly
