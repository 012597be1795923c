import Disassembly.Proofs.Arm.Footprint

/-!
# Operands that are added

A group that only adds operands adds all of them if there is room for them. Everything else of
the builder stays as it is, whatever has been built before and whether or not a memory operand
is open.
-/

namespace Disassembly.Arm

/-- A builder has gone on by adding operands, in their order, and by nothing else. -/
structure Builder.Adds (b : Builder) (added : List Operand) (b' : Builder) : Prop
    extends b.Keeps b' where
  features_eq : b'.features = b.features
  memory_eq : b'.memory = b.memory
  operands : b'.record.operands.toList = b.record.operands.toList ++ added

section
variable {b b₁ b₂ : Builder} {ops more : List Operand} {slot : Nat}

theorem Builder.Adds.nil (b : Builder) : b.Adds [] b :=
  ⟨⟨rfl, rfl⟩, rfl, rfl, (List.append_nil _).symm⟩

theorem Builder.Adds.trans (h : b.Adds ops b₁) (h' : b₁.Adds more b₂) :
    b.Adds (ops ++ more) b₂ where
  inst_eq := h'.inst_eq.trans h.inst_eq
  marks_eq := h'.marks_eq.trans h.marks_eq
  features_eq := h'.features_eq.trans h.features_eq
  memory_eq := h'.memory_eq.trans h.memory_eq
  operands := by rw [h'.operands, h.operands, List.append_assoc]

theorem Builder.Adds.count_eq (h : b.Adds ops b₁) : b₁.count = b.count + ops.length := by
  have hlength := congrArg List.length h.operands
  rwa [List.length_append] at hlength

theorem append_adds (hroom : b.count < maxOperands) (op : Operand) :
    ∃ b', b.append op = .ok b' ∧ b.Adds [op] b' := by
  obtain ⟨l, hpush, hlist⟩ := (b.record.operands.push_eq_ok_iff (by decide) op).mpr hroom
  refine ⟨b.withOperands l, ?_, ⟨rfl, rfl⟩, rfl, rfl, hlist⟩
  rw [Builder.append, hpush]
  rfl

/-- Operands that have been read are added one after the other. -/
theorem appendAll_adds (hroom : b.count + ops.length ≤ maxOperands) :
    ∃ b', b.appendAll (ops.map .ok) = .ok b' ∧ b.Adds ops b' := by
  induction ops generalizing b with
  | nil => exact ⟨b, rfl, .nil b⟩
  | cons op rest ih =>
      rw [List.length_cons] at hroom
      obtain ⟨b₁, happend, hone⟩ := append_adds (show b.count < maxOperands by omega) op
      have hcount : b₁.count = b.count + 1 := hone.count_eq
      obtain ⟨b₂, hall, hrest⟩ := ih (b := b₁) (by omega)
      refine ⟨b₂, ?_, hone.trans hrest⟩
      rw [Builder.appendAll, List.map_cons, List.foldlM_cons, ok_bind, happend]
      exact hall

/-- What a group stands for is added, if there is room. -/
theorem classifyGroup_adds {group : OperandGroup} (hadds : group.addsOnly = true)
    (hread : groupOperands b.inst b.features group slot = .ok (ops.map .ok))
    (hroom : b.count + ops.length ≤ maxOperands) :
    ∃ b', b.classifyGroup group slot = .ok b' ∧ b.Adds ops b' := by
  rw [b.classifyGroup_eq hadds, hread]
  exact appendAll_adds hroom

end

end Disassembly.Arm
