import Disassembly.Proofs.Arm.Footprint

/-!
# Actions that commute

No operation on the operands looks at a mark, and what a mark is set to is read from the
instruction alone. An action that sets a mark can therefore change places with any action
beside it that does not set the same one.
-/

namespace Disassembly.Arm

/-- What a sequence gives, whatever stops it otherwise. -/
theorem toOption_bind {ε α β : Type} (x : Except ε α) (f : α → Except ε β) :
    (x >>= f).toOption = x.toOption.bind fun a => (f a).toOption := by
  cases x <;> rfl

/-- Settings of different marks can be made in either order. -/
theorem Setting.apply_comm {s t : Setting} (h : s.mark ≠ t.mark) (r : Record) :
    s.apply (t.apply r) = t.apply (s.apply r) := by
  cases s <;> cases t <;> first | rfl | exact absurd rfl h

namespace Builder

variable (b : Builder) (s : Setting)

@[simp] theorem set_inst : (b.set s).inst = b.inst := rfl

@[simp] theorem set_memory : (b.set s).memory = b.memory := rfl

@[simp] theorem set_operands : (b.set s).record.operands = b.record.operands :=
  s.operands_apply b.record

@[simp] theorem set_count : (b.set s).count = b.count := by
  rw [count, count, set_operands]

@[simp] theorem set_withOperands (l : BoundedList Operand maxOperands) :
    (b.set s).withOperands l = (b.withOperands l).set s := by
  cases s <;> rfl

theorem append_set (op : Operand) : (b.set s).append op = (·.set s) <$> b.append op := by
  simp only [append, set_operands, set_withOperands, map_bind, map_pure]

theorem appendAll_set (ops : List (Except Fault Operand)) :
    (b.set s).appendAll ops = (·.set s) <$> b.appendAll ops := by
  induction ops generalizing b with
  | nil => rfl
  | cons op rest ih =>
      simp only [appendAll, List.foldlM_cons, bind_assoc, map_bind] at ih ⊢
      simp only [append_set, bind_map_left, ih]

theorem modifyOpen_set (f : Operand → Operand) :
    (b.set s).modifyOpen f = (·.set s) <$> b.modifyOpen f := by
  simp only [modifyOpen, set_operands, set_withOperands, map_bind, map_pure]

theorem adds_set (source : Except Fault (List (Except Fault Operand))) :
    source >>= (b.set s).appendAll = (·.set s) <$> (source >>= b.appendAll) := by
  rw [map_bind]
  exact bind_congr fun ops => b.appendAll_set s ops

theorem appendImm_set (slot : Nat) (kind : Int64 → OperandValue) (resolve : UInt64 → UInt64) :
    (b.set s).appendImm slot kind resolve = (·.set s) <$> b.appendImm slot kind resolve := by
  rw [appendImm_eq, appendImm_eq, set_inst, map_bind]
  exact bind_congr fun op => b.append_set s op

theorem openMemory_set : (b.set s).openMemory = (·.set s) <$> b.openMemory := by
  simp only [openMemory, set_memory, describe, set_inst, set_count]
  split
  · rfl
  · rw [map_bind]
    exact bind_congr fun declared =>
      ({ b with memory := .building } : Builder).modifyOpen_set s _

theorem closeMemory_set : (b.set s).closeMemory = (·.set s) <$> b.closeMemory := by
  simp only [closeMemory, set_memory, set_inst, set_operands]
  split
  · rfl
  · rw [map_bind]
    exact bind_congr fun l =>
      congrArg Except.ok (({ b with memory := .idle } : Builder).set_withOperands s l)

theorem setMemory_set (slot : Nat) (isBase : Bool) (resolve : UInt64 → UInt64) :
    (b.set s).setMemory slot isBase resolve =
      (·.set s) <$> b.setMemory slot isBase resolve := by
  cases hactive : b.record.operands.active? with
  | none =>
      simp only [setMemory, openOperand, set_operands, hactive, describe, set_inst, error_bind,
        map_bind]
      rfl
  | some op =>
      have hactive' : (b.set s).record.operands.active? = some op := by
        rw [set_operands, hactive]
      simp only [b.setMemory_eq hactive, (b.set s).setMemory_eq hactive', set_inst,
        modifyOpen_set, map_bind]

theorem setLane_set (slot : Nat) : (b.set s).setLane slot = (·.set s) <$> b.setLane slot := by
  simp only [setLane, set_operands, set_withOperands, modifyOpen_set, map_bind]
  change readImm b.inst slot >>= _ = readImm b.inst slot >>= _
  refine bind_congr fun lane => ?_
  split
  · rfl
  · rfl

theorem attachShift_set (code : UInt8) (imm : UInt32) :
    (b.set s).attachShift code imm = (·.set s) <$> b.attachShift code imm := by
  simp only [attachShift_eq, set_inst, set_memory, set_operands, set_withOperands, map_bind]
  refine bind_congr fun kind? => ?_
  cases kind? with
  | none => rfl
  | some kind =>
      simp only [modifyOpen_set]
      split
      · rfl
      · split
        · rfl
        · rfl

theorem classifyGeneric_set (slot : Nat) :
    (b.set s).classifyGeneric slot = (·.set s) <$> b.classifyGeneric slot := by
  cases hmemory : b.memory with
  | idle =>
      rw [b.classifyGeneric_idle hmemory, (b.set s).classifyGeneric_idle hmemory]
      exact b.adds_set s _
  | building =>
      simp only [classifyGeneric, set_memory, hmemory, if_true, describe, set_inst, map_bind]
      refine bind_congr fun declared => ?_
      cases declared.type with
      | imm | memImm | reg | memReg | memIndexReg => exact b.setMemory_set s slot _ id
      | pred => exact b.appendImm_set s slot .pred id
      | undeclared => rfl

/-- A group that sets no mark does not look at one. -/
theorem classifyGroup_set {group : OperandGroup} {slot : Nat}
    (hmark : (Action.step (.classify group slot)).mark? = none) :
    (b.set s).classifyGroup group slot = (·.set s) <$> b.classifyGroup group slot := by
  cases group with
  | predicate kind | vectorPredicate | flagSetter | itMask => cases hmark
  | generic => exact b.classifyGeneric_set s slot
  | bareImmediate =>
      rw [classifyGroup, classifyGroup]
      by_cases hbuilding : b.memory = .building
      · rw [if_pos hbuilding, if_pos ((b.set_memory s).trans hbuilding)]
        exact b.setLane_set s slot
      · rw [if_neg hbuilding, if_neg ((b.set_memory s).symm ▸ hbuilding)]
        exact b.appendImm_set s slot .imm id
  | alignedAddress | baseAddress =>
      simp only [classifyGroup, openMemory_set, setMemory_set, closeMemory_set, bind_map_left,
        map_bind]
  | coprocessor | coprocessorRegister | alignedOffset | vectorList size | registerList
  | statusMask | unmapped g =>
      rw [(b.set s).classifyGroup_eq rfl, b.classifyGroup_eq rfl]
      exact b.adds_set s _

/-- An action does not look at the marks that it does not set. -/
theorem act_set {a : Action} (hne : a.mark? ≠ some s.mark) :
    (b.set s).act a = (·.set s) <$> b.act a := by
  cases hm : a.mark? with
  | some m =>
      obtain ⟨read, hread, hact⟩ := act_eq_set hm
      rw [hact, hact, map_bind, set_inst]
      cases hread' : read b.inst with
      | error fault => rfl
      | ok t =>
          have hother : t.mark ≠ s.mark := by
            rw [hread b.inst t hread']
            exact fun h => hne (hm.trans (congrArg some h))
          exact congrArg (fun r => Except.ok { b with record := r })
            (Setting.apply_comm hother b.record)
  | none =>
      cases a with
      | shift code imm => exact b.attachShift_set s code imm
      | step step =>
          cases step with
          | shiftLeft slot =>
              simp only [act, Builder.step, map_bind]
              exact bind_congr fun raw => b.attachShift_set s 2 _
          | packedShift slot =>
              simp only [act, Builder.step, map_bind]
              exact bind_congr fun raw => b.attachShift_set s _ _
          | openMemory => exact b.openMemory_set s
          | closeMemory => exact b.closeMemory_set s
          | writeback => cases hm
          | classify group slot => exact b.classifyGroup_set s hm

end Builder

/-- An action that sets a mark changes places with one that does not set the same. Both orders
give the same builder, or both fail. -/
theorem act_swap {a c : Action} (hmark : a.mark? ≠ none) (hne : c.mark? ≠ a.mark?)
    (b : Builder) :
    (b.act a >>= (·.act c)).toOption = (b.act c >>= (·.act a)).toOption := by
  obtain ⟨m, hm⟩ := Option.ne_none_iff_exists'.mp hmark
  obtain ⟨read, hread, hact⟩ := act_eq_set hm
  rw [hact, bind_assoc]
  cases hs : read b.inst with
  | error fault =>
      cases hc : b.act c with
      | error fault => rfl
      | ok b' =>
          rw [ok_bind, hact, act_inst hc, hs]
          rfl
  | ok s =>
      have hother : c.mark? ≠ some s.mark := by
        rw [hread _ s hs, ← hm]
        exact hne
      rw [ok_bind, ok_bind, b.act_set s hother]
      cases hc : b.act c with
      | error fault => rfl
      | ok b' =>
          rw [ok_bind, hact, act_inst hc, hs]
          rfl

/-- A run that starts with two actions. -/
theorem toOption_run_cons_cons (b : Builder) (a c : Action) (rest : List Action) :
    ((a :: c :: rest).foldlM Builder.act b).toOption =
      (b.act a >>= (·.act c)).toOption.bind fun b => (rest.foldlM Builder.act b).toOption := by
  rw [← toOption_bind, bind_assoc]
  rfl

/-- The two actions can be swapped wherever they are next to each other in a run. -/
theorem run_swap {a c : Action} (hmark : a.mark? ≠ none) (hne : c.mark? ≠ a.mark?)
    (b : Builder) (first rest : List Action) :
    ((first ++ a :: c :: rest).foldlM Builder.act b).toOption =
      ((first ++ c :: a :: rest).foldlM Builder.act b).toOption := by
  rw [List.foldlM_append, List.foldlM_append, toOption_bind, toOption_bind]
  congr 1
  funext b
  rw [toOption_run_cons_cons, toOption_run_cons_cons, act_swap hmark hne b]

/-- From every state of a builder, an action that does not fail reaches back into the operands
no further than to the last one. It takes that one back only as a lane inside of a memory
operand, and changes no more of it than the shift, and that only as a shift outside of a memory
operand. Each mark is changed by the actions that set it alone, which do nothing else, and the
marks for the flags and for the base register are never taken back. In a run of any length, an
action that sets a mark can be swapped with one beside it that does not set the same mark: both
orders give the same builder, or both fail. -/
theorem act_footprint_and_swap (b : Builder) :
    (∀ a b', b.act a = .ok b' → Footprint a b b') ∧
    ∀ (a c : Action) (first rest : List Action), a.mark? ≠ none → c.mark? ≠ a.mark? →
      ((first ++ a :: c :: rest).foldlM Builder.act b).toOption =
        ((first ++ c :: a :: rest).foldlM Builder.act b).toOption :=
  ⟨fun _ _ h => act_footprint h,
    fun _ _ first rest hmark hne => run_swap hmark hne b first rest⟩

/-- The fold of a lane into the register before it. -/
def foldLaneAction : Action := .step (.classify .bareImmediate 4)

/-- The condition of a lane load. -/
def laneConditionAction : Action := .step (.classify (.predicate .plain) 5)

/-- Inside of a memory operand the lane takes the last operand back, and does not mind whether
the condition comes before or after it. -/
theorem act_footprint_and_swap_laneLoad :
    ∃ b b' after, (Builder.new laneLoad usedRecord .all).act (.step .openMemory) = .ok b ∧
      b.act foldLaneAction = .ok b' ∧ b'.count < b.count ∧
      [.step .openMemory, laneConditionAction, foldLaneAction, .step .closeMemory].foldlM
        Builder.act (Builder.new laneLoad usedRecord .all) = .ok after ∧
      ([.step .openMemory, foldLaneAction, laneConditionAction, .step .closeMemory].foldlM
        Builder.act (Builder.new laneLoad usedRecord .all)).toOption = some after := by
  obtain ⟨b, hb⟩ : ∃ b,
      (Builder.new laneLoad usedRecord .all).act (.step .openMemory) = .ok b := ⟨_, rfl⟩
  obtain ⟨b', hb'⟩ : ∃ b', b.act foldLaneAction = .ok b' := by
    cases hb
    exact ⟨_, rfl⟩
  obtain ⟨after, hafter⟩ : ∃ after,
      [.step .openMemory, laneConditionAction, foldLaneAction, .step .closeMemory].foldlM
        Builder.act (Builder.new laneLoad usedRecord .all) = .ok after := ⟨_, rfl⟩
  have hfootprint := (act_footprint_and_swap b).1 foldLaneAction b' hb'
  have hswap := (act_footprint_and_swap (Builder.new laneLoad usedRecord .all)).2
    laneConditionAction foldLaneAction [.step .openMemory] [.step .closeMemory] nofun nofun
  refine ⟨b, b', after, hb, hb', ?_, hafter, ?_⟩
  · apply hfootprint.operands.length_lt_iff.mpr
    cases hb
    exact ⟨rfl, rfl⟩
  · exact hswap.symm.trans (congrArg Except.toOption hafter)

end Disassembly.Arm
