import Disassembly.Proofs.Arm.DraftSimulation

/-!
# Footprints of builder actions

An action of a builder either sets one mark of the record, or works on the operands and
leaves every mark as it is. The operands only grow, but for two exceptions that reach back to
the last one: a shift outside of a memory operand changes it, and a lane inside of one takes
it back. This holds from every state of a builder, whatever is in the slots past the operands
and whether or not an open memory operand is one that the builder has opened.
-/

namespace Disassembly

/-- The last element changes, if there is one. -/
theorem BoundedList.toList_modifyLast_of_eq {α : Type} {n : Nat} {l : BoundedList α n}
    {first : List α} {last : α} (h : l.toList = first ++ [last]) (f : α → α) :
    (l.modifyLast f).toList = first ++ [f last] := by
  rw [toList_modifyLast, length, ← toList, h, List.modify_eq_take_drop]
  simp

namespace Arm

/-- A field of a record beside its operands. -/
inductive Mark where
  | cc
  | vcc
  | updateFlags
  | writeback
  | itLayout
deriving DecidableEq, Repr

/-- A mark and what it is set to. The last two are never taken back. -/
inductive Setting where
  | cc (value : Option Condition)
  | vcc (value : Option VectorPredicate)
  | itLayout (value : UInt8)
  | updateFlags (on : Bool)
  | writeback
deriving DecidableEq, Repr

namespace Setting

def mark : Setting → Mark
  | .cc _ => .cc
  | .vcc _ => .vcc
  | .itLayout _ => .itLayout
  | .updateFlags _ => .updateFlags
  | .writeback => .writeback

/-- The record with the mark set. -/
def apply : Setting → Record → Record
  | .cc value, r => { r with cc := value }
  | .vcc value, r => { r with vcc := value }
  | .itLayout value, r => { r with itLayout := value }
  | .updateFlags on, r => { r with updateFlags := r.updateFlags || on }
  | .writeback, r => { r with writeback := true }

@[simp] theorem operands_apply (s : Setting) (r : Record) :
    (s.apply r).operands = r.operands := by
  cases s <;> rfl

end Setting

/-- At most one mark has changed, and what is only ever set has not been taken back. -/
structure Marks.ChangedAt (changed : Option Mark) (m m' : Marks) : Prop where
  cc : changed ≠ some .cc → m'.cc = m.cc
  vcc : changed ≠ some .vcc → m'.vcc = m.vcc
  itLayout : changed ≠ some .itLayout → m'.itLayout = m.itLayout
  updateFlags : changed ≠ some .updateFlags → m'.updateFlags = m.updateFlags
  writeback : changed ≠ some .writeback → m'.writeback = m.writeback
  updateFlags_stays : m.updateFlags = true → m'.updateFlags = true
  writeback_stays : m.writeback = true → m'.writeback = true

theorem Marks.ChangedAt.refl (changed : Option Mark) (m : Marks) : m.ChangedAt changed m where
  cc _ := rfl
  vcc _ := rfl
  itLayout _ := rfl
  updateFlags _ := rfl
  writeback _ := rfl
  updateFlags_stays h := h
  writeback_stays h := h

theorem Setting.changedAt_apply (s : Setting) (r : Record) :
    r.marks.ChangedAt (some s.mark) (s.apply r).marks := by
  cases s <;> constructor <;> simp +contextual [mark, apply, Record.marks]

namespace Action

/-- The mark that an action sets, if it is one that sets a mark. -/
def mark? : Action → Option Mark
  | .step (.classify (.predicate _) _) => some .cc
  | .step (.classify .vectorPredicate _) => some .vcc
  | .step (.classify .itMask _) => some .itLayout
  | .step (.classify .flagSetter _) => some .updateFlags
  | .step .writeback => some .writeback
  | _ => none

/-- An action that attaches a shift. -/
def isShift : Action → Bool
  | .shift _ _ | .step (.shiftLeft _) | .step (.packedShift _) => true
  | _ => false

/-- An immediate that is a lane if a memory operand is open. -/
def isLane : Action → Bool
  | .step (.classify .bareImmediate _) => true
  | _ => false

theorem eq_bareImmediate_of_isLane {group : OperandGroup} {slot : Nat}
    (h : (Action.step (.classify group slot)).isLane = true) : group = .bareImmediate := by
  cases group <;> first | rfl | cases h

theorem isLane_of_mark? {a : Action} (hm : a.mark? ≠ none) : a.isLane = false := by
  unfold isLane
  split
  · exact absurd rfl hm
  · rfl

end Action

/-- Set a mark of the record. -/
def Builder.set (b : Builder) (s : Setting) : Builder := b.update s.apply

/-- What an action that sets no mark does to the operands. -/
inductive Operated (a : Action) (memory : MemoryState) : List Operand → List Operand → Prop
  | grown {ops} (added : List Operand) (other : ¬ (memory = .building ∧ a.isLane = true)) :
      Operated a memory ops (ops ++ added)
  | shifted {first last} (kind : ShiftKind) (imm : UInt32) (idle : memory = .idle)
      (shift : a.isShift = true) :
      Operated a memory (first ++ [last]) (first ++ [last.shifted kind imm])
  | takenBack {first last} (building : memory = .building) (lane : a.isLane = true) :
      Operated a memory (first ++ [last]) first

/-- A builder has gone on to other operands, and to no other mark or instruction. -/
structure Builder.Keeps (b b' : Builder) : Prop where
  inst_eq : b'.inst = b.inst
  marks_eq : b'.record.marks = b.record.marks

/-- A builder has added operands at most. -/
structure Builder.Extends (b b' : Builder) : Prop extends b.Keeps b' where
  operands : b.record.operands.toList <+: b'.record.operands.toList

section Operations
variable {b b' b'' : Builder} {slot : Nat}

theorem Builder.Extends.refl (b : Builder) : b.Extends b := ⟨⟨rfl, rfl⟩, List.prefix_rfl⟩

theorem Builder.Extends.trans (h : b.Extends b') (h' : b'.Extends b'') : b.Extends b'' where
  inst_eq := h'.inst_eq.trans h.inst_eq
  marks_eq := h'.marks_eq.trans h.marks_eq
  operands := h.operands.trans h'.operands

theorem withOperands_extends {l : BoundedList Operand maxOperands}
    (h : b.record.operands.toList <+: l.toList) : b.Extends (b.withOperands l) :=
  ⟨⟨rfl, rfl⟩, h⟩

theorem append_extends {op : Operand} (h : b.append op = .ok b') : b.Extends b' := by
  obtain ⟨l, hl, h⟩ := bind_eq_ok_iff.mp h
  cases h
  apply withOperands_extends
  rw [BoundedList.toList_push (orFault_eq_ok_iff.mp hl)]
  exact List.prefix_append _ _

theorem appendAll_extends {ops : List (Except Fault Operand)}
    (h : b.appendAll ops = .ok b') : b.Extends b' := by
  induction ops generalizing b with
  | nil =>
      cases h
      exact .refl b'
  | cons op rest ih =>
      obtain ⟨b₁, h₁, h⟩ := bind_eq_ok_iff.mp h
      obtain ⟨op, -, h₁⟩ := bind_eq_ok_iff.mp h₁
      exact (append_extends h₁).trans (ih h)

theorem adds_extends {source : Except Fault (List (Except Fault Operand))}
    (h : source >>= b.appendAll = .ok b') : b.Extends b' := by
  obtain ⟨ops, -, h⟩ := bind_eq_ok_iff.mp h
  exact appendAll_extends h

theorem appendImm_extends {kind : Int64 → OperandValue} {resolve : UInt64 → UInt64}
    (h : b.appendImm slot kind resolve = .ok b') : b.Extends b' := by
  rw [b.appendImm_eq] at h
  obtain ⟨op, -, h⟩ := bind_eq_ok_iff.mp h
  exact append_extends h

/-- Work in the slot at the cursor leaves the operands as they are. -/
theorem modifyOpen_operands {f : Operand → Operand} (h : b.modifyOpen f = .ok b') :
    b.Keeps b' ∧ b'.record.operands.toList = b.record.operands.toList := by
  obtain ⟨l, hl, h⟩ := bind_eq_ok_iff.mp h
  cases h
  exact ⟨⟨rfl, rfl⟩, BoundedList.toList_modifyActive (orFault_eq_ok_iff.mp hl)⟩

theorem modifyOpen_extends {f : Operand → Operand} (h : b.modifyOpen f = .ok b') :
    b.Extends b' := by
  obtain ⟨hkeeps, hoperands⟩ := modifyOpen_operands h
  exact ⟨hkeeps, hoperands ▸ List.prefix_rfl⟩

theorem openMemory_extends (h : b.openMemory = .ok b') : b.Extends b' := by
  rw [Builder.openMemory] at h
  split at h
  · cases h
  obtain ⟨declared, -, h⟩ := bind_eq_ok_iff.mp h
  have hopened := modifyOpen_extends h
  exact ⟨⟨hopened.inst_eq, hopened.marks_eq⟩, hopened.operands⟩

theorem closeMemory_extends (h : b.closeMemory = .ok b') : b.Extends b' := by
  rw [Builder.closeMemory] at h
  split at h
  · cases h
  obtain ⟨l, hl, h⟩ := bind_eq_ok_iff.mp h
  cases h
  refine ⟨⟨rfl, rfl⟩, ?_⟩
  change _ <+: l.toList
  rw [BoundedList.toList_commit (orFault_eq_ok_iff.mp hl)]
  exact List.prefix_append _ _

theorem setMemory_extends {isBase : Bool} {resolve : UInt64 → UInt64}
    (h : b.setMemory slot isBase resolve = .ok b') : b.Extends b' := by
  cases hactive : b.record.operands.active? with
  | none =>
      obtain ⟨declared, -, h⟩ := bind_eq_ok_iff.mp h
      simp only [Builder.openOperand, hactive] at h
      cases h
  | some op =>
      rw [b.setMemory_eq hactive] at h
      obtain ⟨op', -, h⟩ := bind_eq_ok_iff.mp h
      exact modifyOpen_extends h

theorem classifyGeneric_extends (h : b.classifyGeneric slot = .ok b') : b.Extends b' := by
  cases hmemory : b.memory with
  | idle =>
      rw [b.classifyGeneric_idle hmemory] at h
      exact adds_extends h
  | building =>
      obtain ⟨declared, -, h⟩ := bind_eq_ok_iff.mp h
      simp only [hmemory, if_true] at h
      cases htype : declared.type with
      | imm | memImm | reg | memReg | memIndexReg =>
          rw [htype] at h
          exact setMemory_extends h
      | pred =>
          rw [htype] at h
          exact appendImm_extends h
      | undeclared =>
          rw [htype] at h
          cases h

/-- A lane takes the last operand back. -/
theorem setLane_operands (h : b.setLane slot = .ok b') :
    b.Keeps b' ∧ ∃ last, b.record.operands.toList = b'.record.operands.toList ++ [last] := by
  obtain ⟨lane, -, h⟩ := bind_eq_ok_iff.mp h
  split at h
  · cases h
  next hfull =>
      obtain ⟨hkeeps, hoperands⟩ := modifyOpen_operands h
      refine ⟨⟨hkeeps.inst_eq, hkeeps.marks_eq⟩, ?_⟩
      rcases List.eq_nil_or_concat b.record.operands.toList with hnil | ⟨first, last, hlast⟩
      · exact absurd (List.isEmpty_iff.mpr hnil) hfull
      · have hback : b'.record.operands.toList = b.record.operands.toList.dropLast := hoperands
        refine ⟨last, ?_⟩
        rw [hback, hlast, List.concat_eq_append, List.dropLast_concat]

/-- A group that neither sets a mark nor is a lane adds operands at most. -/
theorem classifyGroup_extends {group : OperandGroup}
    (hmark : (Action.step (.classify group slot)).mark? = none)
    (hlane : ¬ (b.memory = .building ∧ group = .bareImmediate))
    (h : b.classifyGroup group slot = .ok b') : b.Extends b' := by
  cases group with
  | predicate kind | vectorPredicate | flagSetter | itMask => cases hmark
  | generic => exact classifyGeneric_extends h
  | bareImmediate =>
      rw [Builder.classifyGroup, if_neg fun hbuilding => hlane ⟨hbuilding, rfl⟩] at h
      exact appendImm_extends h
  | alignedAddress =>
      obtain ⟨b₁, hopen, h⟩ := bind_eq_ok_iff.mp h
      obtain ⟨b₂, hbase, h⟩ := bind_eq_ok_iff.mp h
      obtain ⟨b₃, hdisp, h⟩ := bind_eq_ok_iff.mp h
      have hparts := (setMemory_extends hbase).trans (setMemory_extends hdisp)
      exact ((openMemory_extends hopen).trans hparts).trans (closeMemory_extends h)
  | baseAddress =>
      obtain ⟨b₁, hopen, h⟩ := bind_eq_ok_iff.mp h
      obtain ⟨b₂, hbase, h⟩ := bind_eq_ok_iff.mp h
      exact ((openMemory_extends hopen).trans (setMemory_extends hbase)).trans
        (closeMemory_extends h)
  | coprocessor | coprocessorRegister | alignedOffset | vectorList size | registerList
  | statusMask | unmapped g =>
      rw [b.classifyGroup_eq rfl] at h
      exact adds_extends h

end Operations

section Actions
variable {a : Action} {b b' : Builder}

theorem Builder.Extends.operated (h : b.Extends b')
    (hother : ¬ (b.memory = .building ∧ a.isLane = true)) :
    Operated a b.memory b.record.operands.toList b'.record.operands.toList := by
  obtain ⟨added, hadded⟩ := h.operands
  rw [← hadded]
  exact .grown added hother

/-- A shift changes the last operand, unless a memory operand is open or there is nothing to
shift by. -/
theorem attachShift_operated {code : UInt8} {imm : UInt32} (hshift : a.isShift = true)
    (hlane : a.isLane = false) (h : b.attachShift code imm = .ok b') :
    b.Keeps b' ∧ Operated a b.memory b.record.operands.toList b'.record.operands.toList := by
  have hother : ¬ (b.memory = .building ∧ a.isLane = true) := by
    rw [hlane]
    exact fun h => Bool.false_ne_true h.2
  rw [b.attachShift_eq] at h
  obtain ⟨kind?, -, h⟩ := bind_eq_ok_iff.mp h
  cases kind? with
  | none =>
      cases h
      exact ⟨⟨rfl, rfl⟩, (Builder.Extends.refl b).operated hother⟩
  | some kind =>
      simp only at h
      split at h
      next hbuilding =>
          have hextends := modifyOpen_extends h
          exact ⟨hextends.toKeeps, hextends.operated hother⟩
      next hidle =>
          split at h
          · cases h
          next hfull =>
              cases h
              refine ⟨⟨rfl, rfl⟩, ?_⟩
              rcases List.eq_nil_or_concat b.record.operands.toList with
                hnil | ⟨first, last, hlast⟩
              · exact absurd (List.isEmpty_iff.mpr hnil) hfull
              · rw [List.concat_eq_append] at hlast
                have hidle : b.memory = .idle := by
                  cases hmemory : b.memory with
                  | idle => rfl
                  | building => exact absurd hmemory hidle
                change Operated a _ _ (b.record.operands.modifyLast _).toList
                rw [BoundedList.toList_modifyLast_of_eq hlast, hlast]
                exact .shifted kind imm hidle hshift

/-- A reading of the instruction that says what a mark is set to. -/
theorem exists_reading {α : Type} {m : Mark} (read : RawInst → Except Fault α)
    (setting : α → Setting) (hmark : ∀ value, (setting value).mark = m)
    (hact : ∀ b : Builder, b.act a = read b.inst >>= fun value => .ok (b.set (setting value))) :
    ∃ read : RawInst → Except Fault Setting,
      (∀ inst s, read inst = .ok s → s.mark = m) ∧
      ∀ b : Builder, b.act a = read b.inst >>= fun s => .ok (b.set s) := by
  refine ⟨fun inst => read inst >>= fun value => .ok (setting value), ?_, ?_⟩
  · intro inst s hs
    obtain ⟨value, -, hs⟩ := bind_eq_ok_iff.mp hs
    cases hs
    exact hmark value
  · intro b
    rw [hact b, bind_assoc]
    rfl

/-- An action that sets a mark reads from the instruction alone what it sets it to. -/
theorem act_eq_set {m : Mark} (hm : a.mark? = some m) :
    ∃ read : RawInst → Except Fault Setting,
      (∀ inst s, read inst = .ok s → s.mark = m) ∧
      ∀ b : Builder, b.act a = read b.inst >>= fun s => .ok (b.set s) := by
  cases a with
  | shift code imm => cases hm
  | step s =>
      cases s with
      | shiftLeft slot | packedShift slot | openMemory | closeMemory => cases hm
      | writeback =>
          cases hm
          exact exists_reading (fun _ => .ok ()) (fun _ => .writeback) (fun _ => rfl)
            fun _ => rfl
      | classify group slot =>
          cases group with
          | predicate kind =>
              cases hm
              exact exists_reading (readCondition · kind slot) .cc (fun _ => rfl)
                fun b => b.setCondition_eq kind slot
          | vectorPredicate =>
              cases hm
              exact exists_reading (readVectorPredicate · slot) .vcc (fun _ => rfl)
                fun b => b.setVectorPredicate_eq slot
          | itMask =>
              cases hm
              exact exists_reading (readItLayout · slot) .itLayout (fun _ => rfl)
                fun b => b.setItLayout_eq slot
          | flagSetter =>
              cases hm
              refine exists_reading (readReg · slot) (fun raw => .updateFlags (raw != 0))
                (fun _ => rfl) fun b => bind_congr fun raw => ?_
              by_cases hzero : raw = 0
              · simp [hzero, Builder.set, Builder.update, Setting.apply]
              · simp [hzero, Builder.set, Builder.update, Setting.apply]
          | _ => cases hm

/-- An action sets its mark, or it keeps all marks and works on the operands. -/
theorem act_cases (h : b.act a = .ok b') :
    (∃ s : Setting, a.mark? = some s.mark ∧ b' = b.set s) ∨
      a.mark? = none ∧ b.Keeps b' ∧
        Operated a b.memory b.record.operands.toList b'.record.operands.toList := by
  cases hm : a.mark? with
  | some m =>
      obtain ⟨read, hread, hact⟩ := act_eq_set hm
      rw [hact] at h
      obtain ⟨s, hs, h⟩ := bind_eq_ok_iff.mp h
      cases h
      exact .inl ⟨s, congrArg some (hread _ s hs).symm, rfl⟩
  | none =>
      refine .inr ⟨rfl, ?_⟩
      cases a with
      | shift code imm => exact attachShift_operated rfl rfl h
      | step s =>
          cases s with
          | shiftLeft slot =>
              obtain ⟨raw, -, h⟩ := bind_eq_ok_iff.mp h
              have h : b.attachShift 2 raw.toUInt64.toUInt32 = .ok b' := h
              exact attachShift_operated rfl rfl h
          | packedShift slot =>
              obtain ⟨raw, -, h⟩ := bind_eq_ok_iff.mp h
              let imm := raw.toUInt64.toUInt32
              have h : b.attachShift (imm &&& 7).toUInt8 (imm >>> 3) = .ok b' := h
              exact attachShift_operated rfl rfl h
          | openMemory =>
              have hextends := openMemory_extends h
              exact ⟨hextends.toKeeps, hextends.operated nofun⟩
          | closeMemory =>
              have hextends := closeMemory_extends h
              exact ⟨hextends.toKeeps, hextends.operated nofun⟩
          | writeback => cases hm
          | classify group slot =>
              by_cases hlane : b.memory = .building ∧ group = .bareImmediate
              · obtain ⟨hbuilding, rfl⟩ := hlane
                have h : b.classifyGroup .bareImmediate slot = .ok b' := h
                rw [Builder.classifyGroup, if_pos hbuilding] at h
                obtain ⟨hkeeps, last, hlast⟩ := setLane_operands h
                refine ⟨hkeeps, ?_⟩
                rw [hlast]
                exact .takenBack hbuilding rfl
              · have hextends := classifyGroup_extends hm hlane h
                refine ⟨hextends.toKeeps, hextends.operated ?_⟩
                rintro ⟨hbuilding, hbare⟩
                exact hlane ⟨hbuilding, Action.eq_bareImmediate_of_isLane hbare⟩

theorem act_inst (h : b.act a = .ok b') : b'.inst = b.inst := by
  rcases act_cases h with ⟨s, -, rfl⟩ | ⟨-, hkeeps, -⟩
  · rfl
  · exact hkeeps.inst_eq

/-- What an action can have done to the operands, be it one that sets a mark. -/
theorem act_operated (h : b.act a = .ok b') :
    Operated a b.memory b.record.operands.toList b'.record.operands.toList := by
  rcases act_cases h with ⟨s, hs, rfl⟩ | ⟨-, -, hoperated⟩
  · have hoperands : (b.set s).record.operands = b.record.operands :=
      s.operands_apply b.record
    rw [hoperands]
    refine (Builder.Extends.refl b).operated ?_
    rintro ⟨-, hlane⟩
    rw [Action.isLane_of_mark? (by simp [hs])] at hlane
    cases hlane
  · exact hoperated

/-- How far an action reaches back into the operands. -/
structure Reach (a : Action) (memory : MemoryState) (ops ops' : List Operand) : Prop where
  /-- All operands but the last one stay. -/
  firsts : ∀ first last, ops = first ++ [last] → first <+: ops'
  length_le : ops.length ≤ ops'.length + 1
  /-- Only a lane inside of a memory operand takes an operand back. -/
  length_lt_iff : ops'.length < ops.length ↔ memory = .building ∧ a.isLane = true
  /-- Otherwise the last operand stays too, but for its shift, which only a shift outside of
  a memory operand changes. -/
  last : ¬ (memory = .building ∧ a.isLane = true) → ∀ first last, ops = first ++ [last] →
    ∃ last' added, ops' = first ++ last' :: added ∧
      last' = { last with shift := last'.shift } ∧
      (last' ≠ last → memory = .idle ∧ a.isShift = true)

theorem Operated.reach {memory : MemoryState} {ops ops' : List Operand}
    (h : Operated a memory ops ops') : Reach a memory ops ops' := by
  cases h with
  | grown added other =>
      constructor
      case firsts =>
        rintro first last rfl
        rw [List.append_assoc]
        exact List.prefix_append _ _
      case length_le =>
        rw [List.length_append]
        omega
      case length_lt_iff => simp [other]
      case last =>
        rintro - first last rfl
        exact ⟨last, added, by rw [List.append_assoc, List.singleton_append], rfl,
          fun hne => absurd rfl hne⟩
  | @shifted front op kind imm idle shift =>
      constructor
      case firsts =>
        intro first last hsplit
        obtain ⟨rfl, -⟩ := List.append_inj' hsplit rfl
        exact List.prefix_append _ _
      case length_le | length_lt_iff => simp [idle]
      case last =>
        intro _ first last hsplit
        obtain ⟨rfl, hlast⟩ := List.append_inj' hsplit rfl
        cases hlast
        exact ⟨op.shifted kind imm, [], rfl, rfl, fun _ => ⟨idle, shift⟩⟩
  | @takenBack front op building lane =>
      constructor
      case firsts =>
        intro first last hsplit
        obtain ⟨rfl, -⟩ := List.append_inj' hsplit rfl
        exact List.prefix_rfl
      case length_le | length_lt_iff => simp [building, lane]
      case last =>
        intro hother
        exact absurd ⟨building, lane⟩ hother

/-- What an action of a builder can have changed. -/
structure Footprint (a : Action) (b b' : Builder) : Prop where
  operands : Reach a b.memory b.record.operands.toList b'.record.operands.toList
  /-- Only the mark of the action changes. -/
  marks : b.record.marks.ChangedAt a.mark? b'.record.marks
  /-- An action that has a mark does nothing else. -/
  mark_only : a.mark? ≠ none →
    b'.record.operands = b.record.operands ∧ b'.memory = b.memory

theorem act_footprint (h : b.act a = .ok b') : Footprint a b b' := by
  have hreach := (act_operated h).reach
  rcases act_cases h with ⟨s, hs, rfl⟩ | ⟨hm, hkeeps, -⟩
  · refine ⟨hreach, ?_, fun _ => ⟨s.operands_apply b.record, rfl⟩⟩
    rw [hs]
    exact s.changedAt_apply b.record
  · refine ⟨hreach, ?_, fun hmark => absurd hm hmark⟩
    rw [hkeeps.marks_eq]
    exact .refl _ _

end Actions

end Arm

end Disassembly
