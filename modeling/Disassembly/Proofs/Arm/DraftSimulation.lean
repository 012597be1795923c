import Disassembly.Proofs.Arm.Operations

/-!
# Builders mirror drafts

A builder keeps the open memory operand in the slot at the cursor of its list,
steps the cursor back without clearing a slot, and leaves old contents behind. A
draft does none of this. The relation between the two says which slot stands for
which operand, and every operation keeps it.

## Implementation notes

An operand that is added while another one is open lands in the slot of the open
one. Only the list of operands and the fields beside it are then still the same
on both sides, which is what `Tracks` says. It is enough for the faults.

-/

namespace Disassembly.Arm

/-- A builder and a draft hold the same operands and the same other fields. -/
structure Tracks (inst : RawInst) (features : Features) (b : Builder) (d : Draft) :
    Prop where
  inst_eq : b.inst = inst
  features_eq : b.features = features
  operands_eq : b.record.operands.toList = d.committed
  marks_eq : b.record.marks = d.marks

/-- An open operand is in the slot at the cursor. -/
def Builder.HoldsOpen (b : Builder) : Option Operand → Prop
  | none => b.memory = .idle
  | some op => b.memory = .building ∧ b.record.operands.active? = some op

/-- A builder and a draft stand for the same state. -/
structure Mirrors (inst : RawInst) (features : Features) (b : Builder) (d : Draft) : Prop
    extends Tracks inst features b d where
  holds : b.HoldsOpen d.opened

/-- What holds of a builder and a draft after an action of both. They stand for the
same state unless the action added an operand while another one was open. -/
structure Follows (inst : RawInst) (features : Features) (before b : Builder) (d : Draft) :
    Prop extends Tracks inst features b d where
  memory_eq : b.memory = d.memory
  mirrors : (b.memory = .building → b.count ≤ before.count) → Mirrors inst features b d

section
variable {inst : RawInst} {features : Features} {b : Builder} {d : Draft}

theorem Tracks.count_eq (h : Tracks inst features b d) :
    b.count = d.committed.length := by
  rw [← h.operands_eq]
  rfl

theorem Tracks.isEmpty_eq (h : Tracks inst features b d) :
    b.record.operands.isEmpty = d.committed.isEmpty := by
  rw [← h.operands_eq]
  rfl

theorem Mirrors.idle (h : Mirrors inst features b d) (ho : d.opened = none) :
    b.memory = .idle := by
  have hholds := h.holds
  rw [ho] at hholds
  exact hholds

theorem Mirrors.building (h : Mirrors inst features b d) {op : Operand}
    (ho : d.opened = some op) :
    b.memory = .building ∧ b.record.operands.active? = some op := by
  have hholds := h.holds
  rw [ho] at hholds
  exact hholds

/-- The open operand of a draft can be named. -/
theorem Mirrors.with_opened (h : Mirrors inst features b d) {op : Operand}
    (ho : d.opened = some op) : Mirrors inst features b { d with opened := some op } := by
  rw [← ho]
  exact h

theorem Mirrors.memory_eq (h : Mirrors inst features b d) : b.memory = d.memory := by
  simp only [Draft.memory]
  cases ho : d.opened with
  | none => exact h.idle ho
  | some op => exact (h.building ho).1

theorem Mirrors.follows (h : Mirrors inst features b d) {before : Builder} :
    Follows inst features before b d :=
  { h with memory_eq := h.memory_eq, mirrors := fun _ => h }

/-- With nothing open there is nothing more to know than the operands and fields. -/
theorem Tracks.mirrors (h : Tracks inst features b d) (hidle : b.memory = .idle)
    (hopened : d.opened = none) : Mirrors inst features b d :=
  { h with holds := by rw [hopened]; exact hidle }

/-- Both sides add an operand, or neither has room. -/
theorem append_tracks (h : Tracks inst features b d) (op : Operand) :
    Alike (fun b' d' => Tracks inst features b' d' ∧ b'.memory = b.memory ∧
      d'.opened = d.opened ∧ b'.count = b.count + 1) (b.append op) (d.append op) := by
  have hcount := h.count_eq
  simp only [Builder.append, Draft.append]
  by_cases hroom : d.committed.length < maxOperands
  · obtain ⟨r, hr, hlist⟩ :=
      (b.record.operands.push_eq_ok_iff (by decide) op).mpr
        (by rw [← hcount] at hroom; exact hroom)
    simp only [if_pos hroom, hr]
    have hoperands : r.toList = d.committed ++ [op] := by
      rw [hlist, h.operands_eq]
    have hlength : r.toList.length = b.record.operands.toList.length + 1 := by
      rw [hlist, List.length_append, List.length_singleton]
    exact .ok ⟨⟨h.inst_eq, h.features_eq, hoperands, h.marks_eq⟩, rfl, rfl, hlength⟩
  · have hfull : maxOperands ≤ b.record.operands.length := by
      rw [← hcount] at hroom
      exact Nat.le_of_not_lt hroom
    simp only [if_neg hroom, BoundedList.push_eq_error op hfull]
    exact .error _

/-- Both sides add the same operands in order up to the same fault. -/
theorem appendAll_tracks (h : Tracks inst features b d)
    (ops : List (Except Fault Operand)) :
    Alike (fun b' d' => Tracks inst features b' d' ∧ b'.memory = b.memory ∧
      d'.opened = d.opened ∧ b'.count = b.count + ops.length)
      (b.appendAll ops) (d.appendAll ops) := by
  induction ops generalizing b d with
  | nil => exact .ok ⟨h, rfl, rfl, rfl⟩
  | cons op rest ih =>
      simp only [Builder.appendAll, Draft.appendAll, List.foldlM_cons, bind_assoc]
      apply Alike.bind_same
      intro op _
      apply (append_tracks h op).bind
      rintro b₁ d₁ ⟨h₁, hm₁, ho₁, hc₁⟩
      apply (ih h₁).mono
      rintro b₂ d₂ ⟨h₂, hm₂, ho₂, hc₂⟩
      have hcount : b₂.count = b.count + (rest.length + 1) := by
        rw [hc₂, hc₁]
        omega
      exact ⟨h₂, hm₂.trans hm₁, ho₂.trans ho₁, hcount⟩

/-- Both sides add the operands of a group or fail at the same one. -/
theorem adds_follows (h : Mirrors inst features b d)
    (source : Except Fault (List (Except Fault Operand))) :
    Alike (Follows inst features b) (source >>= b.appendAll) (source >>= d.appendAll) := by
  apply Alike.bind_same
  intro ops _
  cases ho : d.opened with
  | none =>
      apply (appendAll_tracks h.toTracks ops).mono
      rintro b' d' ⟨h', hm, hopened, -⟩
      exact (h'.mirrors (hm.trans (h.idle ho)) (hopened.trans ho)).follows
  | some op =>
      cases ops with
      | nil => exact .ok h.follows
      | cons first rest =>
          apply (appendAll_tracks h.toTracks _).mono
          rintro b' d' ⟨h', hm, hopened, hc⟩
          refine ⟨h', ?_, ?_⟩
          · rw [hm, h.memory_eq, Draft.memory, Draft.memory, hopened]
          · -- an operand was added in the slot of the open one
            intro hquiet
            have hle := hquiet (hm.trans (h.building ho).1)
            rw [hc, List.length_cons] at hle
            omega

/-- A change of the fields beside the operands. -/
theorem mark_mirrors (h : Mirrors inst features b d) {f : Record → Record}
    {g : Marks → Marks} (hmarks : (f b.record).marks = g b.record.marks)
    (hoperands : (f b.record).operands = b.record.operands) :
    Mirrors inst features (b.update f) (d.mark g) where
  inst_eq := h.inst_eq
  features_eq := h.features_eq
  operands_eq := by
    change (f b.record).operands.toList = d.committed
    rw [hoperands, h.operands_eq]
  marks_eq := by
    change (f b.record).marks = g d.marks
    rw [hmarks, h.marks_eq]
  holds := by
    change (b.update f).HoldsOpen d.opened
    cases ho : d.opened with
    | none => exact h.idle ho
    | some op =>
        obtain ⟨hbuilding, hactive⟩ := h.building ho
        exact ⟨hbuilding, (congrArg BoundedList.active? hoperands).trans hactive⟩

/-- Both sides open a memory operand with the same contents. -/
theorem openMemory_mirrors (h : Mirrors inst features b d) :
    Alike (fun b' op => Mirrors inst features b' { d with opened := some op } ∧
      d.opened = none) b.openMemory (d.newMemory inst) := by
  obtain rfl := h.inst_eq
  have hcount : b.record.operands.length = d.committed.length := h.count_eq
  simp only [Builder.openMemory, Draft.newMemory]
  cases ho : d.opened with
  | some op =>
      simp only [(h.building ho).1, Option.isSome_some, if_true]
      exact .error _
  | none =>
      simp only [h.idle ho, reduceCtorEq, if_false, Option.isSome_none, Bool.false_eq_true,
        Builder.describe, h.count_eq]
      apply Alike.bind_same
      intro declared _
      by_cases hroom : d.committed.length < maxOperands
      · have hslot := (b.record.operands.isSome_active?_iff).mpr (hcount ▸ hroom)
        obtain ⟨old, hold⟩ := Option.isSome_iff_exists.mp hslot
        obtain ⟨r, hr, hlist, hactive⟩ := BoundedList.modifyActive_eq_ok hold fun _ =>
          ({ value := .mem {}, access := declared.access } : Operand)
        simp only [if_pos hroom, Builder.modifyOpen, hr]
        have hoperands : r.toList = d.committed := hlist.trans h.operands_eq
        exact .ok ⟨⟨⟨rfl, h.features_eq, hoperands, h.marks_eq⟩, rfl, hactive⟩, trivial⟩
      · have hfull : maxOperands ≤ b.record.operands.length :=
          hcount ▸ Nat.le_of_not_lt hroom
        simp only [if_neg hroom, Builder.modifyOpen,
          BoundedList.modifyActive_eq_error _ hfull]
        exact .error _

/-- Both sides change the open operand. -/
theorem modifyOpen_mirrors {op : Operand}
    (h : Mirrors inst features b { d with opened := some op }) (f : Operand → Operand) :
    ∃ b', b.modifyOpen f = .ok b' ∧
      Mirrors inst features b' { d with opened := some (f op) } := by
  obtain ⟨hbuilding, hactive⟩ := h.building rfl
  obtain ⟨r, hr, hlist, hnext⟩ := BoundedList.modifyActive_eq_ok hactive f
  have hmodify : b.modifyOpen f = .ok (b.withOperands r) := by
    simp only [Builder.modifyOpen, hr]
    rfl
  have hoperands : r.toList = d.committed := hlist.trans h.operands_eq
  exact ⟨b.withOperands r, hmodify,
    ⟨h.inst_eq, h.features_eq, hoperands, h.marks_eq⟩, hbuilding, hnext⟩

/-- Both sides store a part of the open memory operand. -/
theorem setMemory_mirrors {op : Operand}
    (h : Mirrors inst features b { d with opened := some op }) (slot : Nat)
    (isBase : Bool) (resolve : UInt64 → UInt64) :
    Alike (fun b' op' => Mirrors inst features b' { d with opened := some op' })
      (b.setMemory slot isBase resolve) (memoryPart inst slot isBase resolve op) := by
  rw [b.setMemory_eq (h.building rfl).2, h.inst_eq]
  exact .bind_total fun op' _ => modifyOpen_mirrors h fun _ => op'

/-- Both sides add the open memory operand. -/
theorem closeMemory_mirrors {op : Operand}
    (h : Mirrors inst features b { d with opened := some op }) :
    Alike (Mirrors inst features) b.closeMemory ({ d with opened := none }.append op) := by
  obtain ⟨hbuilding, hactive⟩ := h.building rfl
  obtain ⟨r, hr, hlist⟩ := BoundedList.commit_eq_ok (by decide) hactive
  have hroom : d.committed.length < maxOperands := by
    have hslot := b.record.operands.isSome_active?_iff.mp (by rw [hactive]; rfl)
    have hcount : b.record.operands.length = d.committed.length := h.count_eq
    omega
  simp only [Builder.closeMemory, hbuilding, reduceCtorEq, if_false, hr, Draft.append,
    if_pos hroom]
  have hoperands : r.toList = d.committed ++ [op] := by
    rw [hlist, h.operands_eq]
  exact .ok ⟨⟨h.inst_eq, h.features_eq, hoperands, h.marks_eq⟩, rfl⟩

/-- Both sides take the last operand back and give it a lane. -/
theorem setLane_mirrors {op : Operand} (h : Mirrors inst features b d)
    (ho : d.opened = some op) (slot : Nat) :
    Alike (Mirrors inst features) (b.setLane slot) (d.foldLane inst slot) := by
  obtain rfl := h.inst_eq
  have hbuilding := (h.building ho).1
  simp only [Builder.setLane, Draft.foldLane]
  apply Alike.bind_same
  intro lane _
  rw [h.isEmpty_eq]
  cases hlast : d.committed.getLast? with
  | none =>
      rw [List.getLast?_eq_none_iff.mp hlast]
      exact .error _
  | some last =>
      have hne : d.committed ≠ [] := by
        rintro hnil
        rw [hnil] at hlast
        cases hlast
      simp only [List.isEmpty_eq_false_iff.mpr hne, Bool.false_eq_true, if_false]
      have hactive := BoundedList.active?_retract (h.operands_eq ▸ hlast)
      have hback : Mirrors b.inst features
          (b.withOperands b.record.operands.retract)
          { d with committed := d.committed.dropLast, opened := some last } :=
        ⟨⟨rfl, h.features_eq, congrArg List.dropLast h.operands_eq, h.marks_eq⟩,
          hbuilding, hactive⟩
      obtain ⟨b', hb', h'⟩ := modifyOpen_mirrors
        (d := { d with committed := d.committed.dropLast }) hback
        ({ · with neonLane := lane.toInt8 })
      rw [hb']
      exact .ok h'

/-- Both sides attach the same shift to the same operand. -/
theorem attachShift_mirrors (h : Mirrors inst features b d) (code : UInt8)
    (imm : UInt32) :
    Alike (Mirrors inst features) (b.attachShift code imm) (d.attachShift inst code imm) := by
  obtain rfl := h.inst_eq
  rw [b.attachShift_eq]
  simp only [Draft.attachShift]
  apply Alike.bind_same
  intro kind? _
  cases kind? with
  | none => exact .ok h
  | some kind =>
      cases ho : d.opened with
      | some op =>
          obtain ⟨b', hb', h'⟩ := modifyOpen_mirrors (h.with_opened ho) (·.shifted kind imm)
          simp only [(h.building ho).1, if_true, hb']
          exact .ok h'
      | none =>
          simp only [h.idle ho, reduceCtorEq, if_false, h.isEmpty_eq, List.isEmpty_iff]
          by_cases hnil : d.committed = []
          · simp only [if_pos hnil]
            exact .error _
          · simp only [if_neg hnil]
            have hoperands : (b.record.operands.modifyLast (·.shifted kind imm)).toList =
                d.committed.modify (d.committed.length - 1) (·.shifted kind imm) := by
              rw [← h.operands_eq]
              rfl
            exact .ok ⟨⟨rfl, h.features_eq, hoperands, h.marks_eq⟩, h.idle ho⟩

/-- Both sides classify a raw operand by its declared type. -/
theorem classifyGeneric_follows (h : Mirrors inst features b d) (slot : Nat) :
    Alike (Follows inst features b) (b.classifyGeneric slot)
      (d.classifyGroup inst features .generic slot) := by
  obtain rfl := h.inst_eq
  obtain rfl := h.features_eq
  have hsource := adds_follows h (groupOperands b.inst b.features .generic slot)
  cases ho : d.opened with
  | none =>
      rw [b.classifyGeneric_idle (h.idle ho)]
      simp only [Draft.classifyGroup, ho]
      cases hdeclared : descriptor b.inst.opcode slot with
      | error fault =>
          simp only [groupOperands, hdeclared, error_bind] at hsource ⊢
          exact hsource
      | ok declared => exact hsource
  | some op =>
      simp only [Builder.classifyGeneric, Builder.describe, (h.building ho).1, if_true,
        Draft.classifyGroup, ho]
      apply Alike.bind_same
      intro declared hdeclared
      cases htype : declared.type with
      | imm | memImm | reg | memReg | memIndexReg =>
          have hstore := setMemory_mirrors (h.with_opened ho) slot
          exact (hstore _ id).total_bind fun _ _ h' => h'.follows
      | pred =>
          simp only [groupOperands, hdeclared, htype, ok_bind, pure_eq_ok,
            Builder.appendAll_singleton, ← Builder.appendImm_eq] at hsource ⊢
          exact hsource
      | undeclared =>
          simp only [groupOperands, hdeclared, htype, ok_bind]
          exact .error _

/-- Both sides carry out a group in the same way. -/
theorem classifyGroup_follows (h : Mirrors inst features b d) (group : OperandGroup)
    (slot : Nat) :
    Alike (Follows inst features b) (b.classifyGroup group slot)
      (d.classifyGroup inst features group slot) := by
  obtain rfl := h.inst_eq
  obtain rfl := h.features_eq
  cases group with
  | predicate kind =>
      simp only [Builder.classifyGroup, Builder.setCondition_eq]
      exact .bind_same _ fun cc _ => .ok (mark_mirrors h rfl rfl).follows
  | vectorPredicate =>
      simp only [Builder.classifyGroup, Builder.setVectorPredicate_eq]
      exact .bind_same _ fun vcc _ => .ok (mark_mirrors h rfl rfl).follows
  | itMask =>
      simp only [Builder.classifyGroup, Builder.setItLayout_eq]
      exact .bind_same _ fun layout _ => .ok (mark_mirrors h rfl rfl).follows
  | flagSetter =>
      apply Alike.bind_same
      intro raw _
      by_cases hzero : raw = 0
      · have hsame :
            (d.mark fun m => { m with updateFlags := m.updateFlags || raw != 0 }) = d := by
          simp [Draft.mark, hzero]
        simp only [if_pos hzero, hsame]
        exact .ok h.follows
      · simp only [if_neg hzero]
        have hmarks : { b.record with updateFlags := true }.marks =
            { b.record.marks with updateFlags := b.record.marks.updateFlags || raw != 0 } := by
          simp [Record.marks, hzero]
        exact .ok (mark_mirrors h hmarks rfl).follows
  | generic => exact classifyGeneric_follows h slot
  | bareImmediate =>
      cases ho : d.opened with
      | some op =>
          simp only [Builder.classifyGroup, (h.building ho).1, if_true,
            Draft.classifyGroup, ho, Option.isSome_some]
          exact (setLane_mirrors h ho slot).mono fun _ _ h' => h'.follows
      | none =>
          have hsource := adds_follows h (groupOperands b.inst b.features .bareImmediate slot)
          simp only [Builder.classifyGroup, h.idle ho, reduceCtorEq, if_false]
          simp only [Draft.classifyGroup, ho, Option.isSome_none, Bool.false_eq_true, if_false]
          simp only [groupOperands, ok_bind, Builder.appendAll_singleton,
            ← Builder.appendImm_eq] at hsource ⊢
          exact hsource
  | alignedAddress =>
      apply (openMemory_mirrors h).bind
      rintro b₁ op₁ ⟨h₁, ho⟩
      apply (setMemory_mirrors h₁ slot true id).bind
      intro b₂ op₂ h₂
      apply (setMemory_mirrors h₂ (slot + 1) false alignmentBits).bind
      intro b₃ op₃ h₃
      rw [← d.eq_of_closed ho]
      exact (closeMemory_mirrors h₃).mono fun _ _ h' => h'.follows
  | baseAddress =>
      apply (openMemory_mirrors h).bind
      rintro b₁ op₁ ⟨h₁, ho⟩
      apply (setMemory_mirrors h₁ slot true id).bind
      intro b₂ op₂ h₂
      rw [← d.eq_of_closed ho]
      exact (closeMemory_mirrors h₂).mono fun _ _ h' => h'.follows
  | coprocessor | coprocessorRegister | alignedOffset | vectorList size | registerList
  | statusMask | unmapped g =>
      rw [Builder.classifyGroup_eq b rfl]
      exact adds_follows h _

/-- Both sides carry out a step in the same way. -/
theorem step_follows (h : Mirrors inst features b d) (s : Step) :
    Alike (Follows inst features b) (b.step s) (d.step inst features s) := by
  cases s with
  | classify group slot => exact classifyGroup_follows h group slot
  | shiftLeft slot =>
      obtain rfl := h.inst_eq
      apply Alike.bind_same
      intro raw _
      have halike := attachShift_mirrors h 2 raw.toUInt64.toUInt32
      exact halike.mono fun _ _ h' => h'.follows
  | packedShift slot =>
      obtain rfl := h.inst_eq
      apply Alike.bind_same
      intro raw _
      let imm := raw.toUInt64.toUInt32
      have halike := attachShift_mirrors h (imm &&& 7).toUInt8 (imm >>> 3)
      exact halike.mono fun _ _ h' => h'.follows
  | openMemory =>
      have hopen := (openMemory_mirrors h).total_bind fun _ _ h' => h'.1
      exact hopen.mono fun _ _ h' => h'.follows
  | closeMemory =>
      simp only [Builder.step, Draft.step, Draft.closeMemory]
      cases ho : d.opened with
      | none =>
          simp only [Builder.closeMemory, h.idle ho, if_true, h.inst_eq]
          exact .error _
      | some op =>
          exact (closeMemory_mirrors (h.with_opened ho)).mono fun _ _ h' => h'.follows
  | writeback => exact .ok (mark_mirrors h rfl rfl).follows

end

/-- A unit of work of a builder: a step of a walk, or a shift by itself. -/
inductive Action where
  | step (s : Step)
  | shift (code : UInt8) (imm : UInt32)
deriving DecidableEq, Repr

/-- What shows of a state: the operands and fields of the record, and whether a memory
operand is open. -/
structure Snapshot where
  operands : List Operand
  marks : Marks
  memory : MemoryState
deriving DecidableEq, Repr

namespace Builder

/-- Carry out a unit of work. -/
def act (b : Builder) : Action → Except Fault Builder
  | .step s => b.step s
  | .shift code imm => b.classify (.shift code imm)

def snapshot (b : Builder) : Snapshot :=
  ⟨b.record.operands.toList, b.record.marks, b.memory⟩

/-- No action of a run adds an operand and leaves a memory operand open. -/
def Orderly (b : Builder) : List Action → Prop
  | [] => True
  | a :: rest =>
      match b.act a with
      | .ok next => (next.memory = .building → next.count ≤ b.count) ∧ next.Orderly rest
      | .error _ => True

instance decidableOrderly : (b : Builder) → (actions : List Action) →
    Decidable (b.Orderly actions)
  | _, [] => .isTrue trivial
  | b, a :: rest =>
      match hact : b.act a with
      | .ok next =>
          have := decidableOrderly next rest
          decidable_of_iff
            ((next.memory = .building → next.count ≤ b.count) ∧ next.Orderly rest)
            (by simp only [Orderly, hact])
      | .error _ => .isTrue (by simp only [Orderly, hact])

end Builder

namespace Draft

/-- Carry out a unit of work. -/
def act (inst : RawInst) (features : Features) (d : Draft) : Action → Except Fault Draft
  | .step s => d.step inst features s
  | .shift code imm => d.attachShift inst code imm

def snapshot (d : Draft) : Snapshot := ⟨d.committed, d.marks, d.memory⟩

end Draft

section
variable {inst : RawInst} {features : Features} {b : Builder} {d : Draft}

theorem Mirrors.snapshot_eq (h : Mirrors inst features b d) : b.snapshot = d.snapshot := by
  rw [Builder.snapshot, Draft.snapshot, h.operands_eq, h.marks_eq, h.memory_eq]

/-- At the start nothing is open. -/
theorem mirrors_new (inst : RawInst) (features : Features) (record : Record) :
    Mirrors inst features (Builder.new inst record features) (Draft.ofRecord record) :=
  ⟨⟨rfl, rfl, rfl, rfl⟩, rfl⟩

theorem act_follows (h : Mirrors inst features b d) (a : Action) :
    Alike (Follows inst features b) (b.act a) (d.act inst features a) := by
  cases a with
  | step s => exact step_follows h s
  | shift code imm =>
      exact (attachShift_mirrors h code imm).mono fun _ _ h' => h'.follows

/-- An orderly run shows the same states on both sides and ends in the same way. -/
theorem trace_mirrors (h : Mirrors inst features b d) (actions : List Action)
    (horderly : b.Orderly actions) :
    (trace Builder.act b actions).map (·.map Builder.snapshot) id =
      (trace (Draft.act inst features) d actions).map (·.map Draft.snapshot) id := by
  apply Alike.trace_eq
    (Q := fun b d actions => Mirrors inst features b d ∧ b.Orderly actions) ?_ _ ⟨h, horderly⟩
  rintro b d a rest ⟨h, horderly⟩
  have halike := act_follows h a
  simp only [Builder.Orderly] at horderly
  generalize b.act a = x at halike horderly ⊢
  generalize d.act inst features a = y at halike ⊢
  cases halike with
  | error fault => exact .error fault
  | ok related =>
      have hnext := related.mirrors horderly.1
      exact .ok ⟨hnext.snapshot_eq, hnext, horderly.2⟩

/-- A builder with a cursor over slots is a machine that only adds to a list. Whatever
the record holds at the start, used or not, every orderly run of steps and shifts
shows the operands, the fields and the open state of the draft after each action, and
stops at the same action with the same fault. -/
theorem builder_trace_eq_draft_trace (inst : RawInst) (features : Features)
    (record : Record) (actions : List Action)
    (horderly : (Builder.new inst record features).Orderly actions) :
    (trace Builder.act (Builder.new inst record features) actions).map
        (·.map Builder.snapshot) id =
      (trace (Draft.act inst features) (Draft.ofRecord record) actions).map
        (·.map Draft.snapshot) id :=
  trace_mirrors (mirrors_new inst features record) actions horderly

/-- A load of one lane: the register, the address and its alignment, the register
again, the lane, and a condition with its register. -/
def laneLoad : RawInst where
  opcode := Opcode.vld1lnd8.word
  operands := ⟨[.reg 14, .reg 66, .imm 0, .reg 14, .imm 3, .imm 14, .reg 0],
    List.replicate 41 .invalid, rfl, by decide⟩
  address := 0
  mode := .arm

/-- A record with one operand, and with old contents in the slots past it. -/
def usedRecord : Record where
  operands := ⟨[{ value := .reg .sp, access := .read }],
    List.replicate 35 { value := .imm 7, access := .write }, rfl, by decide⟩

/-- The walk of a lane load, then shifts outside and inside of a memory operand, and
last a shift opcode that does not exist. -/
def laneLoadActions : List Action :=
  Opcode.vld1lnd8.walk.map .step ++
    [.shift 5 0, .step .openMemory, .shift 1 0, .step .closeMemory, .shift 6 0]

theorem laneLoad_trace_eq_draft_trace :
    (Builder.new laneLoad usedRecord .all).Orderly laneLoadActions ∧
      (trace Builder.act (Builder.new laneLoad usedRecord .all) laneLoadActions).map
          (·.map Builder.snapshot) id =
        (trace (Draft.act laneLoad .all) (Draft.ofRecord usedRecord) laneLoadActions).map
          (·.map Draft.snapshot) id := by
  have horderly : (Builder.new laneLoad usedRecord .all).Orderly laneLoadActions := by
    decide
  exact ⟨horderly,
    builder_trace_eq_draft_trace laneLoad .all usedRecord laneLoadActions horderly⟩

end

end Disassembly.Arm
