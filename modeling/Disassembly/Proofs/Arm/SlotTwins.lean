import Disassembly.Proofs.Arm.DraftSimulation

/-!
# Builders on twin records

Two builders work side by side on records that differ only in the slots past the operands.
Every operation fails on both sides or on neither, and keeps them apart by those slots only,
unless it closes a memory operand over one of them.

## Implementation notes

The first slots past the operands are known to be the same on both sides. Of the others
nothing is known but a relation between their vector indices, which no change of an open
operand touches: every relation serves to show that runs agree, and that they differ is shown
with `≠`.
-/

namespace Disassembly.Arm

section Slots
variable (P : Int32 → Int32 → Prop)

/-- The contents of a slot on both sides, which is known to be the same or is not. -/
structure SlotTwins (known : Nat) (x y : Operand) : Prop where
  same : known ≠ 0 → x = y
  other : known = 0 → P x.vectorIndex y.vectorIndex

/-- Slots past the operands, the first of them with the same contents on both sides. -/
inductive SpareTwins : Nat → List Operand → List Operand → Prop
  | nil {known} : SpareTwins known [] []
  | cons {known x y s t} (slot : SlotTwins P known x y) (rest : SpareTwins (known - 1) s t) :
      SpareTwins known (x :: s) (y :: t)

/-- Lists with the same operands, and so many slots past them that are the same. -/
structure ListTwins {n : Nat} (known : Nat) (l m : BoundedList Operand n) : Prop where
  used_eq : l.used = m.used
  spare : SpareTwins P known l.spare m.spare

end Slots

section Lists
variable {P : Int32 → Int32 → Prop} {n known : Nat} {l m : BoundedList Operand n}

theorem SlotTwins.refl (op : Operand) (h : known ≠ 0) : SlotTwins P known op op :=
  ⟨fun _ => rfl, fun hzero => absurd hzero h⟩

/-- A change that keeps the vector index is made on both sides. -/
theorem SlotTwins.map {x y : Operand} (h : SlotTwins P known x y) (f : Operand → Operand)
    (hf : ∀ op, (f op).vectorIndex = op.vectorIndex) : SlotTwins P known (f x) (f y) := by
  refine ⟨fun hknown => congrArg f (h.same hknown), fun hzero => ?_⟩
  rw [hf, hf]
  exact h.other hzero

/-- Both sides have a slot at the cursor, or neither has. -/
theorem ListTwins.active (h : ListTwins P known l m) :
    l.active? = none ∧ m.active? = none ∨
      ∃ x y, l.active? = some x ∧ m.active? = some y ∧ SlotTwins P known x y := by
  obtain ⟨used, s, hl⟩ := l
  obtain ⟨used', t, hm⟩ := m
  obtain ⟨rfl, hspare⟩ := h
  cases hspare with
  | nil => exact .inl ⟨rfl, rfl⟩
  | cons slot rest => exact .inr ⟨_, _, rfl, rfl, slot⟩

/-- Both sides move the cursor on, or neither can. -/
theorem advance_alike {used s t : List Operand} {x y : Operand}
    (hl : used.length + (x :: s).length = n) (hm : used.length + (y :: t).length = n) :
    Alike (fun l' m' => (l'.used = used ++ [x] ∧ l'.spare = s) ∧
        m'.used = used ++ [y] ∧ m'.spare = t)
      (orFault (BoundedList.advance used x s hl)) (orFault (BoundedList.advance used y t hm)) := by
  by_cases hcursor : used.length < BoundedList.maxCursor
  · obtain ⟨l', hl', hleft⟩ := BoundedList.advance_eq_ok (h := hl) hcursor
    obtain ⟨m', hm', hright⟩ := BoundedList.advance_eq_ok (h := hm) hcursor
    rw [hl', hm']
    exact .ok ⟨hleft, hright⟩
  · rw [BoundedList.advance_eq_error hcursor, BoundedList.advance_eq_error hcursor]
    exact .error _

/-- Both sides add an operand, or neither has room. -/
theorem push_twins (h : ListTwins P known l m) (op : Operand) :
    Alike (fun l' m' => ListTwins P (known - 1) l' m' ∧ l'.length = l.length + 1)
      (orFault (l.push op)) (orFault (m.push op)) := by
  obtain ⟨used, s, hl⟩ := l
  obtain ⟨used', t, hm⟩ := m
  obtain ⟨rfl, hspare⟩ := h
  cases hspare with
  | nil => exact .error _
  | cons slot rest =>
      apply (advance_alike (x := op) (y := op) hl hm).mono
      rintro l' m' ⟨⟨hused, rfl⟩, hused', rfl⟩
      refine ⟨⟨hused.trans hused'.symm, rest⟩, ?_⟩
      rw [BoundedList.length, hused]
      exact List.length_append

/-- Both sides change the slot at the cursor, or neither has one. -/
theorem modifyActive_twins (h : ListTwins P known l m) {f g : Operand → Operand}
    {known' : Nat} (hmore : known' - 1 = known - 1)
    (hfg : ∀ x y, SlotTwins P known x y → l.active? = some x → m.active? = some y →
      SlotTwins P known' (f x) (g y)) :
    Alike (fun l' m' => ListTwins P known' l' m' ∧ l'.length = l.length)
      (orFault (l.modifyActive f)) (orFault (m.modifyActive g)) := by
  obtain ⟨used, s, hl⟩ := l
  obtain ⟨used', t, hm⟩ := m
  obtain ⟨rfl, hspare⟩ := h
  cases hspare with
  | nil => exact .error _
  | cons slot rest =>
      exact .ok ⟨⟨rfl, .cons (hfg _ _ slot rfl rfl) (hmore ▸ rest)⟩, rfl⟩

/-- Both sides make the slot at the cursor an operand, or neither has one. The operand is
the same on both sides if the slot is known. -/
theorem commit_twins (h : ListTwins P known l m) :
    Alike (fun l' m' => l'.length = l.length + 1 ∧
      ∃ x y, SlotTwins P known x y ∧ l'.toList = l.toList ++ [x] ∧
        m'.toList = m.toList ++ [y] ∧
        (known ≠ 0 → ListTwins P (known - 1) l' m'))
      (orFault l.commit) (orFault m.commit) := by
  obtain ⟨used, s, hl⟩ := l
  obtain ⟨used', t, hm⟩ := m
  obtain ⟨rfl, hspare⟩ := h
  cases hspare with
  | nil => exact .error _
  | cons slot rest =>
      apply (advance_alike hl hm).mono
      rintro l' m' ⟨⟨hused, rfl⟩, hused', rfl⟩
      refine ⟨?_, _, _, slot, hused, hused', fun hknown => ?_⟩
      · rw [BoundedList.length, hused]
        exact List.length_append
      · obtain rfl := slot.same hknown
        exact ⟨hused.trans hused'.symm, rest⟩

/-- The slot of the last operand is known once the cursor has stepped back over it. -/
theorem retract_twins (h : ListTwins P known l m) (hne : l.used ≠ []) :
    ListTwins P (known + 1) l.retract m.retract := by
  obtain ⟨used, s, hl⟩ := l
  obtain ⟨used', t, hm⟩ := m
  obtain ⟨rfl, hspare⟩ := h
  obtain ⟨first, last, rfl⟩ := List.eq_nil_or_concat used |>.resolve_left hne
  refine ⟨rfl, ?_⟩
  simp only [BoundedList.retract, List.concat_eq_append, List.length_append,
    List.length_singleton, Nat.add_sub_cancel, List.drop_left, List.singleton_append]
  exact .cons (.refl last (Nat.succ_ne_zero known)) hspare

/-- The last operand is changed on both sides. -/
theorem modifyLast_twins (h : ListTwins P known l m) (f : Operand → Operand) :
    ListTwins P known (l.modifyLast f) (m.modifyLast f) := by
  refine ⟨?_, h.spare⟩
  simp only [BoundedList.modifyLast, h.used_eq]

end Lists

/-- Two builders that differ at most in the slots from a mark on. -/
structure Twins (P : Int32 → Int32 → Prop) (written : Nat) (b c : Builder) : Prop where
  inst_eq : b.inst = c.inst
  features_eq : b.features = c.features
  memory_eq : b.memory = c.memory
  marks_eq : b.record.marks = c.record.marks
  count_le : b.count ≤ written
  slots : ListTwins P (written - b.count) b.record.operands c.record.operands

/-- What holds of two builders after an action that neither opens nor closes a memory
operand. -/
structure Settled (P : Int32 → Int32 → Prop) (written : Nat) (before b c : Builder) : Prop
    extends Twins P (max written b.count) b c where
  keeps_memory : b.memory = before.memory

/-- The last operand was a slot with contents that are not known. -/
def Exposed (P : Int32 → Int32 → Prop) (b c : Builder) : Prop :=
  ∃ first x y, P x.vectorIndex y.vectorIndex ∧
    b.record.operands.toList = first ++ [x] ∧ c.record.operands.toList = first ++ [y]

section Operations
variable {P : Int32 → Int32 → Prop} {written : Nat} {b c : Builder}

theorem Twins.operands_eq (h : Twins P written b c) :
    b.record.operands.toList = c.record.operands.toList := h.slots.used_eq

theorem Twins.count_eq (h : Twins P written b c) : b.count = c.count :=
  congrArg List.length h.operands_eq

theorem Twins.isEmpty_eq (h : Twins P written b c) :
    b.record.operands.isEmpty = c.record.operands.isEmpty :=
  congrArg List.isEmpty h.operands_eq

theorem Twins.snapshot_eq (h : Twins P written b c) : b.snapshot = c.snapshot := by
  rw [Builder.snapshot, Builder.snapshot, h.operands_eq, h.marks_eq, h.memory_eq]

/-- Going on with other operands. -/
theorem Twins.withOperands (h : Twins P written b c)
    {l m : BoundedList Operand maxOperands} {written' : Nat} (hle : l.length ≤ written')
    (hslots : ListTwins P (written' - l.length) l m) :
    Twins P written' (b.withOperands l) (c.withOperands m) :=
  ⟨h.inst_eq, h.features_eq, h.memory_eq, h.marks_eq, hle, hslots⟩

/-- With as many operands as before the mark stays. -/
theorem Twins.settled (h : Twins P written b c) {before : Builder}
    (hmemory : b.memory = before.memory) : Settled P written before b c := by
  refine ⟨?_, hmemory⟩
  rw [Nat.max_eq_left h.count_le]
  exact h

theorem Settled.trans {b₁ c₁ b₂ c₂ : Builder} (h₁ : Settled P written b b₁ c₁)
    (h₂ : Settled P (max written b₁.count) b₁ b₂ c₂) (hle : b₁.count ≤ b₂.count) :
    Settled P written b b₂ c₂ := by
  refine ⟨?_, h₂.keeps_memory.trans h₁.keeps_memory⟩
  have hmark : max written b₂.count = max (max written b₁.count) b₂.count := by omega
  rw [hmark]
  exact h₂.toTwins

/-- The fields beside the operands are changed on both sides. -/
theorem update_twins (h : Twins P written b c) {f : Record → Record}
    (hmarks : (f b.record).marks = (f c.record).marks)
    (hb : (f b.record).operands = b.record.operands)
    (hc : (f c.record).operands = c.record.operands) :
    Settled P written b (b.update f) (c.update f) := by
  have htwins : Twins P written (b.update f) (c.update f) := by
    refine ⟨h.inst_eq, h.features_eq, h.memory_eq, hmarks, ?_, ?_⟩
    · change (f b.record).operands.length ≤ written
      rw [hb]
      exact h.count_le
    · change ListTwins P (written - (f b.record).operands.length) (f b.record).operands
        (f c.record).operands
      rw [hb, hc]
      exact h.slots
  exact htwins.settled rfl

theorem append_twins (h : Twins P written b c) (op : Operand) :
    Alike (fun b' c' => Settled P written b b' c' ∧ b.count ≤ b'.count)
      (b.append op) (c.append op) := by
  apply (push_twins h.slots op).bind
  rintro l m ⟨hslots, hlength⟩
  have hcount : b.count = b.record.operands.length := rfl
  have hknown : max written l.length - l.length = written - b.count - 1 := by omega
  refine .ok ⟨⟨h.withOperands (Nat.le_max_right _ _) ?_, rfl⟩, ?_⟩
  · change ListTwins P (max written l.length - l.length) l m
    rw [hknown]
    exact hslots
  · change b.count ≤ l.length
    omega

/-- Both sides add the same operands in order up to the same fault. -/
theorem appendAll_twins (h : Twins P written b c) (ops : List (Except Fault Operand)) :
    Alike (Settled P written b) (b.appendAll ops) (c.appendAll ops) := by
  have hall : Alike (fun b' c' => Settled P written b b' c' ∧ b.count ≤ b'.count)
      (b.appendAll ops) (c.appendAll ops) := by
    induction ops generalizing b c written with
    | nil => exact .ok ⟨h.settled rfl, Nat.le_refl _⟩
    | cons op rest ih =>
        simp only [Builder.appendAll, List.foldlM_cons, bind_assoc]
        apply Alike.bind_same
        intro op _
        apply (append_twins h op).bind
        rintro b₁ c₁ ⟨h₁, hle₁⟩
        apply (ih h₁.toTwins).mono
        rintro b₂ c₂ ⟨h₂, hle₂⟩
        exact ⟨h₁.trans h₂ hle₂, Nat.le_trans hle₁ hle₂⟩
  exact hall.mono fun _ _ h' => h'.1

/-- Both sides change the slot at the cursor. -/
theorem modifyOpen_twins (h : Twins P written b c) {f g : Operand → Operand}
    (hfg : ∀ x y, SlotTwins P (written - b.count) x y →
      b.record.operands.active? = some x → c.record.operands.active? = some y →
      SlotTwins P (written - b.count) (f x) (g y)) :
    Alike (fun b' c' => Twins P written b' c' ∧ b'.memory = b.memory ∧ b'.count = b.count)
      (b.modifyOpen f) (c.modifyOpen g) := by
  apply (modifyActive_twins h.slots rfl hfg).bind
  rintro l m ⟨hslots, hlength⟩
  refine .ok ⟨h.withOperands ?_ ?_, rfl, hlength⟩
  · rw [hlength]
    exact h.count_le
  · rw [hlength]
    exact hslots

/-- The slot at the cursor is changed in the same way on both sides. -/
theorem editOpen_twins (h : Twins P written b c) (f : Operand → Operand)
    (hf : ∀ op, (f op).vectorIndex = op.vectorIndex) :
    Alike (Settled P written b) (b.modifyOpen f) (c.modifyOpen f) := by
  apply (modifyOpen_twins h fun _ _ hslot _ _ => hslot.map f hf).mono
  rintro b' c' ⟨h', hmemory, -⟩
  exact h'.settled hmemory

/-- Both sides open a memory operand in a slot that is known from now on. -/
theorem openMemory_twins (h : Twins P written b c) :
    Alike (fun b' c' => Twins P (max written (b.count + 1)) b' c' ∧
      b.memory = .idle ∧ b'.memory = .building ∧ b'.count = b.count)
      b.openMemory c.openMemory := by
  have hdescribe : c.describe c.count = b.describe b.count := by
    rw [Builder.describe, Builder.describe, h.inst_eq, h.count_eq]
  simp only [Builder.openMemory, hdescribe, ← h.memory_eq]
  cases hmemory : b.memory with
  | building =>
      rw [h.inst_eq]
      exact .error _
  | idle =>
      simp only [reduceCtorEq, if_false]
      apply Alike.bind_same
      intro declared _
      have hcount : b.count = b.record.operands.length := rfl
      have hle := h.count_le
      have hknown : max written (b.count + 1) - b.count - 1 = written - b.count - 1 := by omega
      apply (modifyActive_twins h.slots hknown ?_).bind
      · rintro l m ⟨hslots, hlength⟩
        refine .ok ⟨⟨h.inst_eq, h.features_eq, rfl, h.marks_eq, ?_, ?_⟩, trivial, rfl, hlength⟩
        · change l.length ≤ _
          omega
        · change ListTwins P (_ - l.length) l m
          rw [hlength]
          exact hslots
      · intro _ _ _ _ _
        exact .refl _ (by omega)

/-- Both sides make the slot at the cursor an operand. It is the same one if the slot is
below the mark. -/
theorem closeMemory_twins (h : Twins P written b c) :
    Alike (fun b' c' => (b.memory = .building ∧ b'.memory = .idle ∧ b'.count = b.count + 1) ∧
      (b.count < written → Twins P written b' c') ∧ (written ≤ b.count → Exposed P b' c'))
      b.closeMemory c.closeMemory := by
  simp only [Builder.closeMemory, ← h.memory_eq]
  cases hmemory : b.memory with
  | idle =>
      rw [h.inst_eq]
      exact .error _
  | building =>
      simp only [reduceCtorEq, if_false]
      apply (commit_twins h.slots).bind
      rintro l m ⟨hlength, x, y, hslot, hx, hy, hslots⟩
      have hcount : b.count = b.record.operands.length := rfl
      refine .ok ⟨⟨trivial, rfl, hlength⟩, fun hbelow => ?_, fun hbeyond => ?_⟩
      · have hknown : written - l.length = written - b.count - 1 := by omega
        refine ⟨h.inst_eq, h.features_eq, rfl, h.marks_eq, ?_, ?_⟩
        · change l.length ≤ written
          omega
        · change ListTwins P (written - l.length) l m
          rw [hknown]
          exact hslots (by omega)
      · refine ⟨b.record.operands.toList, x, y, hslot.other (by omega), hx, ?_⟩
        rw [h.operands_eq]
        exact hy

/-- A part of a memory operand is read in the same way, whatever the slot held before. -/
theorem memoryPart_twins {known : Nat} {x y : Operand} (h : SlotTwins P known x y)
    (inst : RawInst) (slot : Nat) (isBase : Bool) (resolve : UInt64 → UInt64) :
    Alike (SlotTwins P known) (memoryPart inst slot isBase resolve x)
      (memoryPart inst slot isBase resolve y) := by
  simp only [memoryPart]
  apply Alike.bind_same
  intro declared _
  have hstore (change : Memory → Memory) := h.map (fun op =>
    { op with value := .mem (change op.memory), access := declared.access, subtracted := false })
    fun _ => rfl
  split
  · apply Alike.bind_same
    intro raw _
    let reg : Register := ⟨(resolve raw.toUInt64).toUInt16⟩
    exact .ok (hstore fun m => if isBase then { m with base := reg } else { m with index := reg })
  · split
    · apply Alike.bind_same
      intro raw _
      let disp := (resolve raw.toUInt64).toUInt32.toInt32
      exact .ok (hstore ({ · with disp }))
    · exact .error _

/-- Both sides store a part of the open memory operand. -/
theorem setMemory_twins (h : Twins P written b c) (slot : Nat) (isBase : Bool)
    (resolve : UInt64 → UInt64) :
    Alike (fun b' c' => Twins P written b' c' ∧ b'.memory = b.memory ∧ b'.count = b.count)
      (b.setMemory slot isBase resolve) (c.setMemory slot isBase resolve) := by
  rcases h.slots.active with ⟨hx, hy⟩ | ⟨x, y, hx, hy, hslot⟩
  · simp only [Builder.setMemory, Builder.describe, Builder.openOperand, hx, hy, h.inst_eq]
    exact .bind_same _ fun declared _ => .error _
  · rw [b.setMemory_eq hx, c.setMemory_eq hy, h.inst_eq]
    apply (memoryPart_twins hslot c.inst slot isBase resolve).bind
    intro x' y' hslot'
    exact modifyOpen_twins h fun _ _ _ _ _ => hslot'

/-- Both sides take the last operand back and give it a lane. -/
theorem setLane_twins (h : Twins P written b c) (slot : Nat) :
    Alike (Settled P written b) (b.setLane slot) (c.setLane slot) := by
  change Alike _ (readImm b.inst slot >>= _) (readImm c.inst slot >>= _)
  rw [h.inst_eq]
  apply Alike.bind_same
  intro lane _
  rw [h.isEmpty_eq]
  split
  · simp only [Builder.violate, h.inst_eq]
    exact .error _
  next hfull =>
      have hne : b.record.operands.used ≠ [] := by
        rintro hnil
        rw [← h.isEmpty_eq, BoundedList.isEmpty, hnil] at hfull
        exact hfull rfl
      have hpos := List.length_pos_iff.mpr hne
      have hlength : b.record.operands.retract.length = b.record.operands.used.length - 1 :=
        List.length_dropLast
      have hcount : b.count = b.record.operands.used.length := rfl
      have hle := h.count_le
      have hknown : written - b.record.operands.retract.length = written - b.count + 1 := by
        omega
      have hback : Twins P written (b.withOperands b.record.operands.retract)
          (c.withOperands c.record.operands.retract) := by
        apply h.withOperands
        · omega
        · rw [hknown]
          exact retract_twins h.slots hne
      apply (editOpen_twins hback ({ · with neonLane := lane.toInt8 }) fun _ => rfl).mono
      intro b' c' h'
      exact ⟨h'.toTwins, h'.keeps_memory⟩

/-- Both sides attach the same shift to the open operand or to the last one. -/
theorem attachShift_twins (h : Twins P written b c) (code : UInt8) (imm : UInt32) :
    Alike (Settled P written b) (b.attachShift code imm) (c.attachShift code imm) := by
  rw [b.attachShift_eq, c.attachShift_eq, h.inst_eq]
  apply Alike.bind_same
  intro kind? _
  cases kind? with
  | none => exact .ok (h.settled rfl)
  | some kind =>
      simp only [← h.memory_eq, h.isEmpty_eq, Builder.violate, h.inst_eq]
      split
      · exact editOpen_twins h (·.shifted kind imm) fun _ => rfl
      · split
        · exact .error _
        · have hlength : (b.record.operands.modifyLast (·.shifted kind imm)).length = b.count :=
            List.length_modify _ _ _
          have hlast := h.withOperands (hlength ▸ h.count_le)
            (hlength ▸ modifyLast_twins h.slots (·.shifted kind imm))
          exact .ok (hlast.settled rfl)

/-- Both sides add the operands of a group or fail at the same one. -/
theorem adds_twins (h : Twins P written b c)
    (source : Except Fault (List (Except Fault Operand))) :
    Alike (Settled P written b) (source >>= b.appendAll) (source >>= c.appendAll) :=
  .bind_same source fun ops _ => appendAll_twins h ops

/-- Both sides add the immediate in a slot. -/
theorem appendImm_twins (h : Twins P written b c) (slot : Nat) (kind : Int64 → OperandValue)
    (resolve : UInt64 → UInt64) :
    Alike (Settled P written b) (b.appendImm slot kind resolve)
      (c.appendImm slot kind resolve) := by
  rw [b.appendImm_eq, c.appendImm_eq, h.inst_eq]
  exact .bind_same _ fun op _ => (append_twins h op).mono fun _ _ h' => h'.1

/-- Both sides classify a raw operand by its declared type. -/
theorem classifyGeneric_twins (h : Twins P written b c) (slot : Nat) :
    Alike (Settled P written b) (b.classifyGeneric slot) (c.classifyGeneric slot) := by
  cases hmemory : b.memory with
  | idle =>
      rw [b.classifyGeneric_idle hmemory, c.classifyGeneric_idle (h.memory_eq ▸ hmemory),
        h.inst_eq, h.features_eq]
      exact adds_twins h _
  | building =>
      simp only [Builder.classifyGeneric, Builder.describe, ← h.memory_eq, hmemory, if_true,
        h.inst_eq]
      apply Alike.bind_same
      intro declared _
      have hstore (isBase : Bool) : Alike (Settled P written b)
          (b.setMemory slot isBase id) (c.setMemory slot isBase id) := by
        apply (setMemory_twins h slot isBase id).mono
        rintro b' c' ⟨h', hkeeps, -⟩
        exact h'.settled hkeeps
      cases declared.type with
      | imm | memImm | reg | memReg | memIndexReg => exact hstore _
      | pred => exact appendImm_twins h slot .pred id
      | undeclared =>
          simp only [Builder.violate, h.inst_eq]
          exact .error _

/-- An address that is opened, filled and closed at once is added like any operand. -/
theorem address_twins (h : Twins P written b c) (fill : Builder → Except Fault Builder)
    (hfill : ∀ {written b c}, Twins P written b c →
      Alike (fun b' c' => Twins P written b' c' ∧ b'.memory = b.memory ∧ b'.count = b.count)
        (fill b) (fill c)) :
    Alike (Settled P written b) (b.openMemory >>= fun b => fill b >>= Builder.closeMemory)
      (c.openMemory >>= fun c => fill c >>= Builder.closeMemory) := by
  apply (openMemory_twins h).bind
  rintro b₁ c₁ ⟨h₁, hidle, -, hcount₁⟩
  apply (hfill h₁).bind
  rintro b₂ c₂ ⟨h₂, -, hcount₂⟩
  apply (closeMemory_twins h₂).mono
  rintro b₃ c₃ ⟨⟨-, hidle₃, hcount₃⟩, hbelow, -⟩
  have hmark : max written b₃.count = max written (b.count + 1) := by omega
  refine ⟨?_, hidle₃.trans hidle.symm⟩
  rw [hmark]
  exact hbelow (by omega)

/-- Both sides carry out a group in the same way. -/
theorem classifyGroup_twins (h : Twins P written b c) (group : OperandGroup) (slot : Nat) :
    Alike (Settled P written b) (b.classifyGroup group slot) (c.classifyGroup group slot) := by
  cases group with
  | predicate kind =>
      simp only [Builder.classifyGroup, Builder.setCondition_eq, h.inst_eq]
      exact .bind_same _ fun cc _ =>
        .ok (update_twins h (congrArg ({ · with cc }) h.marks_eq) rfl rfl)
  | vectorPredicate =>
      simp only [Builder.classifyGroup, Builder.setVectorPredicate_eq, h.inst_eq]
      exact .bind_same _ fun vcc _ =>
        .ok (update_twins h (congrArg ({ · with vcc }) h.marks_eq) rfl rfl)
  | itMask =>
      simp only [Builder.classifyGroup, Builder.setItLayout_eq, h.inst_eq]
      exact .bind_same _ fun itLayout _ =>
        .ok (update_twins h (congrArg ({ · with itLayout }) h.marks_eq) rfl rfl)
  | flagSetter =>
      change Alike _ (readReg b.inst slot >>= _) (readReg c.inst slot >>= _)
      rw [h.inst_eq]
      apply Alike.bind_same
      intro raw _
      split
      · exact .ok (h.settled rfl)
      · exact .ok (update_twins h (congrArg ({ · with updateFlags := true }) h.marks_eq) rfl rfl)
  | generic => exact classifyGeneric_twins h slot
  | bareImmediate =>
      simp only [Builder.classifyGroup, ← h.memory_eq]
      split
      · exact setLane_twins h slot
      · exact appendImm_twins h slot .imm id
  | alignedAddress =>
      have haddress := address_twins h
        (fun b => b.setMemory slot true id >>= (·.setMemory (slot + 1) false alignmentBits)) ?_
      · simp only [bind_assoc] at haddress
        exact haddress
      · intro written b c h
        apply (setMemory_twins h slot true id).bind
        rintro b₁ c₁ ⟨h₁, hmemory₁, hcount₁⟩
        apply (setMemory_twins h₁ (slot + 1) false alignmentBits).mono
        rintro b₂ c₂ ⟨h₂, hmemory₂, hcount₂⟩
        exact ⟨h₂, hmemory₂.trans hmemory₁, hcount₂.trans hcount₁⟩
  | baseAddress =>
      exact address_twins h (·.setMemory slot true id) fun h' => setMemory_twins h' slot true id
  | coprocessor | coprocessorRegister | alignedOffset | vectorList size | registerList
  | statusMask | unmapped g =>
      rw [Builder.classifyGroup_eq b rfl, Builder.classifyGroup_eq c rfl, h.inst_eq, h.features_eq]
      exact adds_twins h _

end Operations

end Disassembly.Arm
