import Disassembly.Proofs.Arm.SlotTwins

/-!
# Slots past the operands

A builder keeps old contents in the slots past the operands of its record. A memory operand
is closed by making the slot at the cursor an operand, and an operand that is added while
it is open moves the cursor to a slot that the builder may never have written. The old
contents show in a run exactly when such a slot is closed over.
-/

namespace Disassembly.Arm

namespace Builder

/-- The mark below which a builder has written every slot, after an action. A memory operand
is opened by writing the slot at the cursor. -/
def mark (written : Nat) (before after : Builder) : Nat :=
  if before.memory = .idle ∧ after.memory = .building then max written (after.count + 1)
  else max written after.count

/-- An action closed a memory operand over a slot that is not below the mark. -/
def Exposes (written : Nat) (before after : Builder) : Prop :=
  before.memory = .building ∧ after.memory = .idle ∧ written ≤ before.count

instance (written : Nat) (before after : Builder) : Decidable (Exposes written before after) :=
  inferInstanceAs (Decidable (_ ∧ _ ∧ _))

/-- A run closes memory operands only over slots that the builder has written. -/
def ClosesWritten (written : Nat) (b : Builder) : List Action → Prop
  | [] => True
  | a :: rest =>
      match b.act a with
      | .ok next => ¬ Exposes written b next ∧ next.ClosesWritten (mark written b next) rest
      | .error _ => True

instance decidableClosesWritten (written : Nat) : (b : Builder) → (actions : List Action) →
    Decidable (b.ClosesWritten written actions)
  | _, [] => .isTrue trivial
  | b, a :: rest =>
      match hact : b.act a with
      | .ok next =>
          have := decidableClosesWritten (mark written b next) next rest
          decidable_of_iff
            (¬ Exposes written b next ∧ next.ClosesWritten (mark written b next) rest)
            (by simp only [ClosesWritten, hact])
      | .error _ => .isTrue (by simp only [ClosesWritten, hact])

end Builder

/-- What holds of two builders after an action of both. -/
structure Advanced (P : Int32 → Int32 → Prop) (written : Nat) (before b c : Builder) :
    Prop where
  twins : ¬ Builder.Exposes written before b → Twins P (Builder.mark written before b) b c
  exposed : Builder.Exposes written before b → Exposed P b c

section Runs
variable {P : Int32 → Int32 → Prop} {written : Nat} {b c : Builder}

theorem Settled.advanced {before : Builder} (h : Settled P written before b c) :
    Advanced P written before b c := by
  have hmemory := h.keeps_memory
  refine ⟨fun _ => ?_, ?_⟩
  · have hmark : Builder.mark written before b = max written b.count := by
      refine if_neg ?_
      rintro ⟨hidle, hbuilding⟩
      rw [hmemory, hidle] at hbuilding
      cases hbuilding
    rw [hmark]
    exact h.toTwins
  · rintro ⟨hbuilding, hidle, -⟩
    rw [hmemory, hbuilding] at hidle
    cases hidle

theorem act_twins (h : Twins P written b c) (a : Action) :
    Alike (Advanced P written b) (b.act a) (c.act a) := by
  cases a with
  | shift code imm => exact (attachShift_twins h code imm).mono fun _ _ h' => h'.advanced
  | step s =>
      cases s with
      | classify group slot =>
          exact (classifyGroup_twins h group slot).mono fun _ _ h' => h'.advanced
      | shiftLeft slot =>
          change Alike _ (readImm b.inst slot >>= _) (readImm c.inst slot >>= _)
          rw [h.inst_eq]
          apply Alike.bind_same
          intro raw _
          exact (attachShift_twins h 2 raw.toUInt64.toUInt32).mono fun _ _ h' => h'.advanced
      | packedShift slot =>
          change Alike _ (readImm b.inst slot >>= _) (readImm c.inst slot >>= _)
          rw [h.inst_eq]
          apply Alike.bind_same
          intro raw _
          let imm := raw.toUInt64.toUInt32
          exact (attachShift_twins h (imm &&& 7).toUInt8 (imm >>> 3)).mono
            fun _ _ h' => h'.advanced
      | openMemory =>
          apply (openMemory_twins h).mono
          rintro b' c' ⟨h', hidle, hbuilding, hcount⟩
          refine ⟨fun _ => ?_, ?_⟩
          · rw [Builder.mark, if_pos ⟨hidle, hbuilding⟩, hcount]
            exact h'
          · rintro ⟨hbuilding', -⟩
            rw [hidle] at hbuilding'
            cases hbuilding'
      | closeMemory =>
          apply (closeMemory_twins h).mono
          rintro b' c' ⟨⟨hbuilding, hidle, hcount⟩, hbelow, hbeyond⟩
          refine ⟨fun hhidden => ?_, fun ⟨_, _, hle⟩ => hbeyond hle⟩
          have hlt : b.count < written :=
            Nat.lt_of_not_le fun hle => hhidden ⟨hbuilding, hidle, hle⟩
          have hmark : Builder.mark written b b' = written := by
            rw [Builder.mark, if_neg (fun h => by rw [hbuilding] at h; cases h.1)]
            omega
          rw [hmark]
          exact hbelow hlt
      | writeback =>
          have hmarks := congrArg (fun m : Marks => { m with writeback := true }) h.marks_eq
          exact .ok (update_twins h hmarks rfl rfl).advanced

/-- A run that closes over a slot with different contents shows them. -/
theorem closesWritten_of_trace_eq (h : Twins (· ≠ ·) written b c) (actions : List Action)
    (htrace : (trace Builder.act b actions).map (·.map Builder.snapshot) id =
      (trace Builder.act c actions).map (·.map Builder.snapshot) id) :
    b.ClosesWritten written actions := by
  induction actions generalizing b c written with
  | nil => trivial
  | cons a rest ih =>
      have halike := act_twins h a
      simp only [trace, Builder.ClosesWritten] at htrace ⊢
      generalize b.act a = x at halike htrace ⊢
      generalize c.act a = y at halike htrace
      cases halike with
      | error fault => trivial
      | @ok next next' related =>
          simp only [Prod.map, Prod.mk.injEq, id_eq, List.map_cons, List.cons.injEq] at htrace
          obtain ⟨⟨hfirst, hrest⟩, hfault⟩ := htrace
          have hhidden : ¬ Builder.Exposes written b next := by
            intro hexposes
            obtain ⟨first, x, y, hne, hx, hy⟩ := related.exposed hexposes
            have hoperands : next.record.operands.toList = next'.record.operands.toList :=
              congrArg Snapshot.operands hfirst
            rw [hx, hy] at hoperands
            have hsame := (List.append_inj_right' hoperands rfl)
            cases hsame
            exact hne rfl
          exact ⟨hhidden, ih (related.twins hhidden) (Prod.ext hrest hfault)⟩

end Runs

/-- A call of a builder. -/
inductive Call where
  | openMemory
  | closeMemory
  | setWriteback
  | classify (request : Request)
  | run (steps : List Step)
deriving DecidableEq, Repr

namespace Call

/-- The units of work of a call. -/
def actions : Call → List Action
  | .openMemory => [.step .openMemory]
  | .closeMemory => [.step .closeMemory]
  | .setWriteback => [.step .writeback]
  | .classify (.operand group slot) => [.step (.classify group slot)]
  | .classify (.shift code imm) => [.shift code imm]
  | .run steps => steps.map .step

end Call

/-- Carry out a call. -/
def Builder.call (b : Builder) : Call → Except Fault Builder
  | .openMemory => b.openMemory
  | .closeMemory => b.closeMemory
  | .setWriteback => .ok b.setWriteback
  | .classify request => b.classify request
  | .run steps => b.run steps

theorem Builder.call_eq (b : Builder) (call : Call) :
    b.call call = call.actions.foldlM Builder.act b := by
  cases call with
  | run steps =>
      simp only [Builder.call, Call.actions, List.foldlM_map]
      rfl
  | classify request =>
      cases request <;>
        simp only [Call.actions, List.foldlM_cons, List.foldlM_nil, bind_pure] <;> rfl
  | openMemory | closeMemory | setWriteback =>
      simp only [Call.actions, List.foldlM_cons, List.foldlM_nil, bind_pure]
      rfl

section Calls
variable {P : Int32 → Int32 → Prop} {written : Nat} {b c : Builder}

/-- The first part of a run that closes only over written slots keeps two builders apart by
other slots only, and so does the rest. -/
theorem actions_twins (h : Twins P written b c) (actions rest : List Action)
    (hcloses : b.ClosesWritten written (actions ++ rest)) :
    Alike (fun b' c' => ∃ written', Twins P written' b' c' ∧ b'.ClosesWritten written' rest)
      (actions.foldlM Builder.act b) (actions.foldlM Builder.act c) := by
  induction actions generalizing b c written with
  | nil => exact .ok ⟨written, h, hcloses⟩
  | cons a actions ih =>
      have halike := act_twins h a
      simp only [List.foldlM_cons]
      simp only [List.cons_append, Builder.ClosesWritten] at hcloses
      generalize b.act a = x at halike hcloses ⊢
      generalize c.act a = y at halike ⊢
      cases halike with
      | error fault => exact .error fault
      | ok related => exact ih (related.twins hcloses.1) hcloses.2

/-- Runs that close only over written slots show the same. -/
theorem trace_twins (h : Twins P written b c) (actions : List Action)
    (hcloses : b.ClosesWritten written actions) :
    (trace Builder.act b actions).map (·.map Builder.snapshot) id =
      (trace Builder.act c actions).map (·.map Builder.snapshot) id := by
  apply Alike.trace_eq (Q := fun b c actions => ∃ written,
    Twins P written b c ∧ b.ClosesWritten written actions) ?_ _ ⟨written, h, hcloses⟩
  rintro b c a rest ⟨written, h, hcloses⟩
  have halike := actions_twins h [a] rest hcloses
  simp only [List.foldlM_cons, List.foldlM_nil, bind_pure] at halike
  exact halike.mono fun _ _ ⟨written', h', hrest⟩ => ⟨h'.snapshot_eq, written', h', hrest⟩

/-- So do calls. -/
theorem calls_twins (h : Twins P written b c) (calls : List Call)
    (hcloses : b.ClosesWritten written (calls.flatMap Call.actions)) :
    (trace Builder.call b calls).map (·.map Builder.snapshot) id =
      (trace Builder.call c calls).map (·.map Builder.snapshot) id := by
  apply Alike.trace_eq (Q := fun b c calls => ∃ written,
    Twins P written b c ∧ b.ClosesWritten written (calls.flatMap Call.actions)) ?_ _
    ⟨written, h, hcloses⟩
  rintro b c call rest ⟨written, h, hcloses⟩
  rw [List.flatMap_cons] at hcloses
  rw [Builder.call_eq, Builder.call_eq]
  exact (actions_twins h call.actions _ hcloses).mono
    fun _ _ ⟨written', h', hrest⟩ => ⟨h'.snapshot_eq, written', h', hrest⟩

end Calls

section Records
variable {record other : Record}

theorem spareTwins_of_length {s t : List Operand} (h : s.length = t.length) :
    SpareTwins (fun _ _ => True) 0 s t := by
  induction s generalizing t with
  | nil =>
      obtain rfl := List.length_eq_zero_iff.mp h.symm
      exact .nil
  | cons x s ih =>
      obtain ⟨y, t, rfl⟩ := List.exists_cons_of_length_eq_add_one h.symm
      exact .cons ⟨fun h => absurd rfl h, fun _ => trivial⟩ (ih (Nat.succ.inj h))

/-- Builders on records with the same operands and fields start as twins. -/
theorem twins_new (inst : RawInst) (features : Features)
    (hoperands : other.operands.toList = record.operands.toList)
    (hmarks : other.marks = record.marks) :
    Twins (fun _ _ => True) record.operands.length (Builder.new inst record features)
      (Builder.new inst other features) := by
  refine ⟨rfl, rfl, rfl, hmarks.symm, Nat.le_refl _, hoperands.symm, ?_⟩
  have hlength := congrArg List.length hoperands
  have hrecord := record.operands.length_eq
  have hother := other.operands.length_eq
  change SpareTwins _ (record.operands.length - record.operands.length) _ _
  rw [Nat.sub_self]
  apply spareTwins_of_length
  simp only [BoundedList.toList] at hlength
  change record.operands.spare.length = other.operands.spare.length
  omega

/-- An operand with another vector index. -/
def Operand.stirred (op : Operand) : Operand :=
  { op with vectorIndex := if op.vectorIndex = 0 then 1 else 0 }

/-- A record with other contents in every slot past the operands. -/
def Record.stirred (record : Record) : Record :=
  { record with operands := ⟨record.operands.used, record.operands.spare.map Operand.stirred, by
      rw [List.length_map]
      exact record.operands.length_eq, record.operands.cursor_le⟩ }

theorem Operand.stirred_ne (op : Operand) : op.vectorIndex ≠ op.stirred.vectorIndex := by
  simp only [Operand.stirred]
  split
  next hzero => simp [hzero]
  next hne => exact hne

theorem spareTwins_stirred (s : List Operand) :
    SpareTwins (· ≠ ·) 0 s (s.map Operand.stirred) := by
  induction s with
  | nil => exact .nil
  | cons op rest ih => exact .cons ⟨fun h => absurd rfl h, fun _ => op.stirred_ne⟩ ih

theorem twins_stirred (inst : RawInst) (features : Features) (record : Record) :
    Twins (· ≠ ·) record.operands.length (Builder.new inst record features)
      (Builder.new inst record.stirred features) := by
  refine ⟨rfl, rfl, rfl, rfl, Nat.le_refl _, rfl, ?_⟩
  change SpareTwins _ (record.operands.length - record.operands.length) _ _
  rw [Nat.sub_self]
  exact spareTwins_stirred record.operands.spare

end Records

/-- What a record holds past its operands does not show in calls that close memory operands
only over slots that the builder has written. It does show in any run of steps and shifts
that closes over another slot. -/
theorem spare_slots_hidden_iff (inst : RawInst) (features : Features) (record : Record) :
    (∀ (calls : List Call) (other : Record),
      other.operands.toList = record.operands.toList → other.marks = record.marks →
      (Builder.new inst record features).ClosesWritten record.operands.length
        (calls.flatMap Call.actions) →
      (trace Builder.call (Builder.new inst record features) calls).map
          (·.map Builder.snapshot) id =
        (trace Builder.call (Builder.new inst other features) calls).map
          (·.map Builder.snapshot) id) ∧
    ∀ actions : List Action,
      (∀ other : Record,
        other.operands.toList = record.operands.toList → other.marks = record.marks →
        (trace Builder.act (Builder.new inst record features) actions).map
            (·.map Builder.snapshot) id =
          (trace Builder.act (Builder.new inst other features) actions).map
            (·.map Builder.snapshot) id) ↔
      (Builder.new inst record features).ClosesWritten record.operands.length actions := by
  constructor
  · intro calls other hoperands hmarks hcloses
    exact calls_twins (twins_new inst features hoperands hmarks) calls hcloses
  · intro actions
    constructor
    · intro hhidden
      have hstirred := hhidden record.stirred rfl rfl
      exact closesWritten_of_trace_eq (twins_stirred inst features record) actions hstirred
    · intro hcloses other hoperands hmarks
      exact trace_twins (twins_new inst features hoperands hmarks) actions hcloses

/-- A load of a half word: the register, the base, the offset, and a condition with its
register. -/
def halfwordLoad : RawInst where
  opcode := Opcode.tLdrhi.word
  operands := ⟨[.reg 71, .reg 73, .imm 62, .imm 14, .reg 0], List.replicate 43 .invalid, rfl, by decide⟩
  address := 0x1000
  mode := .thumb

/-- An immediate is added inside of a memory operand and taken back before it is closed. -/
def foldingCalls : List Call :=
  [.openMemory, .classify (.operand .coprocessor 2), .classify (.operand .bareImmediate 2),
    .run [.closeMemory, .writeback]]

/-- An immediate is added inside of a memory operand, which is then closed. -/
def exposingCalls : List Call :=
  [.openMemory, .classify (.operand .coprocessor 2), .closeMemory]

theorem foldingCalls_hidden :
    ¬ (Builder.new halfwordLoad usedRecord .all).Orderly (foldingCalls.flatMap Call.actions) ∧
    (Builder.new halfwordLoad usedRecord .all).ClosesWritten usedRecord.operands.length
      (foldingCalls.flatMap Call.actions) ∧
    (trace Builder.call (Builder.new halfwordLoad usedRecord .all) foldingCalls).map
        (·.map Builder.snapshot) id =
      (trace Builder.call (Builder.new halfwordLoad usedRecord.stirred .all) foldingCalls).map
        (·.map Builder.snapshot) id := by
  have hcloses : (Builder.new halfwordLoad usedRecord .all).ClosesWritten
      usedRecord.operands.length (foldingCalls.flatMap Call.actions) := by
    decide
  obtain ⟨hhidden, -⟩ := spare_slots_hidden_iff halfwordLoad .all usedRecord
  exact ⟨by decide, hcloses, hhidden foldingCalls usedRecord.stirred rfl rfl hcloses⟩

/-- A record without operands whose slots hold an old memory operand. -/
def staleRecord : Record where
  operands := ⟨[], List.replicate 36 { value := .mem { base := ⟨73⟩ }, access := .read }, rfl, by decide⟩

/-- On an empty record and on one that has only old contents the same calls end with
different operands. -/
theorem exposingCalls_show :
    staleRecord.operands.toList = ({} : Record).operands.toList ∧
    staleRecord.marks = ({} : Record).marks ∧
    ∃ b c, exposingCalls.foldlM Builder.call (Builder.new halfwordLoad {} .all) = .ok b ∧
      exposingCalls.foldlM Builder.call (Builder.new halfwordLoad staleRecord .all) = .ok c ∧
      b.record.operands.toList ≠ c.record.operands.toList := by
  refine ⟨rfl, rfl, _, _, rfl, rfl, ?_⟩
  decide

end Disassembly.Arm
