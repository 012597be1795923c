import Disassembly.Proofs.Arm.ReadingEnds

/-!
# Runs of a walk

A walk is followed on a draft. Each step accepts what it reads and leaves as many
operands as the steps so far add, or fails for the reason that it has; so does the
whole walk.

## Implementation notes

The number of operands is known before the run. The slots of a record run out only
when the whole walk adds too many operands, so no count of the operands that are
really there has to be part of the reason for a failure.

-/

namespace Disassembly.Arm

/-- A draft after `n` operands, of which an operand taken back is one. -/
structure Draft.At (p : Opening) (n : Nat) (d : Draft) : Prop where
  opened : d.opened.isSome = true ↔ p ≠ .closed
  count : d.committed.length + (if p = .folded then 1 else 0) = n
  le : n ≤ maxOperands

/-- The groups that add operands to a draft with nothing open. -/
def OperandGroup.adds : OperandGroup → Bool
  | .generic | .coprocessor | .coprocessorRegister | .alignedOffset | .vectorList _
  | .bareImmediate | .registerList | .statusMask | .unmapped _ => true
  | .predicate _ | .vectorPredicate | .flagSetter | .itMask | .alignedAddress
  | .baseAddress => false

namespace Draft

variable {p : Opening} {n : Nat} {d : Draft}

theorem At.eq_none (h : d.At .closed n) : d.opened = none := by
  have hopened := h.opened
  cases ho : d.opened with
  | none => rfl
  | some op =>
      rw [ho] at hopened
      exact absurd rfl (hopened.mp rfl)

theorem At.length_eq (h : d.At .closed n) : d.committed.length = n := h.count

/-- At the start nothing is open and nothing is there. -/
theorem at_ofRecord {record : Record} (hempty : record.operands.toList = []) :
    (ofRecord record).At .closed 0 where
  opened := by simp [ofRecord]
  count := by
    rw [if_neg nofun]
    exact congrArg List.length hempty
  le := Nat.zero_le _

theorem At.mark (h : d.At p n) (f : Marks → Marks) : (d.mark f).At p n :=
  ⟨h.opened, h.count, h.le⟩

/-- Adding an operand leaves one more. -/
theorem append_ends (h : d.At .closed n) (op : Operand) {R : Fault → Prop}
    (hover : maxOperands < n + 1 → R overflow) :
    Ends (fun d' => d'.At .closed (n + 1) ∧ d'.committed = d.committed ++ [op]) R
      (d.append op) := by
  have hlength := h.length_eq
  simp only [append]
  by_cases hroom : d.committed.length < maxOperands
  · rw [if_pos hroom]
    have hat : { d with committed := d.committed ++ [op] }.At .closed (n + 1) :=
      ⟨h.opened, by simp [hlength], by omega⟩
    exact .ok ⟨hat, rfl⟩
  · rw [if_neg hroom]
    exact .error (hover (by omega))

/-- Adding operands leaves as many more, and each was there to be read. -/
theorem appendAll_ends {ι : Type} (items : List ι) (read : ι → Except Fault Operand)
    {K : ι → Prop} {R : Fault → Prop} (hread : ∀ i ∈ items, Ends (fun _ => K i) R (read i))
    (h : d.At .closed n) (hover : maxOperands < n + items.length → R overflow) :
    Ends (fun d' => d'.At .closed (n + items.length) ∧ ∀ i ∈ items, K i) R
      (d.appendAll (items.map read)) := by
  induction items generalizing d n with
  | nil => exact .ok ⟨h, by simp⟩
  | cons i rest ih =>
      rw [List.length_cons] at hover
      have hover₁ (hmore : maxOperands < n + 1) : R overflow := hover (by omega)
      have hover₂ (hmore : maxOperands < n + 1 + rest.length) : R overflow :=
        hover (by omega)
      simp only [appendAll, List.map_cons, List.foldlM_cons, bind_assoc]
      apply (hread i List.mem_cons_self).bind
      intro op hop
      apply (append_ends h op hover₁).bind
      rintro d₁ ⟨h₁, -⟩
      apply (ih (fun j hj => hread j (List.mem_cons_of_mem i hj)) h₁ hover₂).imp
      rintro d₂ ⟨h₂, hall⟩
      constructor
      · rw [List.length_cons, Nat.add_comm rest.length, ← Nat.add_assoc]
        exact h₂
      · intro j hj
        rcases List.mem_cons.mp hj with rfl | hj
        · exact hop
        · exact hall j hj

end Draft

section Groups
variable {o : Opcode} {inst : RawInst} {features : Features} {n slot : Nat} {d : Draft}

/-- A group that adds operands reads them and adds them when nothing is open. -/
theorem classifyGroup_closed {group : OperandGroup} (hadds : group.adds = true)
    (ho : d.opened = none) :
    d.classifyGroup inst features group slot =
      groupOperands inst features group slot >>= d.appendAll := by
  cases group with
  | generic =>
      simp only [Draft.classifyGroup, ho]
      cases hdeclared : descriptor inst.opcode slot with
      | ok declared => rfl
      | error fault =>
          simp only [groupOperands, hdeclared]
          rfl
  | bareImmediate => simp only [Draft.classifyGroup, ho, Option.isSome_none,
      Bool.false_eq_true, if_false]
  | coprocessor | coprocessorRegister | alignedOffset | vectorList size | registerList
  | statusMask | unmapped g => rfl
  | predicate kind | vectorPredicate | flagSetter | itMask | alignedAddress
  | baseAddress => cases hadds

/-- How a step ends on a draft after `n` operands. -/
abbrev Step.Outcome (o : Opcode) (inst : RawInst) (p : Opening) (n : Nat) (s : Step)
    (result : Except Fault Draft) : Prop :=
  Ends (fun d => s.Accepts o inst ∧ d.At (s.next p) (n + s.added inst p))
    (Fails o inst p n [s]) result

/-- A step that would add too many operands has that for a reason to fail. -/
theorem fails_of_added {s : Step} {p : Opening} {k : Nat} (hk : s.added inst p = k)
    (hmore : maxOperands < n + k) : Fails o inst p n [s] Draft.overflow := by
  apply Fails.overflow
  rw [addedBy, hk]
  exact hmore

/-- A step that reads one slot and adds the operand in it. -/
theorem appendOne_ends {s : Step} {kind : RawKind} {read : Except Fault Operand}
    {R : Fault → Prop} (hreads : s.reads o inst.operands.length = [(slot, kind)])
    (hrange : s.InRange inst) (hread : Ends (fun _ => kind.Holds (inst.operand slot)) R read)
    (h : d.At .closed n) (hover : maxOperands < n + 1 → R Draft.overflow) :
    Ends (fun d' => s.Accepts o inst ∧ d'.At .closed (n + 1)) R (d.appendAll [read]) := by
  apply (Draft.appendAll_ends [()] (fun _ => read) (fun _ _ => hread) h hover).imp
  rintro d' ⟨h', hall⟩
  exact ⟨.of_reads_one hreads (hall () List.mem_cons_self) hrange, h'⟩

variable (ho : Opcode.ofWord? inst.opcode = some o)
include ho

theorem generic_ends (hfits : OperandGroup.generic.FitsClosed o n slot)
    (h : d.At .closed n) :
    Step.Outcome o inst .closed n (.classify .generic slot)
      (groupOperands inst features .generic slot >>= d.appendAll) := by
  obtain ⟨hslot, htype, hproper⟩ := hfits
  have hreads : (Step.classify .generic slot).reads o inst.operands.length =
    [(slot, if (o.declared slot).type.isRegister then .register else .immediate)] := rfl
  simp only [groupOperands, descriptor_eq ho hslot, ok_bind]
  cases hdeclared : (o.declared slot).type with
  | imm | memImm =>
      rw [hdeclared] at hreads
      have hread : (slot, .immediate) ∈
          (Step.classify .generic slot).reads o inst.operands.length := by
        simp [hreads, OperandType.isRegister]
      exact appendOne_ends hreads trivial (immOperand_ends ho hslot hread _ _) h
        (fails_of_added rfl)
  | reg | memReg | memIndexReg =>
      rw [hdeclared] at hreads
      have hread : (slot, .register) ∈
          (Step.classify .generic slot).reads o inst.operands.length := by
        simp [hreads, OperandType.isRegister]
      have hregister : o.Declares slot (·.isRegister) :=
        ⟨hslot, by rw [hdeclared]; rfl, hproper⟩
      exact appendOne_ends hreads trivial (regOperand_ends ho hregister hread _) h
        (fails_of_added rfl)
  | pred | undeclared =>
      rw [hdeclared] at htype
      cases htype

theorem alignedOffset_ends (hfits : OperandGroup.alignedOffset.FitsClosed o n slot)
    (h : d.At .closed n) :
    Step.Outcome o inst .closed n (.classify .alignedOffset slot)
      (groupOperands inst features .alignedOffset slot >>= d.appendAll) := by
  simp only [Step.Outcome, Step.added, OperandGroup.added, groupOperands, bind_assoc,
    pure_eq_ok, ok_bind]
  apply (readReg_ends List.mem_cons_self).bind
  intro raw hraw
  by_cases hzero : raw = 0
  · subst hzero
    simp only [hraw, if_true]
    exact .ok ⟨.of_reads_one rfl ⟨0, hraw⟩ trivial, h⟩
  · have hne : inst.operand slot ≠ .reg 0 := by
      rw [hraw]
      simpa using hzero
    rw [if_neg hne, if_neg hzero]
    exact appendOne_ends rfl trivial (regOperand_ends ho hfits List.mem_cons_self _) h
      (fails_of_added (if_neg hne))

theorem vectorList_ends {size : ListSize}
    (hfits : (OperandGroup.vectorList size).FitsClosed o n slot) (h : d.At .closed n) :
    Step.Outcome o inst .closed n (.classify (.vectorList size) slot)
      (groupOperands inst features (.vectorList size) slot >>= d.appendAll) := by
  have hread (offset : Nat) (_ : offset ∈ List.range size.toNat) :=
    regOperand_ends (p := .closed) (n := n) (s := .classify (.vectorList size) slot) ho hfits
      List.mem_cons_self (doubleWord (UInt16.ofNat offset))
  have hall := Draft.appendAll_ends (List.range size.toNat) _ hread h
  rw [List.length_range] at hall
  apply (hall (fails_of_added rfl)).imp
  rintro d' ⟨h', hkinds⟩
  have hfirst : 0 ∈ List.range size.toNat := by
    cases size <;> decide
  exact ⟨.of_reads_one rfl (hkinds 0 hfirst) trivial, h'⟩

theorem registerList_ends (hfits : OperandGroup.registerList.FitsClosed o n slot)
    (h : d.At .closed n) :
    Step.Outcome o inst .closed n (.classify .registerList slot)
      (groupOperands inst features .registerList slot >>= d.appendAll) := by
  let slots := List.range' slot (inst.operands.length - slot)
  let access := (o.declared slot).access
  have hread (i : Nat) (hi : i ∈ slots) :=
    listOperand_ends (o := o) (p := .closed) (n := n) (s := .classify .registerList slot)
      (List.mem_map_of_mem hi) access
  have hall := Draft.appendAll_ends slots (listOperand inst access) hread h
  rw [List.length_range'] at hall
  simp only [groupOperands, descriptor_eq ho hfits.1, ok_bind, pure_eq_ok]
  apply (hall (fails_of_added rfl)).imp
  rintro d' ⟨h', hkinds⟩
  have hall : ∀ r ∈ slots.map (·, RawKind.register), r.2.Holds (inst.operand r.1) := by
    intro r hr
    obtain ⟨i, hi, rfl⟩ := List.mem_map.mp hr
    exact hkinds i hi
  exact ⟨⟨hall, trivial⟩, h'⟩

theorem statusMask_ends (hfits : OperandGroup.statusMask.FitsClosed o n slot)
    (h : d.At .closed n) :
    Step.Outcome o inst .closed n (.classify .statusMask slot)
      (groupOperands inst features .statusMask slot >>= d.appendAll) := by
  simp only [Step.Outcome, groupOperands, bind_assoc, pure_eq_ok, ok_bind,
    descriptor_eq ho hfits.1]
  apply (readImm_ends List.mem_cons_self).bind
  intro raw hraw
  have hadded : (Step.classify .statusMask slot).added inst .closed =
      if inst.isMClass = false ∧ lowBits 4 raw = 0 then 0 else 1 := by
    simp only [Step.added, OperandGroup.added, hraw]
  have hnone := statusValue?_eq_none_iff inst features raw
  rw [hadded]
  cases hvalue : statusValue? inst features raw.toUInt64.toUInt32 with
  | none =>
      rw [if_pos (hnone.mp hvalue)]
      exact .ok ⟨.of_reads_one rfl ⟨raw, hraw⟩ trivial, h⟩
  | some value =>
      have hsome : ¬ (inst.isMClass = false ∧ lowBits 4 raw = 0) := by
        intro hzero
        rw [hnone.mpr hzero] at hvalue
        cases hvalue
      rw [if_neg hsome] at hadded ⊢
      exact appendOne_ends rfl trivial (.ok ⟨raw, hraw⟩) h (fails_of_added hadded)

/-- A group that adds operands, with nothing open. -/
theorem adds_ends {group : OperandGroup} (hadds : group.adds = true)
    (hfits : group.FitsClosed o n slot) (h : d.At .closed n) :
    Step.Outcome o inst .closed n (.classify group slot)
      (groupOperands inst features group slot >>= d.appendAll) := by
  cases group with
  | generic => exact generic_ends ho hfits h
  | coprocessor | coprocessorRegister | bareImmediate =>
      exact appendOne_ends rfl trivial (immOperand_ends ho hfits.1 List.mem_cons_self _ _) h
        (fails_of_added rfl)
  | alignedOffset => exact alignedOffset_ends ho hfits h
  | vectorList size => exact vectorList_ends ho hfits h
  | registerList => exact registerList_ends ho hfits h
  | statusMask => exact statusMask_ends ho hfits h
  | unmapped g => exact .error (.rejected List.mem_cons_self (.unmapped g slot))
  | predicate kind | vectorPredicate | flagSetter | itMask | alignedAddress
  | baseAddress => cases hadds

end Groups

section Steps
variable {o : Opcode} {inst : RawInst} {features : Features} {p : Opening} {n slot : Nat}
  {d : Draft} {s : Step}

theorem Draft.At.eq_some (h : d.At p n) (hp : p ≠ .closed) : ∃ op, d.opened = some op :=
  Option.isSome_iff_exists.mp (h.opened.mpr hp)

/-- The open operand may be changed. -/
theorem Draft.At.reopen (h : d.At p n) (hp : p ≠ .closed) (op : Operand) :
    { d with opened := some op }.At p n :=
  ⟨by simpa using hp, h.count, h.le⟩

/-- A shift is attached to an operand that is there, or has no shift opcode. -/
theorem attachShift_ends (h : d.At p n) (hsome : p = .closed → 0 < n) {code : UInt8}
    {imm : UInt32} {R : Fault → Prop}
    (hcode : ShiftKind.ofOpcode? code = none →
      R (.contract inst.opcode (.shiftOpcodeOutOfRange code))) :
    Ends (fun d' => (ShiftKind.ofOpcode? code).isSome = true ∧ d'.At p n) R
      (d.attachShift inst code imm) := by
  simp only [Draft.attachShift, readShift]
  rcases hkind : ShiftKind.ofOpcode? code with _ | _ | kind
  · exact .error (hcode hkind)
  · exact .ok ⟨rfl, h⟩
  · simp only [ok_bind]
    by_cases hnothing : kind = .lsl ∧ imm = 0
    · rw [if_pos hnothing]
      exact .ok ⟨rfl, h⟩
    · rw [if_neg hnothing]
      cases ho : d.opened with
      | some op =>
          have hp : p ≠ .closed := h.opened.mp (by rw [ho]; rfl)
          exact .ok ⟨rfl, h.reopen hp _⟩
      | none =>
          have hp : p = .closed := by
            have hopened := h.opened
            rw [ho] at hopened
            simpa using hopened
          subst hp
          have hne : d.committed ≠ [] := by
            have hlength := h.length_eq
            have hpos := hsome rfl
            intro hnil
            rw [hnil, List.length_nil] at hlength
            omega
          simp only [if_neg hne]
          exact .ok ⟨rfl, ⟨by simp, by simpa using h.count, h.le⟩⟩

variable (ho : Opcode.ofWord? inst.opcode = some o)
include ho

/-- There is room for a memory operand where the walk of an opcode opens one. -/
theorem newMemory_eq (h : d.At .closed n) (hdeclares : o.Declares n fun _ => true) :
    d.newMemory inst = .ok { value := .mem {}, access := (o.declared n).access } := by
  have hroom : n < maxOperands := Nat.lt_of_lt_of_le hdeclares.1 (by decide)
  simp only [Draft.newMemory, h.eq_none, h.length_eq, descriptor_eq ho hdeclares.1, ok_bind,
    Option.isSome_none, Bool.false_eq_true, if_false, if_pos hroom, pure_eq_ok]

/-- A group with nothing open. -/
theorem classifyGroup_closed_ends {group : OperandGroup} (hfits : group.FitsClosed o n slot)
    (h : d.At .closed n) :
    Step.Outcome o inst .closed n (.classify group slot)
      (d.classifyGroup inst features group slot) := by
  cases hadds : group.adds with
  | true =>
      rw [classifyGroup_closed hadds h.eq_none]
      exact adds_ends ho hadds hfits h
  | false =>
      cases group with
      | predicate kind =>
          apply (readCondition_ends kind slot).bind
          intro cc haccepts
          exact .ok ⟨haccepts, h.mark _⟩
      | vectorPredicate =>
          apply (readVectorPredicate_ends slot).bind
          intro vcc haccepts
          exact .ok ⟨haccepts, h.mark _⟩
      | itMask =>
          apply (readItLayout_ends hfits).bind
          intro layout haccepts
          exact .ok ⟨haccepts, h.mark _⟩
      | flagSetter =>
          apply (readReg_ends List.mem_cons_self).bind
          intro raw hraw
          exact .ok ⟨.of_reads_one rfl ⟨raw, hraw⟩ trivial, h.mark _⟩
      | baseAddress =>
          obtain ⟨hnew, hslot, htype, hproper⟩ := hfits
          simp only [Draft.classifyGroup, newMemory_eq ho h hnew, ok_bind]
          apply (memoryPart_ends ho ⟨hslot, isPlain_of_isRegister htype, hproper⟩
            (if_pos htype).symm List.mem_cons_self _ _ _).bind
          intro op hkind
          apply (Draft.append_ends h op (fails_of_added rfl)).imp
          rintro d' ⟨h', -⟩
          exact ⟨.of_reads_one rfl hkind trivial, h'⟩
      | alignedAddress =>
          obtain ⟨hnew, ⟨hslot, htype, hproper⟩, hslot', htype', hproper'⟩ := hfits
          have himmediate : RawKind.immediate =
              if (o.declared (slot + 1)).type.isRegister then .register else .immediate := by
            simp [isRegister_of_isImmediate htype']
          simp only [Draft.classifyGroup, newMemory_eq ho h hnew, ok_bind]
          apply (memoryPart_ends ho ⟨hslot, isPlain_of_isRegister htype, hproper⟩
            (if_pos htype).symm List.mem_cons_self _ _ _).bind
          intro op hbase
          apply (memoryPart_ends ho ⟨hslot', isPlain_of_isImmediate htype', hproper'⟩
            himmediate (List.mem_cons_of_mem _ List.mem_cons_self) _ _ _).bind
          intro op halign
          apply (Draft.append_ends h op (fails_of_added rfl)).imp
          rintro d' ⟨h', -⟩
          exact ⟨.of_reads_two rfl hbase halign trivial, h'⟩
      | _ => cases hadds

theorem step_closed_ends (hfits : s.Fits o n .closed) (h : d.At .closed n) :
    s.Outcome o inst .closed n (d.step inst features s) := by
  cases s with
  | classify group slot => exact classifyGroup_closed_ends ho hfits h
  | packedShift slot =>
      apply (readImm_ends List.mem_cons_self).bind
      intro raw hraw
      have hrange := isSome_ofOpcode?_iff raw
      have hreject (hcode : ShiftKind.ofOpcode? (UInt8.ofNat (lowBits 3 raw)) = none) :
          Fails o inst .closed n [.packedShift slot] (.contract inst.opcode
            (.shiftOpcodeOutOfRange (UInt8.ofNat (lowBits 3 raw)))) := by
        apply Fails.rejected List.mem_cons_self (.packedShift hraw _)
        rw [← hrange, hcode]
        exact nofun
      simp only [packedCode_eq]
      apply (attachShift_ends h (fun _ => hfits) hreject).imp
      rintro d' ⟨hcode, h'⟩
      have hle := hrange.mp hcode
      exact ⟨.of_reads_one rfl ⟨raw, hraw⟩ (RawOperand.forall_imm hraw hle), h'⟩
  | openMemory =>
      simp only [Draft.step, Draft.openMemory, newMemory_eq ho h hfits, ok_bind]
      exact .ok ⟨.of_reads_nothing rfl trivial, ⟨by simp [Step.next], h.count, h.le⟩⟩
  | writeback => exact .ok ⟨.of_reads_nothing rfl trivial, h.mark _⟩
  | shiftLeft slot | closeMemory => exact hfits.elim

omit ho in
/-- The last operand is taken back with its lane. -/
theorem foldLane_ends (hpos : 0 < n) (h : d.At .fresh n) :
    Step.Outcome o inst .fresh n (.classify .bareImmediate slot)
      (d.foldLane inst slot) := by
  have hlength : d.committed.length = n := h.count
  apply (readImm_ends List.mem_cons_self).bind
  intro lane hlane
  cases hlast : d.committed.getLast? with
  | none =>
      rw [List.getLast?_eq_none_iff.mp hlast, List.length_nil] at hlength
      omega
  | some last =>
      have hcount : d.committed.dropLast.length + 1 = n := by
        rw [List.length_dropLast]
        omega
      have hat : { d with
          committed := d.committed.dropLast
          opened := some { last with neonLane := lane.toInt8 } }.At .folded n :=
        ⟨by simp, hcount, h.le⟩
      exact .ok ⟨.of_reads_one rfl ⟨lane, hlane⟩ trivial, hat⟩

theorem step_fresh_ends (hfits : s.Fits o n .fresh) (h : d.At .fresh n) :
    s.Outcome o inst .fresh n (d.step inst features s) := by
  obtain ⟨op, hop⟩ := h.eq_some (by decide)
  cases s with
  | classify group slot =>
      cases group with
      | generic =>
          have hplain : ((o.declared slot).type.isRegister ||
            (o.declared slot).type.isImmediate) = true := hfits.2.1
          simp only [Draft.step, Draft.classifyGroup, descriptor_eq ho hfits.1, ok_bind, hop,
            if_pos hplain]
          apply (memoryPart_ends ho hfits rfl List.mem_cons_self _ _ _).bind
          intro op' hkind
          exact .ok ⟨.of_reads_one rfl hkind trivial, h.reopen (by decide) op'⟩
      | bareImmediate =>
          simp only [Draft.step, Draft.classifyGroup, hop, Option.isSome_some, if_true]
          exact foldLane_ends hfits h
      | _ => exact hfits.elim
  | shiftLeft slot =>
      apply (readImm_ends List.mem_cons_self).bind
      intro raw hraw
      apply (attachShift_ends h nofun nofun).imp
      rintro d' ⟨-, h'⟩
      exact ⟨.of_reads_one rfl ⟨raw, hraw⟩ trivial, h'⟩
  | closeMemory =>
      have hclosed : { d with opened := none }.At .closed n :=
        ⟨by simp, h.count, h.le⟩
      simp only [Draft.step, Draft.closeMemory, hop]
      apply (Draft.append_ends hclosed op (fails_of_added rfl)).imp
      rintro d' ⟨h', -⟩
      exact ⟨.of_reads_nothing rfl trivial, h'⟩
  | packedShift slot | openMemory | writeback => exact hfits.elim

omit ho in
/-- An operand that was taken back fits in again. -/
theorem step_folded_ends (hfits : s.Fits o n .folded) (h : d.At .folded n) :
    s.Outcome o inst .folded n (d.step inst features s) := by
  obtain ⟨op, hop⟩ := h.eq_some (by decide)
  cases s with
  | closeMemory =>
      obtain ⟨before, rfl⟩ : ∃ before, n = before + 1 := ⟨_, h.count.symm⟩
      have hclosed : { d with opened := none }.At .closed before :=
        ⟨by simp, Nat.succ.inj h.count, Nat.le_of_succ_le h.le⟩
      have hroom (hmore : maxOperands < before + 1) :
          Fails o inst .folded (before + 1) [.closeMemory] Draft.overflow :=
        absurd h.le (Nat.not_le_of_lt hmore)
      simp only [Draft.step, Draft.closeMemory, hop]
      apply (Draft.append_ends hclosed op hroom).imp
      rintro d' ⟨h', -⟩
      exact ⟨.of_reads_nothing rfl trivial, h'⟩
  | _ => exact hfits.elim

/-- A step accepts what it reads and leaves as many operands more as it adds, or fails
for a reason that it has. -/
theorem step_ends (hfits : s.Fits o n p) (h : d.At p n) :
    s.Outcome o inst p n (d.step inst features s) := by
  cases p with
  | closed => exact step_closed_ends ho hfits h
  | fresh => exact step_fresh_ends ho hfits h
  | folded => exact step_folded_ends hfits h

/-- Steps that fit are all accepted and leave as many operands more as they add, or
fail for a reason that one of them or all together have. -/
theorem run_ends (steps : List Step) (hfits : StepsFit o inst p n steps) (h : d.At p n) :
    Ends
      (fun d' => (∀ s ∈ steps, s.Accepts o inst) ∧ d'.At .closed (n + addedBy inst p steps))
      (Fails o inst p n steps) (d.run inst features steps) := by
  induction steps generalizing p n d with
  | nil =>
      have hp : p = .closed := hfits
      subst hp
      exact .ok ⟨nofun, h⟩
  | cons s rest ih =>
      obtain ⟨hstep, hrest⟩ := hfits
      simp only [Draft.run, List.foldlM_cons]
      apply ((step_ends ho hstep h).imp_fault fun _ hfault => hfault.head).bind
      rintro d₁ ⟨haccepts, h₁⟩
      apply ((ih hrest h₁).imp_fault fun _ hfault => hfault.tail).imp
      rintro d₂ ⟨hall, h₂⟩
      constructor
      · intro t ht
        rcases List.mem_cons.mp ht with rfl | ht
        · exact haccepts
        · exact hall t ht
      · simp only [addedBy, ← Nat.add_assoc]
        exact h₂

end Steps

end Disassembly.Arm
