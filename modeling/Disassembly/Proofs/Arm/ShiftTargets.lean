import Disassembly.Proofs.Arm.BranchTarget
import Disassembly.Proofs.Arm.Footprint
import Disassembly.Proofs.BoundedList.Slots

/-!
# Targets of shifts

A shift is attached in one slot of the record: in the slot at the cursor while a memory
operand is open, and in the one before it otherwise. Nothing else changes, so that attaching
the same shift again changes nothing at all. A packed shift and a left shift by a raw
immediate are requests for a shift that are read modulo the width of a word.

## Implementation notes

What a shift leaves alone includes the slots not in use. The change is therefore stated on
the cells of the list, where it is one `List.modify` for both targets.

-/

namespace Disassembly

namespace BoundedList

variable {α : Type} {n : Nat} {l r : BoundedList α n} {f : α → α}

/-- Work in the slot at the cursor changes this one cell. -/
theorem modifyActive_cells (h : l.modifyActive f = .ok r) :
    r.length = l.length ∧ r.memory.cells = l.memory.cells.modify l.length f := by
  rcases l with ⟨used, _ | ⟨a, rest⟩, _⟩ <;> cases h
  refine ⟨rfl, ?_⟩
  simp [memory, length, List.modify_eq_take_drop]

/-- A change of the last element changes the cell before the cursor. -/
theorem modifyLast_cells {i : Nat} (h : i + 1 = l.length) (f : α → α) :
    (l.modifyLast f).length = l.length ∧
      (l.modifyLast f).memory.cells = l.memory.cells.modify i f := by
  rcases l with ⟨used, spare, _⟩
  have hlast : used.length - 1 = i := (Nat.eq_sub_of_add_eq h).symm
  have hused : i < used.length := Nat.lt_of_succ_le (Nat.le_of_eq h)
  have hcells : i < (used ++ spare).length := by
    rw [List.length_append]
    exact Nat.lt_add_right _ hused
  refine ⟨List.length_modify .., ?_⟩
  simp only [memory, modifyLast, hlast]
  rw [List.modify_eq_take_cons_drop hused, List.modify_eq_take_cons_drop hcells,
    List.take_append_of_le_length (Nat.le_of_lt hused), List.getElem_append_left hused,
    List.drop_append_of_le_length hused, List.append_assoc, List.cons_append]

/-- The number of elements and the cells determine a list. -/
theorem eq_of_cells (hlength : l.length = r.length)
    (hcells : l.memory.cells = r.memory.cells) : l = r := by
  rcases l with ⟨used, spare, _⟩
  rcases r with ⟨used', spare', _⟩
  obtain ⟨rfl, rfl⟩ := List.append_inj hcells hlength
  rfl

end BoundedList

namespace Arm

section Requests
variable {code : UInt8} {imm : UInt32} {inst : RawInst}

/-- The shift opcodes from 1 to 5 are the numbers of the kinds by an immediate. -/
theorem ShiftKind.exists_ofOpcode? (hle : code ≤ 5) (hne : code ≠ 0) :
    ∃ kind, ofOpcode? code = some (some kind) ∧ kind.byRegister = false ∧
      kind.number = code.toNat := by
  have hcases : code = 1 ∨ code = 2 ∨ code = 3 ∨ code = 4 ∨ code = 5 := by
    grind
  rcases hcases with rfl | rfl | rfl | rfl | rfl
  all_goals exact ⟨_, rfl, rfl, rfl⟩

theorem ShiftKind.ofOpcode?_eq_none (h : 5 < code) : ofOpcode? code = none := by
  simp only [ofOpcode?]
  grind

theorem readShift_eq_error (h : 5 < code) :
    readShift inst code imm = .error (.contract inst.opcode (.shiftOpcodeOutOfRange code)) := by
  rw [readShift, ShiftKind.ofOpcode?_eq_none h]

/-- No shift, and a left shift by 0. -/
theorem readShift_eq_none (h : code = 0 ∨ code = 2 ∧ imm = 0) :
    readShift inst code imm = .ok none := by
  rcases h with rfl | ⟨rfl, rfl⟩
  · rfl
  · rfl

/-- All other requests name a kind. -/
theorem readShift_eq_some (hle : code ≤ 5) (hshift : ¬ (code = 0 ∨ code = 2 ∧ imm = 0)) :
    ∃ kind, kind.byRegister = false ∧ kind.number = code.toNat ∧
      readShift inst code imm = .ok (some kind) := by
  obtain ⟨hne, hleft⟩ := not_or.mp hshift
  obtain ⟨kind, hkind, hdirect, hnumber⟩ := ShiftKind.exists_ofOpcode? hle hne
  refine ⟨kind, hdirect, hnumber, ?_⟩
  have hrequested : ¬ (kind = .lsl ∧ imm = 0) := by
    rintro ⟨rfl, hzero⟩
    exact hleft ⟨UInt8.toNat_inj.mp hnumber.symm, hzero⟩
  rw [readShift, hkind]
  exact congrArg Except.ok (if_neg hrequested)

/-- The opcode and the amount of a packed shift. -/
theorem packed_fields {raw : Int64} {amount : UInt32} (hcode : code ≤ 7)
    (hamount : amount.toNat < 2 ^ 29)
    (hraw : raw.toInt % 2 ^ 32 = (8 * amount.toNat + code.toNat) % 2 ^ 32) :
    (raw.toUInt64.toUInt32 &&& 7).toUInt8 = code ∧ raw.toUInt64.toUInt32 >>> 3 = amount := by
  have hcode : code.toNat ≤ 7 := UInt8.le_iff_toNat_le.mp hcode
  have hword : raw.toUInt64.toNat % 2 ^ 32 = 8 * amount.toNat + code.toNat := by
    have hbits := toInt_emod raw
    omega
  constructor
  · rw [packedCode_eq, ← UInt8.toNat_inj, UInt8.toNat_ofNat', lowBits]
    simp only [Nat.reduceShiftLeft]
    omega
  · rw [← UInt32.toNat_inj, UInt32.toNat_shiftRight, UInt64.toNat_toUInt32, hword]
    simp only [UInt32.reduceToNat, Nat.reduceMod, Nat.shiftRight_eq_div_pow]
    omega

theorem toUInt32_of_emod {raw : Int64} (hraw : raw.toInt % 2 ^ 32 = imm.toNat) :
    raw.toUInt64.toUInt32 = imm := by
  have hbits := toInt_emod raw
  rw [← UInt32.toNat_inj, UInt64.toNat_toUInt32]
  omega

end Requests

/-- The shift of a kind by the amount that an immediate codes, where 0 stands for 32. A
rotation through the carry has no amount of its own and keeps the one that is there. -/
def Shift.requested (kind : ShiftKind) (imm : UInt32) (s : Shift) : Shift :=
  ⟨some kind, if kind = .rrx then s.amount else if imm = 0 then 32 else imm⟩

theorem Shift.requested_requested (kind : ShiftKind) (imm : UInt32) :
    requested kind imm ∘ requested kind imm = requested kind imm := by
  funext s
  simp only [Function.comp_apply, requested]
  split
  · rfl
  · rfl

namespace Builder

/-- A shift is attached in the slot: the one at the cursor while a memory operand is open, and
that of the last operand otherwise. -/
def ShiftsAt (b : Builder) (slot : Nat) : Prop :=
  b.memory = .building ∧ slot = b.count ∧ slot < maxOperands ∨
    b.memory = .idle ∧ slot + 1 = b.count

/-- A builder has gone on with another shift in one of its slots, in use or not, and with
nothing else. -/
structure Reshifts (b : Builder) (slot : Nat) (reshift : Shift → Shift) (b' : Builder) : Prop
    extends b.Keeps b' where
  features_eq : b'.features = b.features
  memory_eq : b'.memory = b.memory
  count_eq : b'.count = b.count
  cells_eq : b'.record.operands.memory.cells =
    b.record.operands.memory.cells.modify slot fun op => { op with shift := reshift op.shift }

end Builder

section Targets
variable {b b₁ b₂ : Builder} {slot : Nat} {reshift again : Shift → Shift}

/-- The change of a slot leaves nothing open. -/
theorem Builder.Reshifts.unique (h₁ : b.Reshifts slot reshift b₁)
    (h₂ : b.Reshifts slot reshift b₂) : b₁ = b₂ := by
  have hinst := h₁.inst_eq.trans h₂.inst_eq.symm
  have hmarks := h₁.marks_eq.trans h₂.marks_eq.symm
  have hfeatures := h₁.features_eq.trans h₂.features_eq.symm
  have hmemory := h₁.memory_eq.trans h₂.memory_eq.symm
  have hoperands : b₁.record.operands = b₂.record.operands :=
    BoundedList.eq_of_cells (h₁.count_eq.trans h₂.count_eq.symm)
      (h₁.cells_eq.trans h₂.cells_eq.symm)
  rcases b₁ with ⟨inst, features, ⟨cc, vcc, updateFlags, writeback, itLayout, operands⟩, memory⟩
  rcases b₂ with ⟨_, _, ⟨_, _, _, _, _, _⟩, _⟩
  cases hinst
  cases hmarks
  cases hfeatures
  cases hmemory
  cases hoperands
  rfl

/-- One change of a slot after another is one change. -/
theorem Builder.Reshifts.trans (h : b.Reshifts slot reshift b₁)
    (h' : b₁.Reshifts slot again b₂) : b.Reshifts slot (again ∘ reshift) b₂ where
  inst_eq := h'.inst_eq.trans h.inst_eq
  marks_eq := h'.marks_eq.trans h.marks_eq
  features_eq := h'.features_eq.trans h.features_eq
  memory_eq := h'.memory_eq.trans h.memory_eq
  count_eq := h'.count_eq.trans h.count_eq
  cells_eq := by
    rw [h'.cells_eq, h.cells_eq, List.modify_modify_eq]
    rfl

/-- The same slot is the target afterwards. -/
theorem Builder.Reshifts.shiftsAt (h : b.Reshifts slot reshift b₁) (hat : b.ShiftsAt slot) :
    b₁.ShiftsAt slot := by
  rwa [Builder.ShiftsAt, h.memory_eq, h.count_eq]

variable {code : UInt8} {imm : UInt32} {kind : ShiftKind}

/-- A shift of a kind is attached in its target. -/
theorem attachShift_reshifts (hread : readShift b.inst code imm = .ok (some kind))
    (hat : b.ShiftsAt slot) :
    ∃ b', b.attachShift code imm = .ok b' ∧ b.Reshifts slot (Shift.requested kind imm) b' := by
  rw [b.attachShift_eq, hread, ok_bind]
  rcases hat with ⟨hbuilding, rfl, hroom⟩ | ⟨hidle, hlast⟩
  · obtain ⟨op, hactive⟩ :=
      Option.isSome_iff_exists.mp (b.record.operands.isSome_active?_iff.mpr hroom)
    obtain ⟨l, hl, -, -⟩ := BoundedList.modifyActive_eq_ok hactive (·.shifted kind imm)
    obtain ⟨hcount, hcells⟩ := BoundedList.modifyActive_cells hl
    refine ⟨b.withOperands l, ?_, ⟨rfl, rfl⟩, rfl, rfl, hcount, hcells⟩
    simp only [if_pos hbuilding, Builder.modifyOpen, hl, orFault_ok, ok_bind, pure_eq_ok]
  · have hfull : b.record.operands.isEmpty = false := by
      rw [BoundedList.isEmpty, List.isEmpty_eq_false_iff, ← List.length_pos_iff]
      exact Nat.lt_of_lt_of_eq (Nat.succ_pos slot) hlast
    obtain ⟨hcount, hcells⟩ := BoundedList.modifyLast_cells hlast (·.shifted kind imm)
    refine ⟨b.withOperands (b.record.operands.modifyLast (·.shifted kind imm)), ?_,
      ⟨rfl, rfl⟩, rfl, rfl, hcount, hcells⟩
    simp [hidle, hfull]

/-- An open operand has no slot in a record that is full. -/
theorem attachShift_full (hread : readShift b.inst code imm = .ok (some kind))
    (hbuilding : b.memory = .building) (hfull : b.count = maxOperands) :
    b.attachShift code imm = .error (.capacity (.full maxOperands)) := by
  rw [b.attachShift_eq, hread, ok_bind]
  simp only [if_pos hbuilding, Builder.modifyOpen,
    BoundedList.modifyActive_eq_error _ (Nat.le_of_eq hfull.symm)]
  rfl

/-- A record without operands has no last one. -/
theorem attachShift_empty (hread : readShift b.inst code imm = .ok (some kind))
    (hidle : b.memory = .idle) (hempty : b.count = 0) :
    b.attachShift code imm = .error (.contract b.inst.opcode .shiftWithoutOperand) := by
  have hnone : b.record.operands.isEmpty = true :=
    List.isEmpty_iff.mpr (List.eq_nil_of_length_eq_zero hempty)
  rw [b.attachShift_eq, hread, ok_bind]
  simp [hidle, hnone, Builder.violate]

/-- Every builder has a target, or the record is full or empty. -/
theorem Builder.shiftsAt_cases (b : Builder) :
    (∃ slot, b.ShiftsAt slot) ∨ b.memory = .building ∧ b.count = maxOperands ∨
      b.memory = .idle ∧ b.count = 0 := by
  have hle : b.count ≤ maxOperands := b.record.operands.length_le
  cases hmemory : b.memory with
  | building =>
      rcases Nat.lt_or_eq_of_le hle with hroom | hfull
      · exact .inl ⟨b.count, .inl ⟨hmemory, rfl, hroom⟩⟩
      · exact .inr (.inl ⟨rfl, hfull⟩)
  | idle =>
      cases hcount : b.count with
      | zero => exact .inr (.inr ⟨rfl, rfl⟩)
      | succ slot => exact .inl ⟨slot, .inr ⟨hmemory, hcount.symm⟩⟩

/-- Attaching a shift again changes nothing. -/
theorem attachShift_attachShift (b : Builder) (code : UInt8) (imm : UInt32) :
    b.attachShift code imm >>= (·.attachShift code imm) = b.attachShift code imm := by
  cases hread : readShift b.inst code imm with
  | error fault => rw [b.attachShift_eq, hread, error_bind, error_bind]
  | ok kind? =>
      cases kind? with
      | none =>
          have hsame : b.attachShift code imm = .ok b := by
            rw [b.attachShift_eq, hread, ok_bind]
          rw [hsame, ok_bind, hsame]
      | some kind =>
          rcases b.shiftsAt_cases with ⟨slot, hat⟩ | ⟨hbuilding, hfull⟩ | ⟨hidle, hempty⟩
          · obtain ⟨b₁, h₁, hfirst⟩ := attachShift_reshifts hread hat
            -- The second request is read from the builder that the first one has left.
            rw [← hfirst.inst_eq] at hread
            obtain ⟨b₂, h₂, hsecond⟩ := attachShift_reshifts hread (hfirst.shiftsAt hat)
            have hboth := hfirst.trans hsecond
            rw [Shift.requested_requested] at hboth
            rw [h₁, ok_bind, h₂, hfirst.unique hboth]
          · rw [attachShift_full hread hbuilding hfull, error_bind]
          · rw [attachShift_empty hread hidle hempty, error_bind]

/-- An action for a shift reads from the instruction alone which shift it attaches. -/
theorem act_eq_attachShift {a : Action} (h : a.isShift = true) :
    ∃ read : RawInst → Except Fault (UInt8 × UInt32), ∀ b : Builder,
      b.act a = read b.inst >>= fun request => b.attachShift request.1 request.2 := by
  cases a with
  | shift code imm => exact ⟨fun _ => .ok (code, imm), fun _ => rfl⟩
  | step s =>
      cases s with
      | shiftLeft slot =>
          refine ⟨fun inst => readImm inst slot >>= fun raw =>
            .ok (2, raw.toUInt64.toUInt32), fun b => ?_⟩
          rw [bind_assoc]
          rfl
      | packedShift slot =>
          refine ⟨fun inst => readImm inst slot >>= fun raw =>
            .ok ((raw.toUInt64.toUInt32 &&& 7).toUInt8, raw.toUInt64.toUInt32 >>> 3),
            fun b => ?_⟩
          rw [bind_assoc]
          rfl
      | classify group slot | openMemory | closeMemory | writeback => cases h

/-- An action for a shift does not change the instruction, so doing it again reads the same
shift. -/
theorem act_act_of_isShift {a : Action} (h : a.isShift = true) (b : Builder) :
    b.act a >>= (·.act a) = b.act a := by
  obtain ⟨read, hact⟩ := act_eq_attachShift h
  cases hrequest : read b.inst with
  | error fault => rw [hact b, hrequest, error_bind, error_bind]
  | ok request =>
      have hfirst : b.act a = b.attachShift request.1 request.2 := by
        rw [hact b, hrequest, ok_bind]
      have hagain := attachShift_attachShift b request.1 request.2
      cases hb : b.act a with
      | error fault => rfl
      | ok b₁ =>
          rw [← hfirst, hb, ok_bind] at hagain
          rw [ok_bind, hact b₁, act_inst hb, hrequest, ok_bind, hagain]

end Targets

/-- A shift changes the shift of one slot and nothing else: the open operand while there is
one, which needs a free slot, and otherwise the last operand, which has to exist. The opcode
is the number of its kind and the amount is as coded, where 0 stands for 32, but a rotation
through the carry keeps the amount that is there. No shift, and a left shift by 0, need no
target and change nothing, and there are no other opcodes. A packed shift is the shift by the
amount above its three lowest bits, and a left shift is that by the immediate, both modulo
the width of a word. Whatever a shift has done, doing it again changes nothing. -/
theorem shift_reaches_one_slot (b : Builder) :
    (∀ code imm, 5 < code → b.act (.shift code imm) =
      .error (.contract b.inst.opcode (.shiftOpcodeOutOfRange code))) ∧
    (∀ code imm, code = 0 ∨ code = 2 ∧ imm = 0 → b.act (.shift code imm) = .ok b) ∧
    (∀ code imm, code ≤ 5 → ¬ (code = 0 ∨ code = 2 ∧ imm = 0) →
      ∃ kind : ShiftKind, kind.byRegister = false ∧ kind.number = code.toNat ∧
        (b.memory = .building → b.count = maxOperands →
          b.act (.shift code imm) = .error (.capacity (.full maxOperands))) ∧
        (b.memory = .idle → b.count = 0 →
          b.act (.shift code imm) = .error (.contract b.inst.opcode .shiftWithoutOperand)) ∧
        ∀ slot, b.ShiftsAt slot → ∃ b', b.act (.shift code imm) = .ok b' ∧
          b.Reshifts slot (Shift.requested kind imm) b') ∧
    (∀ slot raw code amount, b.inst.operand slot = .imm raw → code ≤ 7 →
      amount.toNat < 2 ^ 29 →
      raw.toInt % 2 ^ 32 = (8 * amount.toNat + code.toNat) % 2 ^ 32 →
      b.act (.step (.packedShift slot)) = b.act (.shift code amount)) ∧
    (∀ slot raw imm, b.inst.operand slot = .imm raw → raw.toInt % 2 ^ 32 = imm.toNat →
      b.act (.step (.shiftLeft slot)) = b.act (.shift 2 imm)) ∧
    ∀ a : Action, a.isShift = true → b.act a >>= (·.act a) = b.act a := by
  have hshift (code : UInt8) (imm : UInt32) :
      b.act (.shift code imm) = b.attachShift code imm := rfl
  refine ⟨?_, ?_, ?_, ?_, ?_, fun a h => act_act_of_isShift h b⟩
  · intro code imm hcode
    rw [hshift, b.attachShift_eq, readShift_eq_error hcode, error_bind]
  · intro code imm hnone
    rw [hshift, b.attachShift_eq, readShift_eq_none hnone, ok_bind]
  · intro code imm hle hsome
    obtain ⟨kind, hdirect, hnumber, hread⟩ := readShift_eq_some hle hsome
    exact ⟨kind, hdirect, hnumber, attachShift_full hread, attachShift_empty hread,
      fun slot hat => attachShift_reshifts hread hat⟩
  · intro slot raw code amount hslot hcode hamount hraw
    obtain ⟨hfield, hrest⟩ := packed_fields hcode hamount hraw
    have hstep : b.act (.step (.packedShift slot)) = readImm b.inst slot >>= fun raw =>
      b.attachShift (raw.toUInt64.toUInt32 &&& 7).toUInt8 (raw.toUInt64.toUInt32 >>> 3) := rfl
    rw [hstep, readImm_eq_ok_iff.mpr hslot, ok_bind, hfield, hrest, hshift]
  · intro slot raw imm hslot hraw
    have hstep : b.act (.step (.shiftLeft slot)) = readImm b.inst slot >>= fun raw =>
      b.attachShift 2 raw.toUInt64.toUInt32 := rfl
    rw [hstep, readImm_eq_ok_iff.mpr hslot, ok_bind, toUInt32_of_emod hraw, hshift]

/-- A builder for an addition with a shift that is packed into a negative immediate. -/
def packedAdd (memory : MemoryState) (record : Record) : Builder where
  inst := {
    opcode := Opcode.addrsi.word
    operands := ⟨[.reg 66, .reg 67, .reg 68, .imm (8 * 31 + 3 - 0x100000000), .imm 14, .reg 0,
      .reg 0], List.replicate 41 .invalid, rfl, by decide⟩
    address := 0x1000
    mode := .arm }
  features := .all
  record
  memory

/-- A record without a free slot. -/
def fullRecord : Record where
  operands := ⟨List.replicate maxOperands { value := .imm 7, access := .write }, [], rfl, by decide⟩

/-- In a record with one operand the packed shift is attached to it and, with a memory operand
open, a rotation through the carry is attached behind it. -/
theorem shift_reaches_one_slot_packedAdd :
    let idle := packedAdd .idle usedRecord
    let building := packedAdd .building usedRecord
    (∃ b', idle.act (.step (.packedShift 3)) = .ok b' ∧
      idle.Reshifts 0 (fun _ => ⟨some .lsr, 31⟩) b' ∧
      b'.act (.step (.packedShift 3)) = .ok b') ∧
    (∃ b', building.act (.shift 5 9) = .ok b' ∧
      building.Reshifts 1 (fun s => ⟨some .rrx, s.amount⟩) b') ∧
    idle.act (.step (.shiftLeft 3)) = idle.act (.shift 2 (8 * 31 + 3)) ∧
    building.act (.shift 2 0) = .ok building ∧
    building.act (.shift 6 0) =
      .error (.contract Opcode.addrsi.word (.shiftOpcodeOutOfRange 6)) ∧
    (packedAdd .building fullRecord).act (.shift 1 0) = .error (.capacity (.full 36)) ∧
    (packedAdd .idle {}).act (.shift 1 0) =
      .error (.contract Opcode.addrsi.word .shiftWithoutOperand) := by
  intro idle building
  obtain ⟨-, -, hreach, hpacked, hleft, hagain⟩ := shift_reaches_one_slot idle
  obtain ⟨hrange, hnone, hreach', -, -, -⟩ := shift_reaches_one_slot building
  obtain ⟨-, -, hfull, -, -, -⟩ := shift_reaches_one_slot (packedAdd .building fullRecord)
  obtain ⟨-, -, hempty, -, -, -⟩ := shift_reaches_one_slot (packedAdd .idle {})
  refine ⟨?_, ?_, hleft 3 _ _ rfl (by decide), hnone 2 0 (by decide), hrange 6 0 (by decide),
    ?_, ?_⟩
  · obtain ⟨kind, -, hnumber, -, -, hat⟩ := hreach 3 31 (by decide) (by decide)
    obtain rfl : kind = .lsr := by
      cases kind <;> first | rfl | cases hnumber
    obtain ⟨b', hact, hchanged⟩ := hat 0 (.inr ⟨rfl, rfl⟩)
    rw [← hpacked 3 _ 3 31 rfl (by decide) (by decide) (by decide)] at hact
    have hsame := hagain (.step (.packedShift 3)) rfl
    rw [hact] at hsame
    exact ⟨b', hact, hchanged, hsame⟩
  · obtain ⟨kind, -, hnumber, -, -, hat⟩ := hreach' 5 9 (by decide) (by decide)
    obtain rfl : kind = .rrx := by
      cases kind <;> first | rfl | cases hnumber
    exact hat 1 (.inl ⟨rfl, rfl, by decide⟩)
  · obtain ⟨kind, -, -, hstop, -, -⟩ := hfull 1 0 (by decide) (by decide)
    exact hstop rfl rfl
  · obtain ⟨kind, -, -, -, hstop, -⟩ := hempty 1 0 (by decide) (by decide)
    exact hstop rfl rfl

end Arm

end Disassembly
