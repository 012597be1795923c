import Mathlib.Data.Nat.Bitwise
import Disassembly.Proofs.Arm.BuildDomain
import Disassembly.Proofs.Arm.BuildFacts
import Disassembly.Proofs.Arm.Immediates

/-!
# Targets of relative branches

The offset of a relative branch is stored as the address that it leads to, counted
modulo the 32-bit address space from the program counter as the branch sees it. The
immediates of all other instructions are stored as they stand.

## Implementation notes

The machine words are left as early as possible: `branchOrigin` is a natural number
without a width, and the two wraparounds of the stored target are one remainder.

-/

namespace Disassembly

/-- The mask keeps all of a 32-bit word but its two low bits. -/
theorem and_wordMask {x : Nat} (h : x < 4294967296) : x &&& 4294967292 = x - x % 4 := by
  have hparts : x - x % 4 = x >>> 2 <<< 2 := by
    rw [Nat.shiftLeft_eq, Nat.shiftRight_eq_div_pow]
    omega
  have hmask : (4294967292 : Nat) = (2 ^ 30 - 1) <<< 2 := rfl
  rw [hparts, hmask]
  apply Nat.eq_of_testBit_eq
  intro i
  rw [Nat.testBit_and, Nat.testBit_shiftLeft, Nat.testBit_shiftLeft, Nat.testBit_shiftRight,
    Nat.testBit_two_pow_sub_one]
  by_cases hlow : 2 ≤ i
  · have hi : 2 + (i - 2) = i := by omega
    by_cases hhigh : i < 32
    · have hshifted : i - 2 < 30 := by omega
      simp [hlow, hi, hshifted]
    · have hle := Nat.pow_le_pow_right (n := 2) (by decide) (Nat.le_of_not_lt hhigh)
      have hx : x.testBit i = false := Nat.testBit_lt_two_pow (Nat.lt_of_lt_of_le h hle)
      simp [hi, hx]
  · simp [hlow]

theorem Mode.intersects_thumb_mclass (m : Mode) :
    m.intersects (Mode.thumb.union Mode.mclass) = (m.contains .thumb || m.contains .mclass) := by
  have hthumb := Nat.and_two_pow m.bits.toNat 4
  have hmclass := Nat.and_two_pow m.bits.toNat 5
  have hboth := Nat.and_or_distrib_left m.bits.toNat (2 ^ 4) (2 ^ 5)
  rw [hthumb, hmclass] at hboth
  rw [Bool.eq_iff_iff]
  simp only [Mode.intersects, Mode.union, Mode.contains, Mode.thumb, Mode.mclass, bne_iff_ne,
    ne_eq, Bool.or_eq_true, beq_iff_eq, ← UInt32.toNat_inj, UInt32.toNat_and, UInt32.toNat_or,
    UInt32.reduceToNat]
  simp only [Nat.reducePow] at hthumb hmclass hboth
  rw [hthumb, hmclass, hboth]
  cases m.bits.toNat.testBit 4 <;> cases m.bits.toNat.testBit 5 <;> decide

namespace Arm

/-- The program counter that a relative branch counts from: two instructions ahead. In
Thumb state and on a microcontroller core these are 4 bytes, and the call that changes
to ARM state counts from the word they are in. Elsewhere they are 8 bytes. -/
def branchOrigin (inst : RawInst) : Nat :=
  if inst.mode.contains .thumb || inst.mode.contains .mclass then
    let ahead := inst.address.toNat + 4
    if Opcode.ofWord? inst.opcode = some .tBlxi then ahead - ahead % 4 else ahead
  else inst.address.toNat + 8

section Target
variable {inst : RawInst}

theorem branchBase_toNat (inst : RawInst) :
    (branchBase inst).toNat = branchOrigin inst % 2 ^ 32 := by
  rw [branchBase, branchOrigin, RawInst.isThumb, Mode.intersects_thumb_mclass]
  split
  · split
    · simp only [UInt32.toNat_and, UInt32.toNat_add, UInt64.toNat_toUInt32, UInt32.reduceToNat]
      rw [and_wordMask (Nat.mod_lt _ (by decide))]
      omega
    · simp only [UInt32.toNat_add, UInt64.toNat_toUInt32, UInt32.reduceToNat]
      omega
  · simp only [UInt32.toNat_add, UInt64.toNat_toUInt32, UInt32.reduceToNat]
    omega

/-- An immediate is the number of its bits, or as much below zero as they are below the
end. -/
theorem toInt_eq_or (raw : Int64) :
    raw.toInt = raw.toUInt64.toNat ∨ raw.toInt = raw.toUInt64.toNat - 2 ^ 64 := by
  have hcond := BitVec.toInt_eq_toNat_cond raw.toBitVec
  split at hcond
  · exact .inl hcond
  · exact .inr hcond

/-- An immediate and its bits are the same number modulo the address space. -/
theorem toInt_emod (raw : Int64) : raw.toInt % 2 ^ 32 = raw.toUInt64.toNat % 2 ^ 32 := by
  have htoInt := toInt_eq_or raw
  omega

/-- The immediate that is stored for a raw one. -/
def storedImm (inst : RawInst) (raw : Int64) : Int64 :=
  (resolveBranch inst raw.toUInt64).toInt64

/-- A relative branch stores the address that its offset leads to. -/
theorem storedImm_toInt (h : isRelativeBranch inst.opcode = true) (raw : Int64) :
    (storedImm inst raw).toInt = ((branchOrigin inst : Int) + raw.toInt) % 2 ^ 32 := by
  have hraw := toInt_emod raw
  have hbase := branchBase_toNat inst
  have htarget : (resolveBranch inst raw.toUInt64).toNat =
      (branchOrigin inst + raw.toUInt64.toNat) % 2 ^ 32 := by
    rw [resolveBranch, if_pos h, UInt32.toNat_toUInt64, UInt32.toNat_add,
      UInt64.toNat_toUInt32, hbase]
    omega
  have hsmall : 2 * (resolveBranch inst raw.toUInt64).toBitVec.toNat < 2 ^ 64 := by
    rw [UInt64.toNat_toBitVec]
    omega
  have hstored : (storedImm inst raw).toInt = (resolveBranch inst raw.toUInt64).toNat :=
    BitVec.toInt_eq_toNat_of_lt hsmall
  rw [hstored, htarget]
  omega

/-- All other instructions store it as it stands. -/
theorem storedImm_eq (h : isRelativeBranch inst.opcode = false) (raw : Int64) :
    storedImm inst raw = raw := by
  rw [storedImm, resolveBranch, if_neg (ne_true_of_eq_false h), Int64.toInt64_toUInt64]

end Target

section Slots

/-- The slots whose immediate a step stores as an operand of its own. -/
def Step.immediateSlots (o : Opcode) : Opening → Step → List Nat
  | .closed, .classify .generic slot =>
      if (o.declared slot).type.isImmediate then [slot] else []
  | .closed, .classify .bareImmediate slot => [slot]
  | _, _ => []

/-- The slots whose immediates steps store, in order. -/
def immediateSlotsOf (o : Opcode) : Opening → List Step → List Nat
  | _, [] => []
  | p, s :: rest => s.immediateSlots o p ++ immediateSlotsOf o (s.next p) rest

/-- The slots whose immediates the walk of an opcode stores. -/
def Opcode.immediateSlots (o : Opcode) : List Nat := immediateSlotsOf o .closed o.walk

/-- A relative branch has one immediate, its offset. -/
theorem Opcode.immediateSlots_of_isRelativeBranch {o : Opcode}
    (h : o.isRelativeBranch = true) : ∃ slot, o.immediateSlots = [slot] := by
  cases o <;> cases h <;> exact ⟨_, rfl⟩

/-- No relative branch takes an immediate around its descriptor. -/
theorem bareImmediate_mem_walk {o : Opcode} {slot : Nat}
    (h : .classify .bareImmediate slot ∈ o.walk) : o.isRelativeBranch = false := by
  cases o with
  | bcc | bl | blPred | t2b | tB | tBcc | tBl | tBlxi | tCbnz | tCbz | blxi =>
      simp [Opcode.walk, Step.conditionalBranch, Step.thumbCall, Step.op, Step.pred] at h
  | _ => rfl

variable {o : Opcode} {inst : RawInst}

theorem isRelativeBranch_eq (ho : Opcode.ofWord? inst.opcode = some o) :
    isRelativeBranch inst.opcode = o.isRelativeBranch := by
  rw [isRelativeBranch, ho]
  rfl

/-- Raw immediates in slots, and what is stored for them. -/
def StoresRaw (inst : RawInst) (slots : List Nat) (values : List Int64) : Prop :=
  ∃ raws : List Int64,
    slots.map inst.operand = raws.map .imm ∧ values = raws.map (storedImm inst)

theorem StoresRaw.nil : StoresRaw inst [] [] := ⟨[], rfl, rfl⟩

theorem StoresRaw.singleton {slot : Nat} {raw : Int64} (h : inst.operand slot = .imm raw) :
    StoresRaw inst [slot] [storedImm inst raw] :=
  ⟨[raw], congrArg (fun op => [op]) h, rfl⟩

theorem StoresRaw.append {slots slots' : List Nat} {values values' : List Int64}
    (h : StoresRaw inst slots values) (h' : StoresRaw inst slots' values') :
    StoresRaw inst (slots ++ slots') (values ++ values') := by
  obtain ⟨raws, hslots, rfl⟩ := h
  obtain ⟨raws', hslots', rfl⟩ := h'
  refine ⟨raws ++ raws', ?_, ?_⟩
  · rw [List.map_append, List.map_append, hslots, hslots']
  · rw [List.map_append]

/-- A step that accepts its operands stores the immediates of its slots. -/
theorem step_storesRaw (ho : Opcode.ofWord? inst.opcode = some o) {s : Step}
    (hmem : s ∈ o.walk) (haccepts : s.Accepts o inst)
    (hplain : ∀ slot, s ≠ .classify .statusMask slot) (features : Features) (p : Opening) :
    StoresRaw inst (s.immediateSlots o p) (s.stores o inst features p) := by
  have hraw (slot : Nat) (h : (slot, RawKind.immediate) ∈ s.reads o inst.operands.length) :
      ∃ raw, inst.operand slot = .imm raw := haccepts.kinds _ h
  cases p with
  | fresh | folded => exact .nil
  | closed =>
      cases s with
      | classify group slot =>
          cases group with
          | generic =>
              simp only [Step.immediateSlots, Step.stores, OperandGroup.stores]
              by_cases himm : (o.declared slot).type.isImmediate = true
              · have hreg : (o.declared slot).type.isRegister = false := by
                  revert himm
                  cases (o.declared slot).type <;> decide
                obtain ⟨raw, hslot⟩ := hraw slot (by simp [Step.reads, OperandGroup.reads, hreg])
                rw [if_pos himm, if_pos himm, hslot]
                exact .singleton hslot
              · rw [if_neg himm, if_neg himm]
                exact .nil
          | bareImmediate =>
              obtain ⟨raw, hslot⟩ := hraw slot (by simp [Step.reads, OperandGroup.reads])
              have hother : isRelativeBranch inst.opcode = false := by
                rw [isRelativeBranch_eq ho]
                exact bareImmediate_mem_walk hmem
              simp only [Step.immediateSlots, Step.stores, OperandGroup.stores, hslot]
              have hstored := StoresRaw.singleton hslot
              rw [storedImm_eq hother] at hstored
              exact hstored
          | statusMask => exact absurd rfl (hplain slot)
          | _ => exact .nil
      | _ => exact .nil

/-- Steps without a status mask store the immediates of their slots. -/
theorem steps_storeRaw (ho : Opcode.ofWord? inst.opcode = some o) (steps : List Step)
    (hmem : ∀ s ∈ steps, s ∈ o.walk) (haccepts : ∀ s ∈ steps, s.Accepts o inst)
    (hplain : ∀ slot, .classify .statusMask slot ∉ steps) (features : Features)
    (p : Opening) :
    StoresRaw inst (immediateSlotsOf o p steps) (storedBy o inst features p steps) := by
  induction steps generalizing p with
  | nil => exact .nil
  | cons s rest ih =>
      have hstep := step_storesRaw ho (hmem s List.mem_cons_self)
        (haccepts s List.mem_cons_self)
        (fun slot hs => hplain slot (hs ▸ List.mem_cons_self)) features p
      have hrest := ih (fun t ht => hmem t (List.mem_cons_of_mem s ht))
        (fun t ht => haccepts t (List.mem_cons_of_mem s ht))
        (fun slot ht => hplain slot (List.mem_cons_of_mem s ht)) (s.next p)
      exact hstep.append hrest

end Slots

section StatusMoves
variable {inst : RawInst} {features : Features}

/-- The eight-bit register number of a mask is its low byte. -/
theorem MClass.number8_toNat (mask : UInt32) :
    ((mask &&& 0xfff).toUInt16 &&& 0xff).toNat = mask.toNat % 2 ^ 8 := by
  have hmask : mask.toNat &&& 4095 = mask.toNat % 2 ^ 12 :=
    Nat.and_two_pow_sub_one_eq_mod mask.toNat 12
  have hbyte : mask.toNat % 2 ^ 12 &&& 255 = mask.toNat % 2 ^ 12 % 2 ^ 8 :=
    Nat.and_two_pow_sub_one_eq_mod _ 8
  have hsmall : mask.toNat % 2 ^ 12 % 2 ^ 16 = mask.toNat % 2 ^ 12 := by omega
  simp only [UInt16.toNat_and, UInt32.toNat_toUInt16, UInt32.toNat_and, UInt32.reduceToNat,
    UInt16.reduceToNat]
  rw [hmask, hsmall, hbyte]
  omega

/-- On a microcontroller core a mask without a register stands as the number in its low
byte. -/
theorem MClass.maskValue_imm {own : Bool} {mask : UInt32} {value : Int64}
    (h : (MClass.maskValue own features mask).imm? = some value) :
    value = Int64.ofNat (mask.toNat % 2 ^ 8) := by
  simp only [MClass.maskValue] at h
  split at h
  · cases h
  · cases h
    rw [MClass.number8_toNat]

/-- Outside of a microcontroller core a mask stands for a register, if for anything. -/
theorem maskValue?_not_imm (mask : UInt32) : (maskValue? mask).bind (·.imm?) = none := by
  simp only [maskValue?]
  split_ifs <;> rfl

/-- What a status mask stores as an immediate is its low byte, on a microcontroller
core only. -/
theorem statusMask_stores (o : Opcode) (inst : RawInst) (features : Features) (slot : Nat) :
    OperandGroup.statusMask.stores o inst features slot = [] ∨
      inst.isMClass = true ∧ ∃ mask, inst.operand slot = .imm mask ∧
        OperandGroup.statusMask.stores o inst features slot =
          [Int64.ofNat (lowBits 8 mask)] := by
  cases hslot : inst.operand slot with
  | invalid | reg id => exact .inl (by simp [OperandGroup.stores, hslot, RawOperand.imm?])
  | imm mask =>
      simp only [OperandGroup.stores, hslot, RawOperand.imm?, Option.toList_some, statusValue?]
      cases hclass : inst.isMClass with
      | false => exact .inl (by simp [maskValue?_not_imm])
      | true =>
          simp only [if_true, List.filterMap_cons, List.filterMap_nil, Option.bind_some]
          split
          · exact .inl rfl
          · rename_i value hvalue
            have hlow := MClass.maskValue_imm hvalue
            rw [UInt64.toNat_toUInt32, Nat.mod_mod_of_dvd _ (by decide)] at hlow
            refine .inr ⟨trivial, mask, rfl, ?_⟩
            rw [hlow]
            rfl

/-- A status register move stores no immediate but that of its mask. -/
theorem storedBy_statusMove {o : Opcode} (ho : o = .msr ∨ o = .t2msrM) (inst : RawInst)
    (features : Features) :
    o.immediateSlots = [] ∧
      storedBy o inst features .closed o.walk =
        OperandGroup.statusMask.stores o inst features 0 := by
  rcases ho with rfl | rfl
  · exact ⟨rfl, List.append_nil _⟩
  · exact ⟨rfl, List.append_nil _⟩

end StatusMoves

section Records

/-- There is one immediate, the address that the offset of a relative branch leads to. -/
def StoresTarget (o : Opcode) (inst : RawInst) (values : List Int64) : Prop :=
  ∃ slot raw v, o.immediateSlots = [slot] ∧ inst.operand slot = .imm raw ∧ values = [v] ∧
    0 ≤ v.toInt ∧ v.toInt < 2 ^ 32 ∧
    v.toInt = ((branchOrigin inst : Int) + raw.toInt) % 2 ^ 32

/-- The immediates are the raw ones of the slots. On a microcontroller core, that of a
status register move can be the low byte of a mask without a register. -/
def StoresAsGiven (o : Opcode) (inst : RawInst) (values : List Int64) : Prop :=
  ∃ fallback raws, o.immediateSlots.map inst.operand = raws.map .imm ∧
    values = fallback ++ raws ∧
    (fallback = [] ∨ (o = .msr ∨ o = .t2msrM) ∧ inst.isMClass = true ∧
      ∃ mask, inst.operand 0 = .imm mask ∧ fallback = [Int64.ofNat (lowBits 8 mask)])

variable {inst : RawInst} {o : Opcode} {features : Features} {d d' : Detail} {m : Mnemonic}

/-- A record that was built has the immediates that the walk stores, and the walk has
accepted the raw operands. -/
theorem build_immediates (ho : Opcode.ofWord? inst.opcode = some o) {facts : Facts}
    (hfacts : Facts.ofOpcode? o = some facts)
    (h : build inst d features = .ok (some m, d')) :
    ∃ record, d'.arm? = some record ∧
      immediates record.operands.toList = storedBy o inst features .closed o.walk ∧
      ∀ s ∈ o.walk, s.Accepts o inst := by
  have hbuildable := ((build_ends ho hfacts d features).of_ok h).2
  obtain ⟨finish, hfinish, hbuild⟩ := build_eq_operands ho hfacts d features
  rw [hbuild] at h
  obtain ⟨record, hrecord, hresult⟩ := bind_eq_ok_iff.mp h
  cases hresult
  exact ⟨record, hfinish record, buildOperands_immediates ho rfl hrecord, hbuildable.accepts⟩

/-- The one immediate of a relative branch is the target that its offset leads to. -/
theorem build_target (ho : Opcode.ofWord? inst.opcode = some o)
    (hbranch : o.isRelativeBranch = true) (haccepts : ∀ s ∈ o.walk, s.Accepts o inst) :
    StoresTarget o inst (storedBy o inst features .closed o.walk) := by
  have hplain (slot : Nat) : .classify .statusMask slot ∉ o.walk := by
    intro hmask
    rcases statusMask_mem_walk hmask with rfl | rfl <;> cases hbranch
  obtain ⟨slot, hslot⟩ := Opcode.immediateSlots_of_isRelativeBranch hbranch
  obtain ⟨raws, hraws, hstored⟩ :=
    steps_storeRaw ho o.walk (fun _ hs => hs) haccepts hplain features .closed
  have hslots : immediateSlotsOf o .closed o.walk = [slot] := hslot
  rw [hslots] at hraws
  obtain ⟨raw, rfl, hraw⟩ := List.map_eq_singleton_iff.mp hraws.symm
  have htarget := storedImm_toInt ((isRelativeBranch_eq ho).trans hbranch) raw
  refine ⟨slot, raw, storedImm inst raw, hslot, hraw.symm, hstored, ?_, ?_, htarget⟩
  · rw [htarget]
    exact Int.emod_nonneg _ (by decide)
  · rw [htarget]
    exact Int.emod_lt_of_pos _ (by decide)

/-- The immediates of any other instruction are the raw ones, after that of a status
mask. -/
theorem build_rawImmediates (ho : Opcode.ofWord? inst.opcode = some o)
    (hother : o.isRelativeBranch = false) (haccepts : ∀ s ∈ o.walk, s.Accepts o inst) :
    StoresAsGiven o inst (storedBy o inst features .closed o.walk) := by
  by_cases hmove : o = .msr ∨ o = .t2msrM
  · obtain ⟨hslots, hstored⟩ := storedBy_statusMove hmove inst features
    refine ⟨OperandGroup.statusMask.stores o inst features 0, [], ?_, ?_, ?_⟩
    · rw [hslots]
      rfl
    · rw [hstored, List.append_nil]
    · exact (statusMask_stores o inst features 0).imp id fun hfallback => ⟨hmove, hfallback⟩
  · have hplain (slot : Nat) : .classify .statusMask slot ∉ o.walk := fun hmask =>
      hmove (statusMask_mem_walk hmask)
    obtain ⟨raws, hraws, hstored⟩ :=
      steps_storeRaw ho o.walk (fun _ hs => hs) haccepts hplain features .closed
    have hsame : raws.map (storedImm inst) = raws := by
      have hid : storedImm inst = id := by
        funext raw
        exact storedImm_eq ((isRelativeBranch_eq ho).trans hother) raw
      rw [hid, List.map_id]
    exact ⟨[], raws, hraws, hstored.trans hsame, .inl rfl⟩

/-- Relative branches store their target and all other instructions what they were
given, for every instruction that a record is built of. A record is in the group of the
relative branches exactly when its opcode is one. Then it has one immediate, and this is
the address that the offset leads to, counted from the branch modulo 2^32. Else its
immediates are the raw ones, but for that of a status mask without a register. The words
of relative branches are those whose facts have the group, and these facts are of a
branch to a fixed target. -/
theorem branch_targets_resolved (inst : RawInst) (d : Detail) (features : Features) :
    (∀ word,
      (isRelativeBranch word = true ↔
        ∃ facts, Facts.ofWord? word = some facts ∧ .branchRelative ∈ facts.groups) ∧
      ∀ facts, Facts.ofWord? word = some facts → .branchRelative ∈ facts.groups →
        facts.branch = true ∧ facts.indirectBranch = false) ∧
    ∀ m d', build inst d features = .ok (some m, d') →
      ∃ o record, Opcode.ofWord? inst.opcode = some o ∧ d'.arm? = some record ∧
        (d'.inGroup Group.branchRelative.id = true ↔ isRelativeBranch inst.opcode = true) ∧
        (d'.inGroup Group.branchRelative.id = true →
          StoresTarget o inst (immediates record.operands.toList)) ∧
        (d'.inGroup Group.branchRelative.id = false →
          StoresAsGiven o inst (immediates record.operands.toList)) := by
  refine ⟨isRelativeBranch_iff, ?_⟩
  intro m d' h
  have hword : Facts.ofWord? inst.opcode ≠ none := by
    intro hnone
    rw [build_eq_none hnone] at h
    cases h
  obtain ⟨o, facts, ho, hfacts⟩ := exists_facts hword
  obtain ⟨record, hrecord, himm, haccepts⟩ := build_immediates ho hfacts h
  have hgroup := build_inGroup_branchRelative ho hfacts h
  have hopcode := isRelativeBranch_eq ho
  refine ⟨o, record, ho, hrecord, ?_, ?_, ?_⟩
  · rw [hgroup]
  · intro hin
    rw [himm]
    exact build_target ho (by rw [← hopcode, ← hgroup, hin]) haccepts
  · intro hout
    rw [himm]
    exact build_rawImmediates ho (by rw [← hopcode, ← hgroup, hout]) haccepts

/-- A Thumb call that changes to ARM state, in the last two bytes of the address space.
It leads from address 0 back by 6 bytes. -/
def wrappingCall : RawInst where
  opcode := Opcode.tBlxi.word
  operands := ⟨[.imm 14, .reg 0, .imm (-6)], List.replicate 45 .invalid, rfl, by decide⟩
  address := 0xFFFFFFFE
  mode := .thumb

theorem wrappingCall_target_resolved :
    ∃ m d', build wrappingCall {} .none = .ok (some m, d') ∧
      d'.inGroup Group.branchRelative.id = true ∧
      ∃ record v, d'.arm? = some record ∧ immediates record.operands.toList = [v] ∧
        v.toInt = 4294967290 := by
  obtain ⟨m, d', h⟩ : ∃ m d', build wrappingCall {} .none = .ok (some m, d') :=
    ⟨_, _, rfl⟩
  obtain ⟨o, record, ho, hrecord, hgroup, htarget, -⟩ :=
    (branch_targets_resolved wrappingCall {} .none).2 m d' h
  have hin : d'.inGroup Group.branchRelative.id = true := hgroup.mpr rfl
  obtain ⟨slot, raw, v, hslots, hraw, himm, -, -, hv⟩ := htarget hin
  cases (show Opcode.ofWord? wrappingCall.opcode = some .tBlxi from rfl).symm.trans ho
  cases hslots
  cases hraw
  refine ⟨m, d', h, hin, record, v, hrecord, himm, ?_⟩
  rw [hv]
  decide

end Records

end Arm

end Disassembly
