import Mathlib.Data.List.Nodup
import Disassembly.Proofs.FlagText
import Disassembly.Proofs.X86.ModeIndependence

/-!
# The flag section of an x86 line

The last field of a line names the flag effects of an instruction: the floating point ones if
it is in the floating point group, and otherwise those on the processor flags. The names are
those of the set bits, from the lowest one on. A bit without a name is never shown, and neither
is the other word, but any bit of the two words makes the field appear.
-/

namespace Disassembly.X86

/-- The names of the set bits of a word, from the lowest one on. -/
def setNames (names : List String) (bits : UInt64) : List String :=
  (names.zipIdx.filter fun p => bits.toNat.testBit p.2).map (·.1)

/-- The names of the bits of a processor flag word. -/
def processorNames : List String := [
  "MOD_AF", "MOD_CF", "MOD_SF", "MOD_ZF", "MOD_PF", "MOD_OF", "MOD_TF", "MOD_IF",
  "MOD_DF", "MOD_NT", "MOD_RF", "PRIOR_OF", "PRIOR_SF", "PRIOR_ZF", "PRIOR_AF", "PRIOR_PF",
  "PRIOR_CF", "PRIOR_TF", "PRIOR_IF", "PRIOR_DF", "PRIOR_NT", "RESET_OF", "RESET_CF",
  "RESET_DF", "RESET_IF", "RESET_SF", "RESET_AF", "RESET_TF", "RESET_NT", "RESET_PF",
  "SET_CF", "SET_DF", "SET_IF", "TEST_OF", "TEST_SF", "TEST_ZF", "TEST_PF", "TEST_CF",
  "TEST_NT", "TEST_DF", "UNDEF_OF", "UNDEF_SF", "UNDEF_ZF", "UNDEF_PF", "UNDEF_AF",
  "UNDEF_CF", "RESET_RF", "TEST_RF", "TEST_IF", "TEST_TF", "TEST_AF", "RESET_ZF", "SET_OF",
  "SET_SF", "SET_ZF", "SET_AF", "SET_PF", "RESET_0F", "RESET_AC"]

/-- The names of the bits of a floating point flag word. -/
def floatingPointNames : List String := [
  "MOD_C0", "MOD_C1", "MOD_C2", "MOD_C3", "RESET_C0", "RESET_C1", "RESET_C2", "RESET_C3",
  "SET_C0", "SET_C1", "SET_C2", "SET_C3", "UNDEF_C0", "UNDEF_C1", "UNDEF_C2", "UNDEF_C3",
  "TEST_C0", "TEST_C1", "TEST_C2", "TEST_C3"]

namespace FlagEffect

theorem shortNames_processor : processor.map shortName = processorNames := by decide

theorem shortNames_floatingPoint : floatingPoint.map shortName = floatingPointNames := by decide

section Words
variable {effects : List FlagEffect} {bits : UInt64}

/-- The effects of the set bits of a word, each with its bit. -/
def setEffects (effects : List FlagEffect) (bits : UInt64) : List (FlagEffect × Nat) :=
  effects.zipIdx.filter fun p => bits.toNat.testBit p.2

theorem setNames_map (effects : List FlagEffect) (bits : UInt64) :
    setNames (effects.map shortName) bits =
      (setEffects effects bits).map fun p => p.1.shortName := by
  rw [setNames, List.zipIdx_map, List.filter_map, List.map_map]
  rfl

/-- The flag of a bit is present if the bit is set. -/
theorem present_bit_iff (word i : Nat) :
    (decide (1 <<< i ≠ 0) && (word &&& 1 <<< i) == 1 <<< i) = word.testBit i := by
  have hbit : (1 <<< i).testBit i = true := by
    rw [Nat.one_shiftLeft, Nat.testBit_two_pow_self]
  have hne : 1 <<< i ≠ 0 := by
    intro hzero
    rw [hzero, Nat.zero_testBit] at hbit
    cases hbit
  rw [decide_eq_true hne, Bool.true_and, Bool.eq_iff_iff, beq_iff_eq]
  constructor
  · intro hand
    rw [← hand, Nat.testBit_and, Bool.and_eq_true] at hbit
    exact hbit.1
  · exact FlagNames.and_bit

/-- The declared flags of a word are those of its set bits. -/
theorem present_flagNames (effects : List FlagEffect) (bits : UInt64) :
    ((flagNames effects).present bits.toNat).map (·.2) =
      (setEffects effects bits).map fun p => 1 <<< p.2 := by
  rw [FlagNames.present, flagNames, List.filter_map, List.map_map, setEffects]
  simp only [Function.comp_def, present_bit_iff]

/-- A bit of a word has the name of its effect. -/
theorem bitName?_bit {i : Nat} (hi : i < 64) :
    bitName? effects (.ofNat (1 <<< i)) = effects[i]?.map shortName := by
  have hword : (UInt64.ofNat (1 <<< i)).toNat = 2 ^ i := by
    rw [UInt64.toNat_ofNat', Nat.one_shiftLeft,
      Nat.mod_eq_of_lt (Nat.pow_lt_pow_right (by decide) hi)]
  have hbits : (List.range 64).filter (2 ^ i).testBit = [i] := by
    have hbeq : (2 ^ i).testBit = (· == i) := by
      funext j
      rw [Nat.testBit_two_pow]
      exact decide_eq_decide.mpr eq_comm
    rw [hbeq, List.filter_beq, List.count_eq_one_of_mem List.nodup_range (List.mem_range.mpr hi)]
    rfl
  rw [bitName?, hword, hbits]

/-- A word without a declared bit has no name. -/
theorem bitName?_eq_none (h : ∀ i < effects.length, bits.toNat.testBit i = false) :
    bitName? effects bits = none := by
  rw [bitName?]
  split
  next i hbits =>
      have hi : i ∈ (List.range 64).filter bits.toNat.testBit := by
        rw [hbits]
        exact List.mem_singleton_self i
      have hlarge : effects.length ≤ i := by
        by_contra hlt
        rw [List.mem_filter, h i (by omega)] at hi
        cases hi.2
      rw [List.getElem?_eq_none hlarge]
      rfl
  next => rfl

theorem testBit_declared_flagNames {i : Nat} (hi : i < effects.length) :
    (flagNames effects).declared.testBit i = true := by
  rw [FlagNames.testBit_declared, List.any_eq_true]
  refine ⟨(effects[i].longName, 1 <<< i), List.mem_map.mpr ⟨(effects[i], i), ?_, rfl⟩, ?_⟩
  · exact List.mk_mem_zipIdx_iff_getElem?.mpr (List.getElem?_eq_getElem hi)
  · rw [Nat.one_shiftLeft, Nat.testBit_two_pow_self]

/-- What is left of a word has no name. -/
theorem bitName?_remainder (effects : List FlagEffect) (bits : UInt64) :
    bitName? effects (.ofNat ((flagNames effects).remainder bits.toNat)) = none := by
  have hlt : (flagNames effects).remainder bits.toNat < 2 ^ 64 := by
    have hbits : bits.toNat < 1 <<< (flagNames effects).width := by
      rw [Nat.one_shiftLeft]
      exact bits.toNat_lt
    have hrest := FlagNames.remainder_lt hbits
    rwa [Nat.one_shiftLeft] at hrest
  apply bitName?_eq_none
  intro i hi
  rw [UInt64.toNat_ofNat', Nat.mod_eq_of_lt hlt, FlagNames.testBit_remainder,
    testBit_declared_flagNames hi, Bool.not_true, Bool.and_false]

/-- The parts of a word are named after its set bits. -/
theorem partNames_eq (heffects : effects.length ≤ 64) (bits : UInt64) :
    partNames effects bits = setNames (effects.map shortName) bits := by
  have hset : ∀ p ∈ setEffects effects bits,
      bitName? effects (.ofNat (1 <<< p.2)) = some p.1.shortName := by
    intro p hp
    have hget := List.mk_mem_zipIdx_iff_getElem?.mp (List.mem_filter.mp hp).1
    have hi := (List.getElem?_eq_some_iff.mp hget).1
    rw [bitName?_bit (by omega), hget]
    rfl
  have hrest : (if (flagNames effects).remainder bits.toNat = 0 then []
      else [(flagNames effects).remainder bits.toNat]).filterMap
        (fun part => bitName? effects (.ofNat part)) = [] := by
    split
    · rfl
    · exact List.filterMap_cons_none (bitName?_remainder effects bits)
  have hparts := List.filterMap_congr hset
  rw [partNames, FlagNames.components, List.filterMap_append, hrest, List.append_nil,
    present_flagNames, setNames_map, List.filterMap_map]
  exact hparts.trans (congrFun List.filterMap_eq_map' _)

end Words

end FlagEffect

/-- Bits without a name do not matter. -/
theorem setNames_congr {names : List String} {bits bits' : UInt64}
    (h : ∀ i < names.length, bits.toNat.testBit i = bits'.toNat.testBit i) :
    setNames names bits = setNames names bits' := by
  rw [setNames, setNames]
  congr 1
  apply List.filter_congr
  intro p hp
  exact h p.2 (List.snd_lt_of_mem_zipIdx hp)

/-- The names of effects, each after a blank, behind a heading. -/
def headedNames (heading : String) (names : List String) : String :=
  " | " ++ heading ++ String.join (names.map (" " ++ ·))

/-- The end of a line that is about flags. -/
def flagSection (floatingPoint : Bool) (eflags fpuFlags : UInt64) : String :=
  if eflags = 0 ∧ fpuFlags = 0 then ""
  else if floatingPoint then headedNames "FPU_FLAGS:" (setNames floatingPointNames fpuFlags)
  else headedNames "EFLAGS:" (setNames processorNames eflags)

theorem barred_flagFields (r : Record) (floatingPoint : Bool) :
    barred (r.flagFields floatingPoint) =
      flagSection floatingPoint r.eflags.bits r.fpuFlags.bits := by
  have hprocessor : r.eflags.partNames = setNames processorNames r.eflags.bits := by
    rw [EFlags.partNames, FlagEffect.partNames_eq (by decide), FlagEffect.shortNames_processor]
  have hfloating : r.fpuFlags.partNames = setNames floatingPointNames r.fpuFlags.bits := by
    rw [FpuFlags.partNames, FlagEffect.partNames_eq (by decide),
      FlagEffect.shortNames_floatingPoint]
  rw [Record.flagFields, flagSection]
  split_ifs
  · rfl
  · rw [barred_singleton, hfloating, headedNames, String.append_assoc]
    rfl
  · rw [barred_singleton, hprocessor, headedNames, String.append_assoc]
    rfl

/-- A field about flags. -/
def LineField.isFlags : LineField → Bool
  | .fpuFlags _ | .eflags _ => true
  | _ => false

/-- Fields none of which is about flags. -/
def NoFlags (fields : List LineField) : Prop := ∀ field ∈ fields, field.isFlags = false

section Fields

theorem noFlags_append {fields more : List LineField} :
    NoFlags (fields ++ more) ↔ NoFlags fields ∧ NoFlags more :=
  List.forall_mem_append

theorem LineField.isFlags_eq (field : LineField) :
    field.isFlags = decide (field.part = .flags) := by
  cases field <;> rfl

/-- The flags are a part of their own. -/
theorem AllIn.noFlags {part : LinePart} {fields : List LineField} (h : AllIn part fields)
    (hpart : part ≠ .flags) : NoFlags fields := by
  intro field hfield
  obtain ⟨rfl, -⟩ := h field hfield
  rw [field.isFlags_eq, decide_eq_false hpart]

/-- The fields of a record before those about flags. -/
def Record.frontFields (r : Record) (access : RegAccess) (mode : Mode) : List LineField :=
  r.headerFields ++ (if mode.contains .bits16 then [] else r.sibFields) ++
    r.conditionFields ++ r.immediateFields ++ r.operandFields ++ accessFields access

theorem frontFields_noFlags (r : Record) (access : RegAccess) (mode : Mode) :
    NoFlags (r.frontFields access mode) := by
  simp only [Record.frontFields, noFlags_append]
  exact ⟨⟨⟨⟨⟨r.headerFields_part.noFlags (by decide),
    r.sibFields_part.omitted.noFlags (by decide)⟩, r.conditionFields_part.noFlags (by decide)⟩,
    r.immediateFields_part.noFlags (by decide)⟩, r.operandFields_part.noFlags (by decide)⟩,
    (accessFields_part access).noFlags (by decide)⟩

end Fields

/-- The record with other flag words. -/
def Record.withFlags (r : Record) (eflags fpuFlags : UInt64) : Record :=
  { r with eflags := ⟨eflags⟩, fpuFlags := ⟨fpuFlags⟩ }

section Lines
variable {d : Detail} {r : Record}

/-- Flag words have a part in a line by its end only. -/
theorem detailLine_withFlags (h : d.x86? = some r) (mode : Mode) :
    ∃ access, ∀ eflags fpuFlags : UInt64,
      detailLine (some { d with payload := .x86 (r.withFlags eflags fpuFlags) }) mode =
        .ok (barred (r.frontFields access mode) ++
          flagSection (d.inGroup Group.fpu.id) eflags fpuFlags) := by
  obtain ⟨access, haccess, -⟩ := exists_regAccess h
  refine ⟨access, ?_⟩
  intro eflags fpuFlags
  let d' : Detail := { d with payload := .x86 (r.withFlags eflags fpuFlags) }
  have hrecord : d'.x86? = some (r.withFlags eflags fpuFlags) := rfl
  -- The summary of the registers does not look at the flag words.
  have haccess' : regAccess d' = .ok access := by
    rw [← haccess, regAccess, regAccess, h, hrecord]
    rfl
  have hsection := barred_flagFields (r.withFlags eflags fpuFlags) (d'.inGroup Group.fpu.id)
  rw [detailLine_parts hrecord haccess', barred_append, hsection]
  rfl

/-- For any record, the fields of a line but the last are none about flags, and the last is
there unless both flag words are zero. It names the set bits of the floating point word in the
floating point group, and those of the processor word outside of it. As long as the field is
there, bits without a name change nothing, and neither does the word that is not shown. -/
theorem flagSection_ends_line (h : d.x86? = some r) (mode : Mode) :
    ∃ front, NoFlags front ∧
      (∀ eflags fpuFlags : UInt64,
        detailLine (some { d with payload := .x86 (r.withFlags eflags fpuFlags) }) mode =
          .ok (barred front ++
            if eflags = 0 ∧ fpuFlags = 0 then ""
            else if d.inGroup Group.fpu.id then
              headedNames "FPU_FLAGS:" (setNames floatingPointNames fpuFlags)
            else headedNames "EFLAGS:" (setNames processorNames eflags))) ∧
      ∀ eflags fpuFlags eflags' fpuFlags' : UInt64, (eflags = 0 ∧ fpuFlags = 0 ↔
          eflags' = 0 ∧ fpuFlags' = 0) →
        (if d.inGroup Group.fpu.id then
            ∀ i < 20, fpuFlags.toNat.testBit i = fpuFlags'.toNat.testBit i
          else ∀ i < 59, eflags.toNat.testBit i = eflags'.toNat.testBit i) →
        detailLine (some { d with payload := .x86 (r.withFlags eflags fpuFlags) }) mode =
          detailLine (some { d with payload := .x86 (r.withFlags eflags' fpuFlags') }) mode := by
  obtain ⟨access, hline⟩ := detailLine_withFlags h mode
  refine ⟨r.frontFields access mode, frontFields_noFlags r access mode, hline, ?_⟩
  intro eflags fpuFlags eflags' fpuFlags' hzero hagree
  rw [hline, hline, flagSection, flagSection]
  simp only [hzero]
  split_ifs at hagree ⊢
  · rfl
  · rfl
  · have hnames : setNames floatingPointNames fpuFlags = setNames floatingPointNames fpuFlags' :=
      setNames_congr hagree
    rw [hnames]
  · have hnames : setNames processorNames eflags = setNames processorNames eflags' :=
      setNames_congr hagree
    rw [hnames]

end Lines

/-- An instruction in the floating point group. -/
def floatingDetail : Detail :=
  { Detail.x86 with groups := ⟨[Group.fpu.id], List.replicate 7 0, rfl, by decide⟩ }

/-- With two bits that have a name and one that has none, and whatever processor flags. -/
theorem flagSection_ends_line_floating :
    floatingDetail.x86? = some {} ∧
    ∃ front, NoFlags front ∧
      detailLine (some { floatingDetail with
          payload := .x86 (({} : Record).withFlags 2 0x100003) }) .bits64 =
        .ok (barred front ++ " | FPU_FLAGS: MOD_C0 MOD_C1") ∧
      detailLine (some { floatingDetail with
          payload := .x86 (({} : Record).withFlags 2 0x100003) }) .bits64 =
        detailLine (some { floatingDetail with
          payload := .x86 (({} : Record).withFlags 0 3) }) .bits64 := by
  obtain ⟨front, hfront, hline, hcongr⟩ :=
    flagSection_ends_line (d := floatingDetail) (r := {}) rfl .bits64
  have hsection : headedNames "FPU_FLAGS:" (setNames floatingPointNames 0x100003) =
      " | FPU_FLAGS: MOD_C0 MOD_C1" := by decide +kernel
  refine ⟨rfl, front, hfront, ?_, hcongr 2 0x100003 0 3 (by decide) ?_⟩
  · rw [hline, if_neg (by decide), if_pos (by decide), hsection]
  · rw [if_pos (by decide)]
    decide +kernel

end Disassembly.X86
