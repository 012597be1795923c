import Disassembly.Proofs.X86.Rendering

/-!
# What a mode has to do with an x86 line

Only the scale-index-base byte is shown or left out with the mode. Outside of 16-bit mode its
fields are one block behind the displacement, and in 16-bit mode they have no part in the line.
-/

namespace Disassembly.X86

namespace Record

/-- The header up to the displacement. -/
def encodingText (r : Record) : String :=
  barred [.legacyPrefix r.legacyPrefix.toList, .opcode r.opcode.toList, .rex r.rex,
    .addressSize r.addressSize, .modrm r.modrm]

/-- The displacement, which closes the header. -/
def dispText (r : Record) : String := " | disp: " ++ Numeral.hex r.disp.toUInt64.toNat

/-- The block of the scale-index-base byte: the byte itself, and each of its parts that is not
zero. -/
def sibText (r : Record) : String :=
  " | sib: " ++ Numeral.hex r.sib.toNat ++
    (if r.sibBase ≠ .absent then " | sib_base: " ++ r.sibBase.label else "") ++
    (if r.sibIndex ≠ .absent then " | sib_index: " ++ r.sibIndex.label else "") ++
    (if r.sibScale ≠ 0 then " | sib_scale: " ++ Numeral.signedDecimal r.sibScale.toInt else "")

/-- The record with another scale-index-base byte and other parts of it. -/
def withSib (r : Record) (sib : UInt8) (base index : Register) (scale : Int8) : Record :=
  { r with sib, sibBase := base, sibIndex := index, sibScale := scale }

/-- The fields behind those of the scale-index-base byte. -/
def fieldsBehindSib (r : Record) (access : RegAccess) (floatingPoint : Bool) : List LineField :=
  r.conditionFields ++ r.immediateFields ++ r.operandFields ++ accessFields access ++
    r.flagFields floatingPoint

theorem barred_headerFields (r : Record) :
    barred r.headerFields = r.encodingText ++ r.dispText := by
  have hheader : r.headerFields = [.legacyPrefix r.legacyPrefix.toList,
    .opcode r.opcode.toList, .rex r.rex, .addressSize r.addressSize, .modrm r.modrm] ++
      [.disp r.disp] := rfl
  have hdisp : " | disp: " = " | " ++ "disp: " := by decide
  rw [hheader, barred_append, barred_singleton, dispText, hdisp, String.append_assoc]
  rfl

theorem barred_sibFields (r : Record) : barred r.sibFields = r.sibText := by
  have hsib : " | sib: " = " | " ++ "sib: " := by decide
  have hbase : " | sib_base: " = " | " ++ "sib_base: " := by decide
  have hindex : " | sib_index: " = " | " ++ "sib_index: " := by decide
  have hscale : " | sib_scale: " = " | " ++ "sib_scale: " := by decide
  rw [sibFields, barred_append, barred_append, barred_append, barred_singleton, barred_fieldIf,
    barred_fieldIf, barred_fieldIf, sibText]
  dsimp only [LineField.text]
  simp only [decide_eq_true_eq, hsib, hbase, hindex, hscale, String.append_assoc]

end Record

section Lines
variable {d : Detail} {r : Record} {mode mode' : Mode}

/-- The line of a record in any mode. -/
theorem detailLine_eq (h : d.x86? = some r) :
    ∃ access, regAccess d = .ok access ∧ ∀ mode : Mode, detailLine (some d) mode =
      .ok (r.encodingText ++ r.dispText ++
        (if mode.contains .bits16 then "" else r.sibText) ++
        barred (r.fieldsBehindSib access (d.inGroup Group.fpu.id))) := by
  obtain ⟨access, haccess, -⟩ := exists_regAccess h
  refine ⟨access, haccess, ?_⟩
  intro mode
  have hsib : barred (if mode.contains .bits16 then [] else r.sibFields) =
      if mode.contains .bits16 then "" else r.sibText := by
    cases mode.contains .bits16 with
    | true => rfl
    | false => exact r.barred_sibFields
  have hline : detailLine (some d) mode = .ok (barred (r.headerFields ++
      (if mode.contains .bits16 then [] else r.sibFields) ++
        r.fieldsBehindSib access (d.inGroup Group.fpu.id))) := by
    simp only [detailLine_parts h haccess, Record.fieldsBehindSib, List.append_assoc]
  rw [hline, barred_append, barred_append, r.barred_headerFields, hsib]

/-- The mode has no other part in a line. -/
theorem detailLine_congr (d : Option Detail) (h : mode.contains .bits16 = mode'.contains .bits16) :
    detailLine d mode = detailLine d mode' := by
  cases d with
  | none => rfl
  | some d => simp only [detailLine, lineFields, h]

end Lines

/-- A mode has a part in an x86 line only by whether it is a 16-bit mode. In such a mode the
scale-index-base byte and its parts have none. In any other mode the line is that of the 16-bit
modes with the block of the scale-index-base byte inserted behind the displacement. -/
theorem mode_shows_sib :
    (∀ (d : Option Detail) (mode mode' : Mode),
      mode.contains .bits16 = mode'.contains .bits16 →
        detailLine d mode = detailLine d mode') ∧
    ∀ (d : Detail) (r : Record), d.x86? = some r →
      (∀ (mode : Mode) (sib : UInt8) (base index : Register) (scale : Int8),
        mode.contains .bits16 = true →
          detailLine (some { d with payload := .x86 (r.withSib sib base index scale) }) mode =
            detailLine (some d) mode) ∧
      ∃ rest, ∀ mode : Mode,
        (mode.contains .bits16 = true →
          detailLine (some d) mode = .ok (r.encodingText ++ r.dispText ++ rest)) ∧
        (mode.contains .bits16 = false →
          detailLine (some d) mode =
            .ok (r.encodingText ++ r.dispText ++ r.sibText ++ rest)) := by
  refine ⟨fun d mode mode' => detailLine_congr d, ?_⟩
  intro d r h
  obtain ⟨access, haccess, hline⟩ := detailLine_eq h
  constructor
  · intro mode sib base index scale hmode
    let d' : Detail := { d with payload := .x86 (r.withSib sib base index scale) }
    have h' : d'.x86? = some (r.withSib sib base index scale) := rfl
    obtain ⟨access', haccess', hline'⟩ := detailLine_eq h'
    have hsame : regAccess d' = regAccess d := by
      rw [regAccess, regAccess, h, h']
      rfl
    obtain rfl : access' = access := Except.ok.inj (haccess'.symm.trans (hsame.trans haccess))
    rw [hline, hline', if_pos hmode, if_pos hmode]
    rfl
  · refine ⟨barred (r.fieldsBehindSib access (d.inGroup Group.fpu.id)), ?_⟩
    intro mode
    constructor
    · intro hmode
      rw [hline, if_pos hmode, String.append_empty]
    · intro hmode
      rw [hline, if_neg (Bool.eq_false_iff.mp hmode)]

/-- A record with a scale-index-base byte that has a base and a scale but no index. -/
def basedOnly : Record where
  opcode := #v[0x8d, 0, 0, 0]
  modrm := 0x44
  sib := 0x65
  disp := -8
  sibBase := ⟨20⟩
  sibScale := 2

theorem mode_shows_sib_basedOnly :
    let d : Detail := { payload := .x86 basedOnly }
    let header := " | Prefix:0x00 0x00 0x00 0x00  | Opcode:0x8d 0x00 0x00 0x00 " ++
      " | rex: 0x0 | addr_size: 0 | modrm: 0x44 | disp: 0xfffffffffffffff8"
    detailLine (some d) (Mode.bits32.union .v8) = detailLine (some d) .bits64 ∧
    detailLine (some { payload := .x86 (basedOnly.withSib 0 .absent ⟨7⟩ 0) }) .bits16 =
      detailLine (some d) .bits16 ∧
    ∃ rest, detailLine (some d) .bits16 = .ok (header ++ rest) ∧
      detailLine (some d) .bits32 =
        .ok (header ++ " | sib: 0x65 | sib_base: ebp | sib_scale: 2" ++ rest) := by
  intro d header
  obtain ⟨hagree, hsplit⟩ := mode_shows_sib
  obtain ⟨hhidden, rest, hlines⟩ := hsplit d basedOnly rfl
  have hheader : basedOnly.encodingText ++ basedOnly.dispText = header := by decide +kernel
  have hsib : basedOnly.sibText = " | sib: 0x65 | sib_base: ebp | sib_scale: 2" := by
    decide +kernel
  refine ⟨?_, ?_, rest, ?_, ?_⟩
  · exact hagree (some d) (Mode.bits32.union .v8) .bits64 rfl
  · exact hhidden .bits16 0 .absent ⟨7⟩ 0 rfl
  · rw [(hlines .bits16).1 rfl, hheader]
  · rw [(hlines .bits32).2 rfl, hheader, hsib]

end Disassembly.X86
