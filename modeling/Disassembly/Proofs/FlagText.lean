import Mathlib.Data.List.TakeWhile
import Disassembly.FlagText
import Disassembly.Proofs.Numeral

/-!
# Flag words are read back from their text

The parts of a text, cut at the bars and without the blanks around them, are the names and
the number that were written. Each part stands for its bits, and the declared flags of a
word together with what is left are the word, whatever undeclared bits it has.
-/

namespace Disassembly

namespace Text

/-- The characters of a part of a text: none is blank or a bar, and there is one. -/
structure IsPart (part : List Char) : Prop where
  ne_nil : part ≠ []
  solid : ∀ c ∈ part, isBlank c = false ∧ c ≠ '|'

instance (part : List Char) : Decidable (IsPart part) :=
  decidable_of_iff (part ≠ [] ∧ part.all (fun c => decide (isBlank c = false ∧ c ≠ '|')) = true)
    ⟨fun h => ⟨h.1, fun c hc => of_decide_eq_true (List.all_eq_true.mp h.2 c hc)⟩,
      fun h => ⟨h.ne_nil, List.all_eq_true.mpr fun c hc => decide_eq_true (h.solid c hc)⟩⟩

/-- A character of a word is neither blank nor a bar. -/
theorem solid_of_isWord {c : Char} (h : c.isAlphanum ∨ c = '_' ∨ c = '-') :
    isBlank c = false ∧ c ≠ '|' := by
  rcases h with halnum | rfl | rfl
  · refine ⟨?_, ?_⟩
    · rw [← Bool.not_eq_true]
      intro hblank
      simp only [isBlank, Bool.or_eq_true, Bool.and_eq_true, decide_eq_true_eq, beq_iff_eq]
        at hblank
      have hletter : ((65 ≤ c.toNat ∧ c.toNat ≤ 90) ∨ (97 ≤ c.toNat ∧ c.toNat ≤ 122)) ∨
          (48 ≤ c.toNat ∧ c.toNat ≤ 57) := by
        rcases Bool.or_eq_true_iff.mp halnum with halpha | hdigit
        · rcases Bool.or_eq_true_iff.mp halpha with hupper | hlower
          · exact .inl (.inl (of_decide_eq_true hupper))
          · obtain ⟨hlo, hhi⟩ := Bool.and_eq_true_iff.mp hlower
            exact .inl (.inr ⟨of_decide_eq_true hlo, of_decide_eq_true hhi⟩)
        · exact .inr (Char.isDigit_iff_toNat.mp hdigit)
      omega
    · rintro rfl
      cases halnum
  · decide
  · decide

/-- Blanks at the two ends are removed. -/
theorem trim_blanks {lead part trail : List Char} (hlead : ∀ c ∈ lead, isBlank c = true)
    (hpart : IsPart part) (htrail : ∀ c ∈ trail, isBlank c = true) :
    trim (lead ++ part ++ trail) = part := by
  have hstop {cs : List Char} (hcs : cs ≠ []) (hsolid : ∀ c ∈ cs, isBlank c = false)
      (rest : List Char) : (cs ++ rest).dropWhile isBlank = cs ++ rest := by
    obtain ⟨c, cs, rfl⟩ := List.exists_cons_of_ne_nil hcs
    exact List.dropWhile_cons_of_neg (by rw [hsolid c List.mem_cons_self]; decide)
  have hback : ∀ c ∈ part.reverse, isBlank c = false := by
    intro c hc
    exact (hpart.solid c (List.mem_reverse.mp hc)).1
  rw [trim, List.append_assoc, List.dropWhile_append_of_pos hlead,
    hstop hpart.ne_nil (fun c hc => (hpart.solid c hc).1), List.reverse_append,
    List.dropWhile_append_of_pos (fun c hc => htrail c (List.mem_reverse.mp hc))]
  have hlast := hstop (List.reverse_ne_nil_iff.mpr hpart.ne_nil) hback []
  rw [List.append_nil] at hlast
  rw [hlast, List.reverse_reverse]

/-- A character that is not blank is left. -/
theorem trim_ne_nil {cs : List Char} {c : Char} (hc : c ∈ cs) (hsolid : isBlank c = false) :
    trim cs ≠ [] := by
  intro hnil
  rw [trim, List.reverse_eq_nil_iff, List.dropWhile_eq_nil_iff] at hnil
  rw [← List.takeWhile_append_dropWhile (p := isBlank) (l := cs), List.mem_append] at hc
  have hblank : isBlank c = true := by
    rcases hc with hc | hc
    · exact List.mem_takeWhile_imp hc
    · exact hnil c (List.mem_reverse.mpr hc)
  rw [hsolid] at hblank
  cases hblank

/-- A text without a separator is one piece. -/
theorem pieces_of_notMem {sep : Char} {cs : List Char} (h : sep ∉ cs) : pieces sep cs = [cs] := by
  induction cs with
  | nil => rfl
  | cons c cs ih =>
      obtain ⟨hc, hcs⟩ := not_or.mp (mt List.mem_cons.mpr h)
      rw [pieces, if_neg (Ne.symm hc), ih hcs]

/-- What stands before the first separator is the first piece. -/
theorem pieces_append {sep : Char} {cs : List Char} (h : sep ∉ cs) (rest : List Char) :
    pieces sep (cs ++ sep :: rest) = cs :: pieces sep rest := by
  induction cs with
  | nil => rw [List.nil_append, pieces, if_pos rfl]
  | cons c cs ih =>
      obtain ⟨hc, hcs⟩ := not_or.mp (mt List.mem_cons.mpr h)
      rw [List.cons_append, pieces, if_neg (Ne.symm hc), ih hcs]

theorem mem_intercalate {part : List Char} {c : Char} (sep : List Char) (hc : c ∈ part)
    (parts : List (List Char)) : c ∈ sep.intercalate (part :: parts) := by
  cases parts with
  | nil =>
      rw [List.intercalate_singleton]
      exact hc
  | cons next parts =>
      rw [List.intercalate_cons_cons, List.append_assoc]
      exact List.mem_append_left _ hc

/-- Parts that are joined with a bar between blanks are the pieces of the text. -/
theorem trim_pieces {parts : List (List Char)} (hne : parts ≠ [])
    (hparts : ∀ part ∈ parts, IsPart part) {lead : List Char} (hlead : ∀ c ∈ lead, c = ' ') :
    (pieces '|' (lead ++ [' ', '|', ' '].intercalate parts)).map trim = parts := by
  have hblank : ∀ c ∈ lead, isBlank c = true ∧ c ≠ '|' := by
    intro c hc
    rw [hlead c hc]
    decide
  induction parts generalizing lead with
  | nil => exact absurd rfl hne
  | cons part parts ih =>
      have hpart := hparts part List.mem_cons_self
      have hbar : '|' ∉ lead ++ part := by
        intro hmem
        rcases List.mem_append.mp hmem with hmem | hmem
        · exact (hblank _ hmem).2 rfl
        · exact (hpart.solid _ hmem).2 rfl
      cases parts with
      | nil =>
          have htrim := trim_blanks (fun c hc => (hblank c hc).1) hpart (List.forall_mem_nil _)
          rw [List.append_nil] at htrim
          rw [List.intercalate_singleton, pieces_of_notMem hbar, List.map_singleton, htrim]
      | cons next parts =>
          have hspace : ∀ c ∈ [' '], isBlank c = true := List.forall_mem_singleton.mpr rfl
          have hbar' : '|' ∉ lead ++ part ++ [' '] := by
            intro hmem
            rcases List.mem_append.mp hmem with hmem | hmem
            · exact hbar hmem
            · exact absurd hmem (by decide)
          have hrest : (pieces '|' ([' '] ++ [' ', '|', ' '].intercalate (next :: parts))).map
              trim = next :: parts :=
            ih nofun (fun p hp => hparts p (List.mem_cons_of_mem part hp))
              (List.forall_mem_singleton.mpr rfl) (List.forall_mem_singleton.mpr (by decide))
          have hjoin : lead ++ [' ', '|', ' '].intercalate (part :: next :: parts) =
              lead ++ part ++ [' '] ++
                '|' :: ([' '] ++ [' ', '|', ' '].intercalate (next :: parts)) := by
            rw [List.intercalate_cons_cons]
            simp only [List.append_assoc, List.cons_append, List.nil_append]
          rw [hjoin, pieces_append hbar', List.map_cons, hrest,
            trim_blanks (fun c hc => (hblank c hc).1) hpart hspace]

end Text

namespace FlagNames

/-- Names that stand for one bit each, or for none, and that are told apart in a text. -/
structure WellFormed (names : FlagNames) : Prop where
  distinct : (names.flags.map (·.1)).Nodup
  /-- No name begins like a number. -/
  part : ∀ flag ∈ names.flags, Text.IsPart flag.1.toList ∧ flag.1.toList.head? ≠ some '0'
  bit : ∀ flag ∈ names.flags, flag.2 = 0 ∨ ∃ i < names.width, flag.2 = 1 <<< i

instance (names : FlagNames) : Decidable names.WellFormed :=
  decidable_of_iff ((names.flags.map (·.1)).Nodup ∧
      (∀ flag ∈ names.flags, Text.IsPart flag.1.toList ∧ flag.1.toList.head? ≠ some '0') ∧
      ∀ flag ∈ names.flags, flag.2 = 0 ∨ ∃ i < names.width, flag.2 = 1 <<< i)
    ⟨fun h => ⟨h.1, h.2.1, h.2.2⟩, fun h => ⟨h.distinct, h.part, h.bit⟩⟩

section Words
variable {names : FlagNames}

/-- A declared name stands for its bits. -/
theorem lookup_of_mem {flags : List (String × Nat)} (hdistinct : (flags.map (·.1)).Nodup)
    {flag : String × Nat} (hflag : flag ∈ flags) : flags.lookup flag.1 = some flag.2 := by
  induction flags with
  | nil => cases hflag
  | cons first flags ih =>
      obtain ⟨hnew, hdistinct⟩ := List.nodup_cons.mp hdistinct
      rcases List.mem_cons.mp hflag with rfl | hflag
      · exact List.lookup_cons_self
      · have hne : (flag.1 == first.1) = false := by
          rw [beq_eq_false_iff_ne]
          intro heq
          have hkey : flag.1 ∈ flags.map (·.1) := List.mem_map_of_mem hflag
          rw [heq] at hkey
          exact hnew hkey
        rw [List.lookup_cons, hne]
        exact ih hdistinct hflag

theorem WellFormed.partValue?_name (h : names.WellFormed) {flag : String × Nat}
    (hflag : flag ∈ names.flags) : names.partValue? flag.1.toList = some flag.2 := by
  have hlookup := lookup_of_mem h.distinct hflag
  rw [partValue?.eq_def]
  split
  next digits hdigits =>
      have hhead := (h.part flag hflag).2
      rw [hdigits] at hhead
      exact absurd rfl hhead
  next => rw [String.ofList_toList, hlookup]

theorem toList_hex (n : Nat) :
    (Numeral.hex n).toList = '0' :: 'x' :: Nat.toDigits 16 n := by
  rw [Numeral.hex, String.toList_append, Numeral.toList_hexDigits]
  rfl

/-- A hexadecimal number stands for itself if it fits the word. -/
theorem partValue?_hex {rest : Nat} (hrest : rest < 1 <<< names.width) :
    names.partValue? (Numeral.hex rest).toList = some rest := by
  have hvalue : signedHexValue? (Nat.toDigits 16 rest) = some rest := by
    have hread := Numeral.foldlM_toDigits (by decide) (Nat.le_refl 16) rest
    cases hcs : Nat.toDigits 16 rest with
    | nil => exact absurd hcs Nat.toDigits_ne_nil
    | cons c cs =>
        have hc : c.isAlphanum :=
          Numeral.isAlphanum_of_mem_toDigits (by decide) (Nat.le_refl 16)
            (hcs ▸ List.mem_cons_self)
        rw [hcs] at hread
        rw [signedHexValue?.eq_def]
        split
        next cs' heq =>
            cases heq
            cases hc
        next => exact hread
  rw [toList_hex, partValue?, hvalue, Option.filter_some, if_pos (decide_eq_true hrest)]

theorem testBit_foldl_or {ι : Type} (part : ι → Nat) (items : List ι) (bits i : Nat) :
    (items.foldl (fun bits item => bits ||| part item) bits).testBit i =
      (bits.testBit i || items.any fun item => (part item).testBit i) := by
  induction items generalizing bits with
  | nil => rw [List.foldl_nil, List.any_nil, Bool.or_false]
  | cons item items ih =>
      rw [List.foldl_cons, ih, Nat.testBit_or, List.any_cons, Bool.or_assoc]

theorem testBit_declared (i : Nat) :
    names.declared.testBit i = names.flags.any (·.2.testBit i) := by
  rw [declared, testBit_foldl_or Prod.snd, Nat.zero_testBit, Bool.false_or]

/-- What is left of a word are its undeclared bits. -/
theorem testBit_remainder (bits i : Nat) :
    (names.remainder bits).testBit i = (bits.testBit i && !names.declared.testBit i) := by
  rw [remainder, Nat.testBit_xor, Nat.testBit_and]
  cases bits.testBit i <;> cases names.declared.testBit i <;> rfl

/-- A single bit is in a word exactly if it is set there. -/
theorem and_bit {bits i : Nat} (h : bits.testBit i = true) : bits &&& 1 <<< i = 1 <<< i := by
  apply Nat.eq_of_testBit_eq
  intro j
  rw [Nat.testBit_and, Nat.one_shiftLeft, Nat.testBit_two_pow]
  by_cases hj : i = j
  · rw [← hj, h, Bool.true_and]
  · rw [decide_eq_false hj, Bool.and_false]

/-- The bits of the declared flags of a word are its declared bits. -/
theorem WellFormed.any_present (h : names.WellFormed) (bits i : Nat) :
    (names.present bits).any (·.2.testBit i) = (bits.testBit i && names.declared.testBit i) := by
  rw [testBit_declared, Bool.eq_iff_iff, Bool.and_eq_true, List.any_eq_true, List.any_eq_true]
  constructor
  · rintro ⟨flag, hflag, hbit⟩
    obtain ⟨hflag, hset⟩ := List.mem_filter.mp hflag
    have hand : bits &&& flag.2 = flag.2 := eq_of_beq (Bool.and_eq_true_iff.mp hset).2
    refine ⟨?_, flag, hflag, hbit⟩
    rw [← hand, Nat.testBit_and, Bool.and_eq_true] at hbit
    exact hbit.1
  · rintro ⟨hset, flag, hflag, hbit⟩
    refine ⟨flag, List.mem_filter.mpr ⟨hflag, ?_⟩, hbit⟩
    rcases h.bit flag hflag with hzero | ⟨j, -, hpower⟩
    · rw [hzero, Nat.zero_testBit] at hbit
      cases hbit
    · have hij : j = i := by
        rw [hpower, Nat.one_shiftLeft, Nat.testBit_two_pow] at hbit
        exact of_decide_eq_true hbit
      have hne : flag.2 ≠ 0 := by
        intro hzero
        rw [hzero, Nat.zero_testBit] at hbit
        cases hbit
      rw [Bool.and_eq_true, hpower, hij, and_bit hset]
      exact ⟨decide_eq_true (hij ▸ hpower ▸ hne), beq_self_eq_true _⟩

/-- The parts of the text of a word, each with the bits that it stands for. -/
def entries (names : FlagNames) (bits : Nat) : List (String × Nat) :=
  let rest := names.remainder bits
  names.present bits ++ if rest = 0 then [] else [(Numeral.hex rest, rest)]

theorem write_eq (names : FlagNames) (bits : Nat) :
    names.write bits = " | ".intercalate ((names.entries bits).map (·.1)) := by
  rw [write, entries, List.map_append]
  split <;> rfl

theorem WellFormed.or_entries (h : names.WellFormed) (bits : Nat) :
    (names.entries bits).foldl (fun bits entry => bits ||| entry.2) 0 = bits := by
  apply Nat.eq_of_testBit_eq
  intro i
  have hrest : (if names.remainder bits = 0 then []
      else [(Numeral.hex (names.remainder bits), names.remainder bits)]).any (·.2.testBit i) =
        (bits.testBit i && !names.declared.testBit i) := by
    rw [← testBit_remainder]
    split
    next hzero => rw [hzero, Nat.zero_testBit, List.any_nil]
    next => rw [List.any_cons, List.any_nil, Bool.or_false]
  rw [testBit_foldl_or Prod.snd, Nat.zero_testBit, Bool.false_or, entries, List.any_append,
    h.any_present, hrest]
  cases bits.testBit i <;> cases names.declared.testBit i <;> rfl

theorem remainder_lt {bits : Nat} (hbits : bits < 1 <<< names.width) :
    names.remainder bits < 1 <<< names.width := by
  rw [Nat.one_shiftLeft] at hbits ⊢
  exact Nat.xor_lt_two_pow hbits (Nat.lt_of_le_of_lt Nat.and_le_left hbits)

/-- Every part of a text is a part that stands for its bits. -/
theorem WellFormed.entry (h : names.WellFormed) {bits : Nat} (hbits : bits < 1 <<< names.width)
    {entry : String × Nat} (hentry : entry ∈ names.entries bits) :
    Text.IsPart entry.1.toList ∧ names.partValue? entry.1.toList = some entry.2 := by
  rcases List.mem_append.mp hentry with hflag | hrest
  · have hflag := (List.mem_filter.mp hflag).1
    exact ⟨(h.part entry hflag).1, h.partValue?_name hflag⟩
  · have hlt := remainder_lt hbits
    split at hrest
    next => cases hrest
    next =>
        rw [List.mem_singleton.mp hrest]
        have hpart : Text.IsPart (Numeral.hex (names.remainder bits)).toList := by
          constructor
          case ne_nil =>
            rw [toList_hex]
            exact List.cons_ne_nil _ _
          case solid =>
            intro c hc
            exact Text.solid_of_isWord (Numeral.isWord_hex _ c hc)
        exact ⟨hpart, partValue?_hex hlt⟩

/-- Parts that stand for their bits are read one after the other. -/
theorem foldlM_entries {entries : List (String × Nat)}
    (h : ∀ entry ∈ entries, names.partValue? entry.1.toList = some entry.2) (bits : Nat) :
    (entries.map (·.1.toList)).foldlM
        (fun bits part => (names.partValue? part).map (bits ||| ·)) bits =
      some (entries.foldl (fun bits entry => bits ||| entry.2) bits) := by
  induction entries generalizing bits with
  | nil => rfl
  | cons entry entries ih =>
      rw [List.map_cons, List.foldlM_cons, h entry List.mem_cons_self]
      exact ih (fun other hother => h other (List.mem_cons_of_mem entry hother)) _

/-- The text of a word is read as the word, with the bits that have no name. -/
theorem WellFormed.read?_write (h : names.WellFormed) {bits : Nat}
    (hbits : bits < 1 <<< names.width) : names.read? (names.write bits) = some bits := by
  have hentries : ∀ entry ∈ names.entries bits,
      Text.IsPart entry.1.toList ∧ names.partValue? entry.1.toList = some entry.2 :=
    fun entry hentry => h.entry hbits hentry
  have hor := h.or_entries bits
  have htext : (names.write bits).toList =
      [' ', '|', ' '].intercalate ((names.entries bits).map (·.1.toList)) := by
    rw [write_eq, String.toList_intercalate, List.map_map]
    rfl
  rw [read?, htext]
  generalize names.entries bits = entries at hentries hor
  cases entries with
  | nil =>
      rw [← hor]
      rfl
  | cons entry rest =>
      have hparts : ∀ part ∈ (entry :: rest).map (·.1.toList), Text.IsPart part := by
        intro part hpart
        obtain ⟨other, hother, rfl⟩ := List.mem_map.mp hpart
        exact (hentries other hother).1
      have htrim : (Text.pieces '|' ([' ', '|', ' '].intercalate
          ((entry :: rest).map (·.1.toList)))).map Text.trim = (entry :: rest).map (·.1.toList) :=
        Text.trim_pieces (List.cons_ne_nil _ _) hparts (List.forall_mem_nil _)
      have hfirst := (hentries entry List.mem_cons_self).1
      obtain ⟨c, cs, hcs⟩ := List.exists_cons_of_ne_nil hfirst.ne_nil
      have hc : c ∈ entry.1.toList := hcs ▸ List.mem_cons_self
      have hvisible := Text.trim_ne_nil
        (Text.mem_intercalate [' ', '|', ' '] hc (rest.map (·.1.toList))) (hfirst.solid c hc).1
      have hfold := foldlM_entries (fun other hother => (hentries other hother).2) 0
      rw [← htrim, List.foldlM_map, hor] at hfold
      rw [if_neg (by rw [List.isEmpty_iff]; exact hvisible)]
      exact hfold

end Words

end FlagNames

end Disassembly
