import Disassembly.Proofs.Numeral
import Disassembly.Proofs.Pieces
import Disassembly.X86.Line

/-!
# Parts and pieces of an x86 line

The fields of a line come in parts. A part has fields of its own kinds, and the names that they
show are from a list of its own, so what is known of a part need not be asked of each field again.
The text of a line is cut at the bars. A field is one piece, but an access for reading and writing
has a bar in its name and is two. Only the fields about the immediates have a piece that begins
like one.
-/

namespace Disassembly.X86

/-- The parts of a line, from its beginning to its end. -/
inductive LinePart where
  | header | sib | conditions | immediates | operands | registers | flags
deriving DecidableEq, Repr

/-- The names that the fields of a part can show. -/
def LinePart.names : LinePart → List String
  | .operands => ["READ", "WRITE", "READ | WRITE"]
  | .flags => (FlagEffect.processor ++ FlagEffect.floatingPoint).map FlagEffect.shortName
  | _ => []

namespace LineField

/-- The part of a line that a field belongs to. -/
def part : LineField → LinePart
  | .legacyPrefix _ | .opcode _ | .rex _ | .addressSize _ | .modrm _ | .disp _ => .header
  | .sib _ | .sibBase _ | .sibIndex _ | .sibScale _ => .sib
  | .xopCondition _ | .sseCondition _ | .avxCondition _ | .avxSuppress | .avxRounding _ =>
      .conditions
  | .immediateCount _ | .immediate _ _ => .immediates
  | .operandCount _ | .reg _ _ | .imm _ _ | .mem _ | .memSegment _ _ | .memBase _ _
  | .memIndex _ _ | .memScale _ _ | .memDisp _ _ | .avxBroadcast _ _ | .avxZeroMask _
  | .size _ _ | .access _ _ => .operands
  | .regsRead _ | .regsWrite _ => .registers
  | .fpuFlags _ | .eflags _ => .flags

/-- The names that a field shows as it has them. -/
def names : LineField → List String
  | .access _ label => [label]
  | .fpuFlags names | .eflags names => names
  | _ => []

end LineField

/-- All fields belong to one part, and show only names of that part. -/
def AllIn (part : LinePart) (fields : List LineField) : Prop :=
  ∀ field ∈ fields, field.part = part ∧ ∀ name ∈ field.names, name ∈ part.names

section Parts
variable {part : LinePart} {field : LineField} {fields more : List LineField}

@[simp] theorem allIn_nil : AllIn part [] := List.forall_mem_nil _

@[simp] theorem allIn_cons : AllIn part (field :: fields) ↔
    (field.part = part ∧ ∀ name ∈ field.names, name ∈ part.names) ∧ AllIn part fields :=
  List.forall_mem_cons

@[simp] theorem allIn_append : AllIn part (fields ++ more) ↔ AllIn part fields ∧ AllIn part more :=
  List.forall_mem_append

@[simp] theorem allIn_fieldIf {condition : Bool} : AllIn part (fieldIf condition field) ↔
    (condition = true → field.part = part ∧ ∀ name ∈ field.names, name ∈ part.names) := by
  cases condition <;> simp [fieldIf]

/-- Fields that are left out under a condition. -/
theorem AllIn.omitted {condition : Bool} (h : AllIn part fields) :
    AllIn part (if condition then [] else fields) := by
  cases condition with
  | true => exact allIn_nil
  | false => exact h

theorem OperandValue.lineFields_part (value : OperandValue) (i : Nat) :
    AllIn .operands (value.lineFields i) := by
  cases value <;> simp [OperandValue.lineFields, LineField.part, LineField.names]

theorem Operand.lineFields_part (op : Operand) (i : Nat) : AllIn .operands (op.lineFields i) := by
  have haccess : AllIn .operands (op.access.label?.map (LineField.access i)).toList := by
    rw [Access.label?]
    split_ifs <;> simp [LineField.part, LineField.names, LinePart.names]
  simp [Operand.lineFields, LineField.part, LineField.names, op.value.lineFields_part i, haccess]

/-- A word shows only names of effects. -/
theorem FlagEffect.mem_of_mem_partNames {effects : List FlagEffect} {bits : UInt64}
    {name : String} (h : name ∈ partNames effects bits) : name ∈ effects.map shortName := by
  obtain ⟨part, -, hpart⟩ := List.mem_filterMap.mp h
  rw [bitName?] at hpart
  split at hpart
  next i _ =>
      obtain ⟨effect, heffect, rfl⟩ := Option.map_eq_some_iff.mp hpart
      exact List.mem_map_of_mem (List.mem_of_getElem? heffect)
  next => cases hpart

namespace Record

variable (r : Record)

theorem headerFields_part : AllIn .header r.headerFields := by
  simp [headerFields, LineField.part, LineField.names]

theorem sibFields_part : AllIn .sib r.sibFields := by
  simp [sibFields, LineField.part, LineField.names]

theorem conditionFields_part : AllIn .conditions r.conditionFields := by
  simp [conditionFields, LineField.part, LineField.names]

theorem immediateFields_part : AllIn .immediates r.immediateFields := by
  rw [immediateFields]
  split
  · exact allIn_nil
  · refine allIn_cons.mpr ⟨⟨rfl, List.forall_mem_nil _⟩, ?_⟩
    intro field hfield
    obtain ⟨nth, -, rfl⟩ := List.mem_map.mp hfield
    exact ⟨rfl, List.forall_mem_nil _⟩

theorem operandFields_part : AllIn .operands r.operandFields := by
  rw [operandFields, allIn_append, allIn_fieldIf]
  refine ⟨fun _ => ⟨rfl, List.forall_mem_nil _⟩, ?_⟩
  intro field hfield
  obtain ⟨p, -, hfield⟩ := List.mem_flatMap.mp hfield
  exact p.1.lineFields_part p.2 field hfield

theorem flagFields_part (floatingPoint : Bool) : AllIn .flags (r.flagFields floatingPoint) := by
  have hnames : LinePart.flags.names = FlagEffect.processor.map FlagEffect.shortName ++
      FlagEffect.floatingPoint.map FlagEffect.shortName := List.map_append
  rw [flagFields]
  split_ifs
  · exact allIn_nil
  all_goals
    refine List.forall_mem_singleton.mpr ⟨rfl, ?_⟩
    intro name hname
    rw [hnames, List.mem_append]
  · exact .inr (FlagEffect.mem_of_mem_partNames hname)
  · exact .inl (FlagEffect.mem_of_mem_partNames hname)

end Record

theorem accessFields_part (access : RegAccess) : AllIn .registers (accessFields access) := by
  simp [accessFields, LineField.part, LineField.names]

end Parts

/-- A text that is not cut. -/
def Barless (text : String) : Prop := '|' ∉ text.toList

instance (text : String) : Decidable (Barless text) :=
  inferInstanceAs (Decidable ('|' ∉ text.toList))

section Barless
variable {s t : String} {texts : List String}

theorem barless_of_isWord (h : IsWord t) : Barless t := h.notMem (by decide)

theorem Barless.append (hs : Barless s) (ht : Barless t) : Barless (s ++ t) := by
  rw [Barless, String.toList_append, List.mem_append, not_or]
  exact ⟨hs, ht⟩

theorem Barless.join (h : ∀ t ∈ texts, Barless t) : Barless (String.join texts) := by
  rw [Barless, String.toList_join]
  intro hmem
  obtain ⟨t, ht, hmem⟩ := List.mem_flatMap.mp hmem
  exact h t ht hmem

theorem Register.barless_label (r : Register) : Barless r.label := by
  have hnames : ∀ name ∈ names, Barless name := by decide
  rw [label, name?]
  split
  · exact .append (by decide) (barless_of_isWord (Numeral.isWord_decimal _))
  · cases hname : names[r.id.toNat - 1]? with
    | some name => exact hnames name (List.mem_of_getElem? hname)
    | none => exact .append (by decide) (barless_of_isWord (Numeral.isWord_decimal _))

namespace LineField

theorem barless_listing (hheading : Barless s) (h : ∀ t ∈ texts, Barless t) :
    Barless (listing s texts) := by
  refine hheading.append (.join ?_)
  intro t ht
  obtain ⟨text, htext, rfl⟩ := List.mem_map.mp ht
  exact .append (by decide) (h text htext)

theorem barless_byteListing (hheading : Barless s) (bytes : List UInt8) :
    Barless (byteListing s bytes) := by
  refine hheading.append (.join ?_)
  intro t ht
  obtain ⟨byte, -, rfl⟩ := List.mem_map.mp ht
  exact .append (barless_of_isWord (Numeral.isWord_hexByte byte)) (by decide)

theorem barless_ofOperand (i : Nat) (h : Barless t) : Barless (ofOperand i t) :=
  .append (.append (.append (by decide) (barless_of_isWord (Numeral.isWord_decimal i)))
    (by decide)) h

theorem barless_labels (regs : List Register) : ∀ t ∈ regs.map (·.label), Barless t := by
  intro t ht
  obtain ⟨r, -, rfl⟩ := List.mem_map.mp ht
  exact r.barless_label

/-- A field has no bar in it but those of its names. -/
theorem barless_text (field : LineField) (h : ∀ name ∈ field.names, Barless name) :
    Barless field.text := by
  have hdecimal (n : Nat) := barless_of_isWord (Numeral.isWord_decimal n)
  have hhex (n : Nat) := barless_of_isWord (Numeral.isWord_hex n)
  have hsigned (i : Int) := barless_of_isWord (Numeral.isWord_signedDecimal i)
  cases field with
  | legacyPrefix bytes | opcode bytes => exact barless_byteListing (by decide) bytes
  | rex value | modrm value | disp value | sib value => exact .append (by decide) (hhex _)
  | addressSize value | xopCondition value | sseCondition value | avxCondition value
  | avxRounding value | immediateCount n | operandCount n =>
      exact .append (by decide) (hdecimal _)
  | sibBase r | sibIndex r => exact .append (by decide) r.barless_label
  | sibScale value => exact .append (by decide) (hsigned _)
  | avxSuppress => exact (by decide : Barless "avx_sae: 1")
  | immediate nth value =>
      exact .append (.append (.append (by decide) (hdecimal nth)) (by decide)) (hhex _)
  | mem i | avxZeroMask i => exact barless_ofOperand i (by decide)
  | reg i r | memSegment i r | memBase i r | memIndex i r =>
      exact .append (barless_ofOperand i (by decide)) r.barless_label
  | imm i value | memDisp i value => exact .append (barless_ofOperand i (by decide)) (hhex _)
  | memScale i value => exact .append (barless_ofOperand i (by decide)) (hsigned _)
  | avxBroadcast i value | size i value =>
      exact .append (barless_ofOperand i (by decide)) (hdecimal _)
  | access i label =>
      exact .append (barless_ofOperand i (by decide)) (h label List.mem_cons_self)
  | regsRead regs | regsWrite regs => exact barless_listing (by decide) (barless_labels regs)
  | fpuFlags names | eflags names => exact barless_listing (by decide) h

end LineField

end Barless

/-- The text of fields, each after a bar. -/
def barred (fields : List LineField) : String :=
  String.join (fields.map fun field => " | " ++ field.text)

/-- A text between blanks. -/
def spaced (text : String) : List Char := ' ' :: text.toList ++ [' ']

/-- What stands before each bar of a line and behind the last one. A blank is put behind the
line, so that one stands behind every field. -/
def linePieces (line : String) : List (List Char) := (line.toList ++ [' ']).splitOn '|'

/-- The pieces of a line that begin like the count of the immediates or like one of them. -/
def immediatePieces (line : String) : List (List Char) :=
  (linePieces line).filter (" imm".toList <+: ·)

/-- The pieces of a text between blanks that begin so. -/
def immediatesIn (text : String) : List (List Char) :=
  ((spaced text).splitOn '|').filter (" imm".toList <+: ·)

section Texts
variable {part : LinePart} {field : LineField} {fields : List LineField} {t : String}

theorem barred_append (fields more : List LineField) :
    barred (fields ++ more) = barred fields ++ barred more := by
  rw [barred, List.map_append, String.join_append, barred, barred]

theorem barred_cons (field : LineField) (fields : List LineField) :
    barred (field :: fields) = " | " ++ field.text ++ barred fields := by
  rw [barred, List.map_cons, String.join_cons, barred]

theorem barred_singleton (field : LineField) : barred [field] = " | " ++ field.text := rfl

/-- A field that is shown under a condition. -/
theorem barred_fieldIf (condition : Bool) (field : LineField) :
    barred (fieldIf condition field) = if condition then " | " ++ field.text else "" := by
  cases condition <;> rfl

/-- With a blank behind it, a line is a blank and then its fields between blanks, each opened by
a bar. -/
theorem toList_barred (fields : List LineField) :
    (barred fields).toList ++ [' '] =
      [' '] ++ (fields.map fun field => spaced field.text).flatMap ('|' :: ·) := by
  induction fields with
  | nil => rfl
  | cons field fields ih =>
      rw [barred_cons, String.toList_append, String.toList_append, List.append_assoc,
        List.append_assoc, ih]
      simp [spaced]

/-- The pieces of a line are those of its fields, behind the blank that it begins with. -/
theorem linePieces_barred (fields : List LineField) :
    linePieces (barred fields) =
      [' '] :: fields.flatMap fun field => (spaced field.text).splitOn '|' := by
  rw [linePieces, toList_barred, splitOn_append_flatMap_opened, List.flatMap_map]
  rfl

/-- The immediates of a line are those of its fields. -/
theorem immediatePieces_barred (fields : List LineField) :
    immediatePieces (barred fields) = fields.flatMap fun field => immediatesIn field.text := by
  rw [immediatePieces, linePieces_barred, List.filter_cons_of_neg (by simp), List.filter_flatMap]
  rfl

theorem immediatesIn_append_bar (s t : String) :
    immediatesIn (s ++ " | " ++ t) = immediatesIn s ++ immediatesIn t := by
  have hspaced : spaced (s ++ " | " ++ t) = spaced s ++ '|' :: spaced t := by simp [spaced]
  rw [immediatesIn, hspaced, splitOn_append_cons, List.filter_append]
  rfl

/-- A text that is not cut is an immediate if it begins like one. -/
theorem immediatesIn_of_barless (ht : Barless t) :
    immediatesIn t = if " imm".toList <+: spaced t then [spaced t] else [] := by
  have hbar : '|' ∉ spaced t := by simpa [spaced, Barless] using ht
  rw [immediatesIn, List.splitOn_eq_singleton hbar, List.filter_cons, List.filter_nil]
  simp only [decide_eq_true_eq]

/-- A field begins like an immediate if it is about the immediates. -/
theorem LineField.startsImmediate_iff (field : LineField) :
    " imm".toList <+: spaced field.text ↔ field.part = .immediates := by
  cases field <;> simp [part, text, spaced, byteListing, byte, ofOperand, listing]

theorem LineField.immediatesIn_text (h : ∀ name ∈ field.names, Barless name) :
    immediatesIn field.text = if field.part = .immediates then [spaced field.text] else [] := by
  rw [immediatesIn_of_barless (field.barless_text h)]
  simp only [field.startsImmediate_iff]

/-- An access shows no immediate, whether it is one piece or two. -/
theorem immediatesIn_access (i : Nat) {label : String} (h : label ∈ LinePart.operands.names) :
    immediatesIn (LineField.access i label).text = [] := by
  have hbarless {label : String} (hlabel : Barless label) :
      immediatesIn (LineField.access i label).text = [] :=
    LineField.immediatesIn_text (List.forall_mem_singleton.mpr hlabel)
  simp only [LinePart.names, List.mem_cons, List.not_mem_nil, or_false] at h
  rcases h with rfl | rfl | rfl
  · exact hbarless (by decide)
  · exact hbarless (by decide)
  · -- the bar of this label cuts the field in two, and the second piece is another word
    have htext : (LineField.access i "READ | WRITE").text =
        (LineField.access i "READ").text ++ " | " ++ "WRITE" := by
      have hlabel : "READ | WRITE" = "READ" ++ (" | " ++ "WRITE") := by decide
      simp only [LineField.text, hlabel, String.append_assoc]
    rw [htext, immediatesIn_append_bar, hbarless (by decide), List.nil_append]
    decide

/-- A part shows its fields as immediates, or nothing at all. -/
theorem AllIn.immediates (h : AllIn part fields) :
    (fields.flatMap fun field => immediatesIn field.text) =
      if part = .immediates then fields.map fun field => spaced field.text else [] := by
  have hfield : ∀ field ∈ fields, immediatesIn field.text =
      if part = .immediates then [spaced field.text] else [] := by
    intro field hmem
    obtain ⟨rfl, hnames⟩ := h field hmem
    cases field with
    | access i label => exact immediatesIn_access i (hnames label List.mem_cons_self)
    | fpuFlags names | eflags names =>
        -- the names come from the tables of effects, so it is enough to look there
        have hall : ∀ name ∈ LinePart.flags.names, Barless name := by decide +kernel
        exact LineField.immediatesIn_text fun name hname => hall name (hnames name hname)
    | _ => exact LineField.immediatesIn_text nofun
  rw [List.flatMap_congr hfield]
  split
  · exact List.flatMap_pure_eq_map _ _
  · exact List.flatMap_eq_nil_iff.mpr fun _ _ => rfl

end Texts

end Disassembly.X86
