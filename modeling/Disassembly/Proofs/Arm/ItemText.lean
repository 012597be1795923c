import Disassembly.Proofs.Arm.ItemLists
import Disassembly.Proofs.Arm.Labels

/-!
# Items are known by their text

The text of an item is a heading and a payload, after the position of the operand that the
item is about. No heading begins another, so an item other than a shift is known by its text.
-/

namespace Disassembly.Arm

/-- No text of a table begins one in another place of it. -/
def PrefixFree (table : List String) : Prop :=
  ∀ i j : Fin table.length, (table.get i).toList <+: (table.get j).toList → i = j

instance (table : List String) : Decidable (PrefixFree table) :=
  Nat.decidableForallFin _

theorem PrefixFree.append_inj {table : List String} {i j : Nat} {a b s t : String}
    (hfree : PrefixFree table) (ha : table[i]? = some a) (hb : table[j]? = some b)
    (h : a ++ s = b ++ t) : i = j ∧ s = t := by
  obtain ⟨hi, rfl⟩ := List.getElem?_eq_some_iff.mp ha
  obtain ⟨hj, rfl⟩ := List.getElem?_eq_some_iff.mp hb
  have hlists := congrArg String.toList h
  rw [String.toList_append, String.toList_append] at hlists
  have hij : i = j := by
    rcases List.prefix_or_prefix_of_prefix (List.prefix_append _ _)
      (hlists ▸ List.prefix_append _ _) with hprefix | hprefix
    · exact congrArg Fin.val (hfree ⟨j, hj⟩ ⟨i, hi⟩ hprefix).symm
    · exact congrArg Fin.val (hfree ⟨i, hi⟩ ⟨j, hj⟩ hprefix)
  subst hij
  exact ⟨rfl, String.toList_inj.mp (List.append_cancel_left hlists)⟩

namespace LineItem

variable {s : RegSpelling} {a b : LineItem} {i j : Nat} {p q : String}

/-- The position of the operand that an item is about. -/
def position : LineItem → Option Nat
  | .reg i _ | .imm i _ | .pimm i _ | .cimm i _ | .pred i _ | .sysreg i _ | .mem i
  | .memBase i _ | .memIndex i _ | .memScale i _ | .memDisp i _ | .memShift i _
  | .neonLane i _ | .vectorIndex i _ | .access i _ | .subtracted i => some i
  | _ => none

/-- The headings of all kinds of items, in the order of the kinds. -/
def headings : List String := [
  "op_count: ", ".type: REG = ", ".type: IMM = ", ".type: P-IMM = ", ".type: C-IMM = ",
  ".type: PRED = ", ".type: SYSREG = ", ".type: MEM", ".mem.base: REG = ",
  ".mem.index: REG = ", ".mem.scale: ", ".mem.disp: ", ".mem.lshift: ", ".neon_lane = ",
  ".vector_index = ", ".access: ", "Shift: ", ".subtracted = True", "Code condition: ",
  "Update-flags: True", "Write-back: True", "Predicate Mask: ", "Registers read:",
  "Registers modified:", "Groups:"]

/-- What follows the heading of an item. -/
def payload (spelling : RegSpelling) : LineItem → String
  | .operandCount n => Numeral.decimal n
  | .reg _ r | .memBase _ r | .memIndex _ r => r.label spelling
  | .imm _ value => Numeral.signedHex value.toInt
  | .pimm _ value | .cimm _ value | .pred _ value => Numeral.signedDecimal value.toInt
  | .sysreg _ r => r.label
  | .memScale _ scale => Numeral.signedDecimal scale.toInt
  | .memDisp _ disp => Numeral.signedHex disp.toInt
  | .memShift _ lshift => Numeral.hex lshift.toUInt32.toNat
  | .neonLane _ lane => Numeral.signedDecimal lane.toInt
  | .vectorIndex _ index => Numeral.signedDecimal index.toInt
  | .access _ label => label
  | .shift kind amount =>
      Numeral.decimal kind.number ++ " = " ++
        if kind.byRegister then (Register.mk amount.toUInt16).label spelling
        else Numeral.decimal amount.toNat
  | .condition cc => Numeral.decimal cc.code
  | .itLayout layout => Numeral.hex layout.toNat
  | .regsRead regs | .regsWrite regs => listing "" (regs.map (·.label spelling))
  | .groups ids => listing "" (ids.map Group.label)
  | .mem _ | .subtracted _ | .updateFlags | .writeback => ""

/-- A text at the position of an operand, or without a position. -/
def placed : Option Nat → String → String
  | some i, rest => operandField i rest
  | none, rest => rest

theorem exists_heading (item : LineItem) (s : RegSpelling) :
    ∃ heading, headings[item.ctorIdx]? = some heading ∧
      item.text s = placed item.position (heading ++ item.payload s) := by
  cases item <;> refine ⟨_, rfl, ?_⟩ <;> dsimp only [text, placed, position, payload] <;>
    simp only [operandField, listing, String.append_assoc, String.append_empty,
      String.empty_append]

theorem prefixFree_headings : PrefixFree ("operands[" :: headings) := by
  decide +kernel

theorem operandField_injective (h : operandField i p = operandField j q) : i = j ∧ p = q := by
  have hlists := congrArg String.toList h
  simp only [operandField, String.toList_append, List.append_assoc,
    List.append_cancel_left_eq] at hlists
  obtain ⟨hdigits, hrest⟩ := append_cons_inj ((Numeral.isWord_decimal i).notMem (by decide))
    ((Numeral.isWord_decimal j).notMem (by decide)) hlists
  exact ⟨Numeral.decimal_injective (String.toList_inj.mp hdigits),
    String.toList_inj.mp hrest⟩

/-- The position, the kind and the payload of an item are known by its text. -/
theorem parts_of_text (h : a.text s = b.text s) :
    a.position = b.position ∧ a.ctorIdx = b.ctorIdx ∧ a.payload s = b.payload s := by
  have hmixed {k i : Nat} {heading p q : String} (hk : headings[k]? = some heading) :
      heading ++ p ≠ operandField i q := by
    intro heq
    rw [operandField, String.append_assoc, String.append_assoc] at heq
    have hzero : ("operands[" :: headings)[0]? = some "operands[" := rfl
    obtain ⟨hkind, -⟩ := prefixFree_headings.append_inj
      (List.getElem?_cons_succ.trans hk) hzero heq
    exact Nat.succ_ne_zero k hkind
  obtain ⟨p, hp, ha⟩ := a.exists_heading s
  obtain ⟨q, hq, hb⟩ := b.exists_heading s
  have hheading {t u : String} (heq : p ++ t = q ++ u) : a.ctorIdx = b.ctorIdx ∧ t = u := by
    obtain ⟨hkind, hrest⟩ := prefixFree_headings.append_inj
      (List.getElem?_cons_succ.trans hp) (List.getElem?_cons_succ.trans hq) heq
    exact ⟨Nat.succ.inj hkind, hrest⟩
  rw [ha, hb] at h
  cases hi : a.position with
  | none =>
      cases hj : b.position with
      | none =>
          rw [hi, hj] at h
          exact ⟨rfl, hheading h⟩
      | some j =>
          rw [hi, hj] at h
          exact absurd h (hmixed hp)
  | some i =>
      cases hj : b.position with
      | none =>
          rw [hi, hj] at h
          exact absurd h.symm (hmixed hq)
      | some j =>
          rw [hi, hj] at h
          obtain ⟨rfl, hrest⟩ := operandField_injective h
          exact ⟨rfl, hheading hrest⟩

/-- An item other than a shift is known by its parts. -/
theorem eq_of_parts (hshift : ∀ kind amount, a ≠ .shift kind amount)
    (hposition : a.position = b.position) (hkind : a.ctorIdx = b.ctorIdx)
    (hpayload : a.payload s = b.payload s) : a = b := by
  cases a <;> cases b <;> dsimp only [LineItem.ctorIdx] at hkind <;> try contradiction
  case shift.shift => exact absurd rfl (hshift _ _)
  case memShift.memShift i lshift j lshift' =>
    obtain rfl := Option.some.inj hposition
    have hlshift := UInt32.toNat_inj.mp (Numeral.hex_injective hpayload)
    exact congrArg (memShift i) (congrArg Int32.ofUInt32 hlshift)
  case condition.condition cc cc' =>
    have hcode := congrArg Condition.ofCode? (Numeral.decimal_injective hpayload)
    rw [Condition.ofCode?_code, Condition.ofCode?_code] at hcode
    exact congrArg condition (Option.some.inj hcode)
  case regsRead.regsRead =>
    exact congrArg regsRead (listing_injective (fun _ _ => Register.label_injective)
      (fun r => r.isWord_label s) hpayload)
  case regsWrite.regsWrite =>
    exact congrArg regsWrite (listing_injective (fun _ _ => Register.label_injective)
      (fun r => r.isWord_label s) hpayload)
  case groups.groups =>
    exact congrArg groups (listing_injective (fun _ _ => Group.label_injective)
      Group.isWord_label hpayload)
  all_goals
    simp only [position, payload, Option.some.injEq, Numeral.decimal_inj,
      Numeral.signedDecimal_inj, Numeral.hex_inj, Numeral.signedHex_inj, Register.label_inj,
      SystemRegister.label_inj, UInt8.toNat_inj, Int8.toInt_inj, Int32.toInt_inj,
      Int64.toInt_inj] at hposition hpayload
    subst_vars
    rfl

/-- An item other than a shift is known by its text. -/
theorem text_injective (hshift : ∀ kind amount, a ≠ .shift kind amount)
    (h : a.text s = b.text s) : a = b := by
  obtain ⟨hposition, hkind, hpayload⟩ := parts_of_text h
  exact eq_of_parts hshift hposition hkind hpayload

theorem semicolon_notMem_listing {ι : Type} {label : ι → String}
    (hword : ∀ a, IsWord (label a)) (as : List ι) :
    ';' ∉ (listing "" (as.map label)).toList := by
  intro hmem
  rw [listing, String.empty_append, String.toList_join] at hmem
  obtain ⟨t, ht, hmem⟩ := List.mem_flatMap.mp hmem
  rw [List.map_map] at ht
  obtain ⟨a, -, rfl⟩ := List.mem_map.mp ht
  have hlabel : ';' ∉ (label a).toList := (hword a).notMem (by decide)
  simp [hlabel] at hmem

/-- The payload of an item other than an access has no semicolon in it. -/
theorem semicolon_notMem_payload (item : LineItem) (s : RegSpelling)
    (haccess : ∀ i label, item = .access i label → ';' ∉ label.toList) :
    ';' ∉ (item.payload s).toList := by
  have hword {t : String} (ht : IsWord t) : ';' ∉ t.toList := ht.notMem (by decide)
  cases item with
  | operandCount n => exact hword (Numeral.isWord_decimal _)
  | condition cc => exact hword (Numeral.isWord_decimal _)
  | reg i r | memBase i r | memIndex i r => exact hword (r.isWord_label s)
  | sysreg i r => exact hword r.isWord_label
  | imm i value | memDisp i value => exact hword (Numeral.isWord_signedHex _)
  | pimm i value | cimm i value | pred i value | memScale i value | neonLane i value
  | vectorIndex i value => exact hword (Numeral.isWord_signedDecimal _)
  | memShift i value => exact hword (Numeral.isWord_hex _)
  | itLayout layout => exact hword (Numeral.isWord_hex _)
  | mem i | subtracted i => exact hword (by decide : IsWord "")
  | updateFlags | writeback => exact hword (by decide : IsWord "")
  | regsRead regs | regsWrite regs =>
      exact semicolon_notMem_listing (fun r => r.isWord_label s) regs
  | groups ids => exact semicolon_notMem_listing Group.isWord_label ids
  | access i label => exact haccess i label rfl
  | shift kind amount =>
      have hkind := hword (Numeral.isWord_decimal kind.number)
      have hreg := hword ((Register.mk amount.toUInt16).isWord_label s)
      have hamount := hword (Numeral.isWord_decimal amount.toNat)
      simp only [payload, String.toList_append, List.mem_append, not_or]
      split
      · exact ⟨⟨hkind, by decide⟩, hreg⟩
      · exact ⟨⟨hkind, by decide⟩, hamount⟩

theorem semicolon_notMem_text (item : LineItem) (s : RegSpelling)
    (haccess : ∀ i label, item = .access i label → ';' ∉ label.toList) :
    ';' ∉ (item.text s).toList := by
  obtain ⟨heading, hmem, htext⟩ := item.exists_heading s
  have hheading : ∀ h ∈ headings, ';' ∉ h.toList := by simp [headings]
  have hrest : ';' ∉ heading.toList ∧ ';' ∉ (item.payload s).toList :=
    ⟨hheading heading (List.mem_of_getElem? hmem), item.semicolon_notMem_payload s haccess⟩
  rw [htext]
  cases item.position with
  | none => simpa only [placed, String.toList_append, List.mem_append, not_or] using hrest
  | some i =>
      have hi : ';' ∉ (Numeral.decimal i).toList :=
        (Numeral.isWord_decimal i).notMem (by decide)
      simp only [placed, operandField, String.toList_append, List.mem_append, not_or]
      exact ⟨⟨⟨by decide, hi⟩, by decide⟩, hrest⟩

end LineItem

end Disassembly.Arm
