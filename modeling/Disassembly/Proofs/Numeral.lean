import Disassembly.Numeral

/-!
# Numerals tell numbers apart

Two numbers with the same decimal or hexadecimal text are equal, with a sign or without one.
A numeral consists of letters, digits and a minus sign.
-/

namespace Disassembly

/-- A text of letters, digits, underscores and minus signs. -/
def IsWord (text : String) : Prop :=
  ∀ c ∈ text.toList, c.isAlphanum ∨ c = '_' ∨ c = '-'

instance (text : String) : Decidable (IsWord text) :=
  List.decidableBAll (fun c : Char => c.isAlphanum = true ∨ c = '_' ∨ c = '-') text.toList

namespace IsWord

variable {s t : String} {c : Char}

theorem append (hs : IsWord s) (ht : IsWord t) : IsWord (s ++ t) := by
  intro c hc
  rw [String.toList_append, List.mem_append] at hc
  exact hc.elim (hs c) (ht c)

/-- A character that is none of those of words is in no word. -/
theorem notMem (h : IsWord s) (hc : ¬ (c.isAlphanum ∨ c = '_' ∨ c = '-')) :
    c ∉ s.toList := fun hmem => hc (h c hmem)

end IsWord

namespace Numeral

section Digits
variable {base n m d : Nat}

theorem hexDigit?_digitChar (h : d < 16) : hexDigit? d.digitChar = some d := by
  have hall : ∀ d < 16, hexDigit? d.digitChar = some d := by decide
  exact hall d h

theorem isAlphanum_digitChar (h : d < 16) : d.digitChar.isAlphanum := by
  have hall : ∀ d < 16, d.digitChar.isAlphanum := by decide
  exact hall d h

/-- Digits are read back as the number. -/
theorem foldlM_toDigits (hbase : 1 < base) (hle : base ≤ 16) (n : Nat) :
    (base.toDigits n).foldlM (fun n c => (hexDigit? c).map (base * n + ·)) 0 = some n := by
  induction n using Nat.strongRecOn with
  | ind n ih =>
      rw [Nat.toDigits_eq_if hbase]
      by_cases hn : n < base
      · rw [if_pos hn, List.foldlM_cons, hexDigit?_digitChar (by omega)]
        simp
      · have hrest := ih (n / base) (Nat.div_lt_self (by omega) hbase)
        have hlast : n % base < 16 := Nat.lt_of_lt_of_le (Nat.mod_lt n (by omega)) hle
        rw [if_neg hn, List.foldlM_append, hrest]
        simp [hexDigit?_digitChar hlast, Nat.div_add_mod]

/-- A number is known by its digits. -/
theorem toDigits_injective (hbase : 1 < base) (hle : base ≤ 16)
    (h : base.toDigits n = base.toDigits m) : n = m := by
  have hn := foldlM_toDigits hbase hle n
  rw [h, foldlM_toDigits hbase hle m] at hn
  exact (Option.some.inj hn).symm

theorem isAlphanum_of_mem_toDigits (hbase : 1 < base) (hle : base ≤ 16) {c : Char}
    (h : c ∈ base.toDigits n) : c.isAlphanum := by
  induction n using Nat.strongRecOn with
  | ind n ih =>
      rw [Nat.toDigits_eq_if hbase] at h
      split at h
      next hn =>
          rw [List.mem_singleton.mp h]
          exact isAlphanum_digitChar (by omega)
      next hn =>
          rcases List.mem_append.mp h with hc | hc
          · exact ih (n / base) (Nat.div_lt_self (by omega) hbase) hc
          · rw [List.mem_singleton.mp hc]
            exact isAlphanum_digitChar
              (Nat.lt_of_lt_of_le (Nat.mod_lt n (by omega)) hle)

end Digits

section Texts
variable {n m : Nat} {i j : Int}

@[simp] theorem toList_decimal (n : Nat) : (decimal n).toList = Nat.toDigits 10 n :=
  String.toList_ofList

@[simp] theorem toList_hexDigits (n : Nat) : (hexDigits n).toList = Nat.toDigits 16 n :=
  String.toList_ofList

theorem decimal_injective (h : decimal n = decimal m) : n = m := by
  have hdigits := congrArg String.toList h
  rw [toList_decimal, toList_decimal] at hdigits
  exact toDigits_injective (by decide) (by decide) hdigits

@[simp] theorem decimal_inj : decimal n = decimal m ↔ n = m :=
  ⟨decimal_injective, congrArg decimal⟩

theorem hex_injective (h : hex n = hex m) : n = m := by
  have hdigits := congrArg String.toList h
  simp only [hex, String.toList_append, toList_hexDigits, List.append_cancel_left_eq] at hdigits
  exact toDigits_injective (by decide) (by decide) hdigits

@[simp] theorem hex_inj : hex n = hex m ↔ n = m :=
  ⟨hex_injective, congrArg hex⟩

theorem isWord_decimal (n : Nat) : IsWord (decimal n) := by
  intro c hc
  rw [toList_decimal] at hc
  exact .inl (isAlphanum_of_mem_toDigits (by decide) (by decide) hc)

theorem isWord_hexDigits (n : Nat) : IsWord (hexDigits n) := by
  intro c hc
  rw [toList_hexDigits] at hc
  exact .inl (isAlphanum_of_mem_toDigits (by decide) (by decide) hc)

theorem isWord_hex (n : Nat) : IsWord (hex n) := .append (by decide) (isWord_hexDigits n)

theorem isWord_hexByte (b : UInt8) : IsWord (hexByte b) := by
  rw [hexByte]
  split
  · exact .append (by decide) (isWord_hexDigits _)
  · exact isWord_hex _

/-- A sign before the text of the absolute value tells integers apart, if that text tells
numbers apart and never has a sign of its own. -/
theorem signed_injective {text : Nat → String} (htext : ∀ {n m}, text n = text m → n = m)
    (hsign : ∀ n, (text n).toList.head? ≠ some '-')
    (h : (if i < 0 then "-" ++ text i.natAbs else text i.natAbs) =
      if j < 0 then "-" ++ text j.natAbs else text j.natAbs) : i = j := by
  have hdiffer (n m : Nat) : "-" ++ text n ≠ text m := by
    intro heq
    apply hsign m
    rw [← heq, String.toList_append]
    rfl
  by_cases hi : i < 0
  · by_cases hj : j < 0
    · rw [if_pos hi, if_pos hj] at h
      have hlists := congrArg String.toList h
      rw [String.toList_append, String.toList_append, List.append_cancel_left_eq,
        String.toList_inj] at hlists
      have habs := htext hlists
      omega
    · rw [if_pos hi, if_neg hj] at h
      exact absurd h (hdiffer _ _)
  · by_cases hj : j < 0
    · rw [if_neg hi, if_pos hj] at h
      exact absurd h.symm (hdiffer _ _)
    · rw [if_neg hi, if_neg hj] at h
      have habs := htext h
      omega

theorem signedDecimal_injective (h : signedDecimal i = signedDecimal j) : i = j := by
  apply signed_injective decimal_injective _ h
  intro n hhead
  have hmem := List.mem_of_mem_head? hhead
  rw [toList_decimal] at hmem
  exact absurd (isAlphanum_of_mem_toDigits (by decide) (by decide) hmem) (by decide)

@[simp] theorem signedDecimal_inj : signedDecimal i = signedDecimal j ↔ i = j :=
  ⟨signedDecimal_injective, congrArg signedDecimal⟩

theorem signedHex_injective (h : signedHex i = signedHex j) : i = j := by
  apply signed_injective hex_injective _ h
  intro n hhead
  rw [hex, String.toList_append] at hhead
  exact absurd (Option.some.inj hhead) (by decide)

@[simp] theorem signedHex_inj : signedHex i = signedHex j ↔ i = j :=
  ⟨signedHex_injective, congrArg signedHex⟩

theorem isWord_signed {text : Nat → String} (htext : ∀ n, IsWord (text n)) (i : Int) :
    IsWord (if i < 0 then "-" ++ text i.natAbs else text i.natAbs) := by
  split
  · exact .append (by decide) (htext _)
  · exact htext _

theorem isWord_signedDecimal (i : Int) : IsWord (signedDecimal i) :=
  isWord_signed isWord_decimal i

theorem isWord_signedHex (i : Int) : IsWord (signedHex i) := isWord_signed isWord_hex i

end Texts

end Numeral

end Disassembly
