import Mathlib.Tactic.SplitIfs
import Disassembly.Json.Text
import Disassembly.Json.Token
import Disassembly.Proofs.Numeral

/-!
# Written scalars are read as one token

The characters that a scalar is written as are scanned as the token that stands for it,
whatever comes after a string, and before a comma, a closing bracket or the end of the text
after a number.
-/

namespace Disassembly.Json

namespace Token

/-- A token at the start of a text that is not blank is the first one. -/
theorem scan_of_next? {c : Char} {cs after : List Char} {token : Token}
    (hc : isBlank c = false) (h : next? (c :: cs) = some (token, after)) :
    scan (c :: cs) = token :: scan after := by
  rw [scan, hc]
  simp only [Bool.false_eq_true, if_false]
  split
  next hnone =>
      rw [hnone] at h
      cases h
  next token' after' hsome =>
      rw [hsome] at h
      cases h
      rfl

theorem scan_openArr (cs : List Char) : scan ('[' :: cs) = .openArr :: scan cs :=
  scan_of_next? rfl rfl

theorem scan_closeArr (cs : List Char) : scan (']' :: cs) = .closeArr :: scan cs :=
  scan_of_next? rfl rfl

theorem scan_openObj (cs : List Char) : scan ('\x7b' :: cs) = .openObj :: scan cs :=
  scan_of_next? rfl rfl

theorem scan_closeObj (cs : List Char) : scan ('\x7d' :: cs) = .closeObj :: scan cs :=
  scan_of_next? rfl rfl

theorem scan_comma (cs : List Char) : scan (',' :: cs) = .comma :: scan cs :=
  scan_of_next? rfl rfl

theorem scan_colon (cs : List Char) : scan (':' :: cs) = .colon :: scan cs :=
  scan_of_next? rfl rfl

end Token

open Token

section Strings
variable {c : Char} {cs rest : List Char}

/-- One unit more at the start. -/
def consUnit (unit : Nat) (result : List Nat × List Char) : List Nat × List Char :=
  (unit :: result.1, result.2)

theorem units?_plain (hquote : c ≠ '"') (hslash : c ≠ '\\') (hvisible : ¬ c.toNat < 0x20) :
    units? (c :: cs) = (units? cs).map (consUnit c.toNat) := by
  rw [units?.eq_def]
  split
  next heq => cases heq
  next heq =>
      cases heq
      exact absurd rfl hquote
  next heq =>
      cases heq
      exact absurd rfl hslash
  next heq =>
      cases heq
      exact absurd rfl hslash
  next heq =>
      cases heq
      rw [if_neg (by rintro (h | h); exact hvisible h; exact hslash h)]
      cases units? cs <;> rfl

/-- A control character is written as the four digits of its number. -/
theorem units?_numbered (hcontrol : c.toNat < 0x20) :
    units? ('\\' :: 'u' :: '0' :: '0' :: Nat.digitChar (c.toNat / 16) ::
      Nat.digitChar (c.toNat % 16) :: cs) = (units? cs).map (consUnit c.toNat) := by
  have hvalue : ∀ n < 0x20, Numeral.hexValue? ['0', '0', Nat.digitChar (n / 16),
      Nat.digitChar (n % 16)] = some n := by decide
  rw [units?, hvalue _ hcontrol]
  cases units? cs <;> rfl

/-- A letter after a backslash stands for its character. -/
theorem units?_letter {letter : Char} {unit : Nat} (hletter : letter ≠ 'u')
    (hunit : escaped? letter = some unit) :
    units? ('\\' :: letter :: cs) = (units? cs).map (consUnit unit) := by
  rw [units?.eq_def]
  split
  next heq => cases heq
  next heq => cases heq
  next heq =>
      cases heq
      exact absurd rfl hletter
  next heq =>
      cases heq
      rw [hunit]
      cases units? cs <;> rfl
  next hnone heq =>
      cases heq
      exact (hnone _ _ rfl rfl).elim

/-- What a character is written as stands for the character. -/
theorem units?_escape (c : Char) (cs : List Char) :
    units? (escape c ++ cs) = (units? cs).map (consUnit c.toNat) := by
  rw [escape]
  split_ifs with hquote hslash hback hfeed hline hreturn htab hcontrol
  · rw [hquote]
    exact units?_letter (by decide) rfl
  · rw [hslash]
    exact units?_letter (by decide) rfl
  · rw [hback]
    exact units?_letter (by decide) rfl
  · rw [hfeed]
    exact units?_letter (by decide) rfl
  · rw [hline]
    exact units?_letter (by decide) rfl
  · rw [hreturn]
    exact units?_letter (by decide) rfl
  · rw [htab]
    exact units?_letter (by decide) rfl
  · exact units?_numbered hcontrol
  · exact units?_plain hquote hslash hcontrol

/-- The characters of a string are read back as their code points. -/
theorem units?_quoted (cs rest : List Char) :
    units? (cs.flatMap escape ++ '"' :: rest) = some (cs.map Char.toNat, rest) := by
  induction cs with
  | nil => rfl
  | cons c cs ih =>
      rw [List.flatMap_cons, List.append_assoc, units?_escape, ih]
      rfl

/-- A character is no half of a surrogate pair. -/
theorem not_surrogate (c : Char) : ¬ (0xD800 ≤ c.toNat ∧ c.toNat < 0xE000) := by
  have hvalid : c.toNat < 0xD800 ∨ 0xDFFF < c.toNat ∧ c.toNat < 0x110000 := c.valid
  omega

theorem ofUnits?_toNat (cs : List Char) : ofUnits? (cs.map Char.toNat) = some cs := by
  induction cs with
  | nil => rfl
  | cons c cs ih =>
      have hwhole := not_surrogate c
      have hhigh : ¬ (0xD800 ≤ c.toNat ∧ c.toNat < 0xDC00) := by omega
      have hlow : ¬ (0xDC00 ≤ c.toNat ∧ c.toNat < 0xE000) := by omega
      simp only [List.map_cons, ofUnits?.eq_def (c.toNat :: _), if_neg hhigh, if_neg hlow, ih,
        Option.map_some, Char.ofNat_toNat]

theorem scan_quoted (s : String) (rest : List Char) :
    scan (quoted s ++ rest) = .str s :: scan rest := by
  have hunits : next? ('"' :: (s.toList.flatMap escape ++ '"' :: rest)) =
      some (.str s, rest) := by
    simp only [next?, units?_quoted, Option.map_some, ofUnits, ofUnits?_toNat,
      String.ofList_toList]
  rw [quoted, List.append_assoc, List.cons_append]
  exact scan_of_next? rfl hunits

theorem scan_garbled (rest : List Char) :
    scan (garbledText ++ rest) = .garbled :: scan rest := by
  have htext : garbledText = ['"', '\\', 'u', 'd', '8', '0', '0', '"'] := by decide
  have hvalue : Numeral.hexValue? ['d', '8', '0', '0'] = some 0xD800 := by decide
  have hunits : next? (garbledText ++ rest) = some (.garbled, rest) := by
    simp only [htext, List.cons_append, List.nil_append, next?, units?, hvalue]
    rfl
  rw [htext] at hunits ⊢
  exact scan_of_next? rfl hunits

end Strings

section Numbers
variable {rest : List Char}

/-- Nothing, or a character that ends a number comes first. -/
def Delimited : List Char → Prop
  | [] => True
  | c :: _ => c = ',' ∨ c = ']' ∨ c = '\x7d'

/-- An integer that is written and read as one has 64 bits, with a sign or without one. -/
def IsWord64 (n : Int) : Prop := -0x8000000000000000 ≤ n ∧ n ≤ 0xFFFFFFFFFFFFFFFF

end Numbers

end Disassembly.Json
