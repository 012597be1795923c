import Disassembly.Numeral

/-!
# Tokens

A JSON text as brackets, separators and scalars, without the blanks between
them. Where the text is no token any more the list ends with `broken`.
-/

namespace Disassembly.Json

inductive Token where
  | openArr
  | closeArr
  | openObj
  | closeObj
  | comma
  | colon
  | null
  | bool (b : Bool)
  | int (n : Int)
  | real
  | str (s : String)
  | garbled
  | broken
deriving DecidableEq, Repr

namespace Token

/-- The blanks of the format. -/
def isBlank (c : Char) : Bool := c == ' ' || c == '\n' || c == '\t' || c == '\r'

/-- The character that a one-letter escape stands for. -/
def escaped? (c : Char) : Option Nat :=
  match c with
  | '"' => some 0x22
  | '\\' => some 0x5C
  | '/' => some 0x2F
  | 'b' => some 0x08
  | 'f' => some 0x0C
  | 'n' => some 0x0A
  | 'r' => some 0x0D
  | 't' => some 0x09
  | _ => none

/-- The code units of a string up to its closing quote, and the text after it.
A numbered escape may stand for half a surrogate pair. -/
def units? : List Char → Option (List Nat × List Char)
  | [] => none
  | '"' :: rest => some ([], rest)
  | '\\' :: 'u' :: a :: b :: c :: d :: rest => do
      let unit ← Numeral.hexValue? [a, b, c, d]
      let (units, after) ← units? rest
      return (unit :: units, after)
  | '\\' :: c :: rest => do
      let unit ← escaped? c
      let (units, after) ← units? rest
      return (unit :: units, after)
  | c :: rest =>
      if c.toNat < 0x20 ∨ c = '\\' then none
      else do
        let (units, after) ← units? rest
        return (c.toNat :: units, after)

/-- The text of code units, none if half a surrogate pair stands alone. -/
def ofUnits? : List Nat → Option (List Char)
  | [] => some []
  | high :: rest =>
      if 0xD800 ≤ high ∧ high < 0xDC00 then
        match rest with
        | low :: after =>
            if 0xDC00 ≤ low ∧ low < 0xE000 then
              let n := 0x10000 + (high - 0xD800) * 0x400 + (low - 0xDC00)
              (ofUnits? after).map (Char.ofNat n :: ·)
            else none
        | [] => none
      else if 0xDC00 ≤ high ∧ high < 0xE000 then none
      else (ofUnits? rest).map (Char.ofNat high :: ·)

/-- The string of code units. -/
def ofUnits (units : List Nat) : Token :=
  match ofUnits? units with
  | some cs => .str (String.ofList cs)
  | none => .garbled

/-- The digits at the start of a text, and the text after them. -/
def digits (cs : List Char) : List Char × List Char :=
  (cs.takeWhile Char.isDigit, cs.dropWhile Char.isDigit)

/-- The text after one or more digits. -/
def afterDigits? (cs : List Char) : Option (List Char) :=
  if (digits cs).1.isEmpty then none else some (digits cs).2

/-- The text after a fraction if there is one, and whether there is. -/
def afterFraction? : List Char → Option (Bool × List Char)
  | '.' :: cs => (afterDigits? cs).map (true, ·)
  | cs => some (false, cs)

/-- The text after an exponent if there is one, and whether there is. -/
def afterExponent? : List Char → Option (Bool × List Char)
  | 'e' :: '+' :: cs | 'e' :: '-' :: cs | 'E' :: '+' :: cs | 'E' :: '-' :: cs
  | 'e' :: cs | 'E' :: cs => (afterDigits? cs).map (true, ·)
  | cs => some (false, cs)

/-- The number of a sign and digits. A negative zero and a number of more than 64
bits are no integers. -/
def ofDigits (negative : Bool) (ds : List Char) : Token :=
  let n := Nat.ofDigitChars 10 ds 0
  if negative then
    if n = 0 ∨ 0x8000000000000000 < n then .real else .int (-n)
  else if n ≤ 0xFFFFFFFFFFFFFFFF then .int n
  else .real

/-- A number after its sign, and the text after it. There is no zero before other
digits, and a fraction or an exponent makes the number no integer. -/
def number? (negative : Bool) (cs : List Char) : Option (Token × List Char) :=
  let (ds, rest) := digits cs
  if ds.isEmpty ∨ (ds.head? = some '0' ∧ ds.length ≠ 1) then none
  else do
    let (fraction, rest) ← afterFraction? rest
    let (exponent, rest) ← afterExponent? rest
    return (if fraction || exponent then .real else ofDigits negative ds, rest)

/-- The token at the start of a text that is neither empty nor blank there, and
the text after it. -/
def next? : List Char → Option (Token × List Char)
  | '[' :: cs => some (.openArr, cs)
  | ']' :: cs => some (.closeArr, cs)
  | '\x7b' :: cs => some (.openObj, cs)
  | '\x7d' :: cs => some (.closeObj, cs)
  | ',' :: cs => some (.comma, cs)
  | ':' :: cs => some (.colon, cs)
  | 'n' :: 'u' :: 'l' :: 'l' :: cs => some (.null, cs)
  | 't' :: 'r' :: 'u' :: 'e' :: cs => some (.bool true, cs)
  | 'f' :: 'a' :: 'l' :: 's' :: 'e' :: cs => some (.bool false, cs)
  | '"' :: cs => (units? cs).map fun (units, rest) => (ofUnits units, rest)
  | '-' :: cs => number? true cs
  | cs => number? false cs

theorem length_units? {cs rest : List Char} {units : List Nat}
    (h : units? cs = some (units, rest)) : rest.length < cs.length := by
  fun_induction units? cs generalizing units rest with
  | case1 => simp at h
  | case2 r =>
      simp only [Option.some.injEq, Prod.mk.injEq] at h
      simp [← h.2]
  | case3 a b c d r ih =>
      simp only [Option.bind_eq_bind, Option.bind_eq_some_iff, Option.pure_def,
        Option.some.injEq, Prod.mk.injEq, Prod.exists] at h
      obtain ⟨_, _, us, after, hr, _, rfl⟩ := h
      have := ih hr
      simp only [List.length_cons]
      omega
  | case4 c r _ ih =>
      simp only [Option.bind_eq_bind, Option.bind_eq_some_iff, Option.pure_def,
        Option.some.injEq, Prod.mk.injEq, Prod.exists] at h
      obtain ⟨_, _, us, after, hr, _, rfl⟩ := h
      have := ih hr
      simp only [List.length_cons]
      omega
  | case5 => simp at h
  | case6 c r _ _ _ _ ih =>
      simp only [Option.bind_eq_bind, Option.bind_eq_some_iff, Option.pure_def,
        Option.some.injEq, Prod.mk.injEq, Prod.exists] at h
      obtain ⟨us, after, hr, _, rfl⟩ := h
      have := ih hr
      simp only [List.length_cons]
      omega

theorem length_digits_le (cs : List Char) : (digits cs).2.length ≤ cs.length :=
  (List.dropWhile_sublist _).length_le

theorem length_digits_lt {cs : List Char} (h : (digits cs).1 ≠ []) :
    (digits cs).2.length < cs.length := by
  have h1 : (digits cs).1 ++ (digits cs).2 = cs := List.takeWhile_append_dropWhile
  have h2 := List.length_pos_iff.mpr h
  have h3 := congrArg List.length h1
  simp only [List.length_append] at h3
  omega

theorem length_afterDigits? {cs rest : List Char} (h : afterDigits? cs = some rest) :
    rest.length ≤ cs.length := by
  simp only [afterDigits?] at h
  split at h
  · simp at h
  · simp only [Option.some.injEq] at h
    exact h ▸ length_digits_le cs

theorem length_afterFraction? {cs rest : List Char} {found : Bool}
    (h : afterFraction? cs = some (found, rest)) : rest.length ≤ cs.length := by
  simp only [afterFraction?] at h
  split at h
  · simp only [Option.map_eq_some_iff, Prod.mk.injEq] at h
    obtain ⟨r, hr, _, rfl⟩ := h
    have := length_afterDigits? hr
    simp only [List.length_cons]
    omega
  · simp only [Option.some.injEq, Prod.mk.injEq] at h
    simp [h.2]

theorem length_afterExponent? {cs rest : List Char} {found : Bool}
    (h : afterExponent? cs = some (found, rest)) : rest.length ≤ cs.length := by
  simp only [afterExponent?] at h
  split at h
  all_goals
    simp only [Option.map_eq_some_iff, Prod.mk.injEq, Option.some.injEq] at h
  all_goals first
    | obtain ⟨r, hr, _, rfl⟩ := h
      have := length_afterDigits? hr
      simp only [List.length_cons]
      omega
    | simp [h.2]

theorem length_number? {negative : Bool} {cs rest : List Char} {token : Token}
    (h : number? negative cs = some (token, rest)) : rest.length < cs.length := by
  simp only [number?] at h
  split at h
  · simp at h
  · rename_i hne
    simp only [Option.bind_eq_bind, Option.bind_eq_some_iff, Option.pure_def,
      Option.some.injEq, Prod.mk.injEq, Prod.exists] at h
    obtain ⟨_, r1, h1, _, r2, h2, _, rfl⟩ := h
    have hd : (digits cs).1 ≠ [] := fun he => hne (Or.inl (by simp [he]))
    have := length_digits_lt hd
    have := length_afterFraction? h1
    have := length_afterExponent? h2
    omega

/-- A token takes up at least one character. -/
theorem length_next? {cs rest : List Char} {token : Token}
    (h : next? cs = some (token, rest)) : rest.length < cs.length := by
  unfold next? at h
  split at h
  all_goals first
    | (simp only [Option.some.injEq, Prod.mk.injEq] at h
       simp only [← h.2, List.length_cons]
       omega)
    | (simp only [Option.map_eq_some_iff, Prod.mk.injEq, Prod.exists] at h
       obtain ⟨_, r, hr, _, rfl⟩ := h
       have := length_units? hr
       simp only [List.length_cons]
       omega)
    | exact Nat.lt_succ_of_lt (length_number? h)
    | exact length_number? h

/-- The tokens of a text. -/
def scan (cs : List Char) : List Token :=
  match cs with
  | [] => []
  | c :: rest =>
      if isBlank c then scan rest
      else
        match _h : next? (c :: rest) with
        | none => [.broken]
        | some (token, after) => token :: scan after
termination_by cs.length
decreasing_by
  · simp
  · exact length_next? _h

end Token

end Disassembly.Json
