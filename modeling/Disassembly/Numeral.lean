/-!
# Numerals

Decimal and hexadecimal text of numbers. Digits above nine are lower case.
-/

namespace Disassembly.Numeral

/-- Decimal digits, without leading zeros. -/
def decimal (n : Nat) : String := String.ofList (Nat.toDigits 10 n)

/-- Decimal digits after a minus sign when negative. -/
def signedDecimal (i : Int) : String :=
  if i < 0 then "-" ++ decimal i.natAbs else decimal i.natAbs

/-- Hexadecimal digits, without leading zeros. -/
def hexDigits (n : Nat) : String := String.ofList (Nat.toDigits 16 n)

/-- Hexadecimal digits after `0x`. -/
def hex (n : Nat) : String := "0x" ++ hexDigits n

/-- A minus sign when negative, then the absolute value in hexadecimal. -/
def signedHex (i : Int) : String :=
  if i < 0 then "-" ++ hex i.natAbs else hex i.natAbs

/-- A byte in hexadecimal, always two digits. -/
def hexByte (b : UInt8) : String :=
  if b.toNat < 16 then "0x0" ++ hexDigits b.toNat else hex b.toNat

/-- The value of a hexadecimal digit of either case. -/
def hexDigit? (c : Char) : Option Nat :=
  if '0' ≤ c ∧ c ≤ '9' then some (c.toNat - '0'.toNat)
  else if 'a' ≤ c ∧ c ≤ 'f' then some (c.toNat - 'a'.toNat + 10)
  else if 'A' ≤ c ∧ c ≤ 'F' then some (c.toNat - 'A'.toNat + 10)
  else none

/-- The value of a text that consists of one or more hexadecimal digits. -/
def hexValue? : List Char → Option Nat
  | [] => none
  | cs => cs.foldlM (fun n c => (hexDigit? c).map (16 * n + ·)) 0

end Disassembly.Numeral
