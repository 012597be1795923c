import Disassembly.Numeral
import Disassembly.Text.Blank

/-!
# Flag words as text

A flag word is written as the names of its declared flags in the order of
their declaration, followed by the undeclared bits as one hexadecimal number,
all separated by a bar. Reading accepts names and hexadecimal numbers in any
order and repeated.
-/

namespace Disassembly

/-- The declared flags of a word: its width in bits, and each name with its
bits. -/
structure FlagNames where
  width : Nat
  flags : List (String × Nat)

namespace FlagNames

/-- Hexadecimal digits with at most one plus sign before them. -/
def signedHexValue? : List Char → Option Nat
  | '+' :: cs => Numeral.hexValue? cs
  | cs => Numeral.hexValue? cs

/-- One part of a text: a number after `0x` that fits the word, or the exact
name of a declared flag. -/
def partValue? (names : FlagNames) (part : List Char) : Option Nat :=
  match part with
  | '0' :: 'x' :: digits =>
      (signedHexValue? digits).filter (· < 1 <<< names.width)
  | _ => names.flags.lookup (String.ofList part)

/-- The bits named by a text, `none` when some part names nothing. -/
def read? (names : FlagNames) (text : String) : Option Nat :=
  if (Text.trim text.toList).isEmpty then some 0
  else (Text.pieces '|' text.toList).foldlM
    (fun bits part => (names.partValue? (Text.trim part)).map (bits ||| ·)) 0

/-- The declared flags among `bits`, in the order of their declaration. Every
flag is one bit, and a declared empty flag is never among them. -/
def present (names : FlagNames) (bits : Nat) : List (String × Nat) :=
  names.flags.filter fun flag => flag.2 ≠ 0 && (bits &&& flag.2) == flag.2

/-- All declared bits. -/
def declared (names : FlagNames) : Nat :=
  names.flags.foldl (fun bits flag => bits ||| flag.2) 0

/-- The bits without a declared name. -/
def remainder (names : FlagNames) (bits : Nat) : Nat :=
  bits ^^^ (bits &&& names.declared)

/-- A word taken apart: its declared flags, then what is left in one piece. -/
def components (names : FlagNames) (bits : Nat) : List Nat :=
  let rest := names.remainder bits
  (names.present bits).map (·.2) ++ if rest = 0 then [] else [rest]

/-- The text of a word. -/
def write (names : FlagNames) (bits : Nat) : String :=
  let rest := names.remainder bits
  " | ".intercalate
    ((names.present bits).map (·.1) ++ if rest = 0 then [] else [Numeral.hex rest])

end FlagNames

end Disassembly
