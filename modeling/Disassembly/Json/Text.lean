import Disassembly.Json.Value
import Disassembly.Numeral

/-!
# Writing a text

The compact text of a value, without blanks between tokens. Values that no text
determines are written as a text that reads as the same value.
-/

namespace Disassembly.Json

/-- A character inside quotes. -/
def escape (c : Char) : List Char :=
  if c = '"' then ['\\', '"']
  else if c = '\\' then ['\\', '\\']
  else if c = '\x08' then ['\\', 'b']
  else if c = '\x0c' then ['\\', 'f']
  else if c = '\n' then ['\\', 'n']
  else if c = '\r' then ['\\', 'r']
  else if c = '\t' then ['\\', 't']
  else if c.toNat < 0x20 then
    ['\\', 'u', '0', '0', Nat.digitChar (c.toNat / 16), Nat.digitChar (c.toNat % 16)]
  else [c]

/-- A string in quotes. -/
def quoted (s : String) : List Char := '"' :: s.toList.flatMap escape ++ ['"']

/-- A string that is half a surrogate pair. -/
def garbledText : List Char := "\"\\ud800\"".toList

/-- A key in quotes. -/
def keyText (key : Option String) : List Char := (key.map quoted).getD garbledText

mutual

/-- The characters of a value. -/
def chars : Json → List Char
  | .null => "null".toList
  | .bool true => "true".toList
  | .bool false => "false".toList
  | .int n => (Numeral.signedDecimal n).toList
  | .real => "0.0".toList
  | .str s => quoted s
  | .garbled => garbledText
  | .arr items whole => '[' :: itemChars items ++ if whole then [']'] else []
  | .obj members whole => '\x7b' :: memberChars members ++ if whole then ['\x7d'] else []

/-- The characters of items, with commas between them. -/
def itemChars : List Json → List Char
  | [] => []
  | [item] => chars item
  | item :: rest => chars item ++ ',' :: itemChars rest

/-- The characters of members, with commas between them. -/
def memberChars : List (Option String × Json) → List Char
  | [] => []
  | [(key, v)] => keyText key ++ ':' :: chars v
  | (key, v) :: rest => keyText key ++ ':' :: chars v ++ ',' :: memberChars rest

end

/-- The text of a value. -/
def render (v : Json) : String := String.ofList (chars v)

end Disassembly.Json
