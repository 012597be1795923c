/-!
# Data values

The values of a JSON text. A text that ends or breaks too early still has a
value as far as it goes: its open arrays and objects are marked as not whole,
and hold what was complete before the break and at most one value that is not
whole itself, at the end.
-/

namespace Disassembly

inductive Json where
  | null
  | bool (b : Bool)
  /-- An integer of 64 bits, with or without sign. -/
  | int (n : Int)
  /-- Any other number. -/
  | real
  | str (s : String)
  /-- A string with one half of a surrogate pair, which is no text. -/
  | garbled
  | arr (items : List Json) (whole : Bool)
  /-- Members in the order of the text; a garbled key is none. -/
  | obj (members : List (Option String × Json)) (whole : Bool)

namespace Json

instance : Inhabited Json := ⟨null⟩

/-- An object of named members. -/
def ofMembers (members : List (String × Json)) : Json :=
  .obj (members.map fun m => (some m.1, m.2)) true

end Json

end Disassembly
