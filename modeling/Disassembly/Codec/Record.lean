import Disassembly.Codec.Basic

/-!
# Codecs of records

A record is written as an object with one member for each of its parts, in a
fixed order. It is read from an object with its members in any order, where other
members are passed over, or from an array of its parts. Of several things wrong
the one is reported whose member comes first.
-/

namespace Disassembly

/-- Something wrong with a record, and the number of the member where it shows. -/
structure Misread where
  place : Nat
  error : ReadError

/-- The result of reading parts of a record. -/
structure Reading (α : Type) where
  result : Except Misread α

namespace Reading

/-- Both results; of two things wrong, the one that shows first. -/
def both {α β : Type} (f : Reading (α → β)) (a : Reading α) : Reading β :=
  match f.result, a.result with
  | .ok f, .ok a => ⟨.ok (f a)⟩
  | .ok _, .error e => ⟨.error e⟩
  | .error e, .ok _ => ⟨.error e⟩
  | .error e, .error e' => ⟨.error (if e'.place < e.place then e' else e)⟩

instance : Applicative Reading where
  pure a := ⟨.ok a⟩
  seq f a := both f (a ())

end Reading

/-- The members of a record. -/
structure Members where
  entries : List (Option String × Json)
  whole : Bool

namespace Members

variable {α : Type}

/-- The members of an object, or those of an array by position, which must have
one item for each name. -/
def ofJson? (names : List String) : Json → Option Members
  | .obj entries whole => some ⟨entries, whole⟩
  | .arr items whole =>
      some ⟨(names.map some).zip items, whole && items.length == names.length⟩
  | _ => none

/-- The number of the first member whose key is garbled, or is one of the names
and stands there already. -/
def clash? (names : List String) (seen : List String) :
    List (Option String × Json) → Option Nat
  | [] => none
  | (none, _) :: _ => some 0
  | (some key, _) :: rest =>
      if names.contains key && seen.contains key then some 0
      else (clash? names (key :: seen) rest).map (· + 1)

/-- The keys are in order and the record ends. -/
def check (m : Members) (names : List String) : Reading Unit :=
  match clash? names [] m.entries with
  | some place => ⟨.error ⟨place, .malformed⟩⟩
  | none =>
      if m.whole then pure () else ⟨.error ⟨m.entries.length, .malformed⟩⟩

/-- Read the member of a name, if there is one. -/
def field? (m : Members) (name : String) (c : Codec α) : Option (Reading α) :=
  (m.entries.findIdx? (·.1 == some name)).bind fun i =>
    m.entries[i]?.map fun entry => ⟨(c.read entry.2).mapError (⟨i, ·⟩)⟩

/-- Read the member of a name, which must be there. That it is not shows at the
end. -/
def field (m : Members) (name : String) (c : Codec α) : Reading α :=
  (m.field? name c).getD ⟨.error ⟨m.entries.length, .malformed⟩⟩

/-- Read the member of a name; it is absent if there is none. -/
def fieldOrNone (m : Members) (name : String) (c : Codec α) : Reading (Option α) :=
  (m.field? name c.optional).getD (pure none)

end Members

/-- A record of members with the given names. -/
def Codec.record {α : Type} (names : List String) (write : α → List Json)
    (read : Members → Reading α) : Codec α where
  write a := .ofMembers (names.zip (write a))
  read v :=
    match Members.ofJson? names v with
    | none => .error .malformed
    | some m => (m.check names *> read m).result.mapError (·.error.inRecord)

end Disassembly
