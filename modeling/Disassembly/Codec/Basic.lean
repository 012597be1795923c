import Disassembly.BoundedList
import Disassembly.FlagText
import Disassembly.Json.Document
import Disassembly.Json.Text

/-!
# Codecs

How values of the library are written as data and read back. Reading reports the
first thing wrong in the order of the text: a list reports one of its elements
before its own length.
-/

namespace Disassembly

/-- Why data could not be read. -/
inductive ReadError where
  /-- The data is not of the form of the type. -/
  | malformed
  /-- A list is longer than its capacity. Only a list inside a record has a known
  place in the text. -/
  | tooMany (got capacity : Nat) (placed : Bool)
  /-- Reading was given up, which is a fault and no error. -/
  | gaveUp (cause : CapacityError)
deriving DecidableEq, Repr

namespace ReadError

/-- The error as it is known inside a record. -/
def inRecord : ReadError → ReadError
  | .malformed => .malformed
  | .tooMany got capacity _ => .tooMany got capacity true
  | .gaveUp cause => .gaveUp cause

/-- The wording of an error that has one. -/
def message? : ReadError → Option String
  | .malformed | .gaveUp _ => none
  | .tooMany got capacity _ =>
      some ("too many elements: " ++ Numeral.decimal got ++ " > " ++ Numeral.decimal capacity)

/-- The place of the error in the text is known. -/
def placed : ReadError → Bool
  | .malformed | .gaveUp _ => true
  | .tooMany _ _ placed => placed

end ReadError

/-- A way to write values as data and to read them back. -/
structure Codec (α : Type) where
  write : α → Json
  read : Json → Except ReadError α

namespace Codec

variable {α β : Type}

/-- The text of a value. -/
def encode (c : Codec α) (a : α) : String := (c.write a).render

/-- The value of a text. That nothing follows it is checked last. -/
def decode (c : Codec α) (text : String) : Except ReadError α := do
  let document := Json.parse text
  match document.value with
  | none => .error .malformed
  | some v =>
      let a ← c.read v
      if document.ended then return a else .error .malformed

/-- Values that stand for those of another type. -/
def imap (c : Codec α) (there : α → β) (back : β → α) : Codec β where
  write b := c.write (back b)
  read v := (c.read v).map there

/-- Integers of a range. -/
def integer (lo hi : Int) (toInt : α → Int) (ofInt : Int → α) : Codec α where
  write a := .int (toInt a)
  read
    | .int n => if lo ≤ n ∧ n ≤ hi then .ok (ofInt n) else .error .malformed
    | _ => .error .malformed

def u8 : Codec UInt8 :=
  integer 0 0xFF (fun n => n.toNat) fun i => UInt8.ofNat i.toNat

def u16 : Codec UInt16 :=
  integer 0 0xFFFF (fun n => n.toNat) fun i => UInt16.ofNat i.toNat

def u32 : Codec UInt32 :=
  integer 0 0xFFFFFFFF (fun n => n.toNat) fun i => UInt32.ofNat i.toNat

def u64 : Codec UInt64 :=
  integer 0 0xFFFFFFFFFFFFFFFF (fun n => n.toNat) fun i => UInt64.ofNat i.toNat

def i8 : Codec Int8 := integer (-0x80) 0x7F Int8.toInt Int8.ofInt

def i32 : Codec Int32 := integer (-0x80000000) 0x7FFFFFFF Int32.toInt Int32.ofInt

def i64 : Codec Int64 :=
  integer (-0x8000000000000000) 0x7FFFFFFFFFFFFFFF Int64.toInt Int64.ofInt

def bool : Codec Bool where
  write b := .bool b
  read
    | .bool b => .ok b
    | _ => .error .malformed

/-- Flag words as text. -/
def flags (names : FlagNames) (toNat : α → Nat) (ofNat : Nat → α) : Codec α where
  write a := .str (names.write (toNat a))
  read
    | .str text =>
        match names.read? text with
        | some bits => .ok (ofNat bits)
        | none => .error .malformed
    | _ => .error .malformed

/-- A value that may be absent. -/
def optional (c : Codec α) : Codec (Option α) where
  write
    | none => .null
    | some a => c.write a
  read
    | .null => .ok none
    | v => (c.read v).map some

/-- All elements of an array, which must be whole. -/
def readItems (c : Codec α) : Json → Except ReadError (List α)
  | .arr items whole => do
      let elements ← items.mapM c.read
      if whole then return elements else .error .malformed
  | _ => .error .malformed

/-- A bounded list as an array of its elements. That there are not too many of them is
checked before the list takes them over. -/
def list [Inhabited α] (c : Codec α) (n : Nat) : Codec (BoundedList α n) where
  write l := .arr (l.toList.map c.write) true
  read v := do
    let elements ← c.readItems v
    if n < elements.length then .error (.tooMany elements.length n false)
    else (BoundedList.ofList elements).mapError .gaveUp

/-- An array of exactly so many elements. -/
def vector (c : Codec α) (n : Nat) : Codec (Vector α n) where
  write xs := .arr (xs.toList.map c.write) true
  read v := do
    let elements ← c.readItems v
    if h : elements.length = n then return ⟨elements.toArray, by simpa using h⟩
    else .error .malformed

/-! ### Variants -/

/-- Write a variant that carries data. -/
def variant (name : String) (data : Json) : Json := .ofMembers [(name, data)]

/-- Read a variant: a name alone, or an object with the name as its only key. What
it carries is read before the object is known to end. -/
def readVariant (read : String → Option Json → Except ReadError α) :
    Json → Except ReadError α
  | .str name => read name none
  | .obj ((some name, data) :: others) whole => do
      let a ← read name (some data)
      if others.isEmpty && whole then return a else .error .malformed
  | _ => .error .malformed

/-- Read a variant without data. -/
def unitData (a : α) : Option Json → Except ReadError α
  | none | some .null => .ok a
  | _ => .error .malformed

/-- Read the data of a variant. -/
def someData (read : Json → Except ReadError α) : Option Json → Except ReadError α
  | some data => read data
  | none => .error .malformed

/-- Values without data, each with its name. -/
def names (name : α → String) (all : List α) : Codec α where
  write a := .str (name a)
  read := readVariant fun s data =>
    match all.find? (name · == s) with
    | some a => unitData a data
    | none => .error .malformed

end Codec

end Disassembly
