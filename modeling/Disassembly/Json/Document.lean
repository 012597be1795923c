import Disassembly.Json.Token
import Disassembly.Json.Value

/-!
# Reading a text

Tokens are read one at a time beside the containers that are open at that place.
A text that breaks leaves the value as far as it goes.
-/

namespace Disassembly.Json

/-- A container that is open, with what it holds so far, last first. -/
inductive Frame where
  | arr (items : List Json)
  | obj (members : List (Option String × Json))
  /-- An object inside the member with a key. -/
  | member (members : List (Option String × Json)) (key : Option String)

/-- What may come next. -/
inductive Place where
  | value
  | valueOrClose
  | key
  | keyOrClose
  | colon
  /-- A comma or a closing bracket. -/
  | separator
deriving DecidableEq, Repr

/-- The state after a token. -/
inductive Progress where
  | going (place : Place) (frames : List Frame)
  /-- The value is complete. -/
  | complete (value : Json)
  /-- The token does not fit. -/
  | broken

namespace Progress

/-- Put a complete value into the innermost container. -/
def give (v : Json) : List Frame → Progress
  | [] => .complete v
  | .arr items :: frames => .going .separator (.arr (v :: items) :: frames)
  | .member members key :: frames => .going .separator (.obj ((key, v) :: members) :: frames)
  | .obj _ :: _ => .broken

/-- The start of a value. -/
def start (frames : List Frame) : Token → Progress
  | .openArr => .going .valueOrClose (.arr [] :: frames)
  | .openObj => .going .keyOrClose (.obj [] :: frames)
  | .null => give .null frames
  | .bool b => give (.bool b) frames
  | .int n => give (.int n) frames
  | .real => give .real frames
  | .str s => give (.str s) frames
  | .garbled => give .garbled frames
  | _ => .broken

/-- The state after a token at a place. -/
def step (place : Place) (frames : List Frame) (token : Token) : Progress :=
  match place, frames, token with
  | .valueOrClose, .arr items :: rest, .closeArr => give (.arr items.reverse true) rest
  | .value, _, _ | .valueOrClose, _, _ => start frames token
  | .keyOrClose, .obj members :: rest, .closeObj => give (.obj members.reverse true) rest
  | .key, .obj members :: rest, .str s | .keyOrClose, .obj members :: rest, .str s =>
      .going .colon (.member members (some s) :: rest)
  | .key, .obj members :: rest, .garbled | .keyOrClose, .obj members :: rest, .garbled =>
      .going .colon (.member members none :: rest)
  | .colon, _, .colon => .going .value frames
  | .separator, .arr items :: rest, .closeArr => give (.arr items.reverse true) rest
  | .separator, .arr _ :: _, .comma => .going .value frames
  | .separator, .obj members :: rest, .closeObj => give (.obj members.reverse true) rest
  | .separator, .obj _ :: _, .comma => .going .key frames
  | _, _, _ => .broken

end Progress

/-- The value as far as it goes when the text breaks: the open containers around
an inner value that is not whole, if there is one. -/
def abandon (inner : Option Json) : List Frame → Option Json
  | [] => inner
  | .arr items :: frames =>
      abandon (some (.arr (inner.toList ++ items).reverse false)) frames
  | .obj members :: frames => abandon (some (.obj members.reverse false)) frames
  | .member members key :: frames =>
      let last := inner.toList.map fun v => (key, v)
      abandon (some (.obj (last ++ members).reverse false)) frames

/-- A text that was read. -/
structure Document where
  /-- The value as far as it goes, none if the text does not start with one. -/
  value : Option Json
  /-- Nothing but blanks follows the value. -/
  ended : Bool

/-- Read tokens from a state on. -/
def readFrom (place : Place) (frames : List Frame) : List Token → Document
  | [] => ⟨abandon none frames, true⟩
  | token :: rest =>
      match Progress.step place frames token with
      | .going place frames => readFrom place frames rest
      | .complete v => ⟨some v, rest.isEmpty⟩
      | .broken => ⟨abandon none frames, false⟩

/-- Read a text. -/
def parse (text : String) : Document :=
  readFrom .value [] (Token.scan text.toList)

end Disassembly.Json
