import Disassembly.FlagText

/-!
# Operand access
-/

namespace Disassembly

/-- How an operand is accessed. Bits other than the two declared ones are kept
and mean nothing. -/
structure Access where
  bits : UInt8
deriving DecidableEq, Repr, Hashable

namespace Access

def none : Access := ⟨0⟩
def read : Access := ⟨1⟩
def write : Access := ⟨2⟩
def readWrite : Access := ⟨3⟩

instance : Inhabited Access := ⟨none⟩

def reads (a : Access) : Bool := a.bits &&& 1 == 1

def writes (a : Access) : Bool := a.bits &&& 2 == 2

/-- The wording in a line; only the three proper accesses have one. -/
def label? (a : Access) : Option String :=
  if a = read then some "READ"
  else if a = write then some "WRITE"
  else if a = readWrite then some "READ | WRITE"
  else Option.none

def flagNames : FlagNames where
  width := 8
  flags := [("READ", 1), ("WRITE", 2)]

end Access

end Disassembly
