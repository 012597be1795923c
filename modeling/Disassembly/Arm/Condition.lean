/-!
# Condition codes and vector predicates
-/

namespace Disassembly.Arm

/-- The condition of a conditional instruction. -/
inductive Condition where
  | eq | ne | hs | lo | mi | pl | vs | vc | hi | ls | ge | lt | gt | le
  /-- Always. -/
  | al
deriving DecidableEq, Repr, Inhabited

namespace Condition

/-- All conditions in the order of their codes. -/
def all : List Condition :=
  [.eq, .ne, .hs, .lo, .mi, .pl, .vs, .vc, .hi, .ls, .ge, .lt, .gt, .le, .al]

/-- The condition with a four-bit code; 15 codes none. -/
def ofCode? (code : Nat) : Option Condition := all[code]?

/-- The four-bit code. -/
def code : Condition → Nat
  | .eq => 0
  | .ne => 1
  | .hs => 2
  | .lo => 3
  | .mi => 4
  | .pl => 5
  | .vs => 6
  | .vc => 7
  | .hi => 8
  | .ls => 9
  | .ge => 10
  | .lt => 11
  | .gt => 12
  | .le => 13
  | .al => 14

/-- The assembler suffix, empty for the condition that always holds. -/
def suffix : Condition → String
  | .eq => "eq"
  | .ne => "ne"
  | .hs => "hs"
  | .lo => "lo"
  | .mi => "mi"
  | .pl => "pl"
  | .vs => "vs"
  | .vc => "vc"
  | .hi => "hi"
  | .ls => "ls"
  | .ge => "ge"
  | .lt => "lt"
  | .gt => "gt"
  | .le => "le"
  | .al => ""

@[simp] theorem ofCode?_code (c : Condition) : ofCode? c.code = some c := by
  cases c <;> rfl

end Condition

/-- Which lanes of a predicated vector instruction take part. -/
inductive VectorPredicate where
  | thenLanes
  | elseLanes
deriving DecidableEq, Repr, Inhabited

/-- The predicate of a raw immediate: 0 is unpredicated, and a value above 2 is
no predicate at all. -/
def VectorPredicate.ofRaw? (raw : Int64) : Option (Option VectorPredicate) :=
  if raw = 0 then some none
  else if raw = 1 then some (some .thenLanes)
  else if raw = 2 then some (some .elseLanes)
  else none

end Disassembly.Arm
