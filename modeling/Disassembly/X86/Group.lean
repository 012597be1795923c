/-!
# x86 instruction groups

Groups below 128 are shared with other architectures.
-/

namespace Disassembly.X86

inductive Group where
  | jump | call | ret | int | iret | privilege | branchRelative
  | vm | not64BitMode | mode64 | cmov | sse1 | sse2 | avx | avx512 | fpu
deriving DecidableEq, Repr

namespace Group

def all : List Group :=
  [.jump, .call, .ret, .int, .iret, .privilege, .branchRelative,
    .vm, .not64BitMode, .mode64, .cmov, .sse1, .sse2, .avx, .avx512, .fpu]

def id : Group → UInt8
  | .jump => 1
  | .call => 2
  | .ret => 3
  | .int => 4
  | .iret => 5
  | .privilege => 6
  | .branchRelative => 7
  | .vm => 128
  | .not64BitMode => 129
  | .mode64 => 130
  | .cmov => 131
  | .sse1 => 132
  | .sse2 => 133
  | .avx => 134
  | .avx512 => 135
  | .fpu => 136

def name : Group → String
  | .jump => "jump"
  | .call => "call"
  | .ret => "ret"
  | .int => "int"
  | .iret => "iret"
  | .privilege => "privilege"
  | .branchRelative => "branch_relative"
  | .vm => "vm"
  | .not64BitMode => "not64bitmode"
  | .mode64 => "mode64"
  | .cmov => "cmov"
  | .sse1 => "sse1"
  | .sse2 => "sse2"
  | .avx => "avx"
  | .avx512 => "avx512"
  | .fpu => "fpu"

/-- The group with a number. -/
def ofId? (id : UInt8) : Option Group := all.find? (·.id == id)

@[simp] theorem ofId?_id (g : Group) : ofId? g.id = some g := by
  cases g <;> rfl

end Group

end Disassembly.X86
