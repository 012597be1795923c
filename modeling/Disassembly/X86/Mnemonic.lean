/-!
# x86 mnemonics
-/

namespace Disassembly.X86

/-- The instructions with a public name, numbered from 1. -/
inductive Mnemonic where
  | add | call | fadd | fcomi | jmp | lea | mov | nop | pop | push | ret | vaddps
  | xor
deriving DecidableEq, Repr

namespace Mnemonic

/-- All mnemonics in the order of their numbers. -/
def all : List Mnemonic :=
  [.add, .call, .fadd, .fcomi, .jmp, .lea, .mov, .nop, .pop, .push, .ret, .vaddps,
    .xor]

def name : Mnemonic → String
  | .add => "add"
  | .call => "call"
  | .fadd => "fadd"
  | .fcomi => "fcomi"
  | .jmp => "jmp"
  | .lea => "lea"
  | .mov => "mov"
  | .nop => "nop"
  | .pop => "pop"
  | .push => "push"
  | .ret => "ret"
  | .vaddps => "vaddps"
  | .xor => "xor"

/-- The mnemonic with a public number. -/
def ofId? (id : UInt16) : Option Mnemonic :=
  if id = 0 then none else all[id.toNat - 1]?

end Mnemonic

end Disassembly.X86
