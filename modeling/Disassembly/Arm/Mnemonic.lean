/-!
# ARM mnemonics
-/

namespace Disassembly.Arm

/-- The instructions by their public name, numbered from 1. -/
inductive Mnemonic where
  | add | b | bfi | bl | blx | bx | cbnz | cbz | cdp | cmn | csel | it | ldm | ldr
  | ldrex | ldrh | mov | msr | pld | pop | push | str | svc | tbb | vadd | vld1
  | vld2 | vst1
deriving DecidableEq, Repr

namespace Mnemonic

/-- All mnemonics in the order of their numbers. -/
def all : List Mnemonic :=
  [.add, .b, .bfi, .bl, .blx, .bx, .cbnz, .cbz, .cdp, .cmn, .csel, .it, .ldm, .ldr,
    .ldrex, .ldrh, .mov, .msr, .pld, .pop, .push, .str, .svc, .tbb, .vadd, .vld1,
    .vld2, .vst1]

/-- The public number. -/
def id : Mnemonic → UInt16
  | .add => 1
  | .b => 2
  | .bfi => 3
  | .bl => 4
  | .blx => 5
  | .bx => 6
  | .cbnz => 7
  | .cbz => 8
  | .cdp => 9
  | .cmn => 10
  | .csel => 11
  | .it => 12
  | .ldm => 13
  | .ldr => 14
  | .ldrex => 15
  | .ldrh => 16
  | .mov => 17
  | .msr => 18
  | .pld => 19
  | .pop => 20
  | .push => 21
  | .str => 22
  | .svc => 23
  | .tbb => 24
  | .vadd => 25
  | .vld1 => 26
  | .vld2 => 27
  | .vst1 => 28

def name : Mnemonic → String
  | .add => "add"
  | .b => "b"
  | .bfi => "bfi"
  | .bl => "bl"
  | .blx => "blx"
  | .bx => "bx"
  | .cbnz => "cbnz"
  | .cbz => "cbz"
  | .cdp => "cdp"
  | .cmn => "cmn"
  | .csel => "csel"
  | .it => "it"
  | .ldm => "ldm"
  | .ldr => "ldr"
  | .ldrex => "ldrex"
  | .ldrh => "ldrh"
  | .mov => "mov"
  | .msr => "msr"
  | .pld => "pld"
  | .pop => "pop"
  | .push => "push"
  | .str => "str"
  | .svc => "svc"
  | .tbb => "tbb"
  | .vadd => "vadd"
  | .vld1 => "vld1"
  | .vld2 => "vld2"
  | .vst1 => "vst1"

/-- The mnemonic with a public number. -/
def ofId? (id : UInt16) : Option Mnemonic :=
  if id = 0 then none else all[id.toNat - 1]?

/-- The text shown for a public number; 0 reads as an invalid instruction. -/
def label? (id : UInt16) : Option String :=
  if id = 0 then some "invalid" else (ofId? id).map name

@[simp] theorem ofId?_id (m : Mnemonic) : ofId? m.id = some m := by
  cases m <;> rfl

end Mnemonic

end Disassembly.Arm
