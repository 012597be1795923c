/-!
# ARM opcodes

The opcodes a decoder can produce, in the order of their words.
-/

namespace Disassembly.Arm

inductive Opcode where
  /-- The word of a failed decode. -/
  | invalid
  | addrsi | bcc | bl | blPred | blxi | bx | cdp | cmnri | ldrex | movi | movr | msr
  | pldi12 | strPreImm
  | t2b | t2bfi | t2csel | t2ldmia | t2ldrex | t2ldri12 | t2ldrs | t2movi | t2msrM
  | t2tbb
  | tB | tBcc | tBl | tBlxi | tCbnz | tCbz | tIt | tLdmiaUpd | tLdrhi | tPop | tPush
  | tSvc
  | mveVaddi32 | vld1d8 | vld1lnd8 | vld2d16 | vst1d8WbReg
deriving DecidableEq, Repr

namespace Opcode

/-- All opcodes; the position of an opcode is its word. -/
def all : List Opcode :=
  [.invalid, .addrsi, .bcc, .bl, .blPred, .blxi, .bx, .cdp, .cmnri, .ldrex, .movi,
    .movr, .msr, .pldi12, .strPreImm, .t2b, .t2bfi, .t2csel, .t2ldmia, .t2ldrex,
    .t2ldri12, .t2ldrs, .t2movi, .t2msrM, .t2tbb, .tB, .tBcc, .tBl, .tBlxi, .tCbnz,
    .tCbz, .tIt, .tLdmiaUpd, .tLdrhi, .tPop, .tPush, .tSvc, .mveVaddi32, .vld1d8,
    .vld1lnd8, .vld2d16, .vst1d8WbReg]

/-- The opcode of a word, if the word is one. -/
def ofWord? (word : UInt32) : Option Opcode := all[word.toNat]?

/-- The word of an opcode. -/
def word : Opcode → UInt32
  | .invalid => 0
  | .addrsi => 1
  | .bcc => 2
  | .bl => 3
  | .blPred => 4
  | .blxi => 5
  | .bx => 6
  | .cdp => 7
  | .cmnri => 8
  | .ldrex => 9
  | .movi => 10
  | .movr => 11
  | .msr => 12
  | .pldi12 => 13
  | .strPreImm => 14
  | .t2b => 15
  | .t2bfi => 16
  | .t2csel => 17
  | .t2ldmia => 18
  | .t2ldrex => 19
  | .t2ldri12 => 20
  | .t2ldrs => 21
  | .t2movi => 22
  | .t2msrM => 23
  | .t2tbb => 24
  | .tB => 25
  | .tBcc => 26
  | .tBl => 27
  | .tBlxi => 28
  | .tCbnz => 29
  | .tCbz => 30
  | .tIt => 31
  | .tLdmiaUpd => 32
  | .tLdrhi => 33
  | .tPop => 34
  | .tPush => 35
  | .tSvc => 36
  | .mveVaddi32 => 37
  | .vld1d8 => 38
  | .vld1lnd8 => 39
  | .vld2d16 => 40
  | .vst1d8WbReg => 41

@[simp] theorem ofWord?_word (o : Opcode) : ofWord? o.word = some o := by
  cases o <;> rfl

/-- Branches whose immediate is an offset from the program counter. -/
def isRelativeBranch : Opcode → Bool
  | .bl | .blPred | .bcc | .t2b | .tB | .tBcc | .tCbnz | .tCbz | .blxi | .tBl
  | .tBlxi => true
  | _ => false

end Opcode

/-- Whether an opcode word is a branch relative to the program counter. -/
def isRelativeBranch (word : UInt32) : Bool :=
  (Opcode.ofWord? word).any Opcode.isRelativeBranch

end Disassembly.Arm
