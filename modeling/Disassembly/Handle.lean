import Disassembly.Error
import Disassembly.Insn
import Disassembly.RegAccess
import Disassembly.Arm.Build
import Disassembly.X86.Group
import Disassembly.X86.Mnemonic

/-!
# Disassembler handles

A handle decodes with a raw decoder of the caller. An ARM decoder produces the
raw instruction only, and the detail is built from it; an x86 decoder fills in
the detail record it is handed.
-/

namespace Disassembly

/-- What a raw decoder makes of the bytes. -/
structure Decoded where
  /-- The length of the encoding, or none if the bytes are no instruction. -/
  size : Option UInt16
  inst : RawInst
  /-- The record that was handed over, as the decoder left it; none if it was left
  alone or there was none. -/
  detail : Option Detail

/-- A raw decoder: it is given the bytes from the instruction on, an instruction
that holds the address and the mode, and a record to fill in if there is one. -/
abbrev Decoder := List UInt8 → RawInst → Option Detail → Except Fault Decoded

/-- A configured disassembler. -/
structure Handle where
  arch : Arch
  mode : Mode
  options : Options
  decoder : Decoder

namespace Handle

/-- A handle with the default options. The architecture must be available and
the mode must fit it. -/
def new (arch : Arch) (mode : Mode) (decoder : Decoder) : Except Error Handle :=
  if !arch.enabled then .error (.unsupportedArch arch)
  else if !mode.validFor arch then .error (.invalidMode arch mode)
  else .ok { arch, mode, options := {}, decoder }

/-- Turn detail on or off. -/
def setDetail (h : Handle) (on : Bool) : Handle :=
  { h with options := { h.options with detail := on } }

def setSpelling (h : Handle) (spelling : RegSpelling) : Handle :=
  { h with options := { h.options with spelling } }

def setFeatures (h : Handle) (features : Features) : Handle :=
  { h with options := { h.options with features } }

def setOptions (h : Handle) (options : Options) : Handle := { h with options }

/-- The record to start from: none with detail off, else the one that is there
or an empty one. -/
def startingDetail (h : Handle) (insn : Insn) : Option Detail :=
  if h.options.detail then some (insn.detail.getD {}) else none

/-- The number and the record of a decoded ARM instruction. -/
def armResult (h : Handle) (inst : RawInst) (detail : Option Detail) :
    Except Fault (UInt16 × Option Detail) :=
  match detail with
  | some d => do
      let (mnemonic, d) ← Arm.build inst d h.options.features
      return ((mnemonic.map (·.id)).getD 0, some d)
  | none => .ok (((Arm.mnemonic? inst.opcode).map (·.id)).getD 0, none)

/-- Decode the bytes with the raw decoder. The result is the number, the length
and the record, or the record as a failed decode leaves it. -/
def decode (h : Handle) (code : List UInt8) (address : UInt64) (detail : Option Detail) :
    Except Fault (Option (UInt16 × UInt16) × Option Detail) := do
  let blank := RawInst.new 0 address h.mode
  match h.arch with
  | .arm =>
      let decoded ← h.decoder code blank none
      match decoded.size with
      | none => return (none, detail)
      | some size =>
          let (id, detail) ← h.armResult decoded.inst detail
          return (some (id, size), detail)
  | .x86 =>
      let handed := detail.map fun _ => Detail.x86
      let decoded ← h.decoder code blank handed
      return (decoded.size.map (decoded.inst.opcode.toUInt16, ·),
        handed.map decoded.detail.getD)

/-- Decode into an instruction that is already there. Its record is reset and
used again. A failed decode changes the record alone. -/
def decodeInto (h : Handle) (code : List UInt8) (address : UInt64) (insn : Insn) :
    Except Fault (Insn × Option Error) := do
  let (result, detail) ← h.decode code address (h.startingDetail insn)
  match result with
  | none => return ({ insn with detail }, some (.invalidInstruction address))
  | some (id, size) =>
      return ({ id, address, size, bytes := Insn.leadingBytes code size, detail }, none)

/-- Decode the instruction at the start of the bytes. -/
def decodeOne (h : Handle) (code : List UInt8) (address : UInt64) :
    Except Fault (Except Error Insn) := do
  match ← h.decodeInto code address {} with
  | (insn, none) => return .ok insn
  | (_, some error) => return .error error

/-- Decode instructions one after the other, at most `limit` of them if there is
a limit. The first that cannot be decoded or has no length ends the stream. -/
def decodeStream (h : Handle) (code : List UInt8) (address : UInt64)
    (limit : Option Nat) : Except Fault (List Insn) :=
  if code.isEmpty ∨ limit = some 0 then .ok []
  else do
    match ← h.decodeOne code address with
    | .error _ => return []
    | .ok insn =>
        if insn.size = 0 then return []
        else
          let rest ← h.decodeStream (code.drop insn.size.toNat)
            (address + insn.size.toUInt64) (limit.map (· - 1))
          return insn :: rest
termination_by code.length
decreasing_by
  rename_i nonempty size_ne
  have hcode : code ≠ [] := fun h => nonempty (Or.inl (by simp [h]))
  have hlen : 0 < code.length := List.length_pos_iff.mpr hcode
  have hsize : 0 < insn.size.toNat := by
    rcases Nat.eq_zero_or_pos insn.size.toNat with h | h
    · exact absurd (UInt16.toNat_inj.mp h) size_ne
    · exact h
  simp only [List.length_drop]
  omega

/-- Decode up to `count` instructions; 0 stands for all. -/
def disassemble (h : Handle) (code : List UInt8) (address : UInt64) (count : Nat) :
    Except Fault (List Insn) :=
  h.decodeStream code address (if count = 0 then none else some count)

/-- The name of a register of the architecture. -/
def regName? (h : Handle) (reg : UInt16) : Option String :=
  match h.arch with
  | .arm => Arm.Register.name? ⟨reg⟩ h.options.spelling
  | .x86 => X86.Register.name? ⟨reg⟩

/-- The mnemonic of a public number of the architecture. -/
def insnName? (h : Handle) (id : UInt16) : Option String :=
  match h.arch with
  | .arm => (Arm.Mnemonic.ofId? id).map (·.name)
  | .x86 => (X86.Mnemonic.ofId? id).map (·.name)

/-- The name of a group of the architecture. -/
def groupName? (h : Handle) (id : UInt8) : Option String :=
  match h.arch with
  | .arm => (Arm.Group.ofId? id).map (·.name)
  | .x86 => (X86.Group.ofId? id).map (·.name)

/-- The record of an instruction, which queries need. -/
def detailOf (h : Handle) (insn : Insn) : Except Error Detail :=
  if h.options.detail then
    match insn.detail with
    | some d => .ok d
    | none => .error .detailDisabled
  else .error .detailDisabled

/-- Every register an instruction reads or writes. -/
def regsAccess (h : Handle) (insn : Insn) :
    Except Error (Except CapacityError RegAccess) :=
  (h.detailOf insn).map fun d =>
    match h.arch with
    | .arm => Arm.regAccess d
    | .x86 => X86.regAccess d

/-- Whether an instruction is in a group. -/
def inGroup (h : Handle) (insn : Insn) (group : UInt8) : Except Error Bool :=
  (h.detailOf insn).map (·.inGroup group)

/-- Whether an instruction reads a register that is no operand. -/
def readsReg (h : Handle) (insn : Insn) (reg : UInt16) : Except Error Bool :=
  (h.detailOf insn).map (·.reads reg)

/-- Whether an instruction writes a register that is no operand. -/
def writesReg (h : Handle) (insn : Insn) (reg : UInt16) : Except Error Bool :=
  (h.detailOf insn).map (·.writes reg)

end Handle

end Disassembly
