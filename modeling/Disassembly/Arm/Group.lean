import Disassembly.Numeral

/-!
# ARM instruction groups

Groups below 128 are shared with other architectures; those from 128 on name a
state or a feature that the instruction needs.
-/

namespace Disassembly.Arm

inductive Group where
  | jump | call | int | privilege | branchRelative
  | isArm | isThumb | isThumb2 | isMClass | isNotMClass
  | hasV5T | hasV6 | hasV7 | hasV8 | hasV8MBaseline
  | hasDsp | hasNeon | hasVfp2 | hasVfp3 | hasFpRegs | hasMveInt
  | hasDb | hasMp | hasCrc
deriving DecidableEq, Repr

namespace Group

def all : List Group :=
  [.jump, .call, .int, .privilege, .branchRelative,
    .isArm, .isThumb, .isThumb2, .isMClass, .isNotMClass,
    .hasV5T, .hasV6, .hasV7, .hasV8, .hasV8MBaseline,
    .hasDsp, .hasNeon, .hasVfp2, .hasVfp3, .hasFpRegs, .hasMveInt,
    .hasDb, .hasMp, .hasCrc]

def id : Group → UInt8
  | .jump => 1
  | .call => 2
  | .int => 4
  | .privilege => 6
  | .branchRelative => 7
  | .isArm => 128
  | .isThumb => 129
  | .isThumb2 => 130
  | .isMClass => 131
  | .isNotMClass => 132
  | .hasV5T => 133
  | .hasV6 => 134
  | .hasV7 => 135
  | .hasV8 => 136
  | .hasV8MBaseline => 137
  | .hasDsp => 138
  | .hasNeon => 139
  | .hasVfp2 => 140
  | .hasVfp3 => 141
  | .hasFpRegs => 142
  | .hasMveInt => 143
  | .hasDb => 144
  | .hasMp => 145
  | .hasCrc => 146

def name : Group → String
  | .jump => "jump"
  | .call => "call"
  | .int => "int"
  | .privilege => "privilege"
  | .branchRelative => "branch_relative"
  | .isArm => "IsARM"
  | .isThumb => "IsThumb"
  | .isThumb2 => "IsThumb2"
  | .isMClass => "IsMClass"
  | .isNotMClass => "IsNotMClass"
  | .hasV5T => "HasV5T"
  | .hasV6 => "HasV6"
  | .hasV7 => "HasV7"
  | .hasV8 => "HasV8"
  | .hasV8MBaseline => "HasV8MBaseline"
  | .hasDsp => "HasDSP"
  | .hasNeon => "HasNEON"
  | .hasVfp2 => "HasVFP2"
  | .hasVfp3 => "HasVFP3"
  | .hasFpRegs => "HasFPRegs"
  | .hasMveInt => "HasMVEInt"
  | .hasDb => "HasDB"
  | .hasMp => "HasMP"
  | .hasCrc => "HasCRC"

/-- The group with a number. -/
def ofId? (id : UInt8) : Option Group := all.find? (·.id == id)

/-- The name of a group number, or `group` and the number. -/
def label (id : UInt8) : String :=
  ((ofId? id).map name).getD ("group" ++ Numeral.decimal id.toNat)

@[simp] theorem ofId?_id (g : Group) : ofId? g.id = some g := by
  cases g <;> rfl

end Group

end Disassembly.Arm
