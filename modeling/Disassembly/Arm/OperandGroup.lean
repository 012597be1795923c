import Disassembly.Numeral

/-!
# Operand groups

The role of a raw operand in the assembly form of its instruction. Some groups
of the instruction set have no detail; they are listed so that a walk which
meets one can say which.
-/

namespace Disassembly.Arm

/-- The flavours of a condition operand. -/
inductive PredicateKind where
  /-- Optional; code 15 means no condition. -/
  | plain
  /-- Always shown. -/
  | mandatory
  /-- Always shown, and inverted in the assembly form. -/
  | mandatoryInverted
  /-- The smaller set of the vector compares. -/
  | mandatoryRestricted
deriving DecidableEq, Repr

def PredicateKind.name : PredicateKind → String
  | .plain => "Plain"
  | .mandatory => "Mandatory"
  | .mandatoryInverted => "MandatoryInverted"
  | .mandatoryRestricted => "MandatoryRestricted"

/-- The number of registers in a vector list. -/
inductive ListSize where
  | one | two | three | four
deriving DecidableEq, Repr

namespace ListSize

def all : List ListSize := [.one, .two, .three, .four]

def toNat : ListSize → Nat
  | .one => 1
  | .two => 2
  | .three => 3
  | .four => 4

def name : ListSize → String
  | .one => "One"
  | .two => "Two"
  | .three => "Three"
  | .four => "Four"

end ListSize

/-- Unmapped groups without parameters. -/
inductive PlainGroup where
  | soRegReg | modImm | t2So | thumbS4Imm | thumbSrImm | bitfieldInvMaskImm | cpsiMod
  | cpsiFlag | gprPair | memBOption | fpImm | vectorIndex | instSyncBOption
  | coprocOptionImm | postIdxImm8s4 | thumbLdrLabel | thumbAddrModeImm5S1
  | thumbAddrModeImm5S2 | thumbAddrModeImm5S4 | thumbAddrModeRr | thumbAddrModeSp
  | addrMode2 | addrMode2Offset | addrMode3Offset | t2AddrModeSoReg
  | t2AddrModeImm8Offset | t2AddrModeImm8s4Offset | t2AddrModeImm0To1020s4
  | postIdxReg | postIdxImm8 | bankedReg | pkhLslShiftImm | pkhAsrShiftImm
  | immPlusOne | setend | mveSaturate | shiftImm | rotImm | addrModeTbb | addrModeTbh
  | traceSyncBOption | vmovModImm | fBits16 | fBits32 | vptMask
deriving DecidableEq, Repr

namespace PlainGroup

def all : List PlainGroup :=
  [.soRegReg, .modImm, .t2So, .thumbS4Imm, .thumbSrImm, .bitfieldInvMaskImm, .cpsiMod,
    .cpsiFlag, .gprPair, .memBOption, .fpImm, .vectorIndex, .instSyncBOption,
    .coprocOptionImm, .postIdxImm8s4, .thumbLdrLabel, .thumbAddrModeImm5S1,
    .thumbAddrModeImm5S2, .thumbAddrModeImm5S4, .thumbAddrModeRr, .thumbAddrModeSp,
    .addrMode2, .addrMode2Offset, .addrMode3Offset, .t2AddrModeSoReg,
    .t2AddrModeImm8Offset, .t2AddrModeImm8s4Offset, .t2AddrModeImm0To1020s4,
    .postIdxReg, .postIdxImm8, .bankedReg, .pkhLslShiftImm, .pkhAsrShiftImm,
    .immPlusOne, .setend, .mveSaturate, .shiftImm, .rotImm, .addrModeTbb,
    .addrModeTbh, .traceSyncBOption, .vmovModImm, .fBits16, .fBits32, .vptMask]

def name : PlainGroup → String
  | .soRegReg => "SoRegReg"
  | .modImm => "ModImm"
  | .t2So => "T2So"
  | .thumbS4Imm => "ThumbS4Imm"
  | .thumbSrImm => "ThumbSrImm"
  | .bitfieldInvMaskImm => "BitfieldInvMaskImm"
  | .cpsiMod => "CpsiMod"
  | .cpsiFlag => "CpsiFlag"
  | .gprPair => "GprPair"
  | .memBOption => "MemBOption"
  | .fpImm => "FpImm"
  | .vectorIndex => "VectorIndex"
  | .instSyncBOption => "InstSyncBOption"
  | .coprocOptionImm => "CoprocOptionImm"
  | .postIdxImm8s4 => "PostIdxImm8s4"
  | .thumbLdrLabel => "ThumbLdrLabel"
  | .thumbAddrModeImm5S1 => "ThumbAddrModeImm5S1"
  | .thumbAddrModeImm5S2 => "ThumbAddrModeImm5S2"
  | .thumbAddrModeImm5S4 => "ThumbAddrModeImm5S4"
  | .thumbAddrModeRr => "ThumbAddrModeRr"
  | .thumbAddrModeSp => "ThumbAddrModeSp"
  | .addrMode2 => "AddrMode2"
  | .addrMode2Offset => "AddrMode2Offset"
  | .addrMode3Offset => "AddrMode3Offset"
  | .t2AddrModeSoReg => "T2AddrModeSoReg"
  | .t2AddrModeImm8Offset => "T2AddrModeImm8Offset"
  | .t2AddrModeImm8s4Offset => "T2AddrModeImm8s4Offset"
  | .t2AddrModeImm0To1020s4 => "T2AddrModeImm0_1020s4"
  | .postIdxReg => "PostIdxReg"
  | .postIdxImm8 => "PostIdxImm8"
  | .bankedReg => "BankedReg"
  | .pkhLslShiftImm => "PkhLslShiftImm"
  | .pkhAsrShiftImm => "PkhAsrShiftImm"
  | .immPlusOne => "ImmPlusOne"
  | .setend => "Setend"
  | .mveSaturate => "MveSaturate"
  | .shiftImm => "ShiftImm"
  | .rotImm => "RotImm"
  | .addrModeTbb => "AddrModeTbb"
  | .addrModeTbh => "AddrModeTbh"
  | .traceSyncBOption => "TraceSyncBOption"
  | .vmovModImm => "VmovModImm"
  | .fBits16 => "FBits16"
  | .fBits32 => "FBits32"
  | .vptMask => "VptMask"

end PlainGroup

/-- Unmapped vector lists by the spacing of their registers. -/
inductive ListSpacing where
  | allLanes
  | spaced
  | spacedAllLanes
deriving DecidableEq, Repr

def ListSpacing.name : ListSpacing → String
  | .allLanes => "VectorListAllLanes"
  | .spaced => "VectorListSpaced"
  | .spacedAllLanes => "VectorListSpacedAllLanes"

/-- Unmapped addressing modes that may show an offset of zero. -/
inductive OffsetMode where
  | addrMode5 | addrMode5Fp16 | addrModeImm12 | addrMode3 | t2AddrModeImm8
  | t2AddrModeImm8s4
deriving DecidableEq, Repr

def OffsetMode.name : OffsetMode → String
  | .addrMode5 => "AddrMode5"
  | .addrMode5Fp16 => "AddrMode5Fp16"
  | .addrModeImm12 => "AddrModeImm12"
  | .addrMode3 => "AddrMode3"
  | .t2AddrModeImm8 => "T2AddrModeImm8"
  | .t2AddrModeImm8s4 => "T2AddrModeImm8s4"

/-- A group of the instruction set that has no detail. -/
inductive UnmappedGroup where
  | plain (group : PlainGroup)
  | vectorList (spacing : ListSpacing) (size : ListSize)
  | offset (mode : OffsetMode) (alwaysShowZero : Bool)
  | adrLabel (shift : UInt8)
  | mveVectorList (regs : UInt8)
  | mveAddrModeRq (shift : UInt8)
  | complexRotation (angle remainder : UInt16)
deriving DecidableEq, Repr

/-- The group and its parameters as they appear in a message. -/
def UnmappedGroup.describe : UnmappedGroup → String
  | .plain group => group.name
  | .vectorList spacing size => spacing.name ++ "(" ++ size.name ++ ")"
  | .offset mode always =>
      mode.name ++ " \x7b always_print_imm0: " ++ (if always then "true" else "false") ++
        " \x7d"
  | .adrLabel shift => "AdrLabel \x7b shift: " ++ Numeral.decimal shift.toNat ++ " \x7d"
  | .mveVectorList regs =>
      "MveVectorList \x7b regs: " ++ Numeral.decimal regs.toNat ++ " \x7d"
  | .mveAddrModeRq shift =>
      "MveAddrModeRq \x7b shift: " ++ Numeral.decimal shift.toNat ++ " \x7d"
  | .complexRotation angle remainder =>
      "ComplexRotation \x7b angle: " ++ Numeral.decimal angle.toNat ++ ", remainder: " ++
        Numeral.decimal remainder.toNat ++ " \x7d"

/-- The role of a raw operand. -/
inductive OperandGroup where
  | predicate (kind : PredicateKind)
  | vectorPredicate
  /-- The declared type of the slot decides. -/
  | generic
  /-- The number of a coprocessor. -/
  | coprocessor
  /-- A register of a coprocessor. -/
  | coprocessorRegister
  /-- A base register followed by an alignment. -/
  | alignedAddress
  /-- An optional register offset after an aligned address. -/
  | alignedOffset
  /-- A base register alone. -/
  | baseAddress
  /-- The register that says whether flags are set. -/
  | flagSetter
  /-- Consecutive double words, the first one named. -/
  | vectorList (size : ListSize)
  /-- A lane inside a memory operand, and an immediate elsewhere. -/
  | bareImmediate
  /-- This register and all that follow it. -/
  | registerList
  /-- The mask of an `it` block. -/
  | itMask
  /-- The mask of a status register move. -/
  | statusMask
  | unmapped (group : UnmappedGroup)
deriving DecidableEq, Repr

end Disassembly.Arm
