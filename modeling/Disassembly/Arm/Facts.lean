import Disassembly.Arm.Group
import Disassembly.Arm.Mnemonic
import Disassembly.Arm.Opcode
import Disassembly.Arm.Register

/-!
# Instruction facts

What holds of every instruction with an opcode, whatever its operands: the
public mnemonic, the registers it touches without naming them, its groups, and
whether it branches.
-/

namespace Disassembly.Arm

structure Facts where
  mnemonic : Mnemonic
  /-- Registers read without being an operand. -/
  reads : List Register := []
  /-- Registers written without being an operand. -/
  writes : List Register := []
  groups : List Group
  branch : Bool := false
  indirectBranch : Bool := false
deriving DecidableEq, Repr

namespace Facts

def plain (mnemonic : Mnemonic) (groups : List Group) : Facts :=
  { mnemonic, groups }

/-- A branch to a fixed target; the group `branchRelative` comes first. -/
def relative (mnemonic : Mnemonic) (groups : List Group) : Facts :=
  { mnemonic, groups := .branchRelative :: groups, branch := true }

/-- A relative branch that reads the flags. -/
def conditional (groups : List Group) : Facts :=
  { relative .b groups with reads := [.cpsr] }

/-- A relative branch that leaves a return address. -/
def call (mnemonic : Mnemonic) (groups : List Group) : Facts :=
  { mnemonic, reads := [.pc], writes := [.lr, .pc],
    groups := .call :: .branchRelative :: groups, branch := true }

/-- A branch to a computed target. -/
def indirect (mnemonic : Mnemonic) (groups : List Group) : Facts :=
  { mnemonic, groups, branch := true, indirectBranch := true }

/-- A transfer between registers and the stack. -/
def stack (mnemonic : Mnemonic) : Facts :=
  { mnemonic, reads := [.sp], writes := [.sp], groups := [.isThumb] }

/-- The word of a failed decode has no facts. -/
def ofOpcode? : Opcode → Option Facts
  | .invalid => none
  | .addrsi => some (plain .add [.isArm])
  | .bcc => some (conditional [.isArm])
  | .bl => some (call .bl [.isArm])
  | .blPred => some (call .bl [.isArm])
  | .blxi => some (call .blx [.isArm, .hasV5T])
  | .bx => some (indirect .bx [.isArm])
  | .cdp => some (plain .cdp [.isArm])
  | .cmnri => some { plain .cmn [.isArm] with writes := [.cpsr] }
  | .ldrex => some (plain .ldrex [.isArm])
  | .movi => some (plain .mov [.isArm])
  | .movr => some (plain .mov [.isArm])
  | .msr => some (plain .msr [.isArm])
  | .pldi12 => some (plain .pld [.isArm])
  | .strPreImm => some (plain .str [.isArm])
  | .t2b => some (relative .b [.isThumb2])
  | .t2bfi => some (plain .bfi [.isThumb2, .hasV6])
  | .t2csel => some { plain .csel [.isThumb2, .hasV8] with reads := [.cpsr] }
  | .t2ldmia => some (plain .ldm [.isThumb2])
  | .t2ldrex => some (plain .ldrex [.isThumb, .hasV8MBaseline])
  | .t2ldri12 => some (plain .ldr [.isThumb2])
  | .t2ldrs => some (plain .ldr [.isThumb2])
  | .t2movi => some (plain .mov [.isThumb2])
  | .t2msrM => some (plain .msr [.isThumb2, .isMClass])
  | .t2tbb => some (indirect .tbb [.isThumb2])
  | .tB => some (relative .b [.isThumb])
  | .tBcc => some (conditional [.isThumb])
  | .tBl => some (call .bl [.isThumb])
  | .tBlxi => some (call .blx [.isThumb, .hasV5T, .isNotMClass])
  | .tCbnz => some (relative .cbnz [.isThumb2])
  | .tCbz => some (relative .cbz [.isThumb2])
  | .tIt => some { plain .it [.isThumb2] with writes := [.itstate] }
  | .tLdmiaUpd => some (plain .ldm [.isThumb])
  | .tLdrhi => some (plain .ldrh [.isThumb])
  | .tPop => some (stack .pop)
  | .tPush => some (stack .push)
  | .tSvc => some (plain .svc [.int, .isThumb])
  | .mveVaddi32 => some (plain .vadd [.hasMveInt])
  | .vld1d8 => some (plain .vld1 [.hasNeon])
  | .vld1lnd8 => some (plain .vld1 [.hasNeon])
  | .vld2d16 => some (plain .vld2 [.hasNeon])
  | .vst1d8WbReg => some (plain .vst1 [.hasNeon])

/-- The facts of an opcode word, if it has any. -/
def ofWord? (word : UInt32) : Option Facts :=
  (Opcode.ofWord? word).bind ofOpcode?

/-- The instruction writes the flags without naming them. -/
def setsFlags (facts : Facts) : Bool := facts.writes.contains .cpsr

/-- The instruction branches in any way. -/
def isJump (facts : Facts) : Bool := facts.branch || facts.indirectBranch

end Facts

end Disassembly.Arm
