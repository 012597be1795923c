import Disassembly.Arm.Opcode
import Disassembly.Arm.OperandGroup

/-!
# Operand walks

The order in which the raw operands of an opcode are visited, and the role in
which each one is. A walk is a list of builder steps.
-/

namespace Disassembly.Arm

/-- One step of a walk. -/
inductive Step where
  /-- Classify a raw operand as a member of a group. -/
  | classify (group : OperandGroup) (slot : Nat)
  /-- Shift left by the immediate in a slot. -/
  | shiftLeft (slot : Nat)
  /-- Shift as packed in a slot, the amount above three bits of shift opcode. -/
  | packedShift (slot : Nat)
  | openMemory
  | closeMemory
  | writeback
deriving DecidableEq, Repr

namespace Step

def op (slot : Nat) : Step := .classify .generic slot

def pred (slot : Nat) : Step := .classify (.predicate .plain) slot

def mandatory (slot : Nat) : Step := .classify (.predicate .mandatory) slot

/-- A branch with a condition. -/
def conditionalBranch : List Step := [pred 1, op 0]

def thumbCall : List Step := [pred 0, op 2]

def move : List Step := [.classify .flagSetter 4, pred 2, op 0, op 1]

/-- A load from a base register and a displacement. -/
def load : List Step := [pred 3, op 0, .openMemory, op 1, op 2, .closeMemory]

def statusMove : List Step := [pred 2, .classify .statusMask 0, op 1]

end Step

open Step in
/-- The walk of an opcode. -/
def Opcode.walk : Opcode → List Step
  | .invalid => []
  | .addrsi => [.classify .flagSetter 6, pred 4, op 0, op 1, op 2, .packedShift 3]
  | .bcc => conditionalBranch
  | .bl => [op 0]
  | .blPred => conditionalBranch
  | .blxi => [op 0]
  | .bx => [op 0]
  | .cdp =>
      [pred 6, .classify .coprocessor 0, op 1, .classify .coprocessorRegister 2,
        .classify .coprocessorRegister 3, .classify .coprocessorRegister 4, op 5]
  | .cmnri => [pred 2, op 0, op 1]
  | .ldrex => [pred 2, op 0, .classify .baseAddress 1]
  | .movi => move
  | .movr => move
  | .msr => statusMove
  | .pldi12 => [.openMemory, op 0, op 1, .closeMemory]
  | .strPreImm => [pred 4, op 1, .openMemory, op 2, op 3, .closeMemory, .writeback]
  | .t2b => conditionalBranch
  | .t2bfi =>
      [pred 4, op 0, op 2, .classify (.unmapped (.plain .bitfieldInvMaskImm)) 3]
  | .t2csel => [op 0, op 1, op 2, mandatory 3]
  | .t2ldmia => [pred 1, op 0, .classify .registerList 3]
  | .t2ldrex => load
  | .t2ldri12 => load
  | .t2ldrs => [pred 4, op 0, .openMemory, op 1, op 2, .shiftLeft 3, .closeMemory]
  | .t2movi => move
  | .t2msrM => statusMove
  | .t2tbb => [pred 2, .openMemory, op 0, op 1, .closeMemory]
  | .tB => conditionalBranch
  | .tBcc => conditionalBranch
  | .tBl => thumbCall
  | .tBlxi => thumbCall
  | .tCbnz => [op 0, op 1]
  | .tCbz => [op 0, op 1]
  | .tIt => [.classify .itMask 1, mandatory 0]
  | .tLdmiaUpd => [pred 2, op 1, .writeback, .classify .registerList 4]
  | .tLdrhi => load
  | .tPop => [pred 0, .classify .registerList 2]
  | .tPush => [pred 0, .classify .registerList 2]
  | .tSvc => [pred 1, op 0]
  | .mveVaddi32 => [.classify .vectorPredicate 3, op 0, op 1, op 2]
  | .vld1d8 =>
      [pred 3, .classify (.vectorList .one) 0, .classify .alignedAddress 1]
  | .vld1lnd8 =>
      [pred 5, op 0, .openMemory, .classify .bareImmediate 4, .closeMemory,
        .classify .alignedAddress 1]
  | .vld2d16 =>
      [pred 3, .classify (.vectorList .two) 0, .classify .alignedAddress 1]
  | .vst1d8WbReg =>
      [pred 5, .classify (.vectorList .one) 4, .classify .alignedAddress 1,
        .classify .alignedOffset 3, .writeback]

/-- The walk of an opcode word, empty for a word that is no opcode. -/
def walk (word : UInt32) : List Step :=
  match Opcode.ofWord? word with
  | some opcode => opcode.walk
  | none => []

end Disassembly.Arm
