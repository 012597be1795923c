import Disassembly.FlagText

/-!
# Effects on x86 flags

A flag word has one bit for each effect on a flag, such as resetting the carry
flag. Each effect has a long name, used where a word is written as data, and a
short one, used in lines.
-/

namespace Disassembly.X86

/-- What happens to a flag. -/
inductive Effect where
  | modify | prior | reset | set | test | undefined
deriving DecidableEq, Repr

namespace Effect

def longName : Effect → String
  | .modify => "MODIFY"
  | .prior => "PRIOR"
  | .reset => "RESET"
  | .set => "SET"
  | .test => "TEST"
  | .undefined => "UNDEFINED"

def shortName : Effect → String
  | .modify => "MOD"
  | .undefined => "UNDEF"
  | effect => effect.longName

end Effect

/-- An effect on a flag of a given name. -/
structure FlagEffect where
  effect : Effect
  flag : String
deriving DecidableEq, Repr

namespace FlagEffect

def longName (e : FlagEffect) : String := e.effect.longName ++ "_" ++ e.flag

def shortName (e : FlagEffect) : String := e.effect.shortName ++ "_" ++ e.flag

/-- The same effect on each of several flags. -/
def onEach (effect : Effect) (flags : List String) : List FlagEffect :=
  flags.map (⟨effect, ·⟩)

/-- The effects of the bits of a processor flag word, from bit 0 on. -/
def processor : List FlagEffect :=
  onEach .modify ["AF", "CF", "SF", "ZF", "PF", "OF", "TF", "IF", "DF", "NT", "RF"] ++
  onEach .prior ["OF", "SF", "ZF", "AF", "PF", "CF", "TF", "IF", "DF", "NT"] ++
  onEach .reset ["OF", "CF", "DF", "IF", "SF", "AF", "TF", "NT", "PF"] ++
  onEach .set ["CF", "DF", "IF"] ++
  onEach .test ["OF", "SF", "ZF", "PF", "CF", "NT", "DF"] ++
  onEach .undefined ["OF", "SF", "ZF", "PF", "AF", "CF"] ++
  onEach .reset ["RF"] ++
  onEach .test ["RF", "IF", "TF", "AF"] ++
  onEach .reset ["ZF"] ++
  onEach .set ["OF", "SF", "ZF", "AF", "PF"] ++
  onEach .reset ["0F", "AC"]

/-- The effects of the bits of a floating point flag word, from bit 0 on. -/
def floatingPoint : List FlagEffect :=
  let conditions := ["C0", "C1", "C2", "C3"]
  onEach .modify conditions ++ onEach .reset conditions ++ onEach .set conditions ++
    onEach .undefined conditions ++ onEach .test conditions

/-- The long names with their bits. -/
def flagNames (effects : List FlagEffect) : FlagNames where
  width := 64
  flags := effects.zipIdx.map fun (e, i) => (e.longName, 1 <<< i)

/-- The short name of a word with exactly one bit. -/
def bitName? (effects : List FlagEffect) (bits : UInt64) : Option String :=
  match (List.range 64).filter bits.toNat.testBit with
  | [i] => effects[i]?.map shortName
  | _ => none

/-- The short names of the parts of a word. -/
def partNames (effects : List FlagEffect) (bits : UInt64) : List String :=
  ((flagNames effects).components bits.toNat).filterMap
    fun part => bitName? effects (UInt64.ofNat part)

end FlagEffect

/-- The effects of an instruction on the processor flags. -/
structure EFlags where
  bits : UInt64
deriving DecidableEq, Repr, Inhabited

/-- The effects of an instruction on the floating point conditions. -/
structure FpuFlags where
  bits : UInt64
deriving DecidableEq, Repr, Inhabited

def EFlags.flagNames : FlagNames := FlagEffect.flagNames FlagEffect.processor

def FpuFlags.flagNames : FlagNames := FlagEffect.flagNames FlagEffect.floatingPoint

/-- The short name of a single processor flag effect. -/
def EFlags.bitName? (flags : EFlags) : Option String :=
  FlagEffect.bitName? FlagEffect.processor flags.bits

/-- The short name of a single floating point effect. -/
def FpuFlags.bitName? (flags : FpuFlags) : Option String :=
  FlagEffect.bitName? FlagEffect.floatingPoint flags.bits

def EFlags.partNames (flags : EFlags) : List String :=
  FlagEffect.partNames FlagEffect.processor flags.bits

def FpuFlags.partNames (flags : FpuFlags) : List String :=
  FlagEffect.partNames FlagEffect.floatingPoint flags.bits

end Disassembly.X86
