import Disassembly.Arch
import Disassembly.Numeral

/-!
# ARM registers

Registers are numbered bank by bank: status and special registers from 1, the
double words `d0` to `d31` from 14, further floating point control registers
from 46, the quad words `q0` to `q15` from 50, the general registers `r0` to
`r12` from 66, the single words `s0` to `s31` from 79, and `vpr` last.
Zero is no register, and other numbers are kept without a name.
-/

namespace Disassembly.Arm

structure Register where
  id : UInt16
deriving DecidableEq, Repr, Hashable, Inhabited

namespace Register

/-- No register. -/
def absent : Register := ⟨0⟩
def cpsr : Register := ⟨3⟩
def itstate : Register := ⟨9⟩
def lr : Register := ⟨10⟩
def pc : Register := ⟨11⟩
def sp : Register := ⟨12⟩
def d0 : Register := ⟨14⟩
def q0 : Register := ⟨50⟩
def q15 : Register := ⟨65⟩
def r0 : Register := ⟨66⟩
def s0 : Register := ⟨79⟩

/-- One of the quad words. -/
def isQuad (r : Register) : Bool := q0.id ≤ r.id && r.id ≤ q15.id

/-- The conventional names of the registers from 1 on. -/
def names : List String := [
  "apsr", "apsr_nzcv", "cpsr", "fpexc", "fpinst", "fpscr", "fpscr_nzcv", "fpsid",
  "itstate", "lr", "pc", "sp", "spsr",
  "d0", "d1", "d2", "d3", "d4", "d5", "d6", "d7",
  "d8", "d9", "d10", "d11", "d12", "d13", "d14", "d15",
  "d16", "d17", "d18", "d19", "d20", "d21", "d22", "d23",
  "d24", "d25", "d26", "d27", "d28", "d29", "d30", "d31",
  "fpinst2", "mvfr0", "mvfr1", "mvfr2",
  "q0", "q1", "q2", "q3", "q4", "q5", "q6", "q7",
  "q8", "q9", "q10", "q11", "q12", "q13", "q14", "q15",
  "r0", "r1", "r2", "r3", "r4", "r5", "r6", "r7",
  "r8", "r9", "r10", "r11", "r12",
  "s0", "s1", "s2", "s3", "s4", "s5", "s6", "s7",
  "s8", "s9", "s10", "s11", "s12", "s13", "s14", "s15",
  "s16", "s17", "s18", "s19", "s20", "s21", "s22", "s23",
  "s24", "s25", "s26", "s27", "s28", "s29", "s30", "s31",
  "vpr"]

/-- The conventional name of a register. -/
def conventionalName? (r : Register) : Option String :=
  if r = absent then none else names[r.id.toNat - 1]?

/-- The number of a register that has one in place of its conventional name. -/
def numericName? (r : Register) : Option String :=
  if r = sp then some "r13"
  else if r = lr then some "r14"
  else if r = pc then some "r15"
  else none

/-- The name of a register, if it has one. -/
def name? (r : Register) : RegSpelling → Option String
  | .conventional => r.conventionalName?
  | .numeric => r.numericName?.or r.conventionalName?

/-- The name of a register, or `reg` and its number. -/
def label (r : Register) (spelling : RegSpelling) : String :=
  (r.name? spelling).getD ("reg" ++ Numeral.decimal r.id.toNat)

end Register

/-- The register banks that are addressed by number. -/
inductive Bank where
  | general
  | double
  | quad
  | single
deriving DecidableEq, Repr

/-- Register number `n` of a bank. Among the general registers 13, 14 and 15 are
the stack pointer, the link register and the program counter. -/
def Bank.register? (bank : Bank) (n : UInt16) : Option Register :=
  match bank with
  | .general =>
      if n ≤ 12 then some ⟨Register.r0.id + n⟩
      else if n = 13 then some Register.sp
      else if n = 14 then some Register.lr
      else if n = 15 then some Register.pc
      else none
  | .double => if n < 32 then some ⟨Register.d0.id + n⟩ else none
  | .quad => if n < 16 then some ⟨Register.q0.id + n⟩ else none
  | .single => if n < 32 then some ⟨Register.s0.id + n⟩ else none

end Disassembly.Arm
