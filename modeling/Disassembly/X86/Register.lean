import Disassembly.Numeral

/-!
# x86 registers
-/

namespace Disassembly.X86

/-- A register by number. Zero is no register, and numbers without a name are
kept. -/
structure Register where
  id : UInt16
deriving DecidableEq, Repr, Hashable, Inhabited

namespace Register

/-- No register. -/
def absent : Register := ⟨0⟩

/-- The names of the registers from 1 on. -/
def names : List String := [
  "ah", "al", "ax", "bh", "bl", "bp", "bpl",
  "bx", "ch", "cl", "cs", "cx", "dh", "di", "dil",
  "dl", "ds", "dx", "eax", "ebp", "ebx", "ecx", "edi",
  "edx", "eflags", "eip", "es", "esi", "esp", "fpsw", "fs",
  "gs", "ip", "rax", "rbp", "rbx", "rcx", "rdi", "rdx",
  "rip", "rsi", "rsp", "si", "sil", "sp", "spl", "ss",
  "r8", "r9", "r10", "r11", "r12", "r13", "r14", "r15",
  "st(0)", "st(1)", "st(2)", "st(3)", "st(4)", "st(5)", "st(6)", "st(7)",
  "xmm0", "xmm1", "xmm2", "xmm3", "xmm4", "xmm5", "xmm6", "xmm7",
  "xmm8", "xmm9", "xmm10", "xmm11", "xmm12", "xmm13", "xmm14", "xmm15",
  "ymm0", "ymm1", "ymm2", "ymm3", "ymm4", "ymm5", "ymm6", "ymm7",
  "ymm8", "ymm9", "ymm10", "ymm11", "ymm12", "ymm13", "ymm14", "ymm15",
  "k0", "k1", "k2", "k3", "k4", "k5", "k6", "k7"]

/-- The name of a register, if it has one. -/
def name? (r : Register) : Option String :=
  if r = absent then none else names[r.id.toNat - 1]?

/-- The name, or `reg` and the number. -/
def label (r : Register) : String :=
  r.name?.getD ("reg" ++ Numeral.decimal r.id.toNat)

end Register

end Disassembly.X86
