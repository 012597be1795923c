import Disassembly.Numeral

/-!
# System registers

Numbers below 16 select fields of the saved status register, one bit a field,
and multiples of 16 below 256 fields of the current one. Numbers from 256 on
stand for one register each.
-/

namespace Disassembly.Arm

structure SystemRegister where
  id : UInt16
deriving DecidableEq, Repr, Hashable, Inhabited

namespace SystemRegister

def apsr : SystemRegister := ⟨256⟩
def apsrG : SystemRegister := ⟨257⟩
def apsrNzcvq : SystemRegister := ⟨258⟩
def apsrNzcvqg : SystemRegister := ⟨259⟩
def iapsr : SystemRegister := ⟨260⟩
def iapsrG : SystemRegister := ⟨261⟩
def iapsrNzcvqg : SystemRegister := ⟨262⟩
def iapsrNzcvq : SystemRegister := ⟨263⟩
def eapsr : SystemRegister := ⟨264⟩
def eapsrG : SystemRegister := ⟨265⟩
def eapsrNzcvqg : SystemRegister := ⟨266⟩
def eapsrNzcvq : SystemRegister := ⟨267⟩
def xpsr : SystemRegister := ⟨268⟩
def xpsrG : SystemRegister := ⟨269⟩
def xpsrNzcvqg : SystemRegister := ⟨270⟩
def xpsrNzcvq : SystemRegister := ⟨271⟩
def ipsr : SystemRegister := ⟨272⟩
def epsr : SystemRegister := ⟨273⟩
def iepsr : SystemRegister := ⟨274⟩
def msp : SystemRegister := ⟨275⟩
def psp : SystemRegister := ⟨276⟩
def primask : SystemRegister := ⟨277⟩
def basepri : SystemRegister := ⟨278⟩
def basepriMax : SystemRegister := ⟨279⟩
def faultmask : SystemRegister := ⟨280⟩
def control : SystemRegister := ⟨281⟩
def msplim : SystemRegister := ⟨282⟩
def psplim : SystemRegister := ⟨283⟩
def mspNs : SystemRegister := ⟨284⟩
def pspNs : SystemRegister := ⟨285⟩
def msplimNs : SystemRegister := ⟨286⟩
def psplimNs : SystemRegister := ⟨287⟩
def primaskNs : SystemRegister := ⟨288⟩
def basepriNs : SystemRegister := ⟨289⟩
def faultmaskNs : SystemRegister := ⟨290⟩
def controlNs : SystemRegister := ⟨291⟩
def spNs : SystemRegister := ⟨292⟩

/-- The names of the registers from 256 on. -/
def names : List String := [
  "apsr", "apsr_g", "apsr_nzcvq", "apsr_nzcvqg",
  "iapsr", "iapsr_g", "iapsr_nzcvqg", "iapsr_nzcvq",
  "eapsr", "eapsr_g", "eapsr_nzcvqg", "eapsr_nzcvq",
  "xpsr", "xpsr_g", "xpsr_nzcvqg", "xpsr_nzcvq",
  "ipsr", "epsr", "iepsr", "msp", "psp", "primask", "basepri", "basepri_max",
  "faultmask", "control", "msplim", "psplim",
  "msp_ns", "psp_ns", "msplim_ns", "psplim_ns", "primask_ns", "basepri_ns",
  "faultmask_ns", "control_ns", "sp_ns"]

/-- The letters of the fields in a four-bit mask: flags, status, extension,
control. -/
def fieldLetters (mask : Nat) : String :=
  (if mask.testBit 3 then "f" else "") ++ (if mask.testBit 2 then "s" else "") ++
    (if mask.testBit 1 then "x" else "") ++ (if mask.testBit 0 then "c" else "")

/-- The fields of the saved status register in a four-bit mask. -/
def savedFields (mask : UInt16) : SystemRegister := ⟨mask⟩

/-- The fields of the current status register in a four-bit mask. -/
def currentFields (mask : UInt16) : SystemRegister := ⟨mask <<< 4⟩

/-- The name of a system register; a mix of saved and current fields has none. -/
def name? (r : SystemRegister) : Option String :=
  let n := r.id.toNat
  if n = 0 then none
  else if n < 16 then some ("spsr_" ++ fieldLetters n)
  else if n < 256 then
    if n % 16 = 0 then some ("cpsr_" ++ fieldLetters (n / 16)) else none
  else names[n - 256]?

/-- The name, or `sysreg` and the number. -/
def label (r : SystemRegister) : String :=
  r.name?.getD ("sysreg" ++ Numeral.decimal r.id.toNat)

end SystemRegister

end Disassembly.Arm
