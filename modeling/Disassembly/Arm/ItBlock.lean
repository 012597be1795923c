/-!
# Layout of conditional blocks

An `it` instruction makes up to four instructions conditional. Its mask has a
bit for each instruction after the first one, most significant first, followed
by a one that ends the block and by zeros. A mask bit equal to the lowest bit of
the condition means that the instruction runs under the condition; otherwise it
runs under the inverse one.
-/

namespace Disassembly.Arm.ItBlock

/-- The mask bits before the one that ends the block, most significant first.
A mask without any one has none. -/
def followers (mask : Nat) : List Bool :=
  match [3, 2, 1, 0].map mask.testBit with
  | [a, b, c, true] => [a, b, c]
  | [a, b, true, false] => [a, b]
  | [a, true, false, false] => [a]
  | _ => []

/-- One bit for each instruction after the first one, most significant first and
set when it runs under the inverse condition, followed by a one. -/
def layout (conditionBit : Bool) (mask : Nat) : Nat :=
  2 * (followers mask).foldl (fun n bit => 2 * n + if bit = conditionBit then 0 else 1) 0
    + 1

end Disassembly.Arm.ItBlock
