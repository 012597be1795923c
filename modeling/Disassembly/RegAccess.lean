import Disassembly.Detail

/-!
# Register summaries

The registers an instruction reads and those it writes, each once and in the
order in which they are first met. A summary is built from touches: reads and
writes of one register, those that are no operand first.
-/

namespace Disassembly

/-- A read or a write of one register. -/
inductive Touch where
  | read (reg : UInt16)
  | write (reg : UInt16)
deriving DecidableEq, Repr

/-- The touches of a register by an access: the read comes first. -/
def Access.touches (access : Access) (reg : UInt16) : List Touch :=
  (if access.reads then [.read reg] else []) ++
    if access.writes then [.write reg] else []

/-- The most registers on each side of a summary. -/
abbrev RegAccess.maxRegs : Nat := 64

structure RegAccess where
  read : BoundedList UInt16 RegAccess.maxRegs := .empty
  write : BoundedList UInt16 RegAccess.maxRegs := .empty
deriving BEq

/-- Add a value unless it is there already. -/
def BoundedList.insert {α : Type} {n : Nat} [BEq α] (l : BoundedList α n) (a : α) :
    Except CapacityError (BoundedList α n) :=
  if l.contains a then .ok l else l.push a

namespace RegAccess

instance : Inhabited RegAccess := ⟨{}⟩

/-- Record one touch. -/
def record (access : RegAccess) : Touch → Except CapacityError RegAccess
  | .read reg => (access.read.insert reg).map ({ access with read := · })
  | .write reg => (access.write.insert reg).map ({ access with write := · })

/-- Record touches in order. -/
def recordAll (access : RegAccess) (touches : List Touch) :
    Except CapacityError RegAccess :=
  touches.foldlM record access

/-- Record touches in order up to the first that does not fit. The result is
the summary reached and what stopped it. -/
def recordUpTo (access : RegAccess) : List Touch → RegAccess × Option CapacityError
  | [] => (access, none)
  | touch :: rest =>
      match access.record touch with
      | .ok next => next.recordUpTo rest
      | .error stopped => (access, some stopped)

/-- The summary of touches. -/
def ofTouches (touches : List Touch) : Except CapacityError RegAccess :=
  recordAll {} touches

/-- Recording everything succeeds exactly when nothing stops it. -/
theorem recordUpTo_eq (access : RegAccess) (touches : List Touch) :
    access.recordAll touches =
      match access.recordUpTo touches with
      | (reached, none) => .ok reached
      | (_, some stopped) => .error stopped := by
  induction touches generalizing access with
  | nil => rfl
  | cons touch rest ih =>
      simp only [recordAll, List.foldlM_cons, recordUpTo]
      cases h : access.record touch with
      | ok next => exact ih next
      | error stopped => rfl

end RegAccess

/-- The registers touched without being an operand, reads first. -/
def Detail.implicitTouches (d : Detail) : List Touch :=
  d.regsRead.toList.map .read ++ d.regsWrite.toList.map .write

/-- A read of a register operand or address part, unless it is absent. -/
def Touch.readPart (reg : UInt16) : List Touch :=
  if reg = 0 then [] else [.read reg]

namespace Arm

/-- The touches of one operand. The base of a memory operand is written too when
the instruction writes it back. -/
def Operand.touches (op : Operand) (writeback : Bool) : List Touch :=
  match op.value with
  | .reg r => if r = .absent then [] else op.access.touches r.id
  | .mem m =>
      Touch.readPart m.base.id ++
        (if writeback ∧ m.base ≠ .absent then [.write m.base.id] else []) ++
        Touch.readPart m.index.id
  | _ => []

/-- The touches of all operands, in order. -/
def Record.touches (r : Record) : List Touch :=
  r.operands.toList.flatMap (·.touches r.writeback)

/-- The registers an instruction touches, taken as an ARM instruction. -/
def regAccess (d : Detail) : Except CapacityError RegAccess :=
  RegAccess.ofTouches (d.implicitTouches ++ (d.arm?.map Record.touches).getD [])

end Arm

namespace X86

/-- The touches of one operand; all parts of an address are read. -/
def Operand.touches (op : Operand) : List Touch :=
  match op.value with
  | .reg r => if r = .absent then [] else op.access.touches r.id
  | .mem m =>
      Touch.readPart m.segment.id ++ Touch.readPart m.base.id ++
        Touch.readPart m.index.id
  | _ => []

/-- The touches of all operands, in order. -/
def Record.touches (r : Record) : List Touch :=
  r.operands.toList.flatMap Operand.touches

/-- The registers an instruction touches, taken as an x86 instruction. -/
def regAccess (d : Detail) : Except CapacityError RegAccess :=
  RegAccess.ofTouches (d.implicitTouches ++ (d.x86?.map Record.touches).getD [])

end X86

end Disassembly
