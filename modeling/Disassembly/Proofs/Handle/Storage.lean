import Disassembly.Handle
import Disassembly.Proofs.Arm.BuildFacts

/-!
# Storage that is used again

What a decode into storage delivers is what a decode into new storage delivers. An
error leaves behind what was there, with a record that may have been reset, and the next
decode sees nothing of it.
-/

namespace Disassembly

/-- What a decode into storage delivers: the instruction, or the error. -/
def delivered : Insn × Option Error → Except Error Insn
  | (insn, none) => .ok insn
  | (_, some error) => .error error

namespace Handle

/-- Two decodes give the same, or both fail. The records that failures leave may
differ. -/
def SameResult (r s : Option (UInt16 × UInt16) × Option Detail) : Prop :=
  r = s ∨ r.1 = none ∧ s.1 = none

variable (h : Handle) (code : List UInt8) (address : UInt64)

/-- Only whether there is a record to start from matters to a decode. -/
theorem decode_alike {d e : Option Detail} (hrecords : d.isSome = e.isSome) :
    Alike SameResult (h.decode code address d) (h.decode code address e) := by
  cases d with
  | none =>
      cases e with
      | none => exact .refl (fun r => .inl rfl) _
      | some e => cases hrecords
  | some d =>
      cases e with
      | none => cases hrecords
      | some e =>
          simp only [decode]
          cases h.arch with
          | x86 => exact .refl (fun r => .inl rfl) _
          | arm =>
              apply Alike.bind_same
              intro decoded _
              cases decoded.size with
              | none => exact .ok (.inr ⟨rfl, rfl⟩)
              | some size =>
                  simp only [armResult, Arm.build_forgets decoded.inst d e]
                  exact .refl (fun r => .inl rfl) _

/-- The storage has no part in what is delivered. -/
theorem decodeInto_alike (p q : Insn) :
    Alike (fun r s => delivered r = delivered s) (h.decodeInto code address p)
      (h.decodeInto code address q) := by
  have hrecords : (h.startingDetail p).isSome = (h.startingDetail q).isSome := by
    simp only [startingDetail]
    split <;> rfl
  apply (h.decode_alike code address hrecords).bind
  rintro ⟨result, d⟩ ⟨result', d'⟩ (hsame | ⟨hfailed, hfailed'⟩)
  · cases hsame
    cases result with
    | none => exact .ok rfl
    | some result => exact .ok rfl
  · cases hfailed
    cases hfailed'
    exact .ok rfl

theorem decodeOne_eq_delivered :
    h.decodeOne code address = (h.decodeInto code address {}).map delivered := by
  rw [decodeOne]
  rcases h.decodeInto code address {} with fault | ⟨insn, _ | error⟩ <;> rfl

/-- A decode into storage delivers what a decode into new storage does. -/
theorem decodeInto_delivered (p : Insn) :
    (h.decodeInto code address p).map delivered = h.decodeOne code address := by
  rw [decodeOne_eq_delivered]
  exact (h.decodeInto_alike code address p {}).map_eq

variable {h code address} {p r : Insn}

/-- A decoded instruction holds the bytes of its encoding that are there, as many as it
has room for. -/
theorem decodeInto_bytes (hr : h.decodeInto code address p = .ok (r, none)) :
    r.bytes.toList = code.take (min r.size.toNat (min code.length Insn.maxBytes)) := by
  obtain ⟨⟨result, detail⟩, -, hresult⟩ := bind_eq_ok_iff.mp hr
  cases result with
  | none => cases hresult
  | some result =>
      obtain ⟨id, size⟩ := result
      cases hresult
      show code.take (min size.toNat Insn.maxBytes) = code.take _
      apply List.take_eq_take_iff.mpr
      dsimp only
      omega

/-- Whatever is left in two storages, by decodes, failures or handles of the other
architecture: a decode into the one and into the other deliver the same instruction, the
same error or the same fault. An instruction that is delivered is the one that a decode
into new storage gives, with the leading bytes that belong to it. -/
theorem storage_never_leaks (h : Handle) (code : List UInt8) (address : UInt64) (p q : Insn) :
    (h.decodeInto code address p).map delivered = (h.decodeInto code address q).map delivered ∧
    ∀ r, h.decodeInto code address p = .ok (r, none) →
      h.decodeOne code address = .ok (.ok r) ∧
      r.bytes.toList = code.take (min r.size.toNat (min code.length Insn.maxBytes)) := by
  constructor
  · exact (h.decodeInto_alike code address p q).map_eq
  · intro r hr
    constructor
    · rw [← h.decodeInto_delivered code address p, hr]
      rfl
    · exact decodeInto_bytes hr

/-- An ARM handle that builds detail, and whose decoder sees a branch ahead in any
bytes. -/
def branching : Handle where
  arch := .arm
  mode := .arm
  options := { detail := true }
  decoder := fun _ inst _ => .ok
    ⟨some 4, { inst with
      opcode := Arm.Opcode.bl.word
      operands := ⟨[.imm 12], List.replicate 47 .invalid, rfl, by decide⟩ }, none⟩

/-- Storage that an x86 handle has left, three bytes long and with a group. -/
def leftByX86 : Insn where
  id := 7
  address := 0x10
  size := 3
  bytes := Insn.leadingBytes [1, 2, 3] 3
  detail := some { Detail.x86 with groups := ⟨[1], List.replicate 7 0, rfl, by decide⟩ }

/-- A branch of 4 bytes of which 3 are there, decoded over what an x86 handle has left. -/
theorem branching_storage_never_leaks :
    ∃ r, branching.decodeInto [0, 0, 0xEB] 0x1000 leftByX86 = .ok (r, none) ∧
      branching.decodeOne [0, 0, 0xEB] 0x1000 = .ok (.ok r) ∧
      r.bytes.toList = [0, 0, 0xEB] := by
  obtain ⟨r, hr⟩ : ∃ r, branching.decodeInto [0, 0, 0xEB] 0x1000 leftByX86 = .ok (r, none) :=
    ⟨_, rfl⟩
  obtain ⟨hone, hbytes⟩ :=
    (storage_never_leaks branching [0, 0, 0xEB] 0x1000 leftByX86 {}).2 r hr
  refine ⟨r, hr, hone, ?_⟩
  rw [hbytes]
  cases hr
  rfl

section Sessions

/-- What to decode, and by which handle. -/
structure Request where
  handle : Handle
  code : List UInt8
  address : UInt64

/-- What decodes into one storage deliver, one after the other, up to a fault. -/
def deliverInto : Insn → List Request → List (Except Fault (Except Error Insn))
  | _, [] => []
  | storage, request :: rest =>
      match request.handle.decodeInto request.code request.address storage with
      | .ok (insn, error) => .ok (delivered (insn, error)) :: deliverInto insn rest
      | .error fault => [.error fault]

/-- What decodes into new storage deliver, up to a fault. -/
def deliverEach : List Request → List (Except Fault (Except Error Insn))
  | [] => []
  | request :: rest =>
      match request.handle.decodeOne request.code request.address with
      | .ok result => .ok result :: deliverEach rest
      | .error fault => [.error fault]

/-- One storage serves a whole session of handles. -/
theorem deliverInto_eq_deliverEach (storage : Insn) (requests : List Request) :
    deliverInto storage requests = deliverEach requests := by
  induction requests generalizing storage with
  | nil => rfl
  | cons request rest ih =>
      rw [deliverInto, deliverEach, ← request.handle.decodeInto_delivered _ _ storage]
      cases request.handle.decodeInto request.code request.address storage with
      | ok result => exact congrArg _ (ih result.1)
      | error fault => rfl

end Sessions

end Handle

end Disassembly
