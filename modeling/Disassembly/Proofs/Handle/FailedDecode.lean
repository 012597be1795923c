import Disassembly.Proofs.Handle.Storage

/-!
# What a failed decode leaves behind

A decode gets its storage ready before the decoder runs and writes the number, the address,
the length and the bytes only after it has succeeded. An error therefore leaves those as they
were. The record that it leaves depends on the options and on the architecture: an ARM record
is reset by the build, which is not reached, an x86 record before the decoder gets it.
-/

namespace Disassembly.Handle

/-- What an error of a decode into storage leaves there. -/
structure LeftBehind (h : Handle) (code : List UInt8) (address : UInt64) (before after : Insn)
    (error : Error) : Prop where
  error_eq : error = .invalidInstruction address
  id_eq : after.id = before.id
  address_eq : after.address = before.address
  size_eq : after.size = before.size
  bytes_eq : after.bytes = before.bytes
  /-- With detail off there is no record, whatever was there. -/
  plain : h.options.detail = false → after.detail = none
  /-- An ARM handle keeps the record that was there, or leaves an empty one without a
  payload. -/
  arm : h.arch = .arm → h.options.detail = true →
    after.detail = some (before.detail.getD { payload := .none })
  /-- An x86 handle leaves what its decoder made of an empty record. -/
  x86 : h.arch = .x86 → h.options.detail = true →
    ∃ decoded, h.decoder code (RawInst.new 0 address h.mode) (some Detail.x86) = .ok decoded ∧
      decoded.size = none ∧ after.detail = some (decoded.detail.getD Detail.x86)
  /-- On x86 other storage ends with the same record. -/
  forgets : h.arch = .x86 → ∀ other : Insn,
    h.decodeInto code address other = .ok ({ other with detail := after.detail }, some error)

variable {h : Handle} {code : List UInt8} {address : UInt64} {p r : Insn}
  {d d' : Option Detail}

/-- An error goes back to the decoder, and changes the record at most. -/
theorem decodeInto_failed {error : Error}
    (hr : h.decodeInto code address p = .ok (r, some error)) :
    error = .invalidInstruction address ∧
      ∃ detail, h.decode code address (h.startingDetail p) = .ok (none, detail) ∧
        r = { p with detail } := by
  obtain ⟨⟨result, detail⟩, hdecode, hresult⟩ := bind_eq_ok_iff.mp hr
  cases result with
  | none =>
      cases hresult
      exact ⟨rfl, detail, hdecode, rfl⟩
  | some found => cases hresult

/-- An ARM decode that fails has not come to the record. -/
theorem decode_failed_arm (harch : h.arch = .arm)
    (hfailed : h.decode code address d = .ok (none, d')) : d' = d := by
  simp only [decode, harch] at hfailed
  obtain ⟨decoded, -, hfailed⟩ := bind_eq_ok_iff.mp hfailed
  cases hsize : decoded.size with
  | none =>
      rw [hsize] at hfailed
      cases hfailed
      rfl
  | some size =>
      rw [hsize] at hfailed
      obtain ⟨found, -, hfailed⟩ := bind_eq_ok_iff.mp hfailed
      cases hfailed

/-- An x86 decode that fails leaves what the decoder made of the empty record it was
handed. -/
theorem decode_failed_x86 (harch : h.arch = .x86)
    (hfailed : h.decode code address d = .ok (none, d')) :
    ∃ decoded, h.decoder code (RawInst.new 0 address h.mode) (d.map fun _ => .x86) =
        .ok decoded ∧ decoded.size = none ∧
      d' = (d.map fun _ => Detail.x86).map decoded.detail.getD := by
  simp only [decode, harch] at hfailed
  obtain ⟨decoded, hdecoded, hfailed⟩ := bind_eq_ok_iff.mp hfailed
  obtain ⟨hsize, hleft⟩ := Prod.mk.inj (Except.ok.inj hfailed)
  exact ⟨decoded, hdecoded, Option.map_eq_none_iff.mp hsize, hleft.symm⟩

/-- Every x86 decode starts from the same record, or from none. -/
theorem decode_x86_start (harch : h.arch = .x86) (p q : Insn) :
    h.decode code address (h.startingDetail p) = h.decode code address (h.startingDetail q) := by
  have hstart : (h.startingDetail p).map (fun _ => Detail.x86) =
      (h.startingDetail q).map fun _ => Detail.x86 := by
    simp only [startingDetail]
    split <;> rfl
  simp only [decode, harch, hstart]

theorem decodeInto_leftBehind {error : Error}
    (hr : h.decodeInto code address p = .ok (r, some error)) :
    h.LeftBehind code address p r error := by
  obtain ⟨rfl, detail, hdecode, rfl⟩ := decodeInto_failed hr
  constructor
  case error_eq | id_eq | address_eq | size_eq | bytes_eq => rfl
  case plain =>
    intro hplain
    simp only [startingDetail, hplain] at hdecode
    cases harch : h.arch with
    | arm => exact decode_failed_arm harch hdecode
    | x86 =>
        obtain ⟨decoded, -, -, hleft⟩ := decode_failed_x86 harch hdecode
        exact hleft
  case arm =>
    intro harch hdetail
    simp only [startingDetail, hdetail] at hdecode
    exact decode_failed_arm harch hdecode
  case x86 =>
    intro harch hdetail
    simp only [startingDetail, hdetail] at hdecode
    exact decode_failed_x86 harch hdecode
  case forgets =>
    intro harch other
    rw [decodeInto, decode_x86_start harch other p, hdecode]
    rfl

/-- What is delivered from storage is what is delivered from new storage. -/
theorem decodeInto_eq_ok_iff_decodeOne :
    h.decodeInto code address p = .ok (r, none) ↔ h.decodeOne code address = .ok (.ok r) := by
  rw [← h.decodeInto_delivered code address p]
  generalize h.decodeInto code address p = stored
  constructor
  · rintro rfl
    rfl
  · intro hone
    rcases stored with fault | ⟨insn, _ | error⟩
    · cases hone
    · cases hone
      rfl
    · cases hone

/-- A decode that ends with an error leaves the number, the address, the length and the bytes
of the storage as they were. With detail off it leaves no record. With detail on, an ARM
handle leaves the record that was there or one without a payload, and an x86 handle what its
decoder made of an empty record, in which nothing of the one before is left. Whatever has been
left, the next decode into the storage, by any handle, gives an instruction exactly if a decode
into new storage gives the same one. -/
theorem failed_decode_leaves {error : Error}
    (hr : h.decodeInto code address p = .ok (r, some error)) :
    h.LeftBehind code address p r error ∧
    ∀ (next : Handle) (code' : List UInt8) (address' : UInt64) (s : Insn),
      next.decodeInto code' address' r = .ok (s, none) ↔
        next.decodeOne code' address' = .ok (.ok s) :=
  ⟨decodeInto_leftBehind hr, fun _ _ _ _ => decodeInto_eq_ok_iff_decodeOne⟩

/-- An x86 handle that builds detail. Its decoder notes a register and then gives up, unless
the first byte is zero. -/
def givingUp : Handle where
  arch := .x86
  mode := .bits32
  options := { detail := true }
  decoder := fun code inst detail => .ok
    ⟨if code.head? = some 0 then some 1 else none, { inst with opcode := 8 },
      detail.map fun d => { d with regsRead := ⟨[19], List.replicate 19 0, rfl, by decide⟩ }⟩

/-- What has been noted stays in place of the record that was there, and the decode of a zero
byte is not disturbed by it. -/
theorem failed_decode_leaves_givingUp :
    ∃ r s error, givingUp.decodeInto [1] 0x20 leftByX86 = .ok (r, some error) ∧
      r.id = 7 ∧ r.bytes = leftByX86.bytes ∧
      (∀ d ∈ r.detail, d.regsRead.toList = [19] ∧ d.groups.toList = []) ∧ r.detail.isSome ∧
      givingUp.decodeInto [0] 0x21 r = .ok (s, none) ∧
      givingUp.decodeOne [0] 0x21 = .ok (.ok s) := by
  obtain ⟨r, error, hr⟩ : ∃ r error,
      givingUp.decodeInto [1] 0x20 leftByX86 = .ok (r, some error) := ⟨_, _, rfl⟩
  obtain ⟨s, hs⟩ : ∃ s, givingUp.decodeOne [0] 0x21 = .ok (.ok s) := ⟨_, rfl⟩
  obtain ⟨hleft, hnext⟩ := failed_decode_leaves hr
  obtain ⟨decoded, hdecoded, -, hdetail⟩ := hleft.x86 rfl rfl
  cases hdecoded
  refine ⟨r, s, error, hr, hleft.id_eq, hleft.bytes_eq, ?_, ?_, (hnext _ _ _ s).mpr hs, hs⟩
  · rintro d hd
    rw [hdetail] at hd
    cases hd
    exact ⟨rfl, rfl⟩
  · rw [hdetail]
    rfl

end Disassembly.Handle
