import Disassembly.Handle
import Disassembly.Proofs.Outcome

/-!
# Streams of instructions

A stream is a list of instructions at consecutive offsets of the bytes: each one is
what the bytes at its offset decode to, and the next one starts where it ends. A run of
a handle gives the one stream that is whole within the limit, and fails only with the
fault of an instruction that it really comes to.

## Implementation notes

A run goes on with the bytes that are left and with the address they have. A stream
keeps the bytes and the address of the start and counts offsets from there, so that
streams over the same bytes can be compared. That they agree as far as both go is the
one fact from which the laws of limits and of resumption follow.

-/

namespace Disassembly

/-- The number of bytes that instructions take up together. -/
def span : List Insn → Nat
  | [] => 0
  | insn :: rest => insn.size.toNat + span rest

@[simp] theorem span_nil : span [] = 0 := rfl

@[simp] theorem span_cons (insn : Insn) (rest : List Insn) :
    span (insn :: rest) = insn.size.toNat + span rest := rfl

@[simp] theorem span_append (first rest : List Insn) :
    span (first ++ rest) = span first + span rest := by
  induction first with
  | nil => exact (Nat.zero_add _).symm
  | cons insn first ih => rw [List.cons_append, span_cons, span_cons, ih, Nat.add_assoc]

/-- Instructions that all have a length are no more than the bytes they take up. -/
theorem length_le_span {insns : List Insn} (h : ∀ insn ∈ insns, insn.size ≠ 0) :
    insns.length ≤ span insns := by
  induction insns with
  | nil => exact Nat.le_refl 0
  | cons insn rest ih =>
      have hrest := ih fun i hi => h i (List.mem_cons_of_mem insn hi)
      have hsize : insn.size.toNat ≠ 0 := fun hzero =>
        h insn List.mem_cons_self (UInt16.toNat_inj.mp hzero)
      rw [List.length_cons, span_cons]
      omega

namespace Handle

variable (h : Handle) (code : List UInt8) (address : UInt64)

/-- What the bytes from an offset on decode to. -/
def decodeAt (offset : Nat) : Except Fault (Except Error Insn) :=
  h.decodeOne (code.drop offset) (address + UInt64.ofNat offset)

@[simp] theorem decodeAt_zero : h.decodeAt code address 0 = h.decodeOne code address := by
  have hzero : UInt64.ofNat 0 = 0 := rfl
  rw [decodeAt, List.drop_zero, hzero, UInt64.add_zero]

/-- Offsets from a place further on count from there. -/
theorem decodeAt_drop (start offset : Nat) :
    h.decodeAt (code.drop start) (address + UInt64.ofNat start) offset =
      h.decodeAt code address (start + offset) := by
  rw [decodeAt, decodeAt, List.drop_drop, UInt64.add_assoc, UInt64.ofNat_add]

/-- Instructions at consecutive offsets from the start of the bytes. -/
def Streams (out : List Insn) : Prop :=
  ∀ i (insn : Insn), out[i]? = some insn →
    span (out.take i) < code.length ∧ insn.size ≠ 0 ∧
      h.decodeAt code address (span (out.take i)) = .ok (.ok insn)

/-- Why a stream ends where it does. -/
inductive StopsAfter (limit : Option Nat) (out : List Insn) : Prop
  /-- There are as many instructions as were asked for. -/
  | limit (hlimit : limit = some out.length)
  | endOfCode (hend : code.length ≤ span out)
  | rejected (error : Error)
      (hdecode : h.decodeAt code address (span out) = .ok (.error error))
  | noLength (insn : Insn)
      (hdecode : h.decodeAt code address (span out) = .ok (.ok insn)) (hsize : insn.size = 0)

/-- A whole stream: within the limit, and with a reason to stop. -/
structure Complete (limit : Option Nat) (out : List Insn) : Prop where
  streams : h.Streams code address out
  within : ∀ n ∈ limit, out.length ≤ n
  stops : h.StopsAfter code address limit out

/-- A stream after which one more instruction is decoded. -/
structure GoesOn (limit : Option Nat) (out : List Insn) : Prop where
  streams : h.Streams code address out
  below : ∀ n ∈ limit, out.length < n
  bytesLeft : span out < code.length

variable {h code address} {limit : Option Nat} {out out' rest : List Insn} {insn : Insn}

section Streams

theorem Streams.nil : h.Streams code address [] := by
  intro i insn hinsn
  cases hinsn

theorem Streams.singleton (hcode : code ≠ []) (hsize : insn.size ≠ 0)
    (hdecode : h.decodeOne code address = .ok (.ok insn)) :
    h.Streams code address [insn] := by
  intro i next hnext
  cases i with
  | zero =>
      cases hnext
      rw [List.take_zero, span_nil, decodeAt_zero]
      exact ⟨List.length_pos_iff.mpr hcode, hsize, hdecode⟩
  | succ i => cases hnext

/-- A stream goes on with one from where it ends. -/
theorem Streams.append (hout : h.Streams code address out)
    (hrest : h.Streams (code.drop (span out)) (address + UInt64.ofNat (span out)) rest) :
    h.Streams code address (out ++ rest) := by
  intro i insn hinsn
  rw [List.take_append, span_append]
  rw [List.getElem?_append] at hinsn
  by_cases hi : i < out.length
  · rw [if_pos hi] at hinsn
    rw [Nat.sub_eq_zero_of_le (Nat.le_of_lt hi), List.take_zero, span_nil, Nat.add_zero]
    exact hout i insn hinsn
  · rw [if_neg hi] at hinsn
    obtain ⟨hlt, hsize, hdecode⟩ := hrest (i - out.length) insn hinsn
    rw [List.length_drop] at hlt
    rw [decodeAt_drop] at hdecode
    rw [List.take_of_length_le (Nat.le_of_not_lt hi)]
    exact ⟨by omega, hsize, hdecode⟩

theorem Streams.take (hout : h.Streams code address out) (n : Nat) :
    h.Streams code address (out.take n) := by
  intro i insn hinsn
  rw [List.getElem?_take] at hinsn
  by_cases hi : i < n
  · rw [if_pos hi] at hinsn
    rw [List.take_take, Nat.min_eq_left (Nat.le_of_lt hi)]
    exact hout i insn hinsn
  · rw [if_neg hi] at hinsn
    cases hinsn

/-- A stream has no more instructions than there are bytes. -/
theorem Streams.length_le (hout : h.Streams code address out) :
    out.length ≤ code.length := by
  rcases out.eq_nil_or_concat with rfl | ⟨first, last, rfl⟩
  · exact Nat.zero_le _
  · rw [List.concat_eq_append] at hout ⊢
    have hlast : (first ++ [last])[first.length]? = some last := by simp
    have hlt := (hout first.length last hlast).1
    rw [List.take_left] at hlt
    have hsizes : ∀ i ∈ first, i.size ≠ 0 := by
      intro i hi
      obtain ⟨n, hn⟩ := List.mem_iff_getElem?.mp (List.mem_append_left [last] hi)
      exact (hout n i hn).2.1
    have hle := length_le_span hsizes
    rw [List.length_append, List.length_singleton]
    omega

/-- Streams over the same bytes agree as far as both go. -/
theorem Streams.take_eq (hout : h.Streams code address out)
    (hout' : h.Streams code address out') (n : Nat) (hn : n ≤ out.length)
    (hn' : n ≤ out'.length) : out.take n = out'.take n := by
  induction n with
  | zero => rfl
  | succ n ih =>
      have hsame := ih (Nat.le_of_succ_le hn) (Nat.le_of_succ_le hn')
      have hget := List.getElem?_eq_getElem hn
      have hget' := List.getElem?_eq_getElem hn'
      have hdecode := (hout n out[n] hget).2.2
      rw [hsame, (hout' n out'[n] hget').2.2] at hdecode
      have hinsn : out'[n] = out[n] := Except.ok.inj (Except.ok.inj hdecode)
      rw [List.take_add_one, List.take_add_one, hsame, hget, hget', hinsn]

/-- One of two streams over the same bytes is as long as the other or goes on from
it. -/
theorem Streams.eq_take (hout : h.Streams code address out)
    (hout' : h.Streams code address out') (hle : out.length ≤ out'.length) :
    out = out'.take out.length := by
  rw [← hout.take_eq hout' out.length (Nat.le_refl _) hle, List.take_length]

end Streams

section Stops

/-- A stream that goes on stops nowhere but at the limit. -/
theorem StopsAfter.limit_of_lt (hout : h.Streams code address out) {n : Nat}
    (hn : n < out.length) (hstops : h.StopsAfter code address limit (out.take n)) :
    limit = some n := by
  obtain ⟨hlt, hsize, hnext⟩ := hout n out[n] (List.getElem?_eq_getElem hn)
  cases hstops with
  | limit hlimit =>
      rw [hlimit, List.length_take, Nat.min_eq_left (Nat.le_of_lt hn)]
  | endOfCode hend => exact absurd hlt (Nat.not_lt_of_le hend)
  | rejected error hdecode =>
      rw [hnext] at hdecode
      cases hdecode
  | noLength insn hdecode hzero =>
      rw [hnext] at hdecode
      cases hdecode
      exact absurd hzero hsize

/-- What ends a stream after a first part ends the whole. -/
theorem StopsAfter.append (hwithin : ∀ n ∈ limit, out.length ≤ n)
    (hstops : h.StopsAfter (code.drop (span out)) (address + UInt64.ofNat (span out))
      (limit.map (· - out.length)) rest) :
    h.StopsAfter code address limit (out ++ rest) := by
  cases hstops with
  | limit hlimit =>
      obtain ⟨n, rfl, hn⟩ := Option.map_eq_some_iff.mp hlimit
      have hle := hwithin n rfl
      apply StopsAfter.limit
      rw [List.length_append, ← hn, Nat.add_sub_cancel' hle]
  | endOfCode hend =>
      apply StopsAfter.endOfCode
      rw [List.length_drop] at hend
      rw [span_append]
      omega
  | rejected error hdecode =>
      apply StopsAfter.rejected error
      rw [span_append, ← decodeAt_drop, hdecode]
  | noLength insn hdecode hsize =>
      apply StopsAfter.noLength insn _ hsize
      rw [span_append, ← decodeAt_drop, hdecode]

theorem Complete.nil (hstops : h.StopsAfter code address limit []) :
    h.Complete code address limit [] :=
  ⟨.nil, fun n _ => Nat.zero_le n, hstops⟩

theorem Complete.append (hout : h.Streams code address out)
    (hwithin : ∀ n ∈ limit, out.length ≤ n)
    (hrest : h.Complete (code.drop (span out)) (address + UInt64.ofNat (span out))
      (limit.map (· - out.length)) rest) :
    h.Complete code address limit (out ++ rest) := by
  refine ⟨hout.append hrest.streams, ?_, hrest.stops.append hwithin⟩
  intro n hn
  have hle := hwithin n hn
  have hrestLe := hrest.within (n - out.length) (Option.mem_map_of_mem _ hn)
  rw [List.length_append]
  omega

theorem GoesOn.nil (hcode : code ≠ []) (hlimit : limit ≠ some 0) :
    h.GoesOn code address limit [] := by
  refine ⟨.nil, ?_, List.length_pos_iff.mpr hcode⟩
  rintro n rfl
  exact Nat.pos_of_ne_zero fun hzero => hlimit (congrArg some hzero)

theorem GoesOn.append (hout : h.Streams code address out)
    (hrest : h.GoesOn (code.drop (span out)) (address + UInt64.ofNat (span out))
      (limit.map (· - out.length)) rest) :
    h.GoesOn code address limit (out ++ rest) := by
  have hleft := hrest.bytesLeft
  rw [List.length_drop] at hleft
  refine ⟨hout.append hrest.streams, ?_, ?_⟩
  · intro n hn
    have hlt := hrest.below (n - out.length) (Option.mem_map_of_mem _ hn)
    rw [List.length_append]
    omega
  · rw [span_append]
    omega

end Stops

section Uniqueness
variable {fault fault' : Fault}

/-- No stream within the limit is longer than a whole one. -/
theorem Complete.length_le (hout : h.Complete code address limit out)
    (hout' : h.Streams code address out') (hwithin : ∀ n ∈ limit, out'.length ≤ n) :
    out'.length ≤ out.length := by
  apply Nat.le_of_not_lt
  intro hlt
  have hstops := hout.stops
  rw [hout.streams.eq_take hout' (Nat.le_of_lt hlt)] at hstops
  have hle := hwithin out.length (hstops.limit_of_lt hout' hlt)
  exact Nat.not_lt_of_le hle hlt

theorem Complete.unique (hout : h.Complete code address limit out)
    (hout' : h.Complete code address limit out') : out = out' := by
  have hle := hout'.length_le hout.streams hout.within
  have hle' := hout.length_le hout'.streams hout'.within
  rw [hout.streams.eq_take hout'.streams hle, Nat.le_antisymm hle hle', List.take_length]

/-- No stream goes on past an instruction that faults. -/
theorem Streams.length_le_of_fault (hout : h.Streams code address out)
    (hout' : h.Streams code address out')
    (hfault : h.decodeAt code address (span out') = .error fault) :
    out.length ≤ out'.length := by
  apply Nat.le_of_not_lt
  intro hlt
  have hnext := (hout out'.length out[out'.length] (List.getElem?_eq_getElem hlt)).2.2
  rw [← hout'.eq_take hout (Nat.le_of_lt hlt), hfault] at hnext
  cases hnext

/-- A whole stream does not go on to a fault. -/
theorem Complete.not_fault (hout : h.Complete code address limit out)
    (hgoes : h.GoesOn code address limit out') :
    h.decodeAt code address (span out') ≠ .error fault := by
  intro hfault
  have hle := hout.streams.length_le_of_fault hgoes.streams hfault
  have hle' := hout.length_le hgoes.streams fun n hn => Nat.le_of_lt (hgoes.below n hn)
  have hsame := hout.streams.eq_take hgoes.streams hle
  rw [Nat.le_antisymm hle hle', List.take_length] at hsame
  subst hsame
  cases hout.stops with
  | limit hlimit => exact absurd (hgoes.below _ hlimit) (Nat.lt_irrefl _)
  | endOfCode hend => exact absurd hgoes.bytesLeft (Nat.not_lt_of_le hend)
  | rejected error hdecode =>
      rw [hfault] at hdecode
      cases hdecode
  | noLength insn hdecode hsize =>
      rw [hfault] at hdecode
      cases hdecode

theorem GoesOn.fault_unique (hgoes : h.GoesOn code address limit out)
    (hgoes' : h.GoesOn code address limit out')
    (hfault : h.decodeAt code address (span out) = .error fault)
    (hfault' : h.decodeAt code address (span out') = .error fault') : fault = fault' := by
  have hle := hgoes.streams.length_le_of_fault hgoes'.streams hfault'
  have hle' := hgoes'.streams.length_le_of_fault hgoes.streams hfault
  have hsame := hgoes.streams.eq_take hgoes'.streams hle
  rw [Nat.le_antisymm hle hle', List.take_length] at hsame
  rw [hsame, hfault'] at hfault
  cases hfault
  rfl

end Uniqueness

section Runs

/-- A run gives a whole stream, or fails with the fault of the instruction that a
stream goes on to. -/
theorem decodeStream_ends (h : Handle) (code : List UInt8) (address : UInt64)
    (limit : Option Nat) :
    Ends (h.Complete code address limit)
      (fun fault => ∃ out, h.GoesOn code address limit out ∧
        h.decodeAt code address (span out) = .error fault)
      (h.decodeStream code address limit) := by
  fun_induction decodeStream h code address limit with
  | case1 code address limit hstop =>
      apply Ends.ok
      apply Complete.nil
      rcases hstop with hempty | rfl
      · apply StopsAfter.endOfCode
        rw [List.isEmpty_iff.mp hempty]
        exact Nat.zero_le _
      · exact .limit rfl
  | case2 code address limit hgo ih =>
      obtain ⟨hcode, hlimit⟩ := not_or.mp hgo
      rw [List.isEmpty_iff] at hcode
      have hfirst := h.decodeAt_zero code address
      rcases hdecode : h.decodeOne code address with fault | e | insn
      · exact .error ⟨[], .nil hcode hlimit, hfirst.trans hdecode⟩
      · exact .ok (.nil (.rejected e (hfirst.trans hdecode)))
      · simp only [ok_bind]
        by_cases hsize : insn.size = 0
        · rw [if_pos hsize]
          exact .ok (.nil (.noLength insn (hfirst.trans hdecode) hsize))
        · have hone := Streams.singleton hcode hsize hdecode
          have hwithin : ∀ n ∈ limit, [insn].length ≤ n := by
            rintro n rfl
            exact Nat.pos_of_ne_zero fun hzero => hlimit (congrArg some hzero)
          have hnext : address + insn.size.toUInt64 =
              address + UInt64.ofNat (span [insn]) := by
            rw [span_cons, span_nil, Nat.add_zero, UInt64.ofNat_uInt16ToNat]
          have hrest := ih insn hsize
          rw [hnext] at hrest
          rw [if_neg hsize, hnext]
          apply (hrest.imp_fault _).bind
          · intro rest hrest
            exact .ok (.append hone hwithin hrest)
          · rintro fault ⟨rest, hgoes, hfault⟩
            refine ⟨insn :: rest, .append hone hgoes, ?_⟩
            rw [← List.singleton_append, span_append, ← decodeAt_drop]
            exact hfault

/-- A run gives the one whole stream. -/
theorem decodeStream_eq_ok_iff :
    h.decodeStream code address limit = .ok out ↔ h.Complete code address limit out := by
  have hends := decodeStream_ends h code address limit
  constructor
  · exact hends.of_ok
  · intro hout
    cases hrun : h.decodeStream code address limit with
    | ok out' => rw [(hends.of_ok hrun).unique hout]
    | error fault =>
        obtain ⟨seen, hgoes, hfault⟩ := hends.of_error hrun
        exact absurd hfault (hout.not_fault hgoes)

/-- A run fails exactly where it comes to a fault. -/
theorem decodeStream_eq_error_iff {fault : Fault} :
    h.decodeStream code address limit = .error fault ↔
      ∃ seen, h.GoesOn code address limit seen ∧
        h.decodeAt code address (span seen) = .error fault := by
  have hends := decodeStream_ends h code address limit
  constructor
  · exact hends.of_error
  · rintro ⟨seen, hgoes, hfault⟩
    cases hrun : h.decodeStream code address limit with
    | ok out => exact absurd hfault ((hends.of_ok hrun).not_fault hgoes)
    | error fault' =>
        obtain ⟨seen', hgoes', hfault'⟩ := hends.of_error hrun
        rw [hgoes.fault_unique hgoes' hfault hfault']

/-- A limit keeps the first instructions. -/
theorem decodeStream_take {all : List Insn} (hall : h.decodeStream code address none = .ok all)
    (k : Nat) : h.decodeStream code address (some k) = .ok (all.take k) := by
  rw [decodeStream_eq_ok_iff] at hall ⊢
  refine ⟨hall.streams.take k, ?_, ?_⟩
  · intro n hn
    cases hn
    rw [List.length_take]
    exact Nat.min_le_left _ _
  · by_cases hk : k ≤ all.length
    · apply StopsAfter.limit
      rw [List.length_take, Nat.min_eq_left hk]
    · rw [List.take_of_length_le (Nat.le_of_not_le hk)]
      cases hall.stops with
      | limit hlimit => cases hlimit
      | endOfCode hend => exact .endOfCode hend
      | rejected error hdecode => exact .rejected error hdecode
      | noLength insn hdecode hsize => exact .noLength insn hdecode hsize

/-- A run without a limit goes on where one with a limit has ended. -/
theorem decodeStream_resume (hout : h.decodeStream code address limit = .ok out) :
    h.decodeStream code address none =
      (h.decodeStream (code.drop (span out)) (address + UInt64.ofNat (span out)) none).map
        (out ++ ·) := by
  have hstreams := (decodeStream_eq_ok_iff.mp hout).streams
  cases hrest : h.decodeStream (code.drop (span out)) (address + UInt64.ofNat (span out)) none with
  | ok rest =>
      rw [decodeStream_eq_ok_iff] at hrest
      exact decodeStream_eq_ok_iff.mpr (.append hstreams nofun hrest)
  | error fault =>
      obtain ⟨seen, hgoes, hfault⟩ := decodeStream_eq_error_iff.mp hrest
      apply decodeStream_eq_error_iff.mpr
      refine ⟨out ++ seen, .append hstreams hgoes, ?_⟩
      rw [span_append, ← decodeAt_drop, hfault]

end Runs

section Counts

/-- The limit that a count stands for. -/
def limitOf (count : Nat) : Option Nat := if count = 0 then none else some count

theorem limitOf_pos {k : Nat} (hk : 1 ≤ k) : limitOf k = some k :=
  if_neg (Nat.ne_of_gt hk)

/-- No instruction that a run comes to faults. -/
def Faultless (h : Handle) (code : List UInt8) (address : UInt64) (limit : Option Nat) :
    Prop :=
  ∀ seen, h.GoesOn code address limit seen →
    ∀ fault, h.decodeAt code address (span seen) ≠ .error fault

/-- A run that comes to no fault gives a whole stream. -/
theorem Faultless.complete (hfree : h.Faultless code address limit) :
    ∃ out, h.decodeStream code address limit = .ok out ∧ h.Complete code address limit out := by
  cases hrun : h.decodeStream code address limit with
  | ok out => exact ⟨out, rfl, decodeStream_eq_ok_iff.mp hrun⟩
  | error fault =>
      obtain ⟨seen, hgoes, hfault⟩ := decodeStream_eq_error_iff.mp hrun
      exact absurd hfault (hfree seen hgoes fault)

/-- Decoding a stream of bytes, for any decoder. Where no instruction that it comes to
faults, it ends and gives instructions at consecutive offsets, each the one that the
bytes from its offset on decode to, no more of them than there are bytes; and it stops
only at the count, at the end of the bytes, or where nothing of any length can be
decoded. A count keeps the first instructions of the run without one. A run without a
count is one with a count followed by the run from where that one has ended. -/
theorem disassemble_streams (h : Handle) (code : List UInt8) (address : UInt64) :
    (∀ count, h.Faultless code address (limitOf count) →
      ∃ out, h.disassemble code address count = .ok out ∧ h.Streams code address out ∧
        out.length ≤ code.length ∧ (∀ n ∈ limitOf count, out.length ≤ n) ∧
        h.StopsAfter code address (limitOf count) out) ∧
    (∀ k all, 1 ≤ k → h.disassemble code address 0 = .ok all →
      h.disassemble code address k = .ok (all.take k)) ∧
    (∀ k out, h.disassemble code address k = .ok out →
      h.disassemble code address 0 =
        (h.disassemble (code.drop (span out)) (address + UInt64.ofNat (span out)) 0).map
          (out ++ ·)) := by
  refine ⟨?_, ?_, ?_⟩
  · intro count hfree
    obtain ⟨out, hrun, hwhole⟩ := hfree.complete
    exact ⟨out, hrun, hwhole.streams, hwhole.streams.length_le, hwhole.within, hwhole.stops⟩
  · intro k all hk hall
    have hrun := decodeStream_take hall k
    rw [← limitOf_pos hk] at hrun
    exact hrun
  · intro k out hout
    exact decodeStream_resume hout

/-- A handle whose decoder takes the length of an instruction from its first byte. -/
def lengthPrefixed : Handle where
  arch := .x86
  mode := .bits32
  options := {}
  decoder
    | [], inst, _ => .ok ⟨none, inst, none⟩
    | byte :: _, inst, _ => .ok ⟨some byte.toUInt16, inst, none⟩

theorem lengthPrefixed_faultless (code : List UInt8) (address : UInt64)
    (limit : Option Nat) : lengthPrefixed.Faultless code address limit := by
  intro seen _ fault
  rw [decodeAt]
  cases code.drop (span seen) with
  | nil => exact nofun
  | cons byte rest => exact nofun

/-- Two instructions, the second one past the end of the address space, and bytes
without a length after them. -/
theorem lengthPrefixed_streams :
    lengthPrefixed.Faultless [2, 8, 3, 1, 0, 0, 5] 0xFFFFFFFFFFFFFFFE (limitOf 0) ∧
      ∃ first second : Insn, first.size = 2 ∧ second.size = 3 ∧ second.address = 0 ∧
        lengthPrefixed.disassemble [2, 8, 3, 1, 0, 0, 5] 0xFFFFFFFFFFFFFFFE 0 =
          .ok [first, second] ∧
        lengthPrefixed.disassemble [2, 8, 3, 1, 0, 0, 5] 0xFFFFFFFFFFFFFFFE 1 = .ok [first] ∧
        (lengthPrefixed.disassemble [3, 1, 0, 0, 5] 0 0).map ([first] ++ ·) =
          .ok [first, second] := by
  have hfree := lengthPrefixed_faultless [2, 8, 3, 1, 0, 0, 5] 0xFFFFFFFFFFFFFFFE (limitOf 0)
  obtain ⟨hstreams, hfirst, hresume⟩ :=
    disassemble_streams lengthPrefixed [2, 8, 3, 1, 0, 0, 5] 0xFFFFFFFFFFFFFFFE
  obtain ⟨all, hall, -⟩ := hstreams 0 hfree
  have hfields :
      (lengthPrefixed.disassemble [2, 8, 3, 1, 0, 0, 5] 0xFFFFFFFFFFFFFFFE 0).map
        (·.map fun insn => (insn.size, insn.address)) =
          .ok [(2, 0xFFFFFFFFFFFFFFFE), (3, 0)] := by
    cbv
  rw [hall] at hfields
  obtain ⟨first, tail, rfl, hone, htail⟩ := List.map_eq_cons_iff.mp (Except.ok.inj hfields)
  obtain ⟨second, rfl, htwo⟩ := List.map_eq_singleton_iff.mp htail
  obtain ⟨hsize, -⟩ := Prod.mk.inj hone
  obtain ⟨hsize', haddress⟩ := Prod.mk.inj htwo
  have hlimited := hfirst 1 [first, second] (Nat.le_refl 1) hall
  have hrest := hresume 1 [first] hlimited
  have hspan : span [first] = 2 := by
    rw [span_cons, span_nil, hsize]
    rfl
  have hnext : (0xFFFFFFFFFFFFFFFE : UInt64) + UInt64.ofNat 2 = 0 := by decide
  rw [hspan, hall, hnext] at hrest
  exact ⟨hfree, first, second, hsize, hsize', haddress, hall, hlimited, hrest.symm⟩

end Counts

end Handle

end Disassembly
