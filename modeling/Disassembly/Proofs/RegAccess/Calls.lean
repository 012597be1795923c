import Mathlib.Data.List.Basic
import Disassembly.Proofs.Outcome
import Disassembly.Proofs.RegAccess.Summary

/-!
# Calls on a summary

A summary that starts with the registers of a detail record is continued call by call. Each
side lists the registers of the calls for it where they come first, whatever the calls for
the other side are, and a call is stopped exactly where it brings one register more than
there is room for. What has been listed stays.
-/

namespace Disassembly

namespace BoundedList

variable {α : Type} {n : Nat} [BEq α] {l r : BoundedList α n}

/-- Add values one by one, unless they are there already. -/
def insertAll (l : BoundedList α n) (items : List α) : Except CapacityError (BoundedList α n) :=
  items.foldlM insert l

theorem insert_prefix {a : α} (h : l.insert a = .ok r) : l.toList <+: r.toList := by
  rw [insert] at h
  split at h
  · cases h
    exact List.prefix_rfl
  · rw [toList_push h]
    exact List.prefix_append _ _

/-- An insertion fails in one way only. -/
theorem eq_full_of_insert (hn : n ≤ maxCursor) {a : α} {e : CapacityError}
    (h : l.insert a = .error e) : e = .full n := by
  rw [insert] at h
  split at h
  · cases h
  · by_cases hroom : l.length < n
    · obtain ⟨r, hr, -⟩ := (l.push_eq_ok_iff hn a).mpr hroom
      cases hr.symm.trans h
    · rw [push_eq_error a (Nat.le_of_not_lt hroom)] at h
      exact (Except.error.inj h).symm

theorem eq_full_of_insertAll (hn : n ≤ maxCursor) {items : List α} {e : CapacityError}
    (h : l.insertAll items = .error e) : e = .full n := by
  induction items generalizing l with
  | nil => cases h
  | cons a rest ih =>
      simp only [insertAll, List.foldlM_cons] at h
      cases hinsert : l.insert a with
      | error e' =>
          rw [hinsert] at h
          cases h
          exact eq_full_of_insert hn hinsert
      | ok next =>
          rw [hinsert] at h
          exact ih h

end BoundedList

namespace RegAccess

/-- A call that records one register. -/
inductive Call where
  | read (reg : UInt16)
  | write (reg : UInt16)
  /-- Record the register on each side that the access names. -/
  | add (reg : UInt16) (access : Access)
deriving DecidableEq, Repr

namespace Call

/-- What a call records. -/
def touches : Call → List Touch
  | .read reg => [.read reg]
  | .write reg => [.write reg]
  | .add reg access => access.touches reg

/-- The register that a call reads. -/
def read? : Call → Option UInt16
  | .read reg => some reg
  | .write _ => none
  | .add reg access => if access.reads then some reg else none

/-- The register that a call writes. -/
def write? : Call → Option UInt16
  | .read _ => none
  | .write reg => some reg
  | .add reg access => if access.writes then some reg else none

/-- A read comes before a write. -/
theorem touches_eq (c : Call) :
    c.touches = (c.read?.map .read).toList ++ (c.write?.map .write).toList := by
  cases c with
  | read reg | write reg => rfl
  | add reg access =>
      simp only [touches, Access.touches, read?, write?]
      cases access.reads <;> cases access.writes <;> rfl

theorem readsOf_touches_eq (c : Call) : readsOf c.touches = c.read?.toList := by
  rw [touches_eq]
  cases c.read? <;> cases c.write? <;> rfl

theorem writesOf_touches_eq (c : Call) : writesOf c.touches = c.write?.toList := by
  rw [touches_eq]
  cases c.read? <;> cases c.write? <;> rfl

end Call

/-- What calls record, in order. -/
def touchesOf (cs : List Call) : List Touch := cs.flatMap Call.touches

theorem readsOf_touchesOf (cs : List Call) : readsOf (touchesOf cs) = cs.filterMap Call.read? := by
  simp only [touchesOf, readsOf_flatMap, Call.readsOf_touches_eq,
    List.filterMap_eq_flatMap_toList]

theorem writesOf_touchesOf (cs : List Call) :
    writesOf (touchesOf cs) = cs.filterMap Call.write? := by
  simp only [touchesOf, writesOf_flatMap, Call.writesOf_touches_eq,
    List.filterMap_eq_flatMap_toList]

/-- The summary after a call, and what stopped the call, if anything did. What it has
recorded until then stays. -/
def call (access : RegAccess) (c : Call) : RegAccess × Option CapacityError :=
  access.recordUpTo c.touches

/-- The summary after calls in order, up to the first one that is stopped. -/
def calls (access : RegAccess) : List Call → RegAccess × Option CapacityError
  | [] => (access, none)
  | c :: rest =>
      match access.call c with
      | (next, none) => next.calls rest
      | (reached, some stopped) => (reached, some stopped)

section Runs
variable {access reached : RegAccess}

theorem recordUpTo_append (access : RegAccess) (first rest : List Touch) :
    access.recordUpTo (first ++ rest) =
      match access.recordUpTo first with
      | (next, none) => next.recordUpTo rest
      | (reached, some stopped) => (reached, some stopped) := by
  induction first generalizing access with
  | nil => rfl
  | cons touch first ih =>
      simp only [List.cons_append, recordUpTo]
      cases access.record touch with
      | ok next => exact ih next
      | error stopped => rfl

/-- Calls record what they record one after another. -/
theorem calls_eq_recordUpTo (access : RegAccess) (cs : List Call) :
    access.calls cs = access.recordUpTo (touchesOf cs) := by
  induction cs generalizing access with
  | nil => rfl
  | cons c rest ih =>
      rw [touchesOf, List.flatMap_cons, recordUpTo_append, calls, call]
      split
      next next hnext => exact ih next
      next reached stopped hstop => rfl

theorem calls_append (access : RegAccess) (first rest : List Call) :
    access.calls (first ++ rest) =
      match access.calls first with
      | (next, none) => next.calls rest
      | (reached, some stopped) => (reached, some stopped) := by
  simp only [calls_eq_recordUpTo, touchesOf, List.flatMap_append, recordUpTo_append]

/-- A run that nothing stops is one that succeeds. -/
theorem recordUpTo_eq_none_iff {touches : List Touch} :
    access.recordUpTo touches = (reached, none) ↔ access.recordAll touches = .ok reached := by
  rw [recordUpTo_eq]
  rcases access.recordUpTo touches with ⟨reached', _ | stopped⟩
  · simp
  · simp

end Runs

/-- What one summary lists begins what another one lists. -/
structure Precedes (access later : RegAccess) : Prop where
  read : access.read.toList <+: later.read.toList
  write : access.write.toList <+: later.write.toList

section Growth
variable {access next later : RegAccess}

theorem Precedes.refl (access : RegAccess) : access.Precedes access :=
  ⟨List.prefix_rfl, List.prefix_rfl⟩

theorem Precedes.trans (h : access.Precedes next) (h' : next.Precedes later) :
    access.Precedes later :=
  ⟨h.read.trans h'.read, h.write.trans h'.write⟩

/-- A touch adds to one side at most. -/
theorem record_precedes {touch : Touch} (h : access.record touch = .ok next) :
    access.Precedes next := by
  cases touch with
  | read reg =>
      obtain ⟨l, hinsert, rfl⟩ := map_eq_ok_iff.mp h
      exact ⟨BoundedList.insert_prefix hinsert, List.prefix_rfl⟩
  | write reg =>
      obtain ⟨l, hinsert, rfl⟩ := map_eq_ok_iff.mp h
      exact ⟨List.prefix_rfl, BoundedList.insert_prefix hinsert⟩

/-- What has been listed stays, also when a touch is stopped. -/
theorem recordUpTo_precedes (access : RegAccess) (touches : List Touch) :
    access.Precedes (access.recordUpTo touches).1 := by
  induction touches generalizing access with
  | nil => exact .refl access
  | cons touch rest ih =>
      rw [recordUpTo]
      cases hrecord : access.record touch with
      | ok next => exact (record_precedes hrecord).trans (ih next)
      | error stopped => exact .refl access

theorem calls_precedes_append (access : RegAccess) (first rest : List Call) :
    (access.calls first).1.Precedes (access.calls (first ++ rest)).1 := by
  rw [calls_append]
  rcases access.calls first with ⟨next, _ | stopped⟩
  · change next.Precedes (next.calls rest).1
    rw [calls_eq_recordUpTo]
    exact recordUpTo_precedes next _
  · exact .refl next

end Growth

section Sides
variable {access : RegAccess}

/-- A run is a run of its reads on the one side and a run of its writes on the other. -/
theorem recordAll_eq_insertAll (access : RegAccess) (touches : List Touch) :
    access.recordAll touches = do
      let read ← access.read.insertAll (readsOf touches)
      let write ← access.write.insertAll (writesOf touches)
      return { read, write } := by
  induction touches generalizing access with
  | nil => rfl
  | cons touch rest ih =>
      simp only [recordAll, List.foldlM_cons] at ih ⊢
      cases touch with
      | read reg =>
          simp only [readsOf_cons_read, writesOf_cons_read, BoundedList.insertAll,
            List.foldlM_cons, record, bind_assoc]
          cases access.read.insert reg with
          | error e => rfl
          | ok l => exact ih _
      | write reg =>
          -- The write is ahead of all reads of the rest, which are the first to be inserted.
          calc
            _ = access.write.insert reg >>= fun l =>
                access.read.insertAll (readsOf rest) >>= fun read =>
                l.insertAll (writesOf rest) >>= fun write => .ok { read, write } := by
              rw [record]
              cases access.write.insert reg with
              | error e => rfl
              | ok l => exact ih _
            _ = access.read.insertAll (readsOf rest) >>= fun read =>
                access.write.insert reg >>= fun l =>
                l.insertAll (writesOf rest) >>= fun write => .ok { read, write } :=
              bind_swap (fun _ => BoundedList.eq_full_of_insert (by decide))
                (fun _ => BoundedList.eq_full_of_insertAll (by decide)) _
            _ = _ := by
              simp only [readsOf_cons_write, writesOf_cons_write, BoundedList.insertAll,
                List.foldlM_cons, bind_assoc]
              rfl

/-- The reads among calls, as calls that only read. -/
def readsAlone (cs : List Call) : List Call := (cs.filterMap Call.read?).map .read

/-- The writes among calls, as calls that only write. -/
def writesAlone (cs : List Call) : List Call := (cs.filterMap Call.write?).map .write

@[simp] theorem read?_readsAlone (cs : List Call) :
    (readsAlone cs).filterMap Call.read? = cs.filterMap Call.read? := by
  simp [readsAlone, List.filterMap_map, Function.comp_def, Call.read?]

@[simp] theorem write?_readsAlone (cs : List Call) :
    (readsAlone cs).filterMap Call.write? = [] := by
  simp [readsAlone, List.filterMap_map, Function.comp_def, Call.write?]

@[simp] theorem read?_writesAlone (cs : List Call) :
    (writesAlone cs).filterMap Call.read? = [] := by
  simp [writesAlone, List.filterMap_map, Function.comp_def, Call.read?]

@[simp] theorem write?_writesAlone (cs : List Call) :
    (writesAlone cs).filterMap Call.write? = cs.filterMap Call.write? := by
  simp [writesAlone, List.filterMap_map, Function.comp_def, Call.write?]

/-- Calls are carried out exactly when each side takes the registers of the calls for it. -/
theorem calls_eq_none_iff {reached : RegAccess} (cs : List Call) :
    access.calls cs = (reached, none) ↔
      access.read.insertAll (cs.filterMap Call.read?) = .ok reached.read ∧
        access.write.insertAll (cs.filterMap Call.write?) = .ok reached.write := by
  rw [calls_eq_recordUpTo, recordUpTo_eq_none_iff, recordAll_eq_insertAll, readsOf_touchesOf,
    writesOf_touchesOf]
  rcases reached with ⟨read, write⟩
  cases access.read.insertAll (cs.filterMap Call.read?) with
  | error e => simp
  | ok read' =>
      cases access.write.insertAll (cs.filterMap Call.write?) with
      | error e => simp
      | ok write' => simp

/-- What calls do to a side is what the calls for that side do to it. -/
theorem calls_eq_none_iff_alone {reached : RegAccess} (cs : List Call) :
    access.calls cs = (reached, none) ↔
      access.calls (readsAlone cs) = ({ access with read := reached.read }, none) ∧
        access.calls (writesAlone cs) = ({ access with write := reached.write }, none) := by
  simp only [calls_eq_none_iff, read?_readsAlone, write?_readsAlone, read?_writesAlone,
    write?_writesAlone]
  -- The side without calls is the one that is there already.
  simp [BoundedList.insertAll]

end Sides

section Overflow
variable {access reached : RegAccess} {done : List Touch}

/-- Calls that were not stopped are listed. -/
theorem calls_summarize (h : access.Summarizes done) {cs : List Call}
    (hcs : access.calls cs = (reached, none)) : reached.Summarizes (done ++ touchesOf cs) := by
  rw [calls_eq_recordUpTo, recordUpTo_eq_none_iff] at hcs
  rcases recordAll_ends h (touchesOf cs) with ⟨reached', hok, hsummary⟩ | ⟨herror, -⟩
  · rw [hcs] at hok
    cases hok
    exact hsummary
  · rw [hcs] at herror
    cases herror

/-- Calls are carried out exactly when they do not name too many registers. -/
theorem calls_completed_iff (h : access.Summarizes done) (cs : List Call) :
    (access.calls cs).2 = none ↔ ¬ Overfull (done ++ touchesOf cs) := by
  constructor
  · intro hcs
    exact (calls_summarize h (Prod.ext rfl hcs)).not_overfull
  · intro hfits
    rw [calls_eq_recordUpTo]
    obtain ⟨reached, hok, -⟩ := (recordAll_ends h (touchesOf cs)).resolve_right
      fun hfull => hfits hfull.2
    rw [recordUpTo_eq_none_iff.mpr hok]

variable {c : Call}

/-- A call that reads one register too many finds the side full and does nothing. -/
theorem call_stops_reading (h : access.Summarizes done)
    (hfull : maxRegs < (readsOf (done ++ c.touches)).eraseDups.length) :
    access.call c = (access, some (.full maxRegs)) ∧ access.read.length = maxRegs := by
  rw [readsOf_append, c.readsOf_touches_eq] at hfull
  rw [call, c.touches_eq]
  cases hread : c.read? with
  | none =>
      rw [hread, Option.toList_none, List.append_nil] at hfull
      exact absurd (.inl hfull) h.not_overfull
  | some reg =>
      rw [hread] at hfull
      refine ⟨?_, BoundedList.length_eq_of_full h.read hfull⟩
      change access.recordUpTo (.read reg :: _) = _
      rw [recordUpTo, record, BoundedList.insert_eq_error h.read hfull]
      rfl

/-- A call that writes one register too many finds the side full, after it has read what it
reads. -/
theorem call_stops_writing (h : access.Summarizes done)
    (hfits : (readsOf (done ++ c.touches)).eraseDups.length ≤ maxRegs)
    (hfull : maxRegs < (writesOf (done ++ c.touches)).eraseDups.length) :
    ∃ left, access.call c = (left, some (.full maxRegs)) ∧ access.write.length = maxRegs ∧
      left.write = access.write ∧
      left.read.toList = (readsOf (done ++ c.touches)).eraseDups := by
  rw [readsOf_append, c.readsOf_touches_eq] at hfits ⊢
  rw [writesOf_append, c.writesOf_touches_eq] at hfull
  rw [call, c.touches_eq]
  cases hwrite : c.write? with
  | none =>
      rw [hwrite, Option.toList_none, List.append_nil] at hfull
      exact absurd (.inr hfull) h.not_overfull
  | some reg =>
      rw [hwrite] at hfull
      have hstop (l : BoundedList UInt16 maxRegs) :
          ({ access with read := l } : RegAccess).recordUpTo [.write reg] =
            ({ access with read := l }, some (.full maxRegs)) := by
        rw [recordUpTo, record, BoundedList.insert_eq_error h.write hfull]
        rfl
      have hlength := BoundedList.length_eq_of_full h.write hfull
      -- A read of the same call has been recorded when the write is stopped.
      cases hread : c.read? with
      | none =>
          refine ⟨access, hstop access.read, hlength, rfl, ?_⟩
          rw [Option.toList_none, List.append_nil, h.read]
      | some reg' =>
          rw [hread] at hfits
          obtain ⟨l, hl, hlist⟩ := BoundedList.insert_eq_ok (by decide) h.read hfits
          refine ⟨{ access with read := l }, ?_, hlength, rfl, hlist⟩
          change access.recordUpTo [.read reg', .write reg] = _
          rw [recordUpTo, record, hl]
          exact hstop l

end Overflow

section Details
variable (d : Detail) (cs : List Call)

/-- The registers read by a record without an operand and then by calls, each where it comes
first. -/
def firstReads : List UInt16 := (d.regsRead.toList ++ cs.filterMap Call.read?).eraseDups

/-- The registers written by a record without an operand and then by calls, each where it
comes first. -/
def firstWrites : List UInt16 := (d.regsWrite.toList ++ cs.filterMap Call.write?).eraseDups

theorem eraseDups_readsOf :
    (readsOf (d.implicitTouches ++ touchesOf cs)).eraseDups = firstReads d cs := by
  rw [readsOf_append, readsOf_implicitTouches, readsOf_touchesOf]
  rfl

theorem eraseDups_writesOf :
    (writesOf (d.implicitTouches ++ touchesOf cs)).eraseDups = firstWrites d cs := by
  rw [writesOf_append, writesOf_implicitTouches, writesOf_touchesOf]
  rfl

/-- The lists of a record leave room in a summary. -/
theorem exists_ofTouches_implicit :
    ∃ start, ofTouches d.implicitTouches = .ok start ∧ start.Summarizes d.implicitTouches := by
  apply exists_ofTouches
  have hread := (eraseDups_sublist d.regsRead.toList).length_le
  have hwrite := (eraseDups_sublist d.regsWrite.toList).length_le
  have hread' : d.regsRead.toList.length ≤ 20 := d.regsRead.length_le
  have hwrite' : d.regsWrite.toList.length ≤ 20 := d.regsWrite.length_le
  rw [Overfull, readsOf_implicitTouches, writesOf_implicitTouches, maxRegs]
  omega

end Details

/-- Calls on a summary that starts with the lists of a detail record. They are carried out
exactly when neither side gets more registers than it has room for. Each side then lists the
registers of the record and those of the calls where they come first, none of them twice. A
call that reads one register too many finds the side full and leaves everything as it is; one
that writes one too many finds that side full, leaves it as it is, and has recorded what it
reads. No call and no stop changes the beginning of what has been listed. What calls do to a
side is what the calls for that side do to it alone, in whichever way the others come in
between. -/
theorem calls_list_first_uses (d : Detail) :
    ∃ start, ofTouches d.implicitTouches = .ok start ∧
      (∀ cs, (start.calls cs).2 = none ↔
        (firstReads d cs).length ≤ maxRegs ∧ (firstWrites d cs).length ≤ maxRegs) ∧
      (∀ cs reached, start.calls cs = (reached, none) →
        reached.read.toList = firstReads d cs ∧ reached.read.toList.Nodup ∧
          reached.write.toList = firstWrites d cs ∧ reached.write.toList.Nodup) ∧
      (∀ cs c rest reached, start.calls cs = (reached, none) →
        maxRegs < (firstReads d (cs ++ [c])).length →
          reached.read.length = maxRegs ∧
            start.calls (cs ++ c :: rest) = (reached, some (.full maxRegs))) ∧
      (∀ cs c rest reached, start.calls cs = (reached, none) →
        (firstReads d (cs ++ [c])).length ≤ maxRegs →
        maxRegs < (firstWrites d (cs ++ [c])).length →
          reached.write.length = maxRegs ∧
            ∃ left, start.calls (cs ++ c :: rest) = (left, some (.full maxRegs)) ∧
              left.write = reached.write ∧ left.read.toList = firstReads d (cs ++ [c])) ∧
      (∀ cs rest, (start.calls cs).1.Precedes (start.calls (cs ++ rest)).1) ∧
      ∀ cs reached, start.calls cs = (reached, none) ↔
        start.calls (readsAlone cs) = ({ start with read := reached.read }, none) ∧
          start.calls (writesAlone cs) = ({ start with write := reached.write }, none) := by
  obtain ⟨start, hstart, hsummary⟩ := exists_ofTouches_implicit d
  have hjoin (cs : List Call) (c : Call) :
      d.implicitTouches ++ touchesOf cs ++ c.touches =
        d.implicitTouches ++ touchesOf (cs ++ [c]) := by
    rw [touchesOf, touchesOf, List.flatMap_append, List.flatMap_singleton, List.append_assoc]
  refine ⟨start, hstart, ?_, ?_, ?_, ?_, start.calls_precedes_append, fun cs reached =>
    calls_eq_none_iff_alone cs⟩
  · intro cs
    rw [calls_completed_iff hsummary, Overfull, eraseDups_readsOf, eraseDups_writesOf, not_or,
      Nat.not_lt, Nat.not_lt]
  · intro cs reached hcs
    have hlists := calls_summarize hsummary hcs
    have hread := hlists.read
    have hwrite := hlists.write
    rw [eraseDups_readsOf] at hread
    rw [eraseDups_writesOf] at hwrite
    exact ⟨hread, hread ▸ nodup_eraseDups _, hwrite, hwrite ▸ nodup_eraseDups _⟩
  · intro cs c rest reached hcs hfull
    rw [← eraseDups_readsOf, ← hjoin] at hfull
    obtain ⟨hstop, hlength⟩ := call_stops_reading (calls_summarize hsummary hcs) hfull
    refine ⟨hlength, ?_⟩
    rw [calls_append, hcs]
    simp only [calls, hstop]
  · intro cs c rest reached hcs hfits hfull
    rw [← eraseDups_readsOf, ← hjoin] at hfits ⊢
    rw [← eraseDups_writesOf, ← hjoin] at hfull
    obtain ⟨left, hstop, hlength, hwrite, hread⟩ :=
      call_stops_writing (calls_summarize hsummary hcs) hfits hfull
    refine ⟨hlength, left, ?_, hwrite, hread⟩
    rw [calls_append, hcs]
    simp only [calls, hstop]

/-- A record with one register that is read and written, and another one that is written. -/
def twoWrites : Detail where
  regsRead := ⟨[12], List.replicate 19 0, rfl, by decide⟩
  regsWrite := ⟨[12, 3], List.replicate 18 0, rfl, by decide⟩

/-- Accesses to 62 other registers, each read and written, and to the first one again. -/
def manyAccesses : List Call :=
  .read 12 :: (List.range 62).map fun i => .add (UInt16.ofNat (100 + i)) .readWrite

/-- Another access finds no room for a write, but has recorded the read. After a read in its
place, the next access finds no room for a read and does nothing. -/
theorem calls_list_first_uses_manyAccesses :
    ∃ start reached later left,
      ofTouches twoWrites.implicitTouches = .ok start ∧
      start.calls manyAccesses = (reached, none) ∧ reached.write.length = 64 ∧
      start.calls (manyAccesses ++ [.add 7 .readWrite, .read 9]) = (left, some (.full 64)) ∧
      left.write = reached.write ∧ left.read.toList = reached.read.toList ++ [7] ∧
      start.calls (manyAccesses ++ [.read 7]) = (later, none) ∧ later.read.length = 64 ∧
      start.calls (manyAccesses ++ [.read 7] ++ [.add 8 .readWrite, .read 9]) =
        (later, some (.full 64)) := by
  obtain ⟨start, hstart, hdone, hlists, hreading, hwriting, -, -⟩ :=
    calls_list_first_uses twoWrites
  have hmany : (start.calls manyAccesses).2 = none := (hdone _).mpr (by decide +kernel)
  have hlater : (start.calls (manyAccesses ++ [.read 7])).2 = none :=
    (hdone _).mpr (by decide +kernel)
  obtain ⟨hwrite, left, hleft, hsame, hread⟩ := hwriting _ (.add 7 .readWrite) [.read 9] _
    (Prod.ext rfl hmany) (by decide +kernel) (by decide +kernel)
  obtain ⟨hlength, hstop⟩ := hreading _ (.add 8 .readWrite) [.read 9] _ (Prod.ext rfl hlater)
    (by decide +kernel)
  refine ⟨start, _, _, left, hstart, Prod.ext rfl hmany, hwrite, hleft, hsame, ?_,
    Prod.ext rfl hlater, hlength, hstop⟩
  rw [hread, (hlists _ _ (Prod.ext rfl hmany)).1]
  decide +kernel

end RegAccess

end Disassembly
