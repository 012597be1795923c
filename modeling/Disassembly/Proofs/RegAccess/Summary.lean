import Disassembly.RegAccess

/-!
# Summaries of touches

A summary lists the registers that touches read, and those that they write, each where
it comes first. There is a summary exactly when neither list is too long.
-/

namespace Disassembly

section Lists
variable {α : Type} [BEq α] [LawfulBEq α]

/-- One more element is listed unless it has come before. -/
theorem eraseDups_concat (l : List α) (a : α) :
    (l ++ [a]).eraseDups = if l.contains a then l.eraseDups else l.eraseDups ++ [a] := by
  rw [List.eraseDups_append, List.removeAll, List.filter_cons, List.elem_eq_contains]
  cases l.contains a with
  | true => exact List.append_nil _
  | false => exact congrArg _ (List.eraseDups_cons)

/-- What is listed of a list comes first in what is listed of a longer one. -/
theorem eraseDups_prefix_append (l l' : List α) : l.eraseDups <+: (l ++ l').eraseDups := by
  rw [List.eraseDups_append]
  exact List.prefix_append _ _

omit [LawfulBEq α] in
theorem eraseDups_sublist (l : List α) : l.eraseDups.Sublist l := by
  cases l with
  | nil => exact List.Sublist.refl []
  | cons a rest =>
      rw [List.eraseDups_cons]
      exact ((eraseDups_sublist _).trans List.filter_sublist).cons_cons a
termination_by l.length
decreasing_by exact Nat.lt_succ_of_le (List.length_filter_le _ _)

/-- Nothing is listed twice. -/
theorem nodup_eraseDups (l : List α) : l.eraseDups.Nodup := by
  cases l with
  | nil => exact List.nodup_nil
  | cons a rest =>
      rw [List.eraseDups_cons, List.nodup_cons, List.mem_eraseDups, List.mem_filter]
      exact ⟨by simp, nodup_eraseDups _⟩
termination_by l.length
decreasing_by exact Nat.lt_succ_of_le (List.length_filter_le _ _)

omit [BEq α] [LawfulBEq α] in
/-- Lists that are not longer than a bound, one after another. -/
theorem length_flatMap_le {ι : Type} {f : ι → List α} {bound : Nat} (l : List ι)
    (h : ∀ i ∈ l, (f i).length ≤ bound) : (l.flatMap f).length ≤ bound * l.length := by
  induction l with
  | nil => exact Nat.zero_le _
  | cons i rest ih =>
      have hfirst := h i List.mem_cons_self
      have hrest := ih fun j hj => h j (List.mem_cons_of_mem i hj)
      rw [List.flatMap_cons, List.length_append, List.length_cons, Nat.mul_succ]
      omega

end Lists

namespace BoundedList

variable {α : Type} {n : Nat} [BEq α] [LawfulBEq α] {l r : BoundedList α n} {seen : List α}

theorem contains_eq (h : l.toList = seen.eraseDups) (a : α) :
    l.contains a = seen.contains a := by
  change l.toList.contains a = _
  rw [h, Bool.eq_iff_iff, List.contains_iff_mem, List.contains_iff_mem, List.mem_eraseDups]

/-- Where there is room, an insertion lists the value unless it has come before. -/
theorem insert_eq_ok (hn : n ≤ maxCursor) (h : l.toList = seen.eraseDups) {a : α}
    (hroom : (seen ++ [a]).eraseDups.length ≤ n) :
    ∃ r, l.insert a = .ok r ∧ r.toList = (seen ++ [a]).eraseDups := by
  rw [eraseDups_concat] at hroom ⊢
  rw [insert, contains_eq h]
  split at hroom
  next hseen => exact ⟨l, by rw [if_pos hseen], by rw [if_pos hseen, h]⟩
  next hnew =>
      have hlength : l.length < n := by
        have hlist : l.length = seen.eraseDups.length := congrArg List.length h
        rw [List.length_append, List.length_singleton] at hroom
        omega
      obtain ⟨r, hr, hlist⟩ := (l.push_eq_ok_iff hn a).mpr hlength
      exact ⟨r, by rw [if_neg hnew, hr], by rw [if_neg hnew, hlist, h]⟩

/-- Where a new value is one too many, all slots are in use. -/
theorem length_eq_of_full (h : l.toList = seen.eraseDups) {a : α}
    (hfull : n < (seen ++ [a]).eraseDups.length) : l.length = n := by
  have hlist : l.length = seen.eraseDups.length := congrArg List.length h
  have hle := l.length_le
  rw [eraseDups_concat] at hfull
  split at hfull
  next hseen => omega
  next hnew =>
      rw [List.length_append, List.length_singleton] at hfull
      omega

/-- Where there is no room, an insertion of a new value fails. -/
theorem insert_eq_error (h : l.toList = seen.eraseDups) {a : α}
    (hfull : n < (seen ++ [a]).eraseDups.length) : l.insert a = .error (.full n) := by
  have hlength := length_eq_of_full h hfull
  have hlist : l.length = seen.eraseDups.length := congrArg List.length h
  rw [eraseDups_concat] at hfull
  rw [insert, contains_eq h]
  split at hfull
  next hseen => omega
  next hnew => rw [if_neg hnew, push_eq_error a (Nat.le_of_eq hlength.symm)]

/-- An insertion lists the value, unless it is one too many. -/
theorem insert_ends (hn : n ≤ maxCursor) (h : l.toList = seen.eraseDups) (a : α) :
    (∃ r, l.insert a = .ok r ∧ r.toList = (seen ++ [a]).eraseDups) ∨
      l.insert a = .error (.full n) ∧ n < (seen ++ [a]).eraseDups.length := by
  by_cases hroom : (seen ++ [a]).eraseDups.length ≤ n
  · exact .inl (insert_eq_ok hn h hroom)
  · have hfull := Nat.lt_of_not_le hroom
    exact .inr ⟨insert_eq_error h hfull, hfull⟩

end BoundedList

/-- The register that a touch reads. -/
def Touch.read? : Touch → Option UInt16
  | .read reg => some reg
  | .write _ => none

/-- The register that a touch writes. -/
def Touch.write? : Touch → Option UInt16
  | .read _ => none
  | .write reg => some reg

/-- The registers that touches read, as often as they do. -/
def readsOf (touches : List Touch) : List UInt16 := touches.filterMap Touch.read?

/-- The registers that touches write, as often as they do. -/
def writesOf (touches : List Touch) : List UInt16 := touches.filterMap Touch.write?

section Touches

@[simp] theorem readsOf_nil : readsOf [] = [] := rfl

@[simp] theorem writesOf_nil : writesOf [] = [] := rfl

@[simp] theorem readsOf_cons_read (reg : UInt16) (touches : List Touch) :
    readsOf (.read reg :: touches) = reg :: readsOf touches := rfl

@[simp] theorem readsOf_cons_write (reg : UInt16) (touches : List Touch) :
    readsOf (.write reg :: touches) = readsOf touches := rfl

@[simp] theorem writesOf_cons_read (reg : UInt16) (touches : List Touch) :
    writesOf (.read reg :: touches) = writesOf touches := rfl

@[simp] theorem writesOf_cons_write (reg : UInt16) (touches : List Touch) :
    writesOf (.write reg :: touches) = reg :: writesOf touches := rfl

@[simp] theorem readsOf_append (touches touches' : List Touch) :
    readsOf (touches ++ touches') = readsOf touches ++ readsOf touches' :=
  List.filterMap_append

@[simp] theorem writesOf_append (touches touches' : List Touch) :
    writesOf (touches ++ touches') = writesOf touches ++ writesOf touches' :=
  List.filterMap_append

/-- The touches of a register by an access read it if the access reads. -/
theorem readsOf_touches (access : Access) (reg : UInt16) :
    readsOf (access.touches reg) = if access.reads then [reg] else [] := by
  rw [Access.touches, readsOf_append]
  cases access.reads <;> cases access.writes <;> rfl

theorem writesOf_touches (access : Access) (reg : UInt16) :
    writesOf (access.touches reg) = if access.writes then [reg] else [] := by
  rw [Access.touches, writesOf_append]
  cases access.reads <;> cases access.writes <;> rfl

theorem readsOf_readPart (reg : UInt16) :
    readsOf (Touch.readPart reg) = if reg ≠ 0 then [reg] else [] := by
  rw [Touch.readPart, ite_not]
  split <;> rfl

theorem writesOf_readPart (reg : UInt16) : writesOf (Touch.readPart reg) = [] := by
  rw [Touch.readPart]
  split <;> rfl

theorem readsOf_flatMap {ι : Type} (items : List ι) (touches : ι → List Touch) :
    readsOf (items.flatMap touches) = items.flatMap fun i => readsOf (touches i) := by
  rw [readsOf, List.filterMap_flatMap]
  rfl

theorem writesOf_flatMap {ι : Type} (items : List ι) (touches : ι → List Touch) :
    writesOf (items.flatMap touches) = items.flatMap fun i => writesOf (touches i) := by
  rw [writesOf, List.filterMap_flatMap]
  rfl

/-- The touches that are no operand read the one list and write the other. -/
theorem readsOf_implicitTouches (d : Detail) :
    readsOf d.implicitTouches = d.regsRead.toList := by
  rw [Detail.implicitTouches, readsOf, List.filterMap_append, List.filterMap_map,
    List.filterMap_map]
  simp [Function.comp_def, Touch.read?]

theorem writesOf_implicitTouches (d : Detail) :
    writesOf d.implicitTouches = d.regsWrite.toList := by
  rw [Detail.implicitTouches, writesOf, List.filterMap_append, List.filterMap_map,
    List.filterMap_map]
  simp [Function.comp_def, Touch.write?]

end Touches

namespace RegAccess

/-- The summary lists what touches read and what they write. -/
structure Summarizes (access : RegAccess) (touches : List Touch) : Prop where
  read : access.read.toList = (readsOf touches).eraseDups
  write : access.write.toList = (writesOf touches).eraseDups

/-- The touches name more registers than a side of a summary has room for. -/
def Overfull (touches : List Touch) : Prop :=
  maxRegs < (readsOf touches).eraseDups.length ∨
    maxRegs < (writesOf touches).eraseDups.length

variable {access : RegAccess} {done touches : List Touch}

/-- Touches that name too many registers still do with more of them. -/
theorem Overfull.append (h : Overfull done) (touches : List Touch) :
    Overfull (done ++ touches) := by
  rw [Overfull, readsOf_append, writesOf_append]
  exact h.imp (fun h => Nat.lt_of_lt_of_le h (eraseDups_prefix_append _ _).length_le)
    (fun h => Nat.lt_of_lt_of_le h (eraseDups_prefix_append _ _).length_le)

theorem Summarizes.not_overfull (h : access.Summarizes touches) : ¬ Overfull touches := by
  have hread := access.read.length_le
  have hwrite := access.write.length_le
  have hread' := congrArg List.length h.read
  have hwrite' := congrArg List.length h.write
  rintro (hfull | hfull)
  · exact absurd (hread' ▸ hread) (Nat.not_le_of_lt hfull)
  · exact absurd (hwrite' ▸ hwrite) (Nat.not_le_of_lt hfull)

/-- One touch more is recorded unless it is one too many. -/
theorem record_ends (h : access.Summarizes done) (touch : Touch) :
    (∃ next, access.record touch = .ok next ∧ next.Summarizes (done ++ [touch])) ∨
      access.record touch = .error (.full maxRegs) ∧ Overfull (done ++ [touch]) := by
  cases touch with
  | read reg =>
      rcases BoundedList.insert_ends (by decide) h.read reg with ⟨r, hr, hlist⟩ | ⟨hr, hfull⟩
      · refine .inl ⟨{ access with read := r }, ?_, ?_, ?_⟩
        · rw [record, hr]
          rfl
        · simpa using hlist
        · simpa using h.write
      · refine .inr ⟨?_, .inl (by simpa using hfull)⟩
        rw [record, hr]
        rfl
  | write reg =>
      rcases BoundedList.insert_ends (by decide) h.write reg with ⟨r, hr, hlist⟩ | ⟨hr, hfull⟩
      · refine .inl ⟨{ access with write := r }, ?_, ?_, ?_⟩
        · rw [record, hr]
          rfl
        · simpa using h.read
        · simpa using hlist
      · refine .inr ⟨?_, .inr (by simpa using hfull)⟩
        rw [record, hr]
        rfl

/-- Touches are recorded after others unless they name too many registers with them. -/
theorem recordAll_ends (h : access.Summarizes done) (touches : List Touch) :
    (∃ reached, access.recordAll touches = .ok reached ∧
        reached.Summarizes (done ++ touches)) ∨
      access.recordAll touches = .error (.full maxRegs) ∧ Overfull (done ++ touches) := by
  induction touches generalizing access done with
  | nil => exact .inl ⟨access, rfl, by rw [List.append_nil]; exact h⟩
  | cons touch rest ih =>
      have hjoin : done ++ touch :: rest = done ++ [touch] ++ rest := by
        rw [List.append_assoc, List.singleton_append]
      rw [hjoin]
      simp only [recordAll, List.foldlM_cons]
      rcases record_ends h touch with ⟨next, hnext, hsummary⟩ | ⟨hstop, hfull⟩
      · rw [hnext]
        exact ih hsummary
      · rw [hstop]
        exact .inr ⟨rfl, hfull.append rest⟩

/-- Touches have a summary that lists them, or they name too many registers. -/
theorem ofTouches_ends (touches : List Touch) :
    (∃ access, ofTouches touches = .ok access ∧ access.Summarizes touches) ∨
      ofTouches touches = .error (.full maxRegs) ∧ Overfull touches := by
  have hstart : ({} : RegAccess).Summarizes [] := ⟨rfl, rfl⟩
  exact recordAll_ends hstart touches

/-- A summary of touches lists what they read and write. -/
theorem ofTouches_summarizes (h : ofTouches touches = .ok access) :
    access.Summarizes touches := by
  rcases ofTouches_ends touches with ⟨access', hok, hsummary⟩ | ⟨herror, -⟩
  · rw [h] at hok
    cases hok
    exact hsummary
  · rw [h] at herror
    cases herror

/-- Touches that do not name too many registers have a summary. -/
theorem exists_ofTouches (h : ¬ Overfull touches) :
    ∃ access, ofTouches touches = .ok access ∧ access.Summarizes touches :=
  (ofTouches_ends touches).resolve_right fun hfull => h hfull.2

/-- Touches have no summary exactly when they name too many registers. -/
theorem ofTouches_eq_error_iff (touches : List Touch) (e : CapacityError) :
    ofTouches touches = .error e ↔ e = .full maxRegs ∧ Overfull touches := by
  rcases ofTouches_ends touches with ⟨access, hok, hsummary⟩ | ⟨herror, hfull⟩
  · rw [hok]
    exact ⟨nofun, fun h => absurd h.2 hsummary.not_overfull⟩
  · rw [herror]
    exact ⟨fun h => by cases h; exact ⟨rfl, hfull⟩, fun h => by rw [h.1]⟩

end RegAccess

end Disassembly
