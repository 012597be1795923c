import Disassembly.Codec.Basic
import Disassembly.Proofs.BoundedList.Slots
import Disassembly.Proofs.Outcome

/-!
# Histories of a bounded list

After any history of edits a bounded list shows what an ordinary list shows that has been
edited in the same way and is never longer than the capacity. What an edit leaves in the
spare slots has no part in it, and the array of slots with its cursor byte goes through the
same history.
-/

namespace Disassembly.BoundedList

section Edits
variable {α : Type} {n : Nat}

/-- A change that the owner of a bounded list can make. -/
inductive Edit (α : Type) where
  | push (a : α)
  /-- Replace the last element, if there is one. -/
  | setLast (a : α)
  /-- Replace the element at a position, if the position is in use. -/
  | set (i : Nat) (a : α)
  /-- Empty the list and overwrite every slot. -/
  | reset (fill : α)
  /-- Go on with a new list whose every slot holds a value. -/
  | filled (fill : α)
  /-- Go on with a list that takes over a sequence. -/
  | ofList (items : List α)
  | sort (le : α → α → Bool)

/-- Edit an ordinary list that must not become longer than `n`. -/
def Edit.onList (n : Nat) (xs : List α) : Edit α → Except Fault (List α)
  | .push a =>
      if xs.length < n then .ok (xs ++ [a]) else .error (.capacity (.full n))
  | .setLast a => .ok (if xs = [] then [] else xs.dropLast ++ [a])
  | .set i a => .ok (xs.set i a)
  | .reset _ | .filled _ => .ok []
  | .ofList items =>
      if items.length ≤ n then .ok items
      else .error (.capacity (.tooMany n items.length))
  | .sort le => .ok (xs.mergeSort le)

variable [Inhabited α]

/-- Edit a bounded list. -/
def Edit.apply (l : BoundedList α n) : Edit α → Except Fault (BoundedList α n)
  | .push a => orFault (l.push a)
  | .setLast a => .ok (l.setLast a)
  | .set i a => .ok (l.set i a)
  | .reset fill | .filled fill => .ok (BoundedList.filled fill)
  | .ofList items => orFault (BoundedList.ofList items)
  | .sort le => .ok (l.sort le)

/-- Edit the memory of a bounded list. -/
def Edit.inMemory (s : Slots α) : Edit α → Except Fault (Slots α)
  | .push a => orFault (s.push a)
  | .setLast a => .ok (s.setLast a)
  | .set i a => .ok (s.set i a)
  | .reset fill | .filled fill => .ok (Slots.filled s.cells.length fill)
  | .ofList items => orFault (Slots.ofList s.cells.length items)
  | .sort le => .ok (s.sort le)

/-- An empty list after edits. -/
def edited (n : Nat) (edits : List (Edit α)) : Except Fault (BoundedList α n) :=
  edits.foldlM Edit.apply .empty

end Edits

/-- What can be seen of a bounded list is what an ordinary list shows that is not too
long. -/
structure Shows {α : Type} [DecidableEq α] [Inhabited α] {n : Nat} (l : BoundedList α n)
    (xs : List α) : Prop where
  toList : l.toList = xs
  length : l.length = xs.length
  isEmpty : l.isEmpty = true ↔ xs = []
  get? : ∀ i, l.get? i = xs[i]?
  last? : l.last? = xs.getLast?
  contains : ∀ a, l.contains a = true ↔ a ∈ xs
  describe : ∀ element, l.describe element = "[" ++ ", ".intercalate (xs.map element) ++ "]"
  write : ∀ c : Codec α, (c.list n).write l = .arr (xs.map c.write) true
  fits : xs.length ≤ n

section Steps
variable {α : Type} {n : Nat} (l : BoundedList α n)

/-- The elements determine what can be seen. -/
theorem shows_toList [DecidableEq α] [Inhabited α] : l.Shows l.toList where
  toList := rfl
  length := rfl
  isEmpty := List.isEmpty_iff
  get? _ := rfl
  last? := rfl
  contains _ := List.contains_iff_mem
  describe _ := rfl
  write _ := rfl
  fits := l.length_le

/-- An addition fails exactly where every slot is in use. -/
theorem push_eq_error_iff (hn : n ≤ maxCursor) (a : α) (e : CapacityError) :
    l.push a = .error e ↔ l.length = n ∧ e = .full n := by
  have hle := l.length_le
  by_cases hroom : l.length < n
  · obtain ⟨r, hr, -⟩ := (l.push_eq_ok_iff hn a).mpr hroom
    rw [hr]
    exact ⟨nofun, fun h => absurd h.1 (Nat.ne_of_lt hroom)⟩
  · rw [l.push_eq_error a (Nat.le_of_not_lt hroom)]
    constructor
    · rintro ⟨⟩
      exact ⟨Nat.le_antisymm hle (Nat.le_of_not_lt hroom), rfl⟩
    · rintro ⟨-, rfl⟩
      rfl

/-- A sequence cannot be taken over exactly when it is too long. -/
theorem ofList_eq_error_iff [Inhabited α] (hn : n ≤ maxCursor) (items : List α)
    (e : CapacityError) :
    (ofList items : Except _ (BoundedList α n)) = .error e ↔
      n < items.length ∧ e = .tooMany n items.length := by
  rw [ofList]
  by_cases hfits : items.length ≤ n
  · rw [dif_pos hfits, dif_pos (Nat.le_trans hfits hn)]
    constructor
    · intro h
      cases h
    · rintro ⟨hover, -⟩
      exact absurd hover (Nat.not_lt_of_le hfits)
  · rw [dif_neg hfits]
    constructor
    · rintro ⟨⟩
      exact ⟨Nat.lt_of_not_le hfits, rfl⟩
    · rintro ⟨-, rfl⟩
      rfl

theorem toList_setLast (a : α) :
    (l.setLast a).toList = if l.toList = [] then [] else l.toList.dropLast ++ [a] := by
  rw [setLast_eq_set, toList_set, length, ← toList]
  rcases List.eq_nil_or_concat l.toList with hnil | ⟨first, last, hlast⟩
  · simp [hnil]
  · simp [hlast]

variable [Inhabited α]

/-- An edit of a bounded list edits its elements. -/
theorem apply_toList (hn : n ≤ maxCursor) (edit : Edit α) :
    (edit.apply l).map toList = edit.onList n l.toList := by
  cases edit with
  | push a =>
      rw [Edit.apply, Edit.onList, ← orFault_map]
      by_cases hroom : l.toList.length < n
      · obtain ⟨r, hr, hlist⟩ := (l.push_eq_ok_iff hn a).mpr hroom
        rw [hr, if_pos hroom, ← hlist]
        rfl
      · rw [l.push_eq_error a (Nat.le_of_not_lt hroom), if_neg hroom]
        rfl
  | setLast a => exact congrArg Except.ok (l.toList_setLast a)
  | ofList items =>
      rw [Edit.apply, Edit.onList, ← orFault_map, ofList]
      by_cases hfits : items.length ≤ n
      · rw [dif_pos hfits, dif_pos (Nat.le_trans hfits hn), if_pos hfits]
        rfl
      · rw [dif_neg hfits, if_neg hfits]
        rfl
  | set i a | reset fill | filled fill | sort le => rfl

/-- An edit of the memory of a bounded list is an edit of the list. -/
theorem inMemory_memory (edit : Edit α) :
    edit.inMemory l.memory = (edit.apply l).map memory := by
  cases edit with
  | push a => rw [Edit.inMemory, Edit.apply, l.push_memory, orFault_map]
  | setLast a => exact congrArg Except.ok (l.setLast_memory a)
  | set i a => exact congrArg Except.ok (l.set_memory i a)
  | reset fill | filled fill =>
      rw [Edit.inMemory, l.length_cells]
      rfl
  | ofList items =>
      rw [Edit.inMemory, Edit.apply, l.length_cells, ofList_memory, orFault_map]
  | sort le => exact congrArg Except.ok (l.sort_memory le)

end Steps

/-- Equality looks at the elements only. -/
theorem beq_iff {α : Type} [DecidableEq α] {n : Nat} (l l' : BoundedList α n) :
    (l == l') = true ↔ l.toList = l'.toList := by
  change (l.used == l'.used) = true ↔ _
  exact beq_iff_eq

section Histories
variable {α : Type} [Inhabited α] {n : Nat}

/-- A history of a bounded list is the same history of its elements. -/
theorem edited_toList (hn : n ≤ maxCursor) (edits : List (Edit α)) :
    (edited n edits).map toList = edits.foldlM (Edit.onList n) [] :=
  (foldlM_map toList (fun l edit => (l.apply_toList hn edit).symm) edits .empty).symm

/-- The memory goes through the history of the list. -/
theorem edited_memory (edits : List (Edit α)) :
    edits.foldlM Edit.inMemory (Slots.filled n default) = (edited n edits).map memory :=
  foldlM_map memory (fun l edit => l.inMemory_memory edit) edits .empty

/-- A bounded list of at most 255 slots is a list that cannot become longer than that.
After any edits of an empty one it shows what an ordinary list shows after the same edits,
or both stop at the same edit for the same reason; and so does the array of its slots with a
cursor of one byte, of which the list is what is stored before the cursor. An addition fails
exactly where every slot is in use, and a sequence cannot be taken over exactly when it is
too long. Whatever two histories leave in the spare slots, the lists are equal exactly when
their elements are, equal lists have one hash, and a list equals a sequence exactly when its
elements do. -/
theorem histories_show_lists [DecidableEq α] [Hashable α] (hn : n ≤ 255)
    (edits edits' : List (Edit α)) :
    Alike Shows (edited n edits) (edits.foldlM (Edit.onList n) []) ∧
    Alike (fun s l => s = memory l ∧ s.elements = l.toList ∧ s.cursor.toNat = l.length)
      (edits.foldlM Edit.inMemory (Slots.filled n default)) (edited n edits) ∧
    (∀ (l : BoundedList α n) a e, l.push a = .error e ↔ l.length = n ∧ e = .full n) ∧
    (∀ items e, (ofList items : Except _ (BoundedList α n)) = .error e ↔
      n < items.length ∧ e = .tooMany n items.length) ∧
    ∀ l l' : BoundedList α n, edited n edits = .ok l → edited n edits' = .ok l' →
      ((l == l') = true ↔ l.toList = l'.toList) ∧
      ((l == l') = true → hash l = hash l') ∧
      ∀ items, l.equals items = true ↔ l.toList = items := by
  refine ⟨?_, ?_, fun l => l.push_eq_error_iff hn, ofList_eq_error_iff hn, ?_⟩
  · rw [← edited_toList hn]
    cases edited n edits with
    | error fault => exact .error fault
    | ok l => exact .ok l.shows_toList
  · rw [edited_memory]
    cases edited n edits with
    | error fault => exact .error fault
    | ok l => exact .ok ⟨rfl, l.elements_memory, l.toNat_cursor⟩
  · intro l l' _ _
    refine ⟨beq_iff l l', ?_, fun items => beq_iff_eq⟩
    intro heq
    have hlist : l.used = l'.used := (beq_iff l l').mp heq
    change hash l.used = hash l'.used
    rw [hlist]

/-- A history that drops three bytes and ends with two others. -/
def droppingEdits : List (Edit UInt8) :=
  [.push 2, .push 3, .push 4, .reset 4, .push 9, .push 5, .setLast 1, .sort (· ≤ ·)]

/-- A history that ends with the same bytes and leaves another one in the spare slot. -/
def fillingEdits : List (Edit UInt8) :=
  [.ofList [8, 8, 8], .filled 7, .push 1, .push 0, .set 1 9]

theorem histories_show_lists_bytes :
    3 ≤ 255 ∧ ∃ l l' : BoundedList UInt8 3,
      edited 3 droppingEdits = .ok l ∧ edited 3 fillingEdits = .ok l' ∧
      l.Shows [1, 9] ∧ l.spare = [4] ∧ l'.spare = [7] ∧ (l == l') = true ∧
      hash l = hash l' ∧ l.equals [1, 9] = true := by
  have hn : 3 ≤ 255 := by decide
  obtain ⟨l, hl⟩ : ∃ l, edited 3 droppingEdits = .ok l := ⟨_, rfl⟩
  obtain ⟨l', hl'⟩ : ∃ l', edited 3 fillingEdits = .ok l' := ⟨_, rfl⟩
  have hsort : ([9, 1] : List UInt8).mergeSort (· ≤ ·) = [1, 9] := by
    simp [List.mergeSort, List.MergeSort.Internal.splitInTwo]
  have hlist : droppingEdits.foldlM (Edit.onList 3) [] = .ok [1, 9] := congrArg Except.ok hsort
  obtain ⟨hshows, -, -, -, hpair⟩ := histories_show_lists hn droppingEdits fillingEdits
  rw [hl, hlist] at hshows
  cases hshows with
  | ok hshows =>
      obtain ⟨heq, hhash, hequals⟩ := hpair l l' hl hl'
      have hsame : (l == l') = true := by
        rw [heq, hshows.toList]
        cases hl'
        rfl
      refine ⟨hn, l, l', hl, hl', hshows, ?_, ?_, hsame, hhash hsame, ?_⟩
      · cases hl
        rfl
      · cases hl'
        rfl
      · exact (hequals _).mpr hshows.toList

end Histories

end Disassembly.BoundedList
