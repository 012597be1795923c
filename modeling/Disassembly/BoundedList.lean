/-!
# Bounded lists

A bounded list owns a fixed number of slots. The slots before the cursor are
its elements; a slot at or past the cursor keeps whatever was stored there last
and is no element. Only the cursor operations (`active?`, `modifyActive`,
`commit`, `retract`) see those slots.

The cursor is one byte. A list with more slots than a byte counts has slots that
never come into use: to move the cursor on from 255 is an overflow.
-/

namespace Disassembly

/-- Why elements do not fit into a bounded list. -/
inductive CapacityError where
  /-- One more element was added to a list without a free slot. -/
  | full (capacity : Nat)
  /-- A whole sequence was too long to be taken over. -/
  | tooMany (capacity got : Nat)
  /-- The cursor was moved past the largest byte, with a slot free. -/
  | cursorOverflow
deriving DecidableEq, Repr

/-- The most elements that a cursor of one byte can stand behind. -/
abbrev BoundedList.maxCursor : Nat := 255

/-- At most `n` elements, followed by the slots not in use. -/
structure BoundedList (α : Type) (n : Nat) where
  /-- The elements, first to last. -/
  used : List α
  /-- The contents of the slots from the cursor on. -/
  spare : List α
  length_eq : used.length + spare.length = n
  cursor_le : used.length ≤ BoundedList.maxCursor

namespace BoundedList

variable {α β : Type} {n : Nat}

/-- No elements, and every slot holds `fill`. -/
def filled (fill : α) : BoundedList α n :=
  ⟨[], List.replicate n fill, by simp, by simp⟩

/-- No elements, and every slot holds the default value. -/
def empty [Inhabited α] : BoundedList α n :=
  filled default

instance [Inhabited α] : Inhabited (BoundedList α n) := ⟨empty⟩

/-- The elements as an ordinary list. -/
def toList (l : BoundedList α n) : List α := l.used

/-- The number of elements. -/
def length (l : BoundedList α n) : Nat := l.used.length

/-- The number of slots. -/
def capacity (_ : BoundedList α n) : Nat := n

def isEmpty (l : BoundedList α n) : Bool := l.used.isEmpty

/-- The element at a position, if the position is in use. -/
def get? (l : BoundedList α n) (i : Nat) : Option α := l.used[i]?

/-- The last element. -/
def last? (l : BoundedList α n) : Option α := l.used.getLast?

/-- Whether a value is among the elements. -/
def contains [BEq α] (l : BoundedList α n) (a : α) : Bool := l.used.contains a

/-- The elements and one more, once the cursor has been moved on over its slot. -/
def advance (used : List α) (a : α) (rest : List α) (h : used.length + (a :: rest).length = n) :
    Except CapacityError (BoundedList α n) :=
  if hcursor : used.length < maxCursor then
    .ok ⟨used ++ [a], rest, by simp only [List.length_append, List.length_cons,
      List.length_nil] at h ⊢; omega, by rw [List.length_append]; exact hcursor⟩
  else .error .cursorOverflow

/-- Add an element at the end. -/
def push : BoundedList α n → α → Except CapacityError (BoundedList α n)
  | ⟨_, [], _, _⟩, _ => .error (.full n)
  | ⟨used, _ :: rest, h, _⟩, a => advance used a rest h

/-- Add elements one by one. -/
def pushAll (l : BoundedList α n) (items : List α) :
    Except CapacityError (BoundedList α n) :=
  items.foldlM push l

/-- Take over a whole sequence; the slots left free hold the default value. -/
def ofList [Inhabited α] (items : List α) : Except CapacityError (BoundedList α n) :=
  if h : items.length ≤ n then
    if hcursor : items.length ≤ maxCursor then
      .ok ⟨items, List.replicate (n - items.length) default, by
        simp only [List.length_replicate]; omega, hcursor⟩
    else .error .cursorOverflow
  else
    .error (.tooMany n items.length)

/-- Replace the element at a position; positions not in use are left alone. -/
def set (l : BoundedList α n) (i : Nat) (a : α) : BoundedList α n :=
  ⟨l.used.set i a, l.spare, by simpa using l.length_eq, by simpa using l.cursor_le⟩

/-- Change the last element, if there is one. -/
def modifyLast (l : BoundedList α n) (f : α → α) : BoundedList α n :=
  ⟨l.used.modify (l.used.length - 1) f, l.spare, by simpa using l.length_eq, by
    simpa using l.cursor_le⟩

/-- Replace the last element, if there is one. -/
def setLast (l : BoundedList α n) (a : α) : BoundedList α n :=
  l.modifyLast fun _ => a

/-- Put the elements into the order of `le`, equal ones staying in place. -/
def sort (l : BoundedList α n) (le : α → α → Bool) : BoundedList α n :=
  ⟨l.used.mergeSort le, l.spare, by simpa using l.length_eq, by simpa using l.cursor_le⟩

/-- The slot at the cursor, if the list is not full. -/
def active? (l : BoundedList α n) : Option α := l.spare.head?

/-- Change the slot at the cursor without making it an element. -/
def modifyActive : BoundedList α n → (α → α) → Except CapacityError (BoundedList α n)
  | ⟨_, [], _, _⟩, _ => .error (.full n)
  | ⟨used, a :: rest, h, hcursor⟩, f => .ok ⟨used, f a :: rest, by simpa using h, hcursor⟩

/-- Make the slot at the cursor the last element. -/
def commit : BoundedList α n → Except CapacityError (BoundedList α n)
  | ⟨_, [], _, _⟩ => .error (.full n)
  | ⟨used, a :: rest, h, _⟩ => advance used a rest h

/-- Step the cursor back over the last element; the slot keeps its contents. -/
def retract (l : BoundedList α n) : BoundedList α n :=
  ⟨l.used.dropLast, l.used.drop (l.used.length - 1) ++ l.spare, by
    have h := l.length_eq
    simp only [List.length_dropLast, List.length_append, List.length_drop]
    omega, by
    have hcursor := l.cursor_le
    rw [List.length_dropLast]
    omega⟩

/-- Two lists are equal when their elements are. -/
instance [BEq α] : BEq (BoundedList α n) where
  beq a b := a.used == b.used

/-- Whether the elements are those of a sequence. -/
def equals [BEq α] (l : BoundedList α n) (items : List α) : Bool := l.used == items

instance [Hashable α] : Hashable (BoundedList α n) where
  hash l := hash l.used

/-- The elements in brackets, separated by a comma and a blank. -/
def describe (l : BoundedList α n) (element : α → String) : String :=
  "[" ++ ", ".intercalate (l.used.map element) ++ "]"

theorem length_le (l : BoundedList α n) : l.length ≤ n := by
  have h := l.length_eq
  simp only [length]
  omega

@[simp] theorem toList_filled (fill : α) :
    (filled fill : BoundedList α n).toList = [] := rfl

@[simp] theorem toList_empty [Inhabited α] :
    (empty : BoundedList α n).toList = [] := rfl

@[simp] theorem toList_set (l : BoundedList α n) (i : Nat) (a : α) :
    (l.set i a).toList = l.toList.set i a := rfl

@[simp] theorem toList_modifyLast (l : BoundedList α n) (f : α → α) :
    (l.modifyLast f).toList = l.toList.modify (l.length - 1) f := rfl

@[simp] theorem toList_sort (l : BoundedList α n) (le : α → α → Bool) :
    (l.sort le).toList = l.toList.mergeSort le := rfl

@[simp] theorem toList_retract (l : BoundedList α n) :
    l.retract.toList = l.toList.dropLast := rfl

section Advance
variable {used rest : List α} {a : α} {h : used.length + (a :: rest).length = n}

/-- The cursor can be moved on from any byte but the largest. -/
theorem advance_eq_ok (hcursor : used.length < maxCursor) :
    ∃ r : BoundedList α n, advance used a rest h = .ok r ∧ r.used = used ++ [a] ∧
      r.spare = rest := by
  rw [advance, dif_pos hcursor]
  exact ⟨_, rfl, rfl, rfl⟩

theorem advance_eq_error (hcursor : ¬ used.length < maxCursor) :
    (advance used a rest h : Except _ (BoundedList α n)) = .error .cursorOverflow :=
  dif_neg hcursor

theorem toList_advance {r : BoundedList α n} (hr : advance used a rest h = .ok r) :
    r.toList = used ++ [a] := by
  by_cases hcursor : used.length < maxCursor
  · obtain ⟨r', hr', hused, -⟩ := advance_eq_ok (h := h) hcursor
    cases hr'.symm.trans hr
    exact hused
  · rw [advance_eq_error hcursor] at hr
    cases hr

end Advance

/-- A pushed value comes last. -/
theorem toList_push {l r : BoundedList α n} {a : α} (h : l.push a = .ok r) :
    r.toList = l.toList ++ [a] := by
  rcases l with ⟨used, _ | ⟨b, rest⟩, hl⟩
  · cases h
  · change advance used a rest hl = .ok r at h
    exact toList_advance h

/-- A sequence taken over is the sequence of elements. -/
theorem toList_ofList [Inhabited α] {items : List α} {r : BoundedList α n}
    (h : ofList items = .ok r) : r.toList = items := by
  simp only [ofList] at h
  split at h
  · split at h <;> cases h
    rfl
  · cases h

/-- A sequence is taken over if it fits and can be counted. -/
theorem exists_ofList [Inhabited α] {items : List α} (hfits : items.length ≤ n)
    (hcursor : items.length ≤ maxCursor) :
    ∃ r : BoundedList α n, ofList items = .ok r ∧ r.toList = items := by
  rw [ofList, dif_pos hfits, dif_pos hcursor]
  exact ⟨_, rfl, rfl⟩

/-- Work in the slot at the cursor leaves the elements alone. -/
theorem toList_modifyActive {l r : BoundedList α n} {f : α → α}
    (h : l.modifyActive f = .ok r) : r.toList = l.toList := by
  rcases l with ⟨used, _ | ⟨b, rest⟩, _⟩ <;> cases h
  rfl

/-- The slot at the cursor becomes the last element. -/
theorem toList_commit {l r : BoundedList α n} (h : l.commit = .ok r) :
    r.toList = l.toList ++ l.active?.toList := by
  rcases l with ⟨used, _ | ⟨b, rest⟩, hl⟩
  · cases h
  · exact toList_advance (h := hl) h

/-- Adding succeeds exactly while a slot is free, and appends, if a byte counts the slots. -/
theorem push_eq_ok_iff (hn : n ≤ maxCursor) (l : BoundedList α n) (a : α) :
    (∃ r, l.push a = .ok r ∧ r.toList = l.toList ++ [a]) ↔ l.length < n := by
  rcases l with ⟨used, _ | ⟨b, rest⟩, h⟩
  · simp only [List.length_nil, Nat.add_zero] at h
    simp [push, length, h]
  · have hlt : used.length < n := by
      rw [← h, List.length_cons]
      omega
    obtain ⟨r, hr, hused, -⟩ := advance_eq_ok (a := a) (h := h) (Nat.lt_of_lt_of_le hlt hn)
    exact iff_of_true ⟨r, hr, hused⟩ hlt

/-- A list without a free slot takes nothing more. -/
theorem push_eq_error {l : BoundedList α n} (a : α) (h : n ≤ l.length) :
    l.push a = .error (.full n) := by
  rcases l with ⟨used, _ | ⟨b, rest⟩, hl⟩
  · rfl
  · simp only [List.length_cons] at hl
    simp only [length] at h
    omega

/-- A slot at the cursor is a free one. -/
theorem isSome_active?_iff (l : BoundedList α n) : l.active?.isSome ↔ l.length < n := by
  rcases l with ⟨used, _ | ⟨b, rest⟩, h⟩
  · simp only [List.length_nil, Nat.add_zero] at h
    simp [active?, length, h]
  · simp only [List.length_cons] at h
    have hlt : used.length < n := by omega
    simp [active?, length, hlt]

/-- The slot at the cursor takes a change. -/
theorem modifyActive_eq_ok {l : BoundedList α n} {a : α} (h : l.active? = some a)
    (f : α → α) :
    ∃ r, l.modifyActive f = .ok r ∧ r.toList = l.toList ∧ r.active? = some (f a) := by
  rcases l with ⟨used, _ | ⟨b, rest⟩, _⟩ <;> cases h
  exact ⟨_, rfl, rfl, rfl⟩

/-- A list without a free slot has no slot at the cursor to change. -/
theorem modifyActive_eq_error {l : BoundedList α n} (f : α → α) (h : n ≤ l.length) :
    l.modifyActive f = .error (.full n) := by
  rcases l with ⟨used, _ | ⟨b, rest⟩, hl⟩
  · rfl
  · simp only [List.length_cons] at hl
    simp only [length] at h
    omega

/-- The slot at the cursor can be made an element, if a byte counts the slots. -/
theorem commit_eq_ok (hn : n ≤ maxCursor) {l : BoundedList α n} {a : α}
    (h : l.active? = some a) : ∃ r, l.commit = .ok r ∧ r.toList = l.toList ++ [a] := by
  rcases l with ⟨used, _ | ⟨b, rest⟩, hl⟩ <;> cases h
  have hcursor : used.length < maxCursor := by
    rw [List.length_cons] at hl
    omega
  obtain ⟨r, hr, hused, -⟩ := advance_eq_ok (h := hl) hcursor
  exact ⟨r, hr, hused⟩

/-- The last element is at the cursor once the cursor has stepped back over it. -/
theorem active?_retract {l : BoundedList α n} {a : α} (h : l.toList.getLast? = some a) :
    l.retract.active? = some a := by
  rcases l with ⟨used, spare, _⟩
  simp only [toList] at h
  obtain ⟨first, rfl⟩ := List.getLast?_eq_some_iff.mp h
  simp [retract, active?]

end BoundedList

end Disassembly
