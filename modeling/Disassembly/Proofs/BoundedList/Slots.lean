import Disassembly.BoundedList

/-!
# Slots and a cursor byte

In memory a bounded list is one array of slots and a cursor of one byte. A value is stored
into the slot at the cursor, a loop takes over a sequence, and no operation clears a slot
that goes out of use. The memory always is that of the list: its elements, then its spare
slots, and the cursor between them. With more than 255 slots there is one more way to fail,
which is the same for both: the cursor cannot be moved on from the largest byte.
-/

namespace Disassembly

/-- Two passes over one list, of which each step of the first one is the image of a step
of the second one. -/
theorem foldlM_map {σ τ ι ε : Type} {f : τ → ι → Except ε τ} {g : σ → ι → Except ε σ}
    (view : σ → τ) (hstep : ∀ s i, f (view s) i = (g s i).map view) (items : List ι)
    (s : σ) : items.foldlM f (view s) = (items.foldlM g s).map view := by
  induction items generalizing s with
  | nil => rfl
  | cons i rest ih =>
      rw [List.foldlM_cons, List.foldlM_cons, hstep]
      cases g s i with
      | error e => rfl
      | ok next => exact ih next

/-- The memory of a bounded list: its slots, in use or not, and the cursor. -/
@[ext]
structure Slots (α : Type) where
  cells : List α
  cursor : UInt8

namespace Slots

variable {α : Type}

/-- What is stored before the cursor. -/
def elements (s : Slots α) : List α := s.cells.take s.cursor.toNat

/-- A value in each of `n` slots, and the cursor at the first one. -/
def filled (n : Nat) (fill : α) : Slots α := ⟨List.replicate n fill, 0⟩

/-- Store a value at the cursor and move the cursor on, which must not wrap around. -/
def push (s : Slots α) (a : α) : Except CapacityError (Slots α) :=
  if s.cursor.toNat < s.cells.length then
    if s.cursor = 255 then .error .cursorOverflow
    else .ok ⟨s.cells.set s.cursor.toNat a, s.cursor + 1⟩
  else .error (.full s.cells.length)

/-- Take over a sequence that is not too long, one value after the other. -/
def ofList [Inhabited α] (n : Nat) (items : List α) : Except CapacityError (Slots α) :=
  if items.length ≤ n then items.foldlM push (filled n default)
  else .error (.tooMany n items.length)

/-- Store a value at a position before the cursor. -/
def set (s : Slots α) (i : Nat) (a : α) : Slots α :=
  if i < s.cursor.toNat then ⟨s.cells.set i a, s.cursor⟩ else s

/-- Store a value right before the cursor, unless the cursor is at the first slot. -/
def setLast (s : Slots α) (a : α) : Slots α := s.set (s.cursor.toNat - 1) a

/-- Put what is stored before the cursor in order. -/
def sort (s : Slots α) (le : α → α → Bool) : Slots α :=
  ⟨s.elements.mergeSort le ++ s.cells.drop s.cursor.toNat, s.cursor⟩

end Slots

namespace BoundedList

variable {α : Type} {n : Nat} (l : BoundedList α n)

/-- The elements and then the spare slots, with the cursor between them. -/
def memory : Slots α := ⟨l.used ++ l.spare, UInt8.ofNat l.length⟩

@[simp] theorem length_cells : l.memory.cells.length = n := by
  rw [memory, List.length_append]
  exact l.length_eq

theorem memory_filled (fill : α) :
    (filled fill : BoundedList α n).memory = Slots.filled n fill := rfl

/-- Replacing the last element is replacing the one at its position. -/
theorem setLast_eq_set (a : α) : l.setLast a = l.set (l.length - 1) a := by
  have hlist (i : Nat) : l.used.modify i (fun _ => a) = l.used.set i a := by
    apply List.ext_getElem?
    intro j
    rw [List.getElem?_modify, List.getElem?_set]
    by_cases hj : i = j
    · cases h : l.used[j]? with
      | none => simp [hj, List.getElem?_eq_none_iff.mp h]
      | some b => simp [hj, (List.getElem?_eq_some_iff.mp h).1]
    · simp [hj]
  simp only [setLast, modifyLast, set, length, hlist]

/-- While there are enough spare slots, adding one by one uses up as many of them, unless the
cursor cannot count that far. -/
theorem pushAll_ends (items : List α) (hroom : items.length ≤ l.spare.length) :
    (∃ r, l.pushAll items = .ok r ∧ l.used.length + items.length ≤ maxCursor ∧
      r.used = l.used ++ items ∧ r.spare = l.spare.drop items.length) ∨
      l.pushAll items = .error .cursorOverflow ∧ maxCursor < l.used.length + items.length := by
  induction items generalizing l with
  | nil => exact .inl ⟨l, rfl, l.cursor_le, (List.append_nil _).symm, rfl⟩
  | cons a rest ih =>
      rcases l with ⟨used, _ | ⟨b, spare⟩, h, hle⟩
      · exact absurd hroom (Nat.not_succ_le_zero _)
      · have hpush : pushAll ⟨used, b :: spare, h, hle⟩ (a :: rest) =
            advance used a spare h >>= (·.pushAll rest) := rfl
        rw [hpush, List.length_cons, ← Nat.succ_add_eq_add_succ]
        by_cases hcursor : used.length < maxCursor
        · obtain ⟨next, hnext, hused, hspare⟩ := advance_eq_ok (a := a) (h := h) hcursor
          have hlength : next.used.length = used.length.succ := by
            rw [hused, List.length_append]
            rfl
          have hrest := ih next (by rw [hspare]; exact Nat.le_of_succ_le_succ hroom)
          rw [hlength, hused, hspare, List.append_assoc] at hrest
          rw [hnext]
          exact hrest
        · rw [advance_eq_error hcursor]
          refine .inr ⟨rfl, ?_⟩
          exact Nat.lt_of_lt_of_le (Nat.lt_succ_of_le (Nat.le_of_not_lt hcursor))
            (Nat.le_add_right _ _)

/-- Taking over a sequence is adding it one by one to an empty list. -/
theorem ofList_eq_pushAll [Inhabited α] {items : List α} (hfits : items.length ≤ n) :
    (ofList items : Except _ (BoundedList α n)) = (filled default).pushAll items := by
  have hroom : items.length ≤ (filled default : BoundedList α n).spare.length := by
    simpa [filled] using hfits
  rw [ofList, dif_pos hfits]
  rcases pushAll_ends _ _ hroom with ⟨r, hr, hcursor, hused, hspare⟩ | ⟨hstop, hover⟩
  · rw [hr, dif_pos (by simpa [filled] using hcursor)]
    rcases r with ⟨used, spare, _⟩
    simp only [filled, List.nil_append, List.drop_replicate] at hused hspare
    subst hused hspare
    rfl
  · rw [hstop, dif_neg (by simpa [filled] using hover)]

/-- The cursor stands where the elements end. -/
theorem toNat_cursor : l.memory.cursor.toNat = l.length := by
  have h : l.length ≤ 255 := l.cursor_le
  rw [memory, UInt8.toNat_ofNat']
  exact Nat.mod_eq_of_lt (by omega)

theorem elements_memory : l.memory.elements = l.toList := by
  rw [Slots.elements, toNat_cursor, memory, length, List.take_left]
  rfl

/-- The value in the slot at the cursor becomes the last element. -/
theorem push_memory (a : α) : l.memory.push a = (l.push a).map memory := by
  have hcursor : l.memory.cursor = 255 ↔ l.length = maxCursor := by
    rw [← UInt8.toNat_inj, toNat_cursor]
    rfl
  rw [Slots.push, toNat_cursor, length_cells]
  rcases l with ⟨used, _ | ⟨b, rest⟩, h, hle⟩
  · have hfull : ¬ used.length < n := by
      simp only [List.length_nil] at h
      omega
    rw [length, if_neg hfull]
    rfl
  · have hroom : used.length < n := by
      simp only [List.length_cons] at h
      omega
    have hpush : push ⟨used, b :: rest, h, hle⟩ a = advance used a rest h := rfl
    rw [length] at hcursor ⊢
    rw [if_pos hroom, hpush]
    by_cases hlt : used.length < maxCursor
    · obtain ⟨r, hr, hused, hspare⟩ := advance_eq_ok (a := a) (h := h) hlt
      rw [if_neg (mt hcursor.mp (Nat.ne_of_lt hlt)), hr]
      apply congrArg Except.ok
      ext1
      · simp only [memory, hused, hspare, List.set_append_right _ _ (Nat.le_refl _),
          Nat.sub_self, List.set_cons_zero, List.append_assoc, List.singleton_append]
      · simp only [memory, length, hused, List.length_append, List.length_singleton,
          UInt8.ofNat_add]
        rfl
    · rw [if_pos (hcursor.mpr (Nat.le_antisymm hle (Nat.le_of_not_lt hlt))),
        advance_eq_error hlt]
      rfl

theorem ofList_memory [Inhabited α] (items : List α) :
    Slots.ofList n items = (ofList items : Except _ (BoundedList α n)).map memory := by
  rw [Slots.ofList]
  by_cases hfits : items.length ≤ n
  · rw [if_pos hfits, ofList_eq_pushAll hfits, pushAll, ← memory_filled]
    exact foldlM_map memory (fun l a => l.push_memory a) items _
  · rw [if_neg hfits, ofList, dif_neg hfits]
    rfl

theorem set_memory (i : Nat) (a : α) : l.memory.set i a = (l.set i a).memory := by
  rw [Slots.set, toNat_cursor]
  by_cases hi : i < l.length
  · rw [if_pos hi]
    ext1
    · simp only [memory, set, List.set_append_left _ _ hi]
    · simp only [memory, set, length, List.length_set]
  · rw [if_neg hi]
    simp only [set, List.set_eq_of_length_le (Nat.le_of_not_lt hi)]

theorem setLast_memory (a : α) : l.memory.setLast a = (l.setLast a).memory := by
  rw [Slots.setLast, toNat_cursor, set_memory, l.setLast_eq_set]

theorem sort_memory (le : α → α → Bool) : l.memory.sort le = (l.sort le).memory := by
  rw [Slots.sort, elements_memory, toNat_cursor]
  ext1
  · simp only [memory, sort, length, List.drop_left]
    rfl
  · simp only [memory, sort, length, List.length_mergeSort]

end BoundedList

end Disassembly
