import Disassembly.Codec.Record
import Disassembly.Proofs.FlagText
import Disassembly.Proofs.Json.RoundTrip
import Disassembly.Proofs.Outcome

/-!
# Codecs restore what they write

What a codec writes has a text that determines it, and it is read back: as the same value,
or as an equal one where unused slots of lists get lost. The lemmas follow the ways in which
codecs are put together.
-/

namespace Disassembly

namespace Codec

variable {α β : Type}

/-- What is written for one value is read as another one, also from its text. -/
structure Restores (c : Codec α) (a b : α) : Prop where
  settled : (c.write a).Settled
  read : c.read (c.write a) = .ok b

/-- Every value is read back as it was. -/
def Exact (c : Codec α) : Prop := ∀ a, c.Restores a a

/-- Every value is read back as an equal one. -/
def Recovers [BEq α] (c : Codec α) : Prop := ∀ a, ∃ b, c.Restores a b ∧ (b == a) = true

theorem imap_exact {c : Codec α} {there : α → β} {back : β → α} (h : c.Exact)
    (hback : ∀ b, there (back b) = b) : (c.imap there back).Exact := by
  intro b
  constructor
  case settled => exact (h (back b)).settled
  case read =>
    simp only [imap, (h (back b)).read, Except.map, hback]

/-- Integers of a range of at most 64 bits. -/
theorem integer_exact {lo hi : Int} {toInt : α → Int} {ofInt : Int → α}
    (hrange : ∀ a, lo ≤ toInt a ∧ toInt a ≤ hi) (hback : ∀ a, ofInt (toInt a) = a)
    (hlo : -0x8000000000000000 ≤ lo) (hhi : hi ≤ 0xFFFFFFFFFFFFFFFF) :
    (integer lo hi toInt ofInt).Exact := by
  intro a
  obtain ⟨hlower, hupper⟩ := hrange a
  constructor
  case settled => exact .int ⟨Int.le_trans hlo hlower, Int.le_trans hupper hhi⟩
  case read =>
    simp only [integer, if_pos (hrange a), hback]

theorem u8_exact : u8.Exact := by
  apply integer_exact _ _ (by decide) (by decide)
  · intro n
    have hn := n.toNat_lt
    omega
  · intro n
    exact UInt8.ofNat_toNat

theorem u16_exact : u16.Exact := by
  apply integer_exact _ _ (by decide) (by decide)
  · intro n
    have hn := n.toNat_lt
    omega
  · intro n
    exact UInt16.ofNat_toNat

theorem u32_exact : u32.Exact := by
  apply integer_exact _ _ (by decide) (by decide)
  · intro n
    have hn := n.toNat_lt
    omega
  · intro n
    exact UInt32.ofNat_toNat

theorem u64_exact : u64.Exact := by
  apply integer_exact _ _ (by decide) (by decide)
  · intro n
    have hn := n.toNat_lt
    omega
  · intro n
    exact UInt64.ofNat_toNat

theorem i8_exact : i8.Exact := by
  apply integer_exact _ _ (by decide) (by decide)
  · intro n
    exact ⟨n.le_toInt, Int.le_of_lt_add_one n.toInt_lt⟩
  · intro n
    exact Int8.ofInt_toInt n

theorem i32_exact : i32.Exact := by
  apply integer_exact _ _ (by decide) (by decide)
  · intro n
    exact ⟨n.le_toInt, Int.le_of_lt_add_one n.toInt_lt⟩
  · intro n
    exact Int32.ofInt_toInt n

theorem i64_exact : i64.Exact := by
  apply integer_exact _ _ (by decide) (by decide)
  · intro n
    exact ⟨n.le_toInt, Int.le_of_lt_add_one n.toInt_lt⟩
  · intro n
    exact Int64.ofInt_toInt n

theorem bool_exact : bool.Exact := fun b => ⟨.bool b, rfl⟩

/-- Flag words keep the bits that have no name. -/
theorem flags_exact {names : FlagNames} {toNat : α → Nat} {ofNat : Nat → α}
    (hnames : names.WellFormed) (hfits : ∀ a, toNat a < 1 <<< names.width)
    (hback : ∀ a, ofNat (toNat a) = a) : (flags names toNat ofNat).Exact := by
  intro a
  constructor
  case settled => exact .str _
  case read => simp only [flags, hnames.read?_write (hfits a), hback]

/-- Values without data, whose names differ. -/
theorem names_exact {name : α → String} {all : List α}
    (hall : ∀ a, all.find? (name · == name a) = some a) : (names name all).Exact := by
  intro a
  constructor
  case settled => exact .str _
  case read => simp only [names, readVariant, hall, unitData]

theorem optional_restores_none (c : Codec α) : c.optional.Restores none none := ⟨.null, rfl⟩

/-- A value that is there and is not written like one that is absent. -/
theorem optional_restores_some {c : Codec α} {a b : α} (h : c.Restores a b)
    (hnull : c.write a ≠ .null) : c.optional.Restores (some a) (some b) := by
  constructor
  case settled => exact h.settled
  case read =>
    calc c.optional.read (c.write a)
      _ = (c.read (c.write a)).map some := by
        cases hwritten : c.write a with
        | null => exact absurd hwritten hnull
        | _ => rfl
      _ = .ok (some b) := by
        rw [h.read]
        rfl

section Sequences
variable {c : Codec α}

/-- Elements are read back one by one. -/
theorem mapM_written (h : c.Exact) (elements : List α) :
    (elements.map c.write).mapM c.read = .ok elements := by
  induction elements with
  | nil => rfl
  | cons a rest ih =>
      rw [List.map_cons, List.mapM_cons, (h a).read, ih]
      rfl

theorem settled_items (h : c.Exact) (elements : List α) :
    (Json.arr (elements.map c.write) true).Settled := by
  apply Json.Settled.arr
  intro v hv
  obtain ⟨a, -, rfl⟩ := List.mem_map.mp hv
  exact (h a).settled

theorem readItems_eq {items : List Json} {elements : List α}
    (h : items.mapM c.read = .ok elements) : c.readItems (.arr items true) = .ok elements := by
  simp only [readItems, h, ok_bind, if_true, pure_eq_ok]

section Lists
variable [Inhabited α] {n : Nat} {items : List Json} {elements : List α}

/-- Elements that are not too many are taken over. -/
theorem list_read_eq_ofList (h : items.mapM c.read = .ok elements) (hfits : elements.length ≤ n) :
    (c.list n).read (.arr items true) = (BoundedList.ofList elements).mapError .gaveUp := by
  simp only [list, readItems_eq h, ok_bind, if_neg (Nat.not_lt.mpr hfits)]

/-- Elements that fit and can be counted are the elements of the list that is read. -/
theorem list_read_fitting (h : items.mapM c.read = .ok elements) (hfits : elements.length ≤ n)
    (hcursor : elements.length ≤ BoundedList.maxCursor) :
    ∃ l, (c.list n).read (.arr items true) = .ok l ∧ l.toList = elements := by
  obtain ⟨l, hl, helements⟩ := BoundedList.exists_ofList (n := n) hfits hcursor
  refine ⟨l, ?_, helements⟩
  rw [list_read_eq_ofList h hfits, hl]
  rfl

end Lists

/-- A list is read back with the same elements. What its unused slots held is lost. -/
theorem list_recovers [Inhabited α] [BEq α] [ReflBEq α] (h : c.Exact) (n : Nat) :
    (c.list n).Recovers := by
  intro l
  obtain ⟨l', hread, helements⟩ :=
    list_read_fitting (mapM_written h l.toList) l.length_le l.cursor_le
  have hused : l'.used = l.used := helements
  refine ⟨l', ⟨settled_items h l.toList, hread⟩, ?_⟩
  change (l'.used == l.used) = true
  rw [hused]
  exact beq_self_eq_true _

theorem vector_exact (h : c.Exact) (n : Nat) : (c.vector n).Exact := by
  intro xs
  constructor
  case settled => exact settled_items h xs.toList
  case read =>
    have hitems := readItems_eq (mapM_written h xs.toList)
    simp only [vector, hitems, ok_bind, Vector.length_toList, dif_pos]
    rfl

end Sequences

section Variants
variable {name : String} {read : String → Option Json → Except ReadError α}

theorem settled_variant {data : Json} (h : data.Settled) : (variant name data).Settled := by
  apply Json.Settled.obj
  intro m hm
  rw [List.mem_singleton.mp hm]
  exact h

theorem readVariant_variant (data : Json) :
    readVariant read (variant name data) = read name (some data) := by
  rw [variant, Json.ofMembers, readVariant.eq_def]
  simp only [List.map_cons, List.map_nil, List.isEmpty_nil, Bool.and_self, if_true]
  cases read name (some data) <;> rfl

/-- A variant is read back with the data that it carries. -/
theorem variant_restores {d : Codec β} {write : α → Json} {f : β → α} {a : α} {x y : β}
    (hwrite : write a = variant name (d.write x))
    (hread : read name (some (d.write x)) = (d.read (d.write x)).map f) (h : d.Restores x y) :
    (Codec.mk write (readVariant read)).Restores a (f y) := by
  constructor
  case settled =>
    change (write a).Settled
    rw [hwrite]
    exact settled_variant h.settled
  case read =>
    change readVariant read (write a) = .ok (f y)
    rw [hwrite, readVariant_variant, hread, h.read]
    rfl

end Variants

end Codec

end Disassembly
