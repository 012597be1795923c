import Mathlib.Data.List.Basic
import Disassembly.X86.Line

/-!
# Operand queries of an x86 record

The operands of a record can be counted and looked up by kind. The look-up inverts the
count: an operand is number `nth` of its kind exactly when `nth - 1` operands of that kind
stand before it. So the immediates that a line shows are those of the operands, in order.
-/

namespace Disassembly.X86

section Lists
variable {α : Type} {p : α → Bool} {l : List α}

theorem map_filter_zipIdx (p : α → Bool) (l : List α) (start : Nat) :
    ((l.zipIdx start).filter fun a => p a.1).map (·.2) = l.findIdxs p start := by
  induction l generalizing start with
  | nil => rfl
  | cons a rest ih =>
      rw [List.zipIdx_cons, List.filter_cons, List.findIdxs_cons, ← ih]
      split <;> rfl

theorem eq_take_append_cons {i : Nat} {a : α} (h : l[i]? = some a) :
    l = l.take i ++ a :: l.drop (i + 1) := by
  obtain ⟨hi, hget⟩ := List.getElem?_eq_some_iff.mp h
  rw [← hget, ← List.drop_eq_getElem_cons hi, List.take_append_drop]

/-- The positions in a list are those before an element, its own and those after it. -/
theorem findIdxs_eq_append {i : Nat} {a : α} (h : l[i]? = some a) (ha : p a) :
    l.findIdxs p = (l.take i).findIdxs p ++ i :: (l.drop (i + 1)).findIdxs p (i + 1) := by
  obtain ⟨hi, -⟩ := List.getElem?_eq_some_iff.mp h
  have hlength : (l.take i).length = i := List.length_take_of_le (Nat.le_of_lt hi)
  conv_lhs => rw [eq_take_append_cons h]
  rw [List.findIdxs_append, List.findIdxs_cons, if_pos ha, hlength, Nat.zero_add]

/-- A position is number `k` of the positions when `k` of them come before it. -/
theorem getElem?_findIdxs_eq_some_iff {k i : Nat} :
    (l.findIdxs p)[k]? = some i ↔
      (∃ a, l[i]? = some a ∧ p a) ∧ (l.take i).countP p = k := by
  have hplace {a : α} (h : l[i]? = some a) (ha : p a) :
      (l.findIdxs p)[(l.take i).countP p]? = some i := by
    rw [findIdxs_eq_append h ha, ← List.length_findIdxs,
      List.getElem?_append_right (Nat.le_refl _), Nat.sub_self]
    rfl
  constructor
  · intro hk
    obtain ⟨hi, hp⟩ := List.mem_findIdxs_iff_exists_getElem_pos.mp (List.mem_of_getElem? hk)
    have hcount := hplace (List.getElem?_eq_getElem hi) hp
    obtain ⟨hlt, -⟩ := List.getElem?_eq_some_iff.mp hcount
    exact ⟨⟨l[i], List.getElem?_eq_getElem hi, hp⟩,
      (List.getElem?_inj hlt List.nodup_findIdxs).mp (hcount.trans hk.symm)⟩
  · rintro ⟨⟨a, h, ha⟩, rfl⟩
    exact hplace h ha

/-- The kinds of the operands partition them. -/
theorem countP_kinds (ops : List Operand) :
    ops.countP (·.value.kind = .invalid) + ops.countP (·.value.kind = .reg) +
      ops.countP (·.value.kind = .imm) + ops.countP (·.value.kind = .mem) = ops.length := by
  induction ops with
  | nil => rfl
  | cons op rest ih =>
      simp only [List.countP_cons, List.length_cons]
      cases op.value.kind <;> simp <;> omega

end Lists

/-- The payload of an immediate. -/
def OperandValue.imm? : OperandValue → Option Int64
  | .imm value => some value
  | _ => none

namespace Record

variable {r : Record} {kind : OperandKind} {nth nth' i j : Nat}

theorem positions_eq (r : Record) (kind : OperandKind) :
    r.positions kind = r.operands.toList.findIdxs (·.value.kind = kind) :=
  map_filter_zipIdx (fun op : Operand => op.value.kind = kind) r.operands.toList 0

theorem length_positions (r : Record) (kind : OperandKind) :
    (r.positions kind).length = r.count kind := by
  rw [positions_eq, List.length_findIdxs, count]

theorem index?_succ (r : Record) (kind : OperandKind) (k : Nat) :
    r.index? kind (k + 1) = (r.positions kind)[k]? := rfl

/-- The operand that is number `nth` of its kind is one of that kind, and exactly
`nth - 1` of them come before it. -/
theorem index?_eq_some (r : Record) (kind : OperandKind) (nth i : Nat) :
    r.index? kind nth = some i ↔
      1 ≤ nth ∧ nth ≤ r.count kind ∧
        (∃ op, r.operands.get? i = some op ∧ op.value.kind = kind) ∧
        (r.operands.toList.take i).countP (·.value.kind = kind) = nth - 1 := by
  cases nth with
  | zero => exact ⟨nofun, fun h => absurd h.1 (Nat.not_succ_le_zero 0)⟩
  | succ k =>
      have hlookup : r.index? kind (k + 1) = some i ↔
          (∃ op, r.operands.get? i = some op ∧ op.value.kind = kind) ∧
            (r.operands.toList.take i).countP (·.value.kind = kind) = k := by
        rw [index?_succ, positions_eq, getElem?_findIdxs_eq_some_iff]
        simp only [decide_eq_true_eq]
        rfl
      rw [hlookup, Nat.add_sub_cancel]
      refine ⟨fun h => ⟨Nat.le_add_left 1 k, ?_, h⟩, fun h => h.2.2⟩
      obtain ⟨hk, -⟩ := List.getElem?_eq_some_iff.mp (hlookup.mpr h)
      rw [length_positions] at hk
      exact hk

/-- Every number up to the count is found. -/
theorem exists_index? (hpos : 1 ≤ nth) (hle : nth ≤ r.count kind) :
    ∃ i, r.index? kind nth = some i := by
  obtain ⟨k, rfl⟩ := Nat.exists_eq_add_of_le' hpos
  rw [← length_positions] at hle
  exact ⟨_, List.getElem?_eq_getElem hle⟩

/-- A later number stands for a later operand. -/
theorem index?_lt (h : r.index? kind nth = some i) (h' : r.index? kind nth' = some j)
    (hlt : nth < nth') : i < j := by
  cases nth with
  | zero => cases h
  | succ k =>
      obtain ⟨k', rfl⟩ := Nat.exists_eq_add_of_le' (Nat.one_le_of_lt hlt)
      rw [index?_succ, positions_eq] at h h'
      obtain ⟨hk, rfl⟩ := List.getElem?_eq_some_iff.mp h
      obtain ⟨hk', rfl⟩ := List.getElem?_eq_some_iff.mp h'
      exact List.pairwise_iff_getElem.mp List.pairwise_findIdxs k k' hk hk'
        (Nat.lt_of_succ_lt_succ hlt)

/-- The counts of the kinds add up to the number of operands. -/
theorem count_sum (r : Record) :
    r.count .invalid + r.count .reg + r.count .imm + r.count .mem = r.operands.length :=
  countP_kinds r.operands.toList

/-- The payloads of the immediates, in order. -/
def immediates (r : Record) : List Int64 := r.operands.toList.filterMap (·.value.imm?)

/-- The immediate that is looked up is the payload of an operand. -/
theorem immediate_of_index? (h : r.index? .imm nth = some i) :
    ∃ op, r.operands.get? i = some op ∧ op.value = .imm (r.immediate nth) := by
  obtain ⟨-, -, ⟨op, hop, hkind⟩, -⟩ := (r.index?_eq_some .imm nth i).mp h
  refine ⟨op, hop, ?_⟩
  rw [immediate, h, Option.bind_some, hop]
  obtain ⟨value, size, access, broadcast, zeroMask⟩ := op
  cases value with
  | imm value => rfl
  | invalid | reg r | mem m => cases hkind

theorem isSome_imm? (value : OperandValue) : value.imm?.isSome = decide (value.kind = .imm) := by
  cases value <;> rfl

theorem length_immediates (r : Record) : r.immediates.length = r.count .imm := by
  rw [immediates, List.length_filterMap_eq_countP, count]
  simp only [isSome_imm?]

/-- An immediate has its number among the immediates. -/
theorem getElem?_immediates (h : r.index? .imm nth = some i) :
    r.immediates[nth - 1]? = some (r.immediate nth) := by
  obtain ⟨op, hop, hvalue⟩ := immediate_of_index? h
  obtain ⟨-, -, -, hcount⟩ := (r.index?_eq_some .imm nth i).mp h
  have hsplit : r.operands.toList = _ := eq_take_append_cons hop
  have hbefore : ((r.operands.toList.take i).filterMap (·.value.imm?)).length = nth - 1 := by
    rw [List.length_filterMap_eq_countP, ← hcount]
    simp only [isSome_imm?]
  have himm : op.value.imm? = some (r.immediate nth) := by
    rw [hvalue]
    rfl
  change (r.operands.toList.filterMap (·.value.imm?))[nth - 1]? = _
  rw [hsplit, List.filterMap_append, List.filterMap_cons, himm, ← hbefore,
    List.getElem?_append_right (Nat.le_refl _), Nat.sub_self]
  rfl

/-- A line shows how many immediates there are, if any, and then each of them. -/
theorem immediateFields_eq (r : Record) :
    r.immediateFields =
      if r.immediates = [] then []
      else .immediateCount r.immediates.length ::
        r.immediates.mapIdx fun k value => .immediate (k + 1) value := by
  have hlist : (List.range' 1 (r.count .imm)).map (fun nth => .immediate nth (r.immediate nth)) =
      r.immediates.mapIdx fun k value => LineField.immediate (k + 1) value := by
    apply List.ext_getElem
    · rw [List.length_map, List.length_range', List.length_mapIdx, length_immediates]
    · intro k hk _
      rw [List.length_map, List.length_range'] at hk
      obtain ⟨i, hi⟩ := exists_index? (Nat.le_add_left 1 k) hk
      obtain ⟨_, hvalue⟩ := List.getElem?_eq_some_iff.mp (getElem?_immediates hi)
      rw [List.getElem_map, List.getElem_range', List.getElem_mapIdx]
      simp only [Nat.one_mul, Nat.add_comm 1 k]
      exact congrArg _ hvalue.symm
  rw [immediateFields, hlist]
  simp only [← length_immediates, List.length_eq_zero_iff]

/-- An immediate is the payload of the operand that is looked up under its number. -/
theorem operand_of_immediates {k : Nat} {value : Int64} (h : r.immediates[k]? = some value) :
    ∃ i op, r.index? .imm (k + 1) = some i ∧ r.operands.get? i = some op ∧
      op.value = .imm value := by
  obtain ⟨hk, -⟩ := List.getElem?_eq_some_iff.mp h
  rw [length_immediates] at hk
  obtain ⟨i, hi⟩ := exists_index? (Nat.le_add_left 1 k) hk
  obtain ⟨op, hop, hvalue⟩ := immediate_of_index? hi
  have hlookup := getElem?_immediates hi
  rw [Nat.add_sub_cancel, h] at hlookup
  exact ⟨i, op, hi, hop, hvalue.trans (congrArg _ (Option.some.inj hlookup).symm)⟩

end Record

end Disassembly.X86
