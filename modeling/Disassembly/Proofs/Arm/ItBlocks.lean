import Disassembly.Proofs.Arm.BranchTarget
import Disassembly.Proofs.Arm.Operations

/-!
# Conditional blocks

The record of an `it` instruction, described as the architecture describes the block: the
condition of an instruction in the block is the first condition with its lowest bit replaced
by a bit of the mask, and the lowest one of the mask ends the block. The layout says for each
instruction whether it runs under the first condition or its inverse.
-/

namespace Disassembly.Arm

namespace ItBlock

/-- The zeros below the lowest one of a four-bit mask. -/
def trailingZeros (mask : Nat) : Nat := (BitVec.ofNat 4 mask).ctz.toNat

/-- The number of instructions in a block after the first one. -/
def followerCount (mask : Nat) : Nat := 3 - trailingZeros mask

theorem followerCount_le (mask : Nat) : followerCount mask ≤ 3 := Nat.sub_le _ _

/-- The condition code of an instruction that follows the first one: its lowest bit is from
the mask. -/
def followerCode (code mask k : Nat) : Nat := code / 2 * 2 + (mask.testBit (4 - k)).toNat

section Masks
variable {mask : Nat}

theorem testBit_of_lt_trailingZeros (hmask : mask < 2 ^ 4) {i : Nat}
    (hi : i < trailingZeros mask) : mask.testBit i = false := by
  have hbit := BitVec.getLsbD_false_of_lt_ctz hi
  rw [BitVec.getLsbD_ofNat, Bool.and_eq_false_iff] at hbit
  rcases hbit with hlarge | hbit
  · rw [decide_eq_false_iff_not, Nat.not_lt] at hlarge
    exact Nat.testBit_lt_two_pow
      (Nat.lt_of_lt_of_le hmask (Nat.pow_le_pow_right (by decide) hlarge))
  · exact hbit

theorem testBit_trailingZeros (hmask : mask < 2 ^ 4) (hne : mask ≠ 0) :
    trailingZeros mask < 4 ∧ mask.testBit (trailingZeros mask) = true := by
  have hword : BitVec.ofNat 4 mask ≠ 0 := by
    intro h
    have hnat := congrArg BitVec.toNat h
    rw [BitVec.toNat_ofNat, Nat.mod_eq_of_lt hmask] at hnat
    exact hne hnat
  have hbit := BitVec.getLsbD_true_ctz_of_ne_zero hword
  rw [BitVec.getLsbD_ofNat, Bool.and_eq_true, decide_eq_true_eq] at hbit
  exact hbit

/-- The mask has a bit for each follower, from the highest one on. -/
theorem followers_eq (hmask : mask < 2 ^ 4) :
    followers mask = (List.range (followerCount mask)).map fun i => mask.testBit (3 - i) := by
  have hall : ∀ m : Fin (2 ^ 4), followers m =
      (List.range (followerCount m)).map fun i => m.val.testBit (3 - i) := by decide
  exact hall ⟨mask, hmask⟩

end Masks

section Layouts
variable {mask : Nat}

/-- Digits that are read from the highest one on have the last one as the lowest bit. -/
theorem testBit_digits (bit : Bool) (bits : List Bool) (i : Nat) :
    (bits.foldl (fun n b => 2 * n + if b = bit then 0 else 1) 0).testBit i =
      bits.reverse[i]?.any (· != bit) := by
  rw [List.foldl_eq_foldr_reverse]
  induction bits.reverse generalizing i with
  | nil => simp
  | cons lowest rest ih =>
      rw [List.foldr_cons]
      cases i with
      | zero => by_cases hlowest : lowest = bit <;> simp [hlowest]
      | succ i =>
          rw [List.getElem?_cons_succ, ← ih, Nat.testBit_succ]
          congr 1
          split <;> omega

theorem layout_testBit_zero (bit : Bool) (mask : Nat) : (layout bit mask).testBit 0 = true := by
  simp only [layout, Nat.testBit_zero, decide_eq_true_eq]
  omega

/-- A bit of a layout is set for a follower under the inverse condition. -/
theorem layout_testBit_succ (bit : Bool) (hmask : mask < 2 ^ 4) (i : Nat) :
    (layout bit mask).testBit (i + 1) =
      (decide (i < followerCount mask) && mask.testBit (4 - followerCount mask + i) != bit) := by
  have hhalf (n : Nat) : (2 * n + 1) / 2 = n := by omega
  have hcount := followerCount_le mask
  -- Behind the one that ends it, a layout has the digits of the followers.
  rw [layout, Nat.testBit_succ, hhalf, testBit_digits, followers_eq hmask]
  by_cases hi : i < followerCount mask
  · have hplace : 3 - (followerCount mask - 1 - i) = 4 - followerCount mask + i := by omega
    rw [List.getElem?_reverse (by rwa [List.length_map, List.length_range]), List.length_map,
      List.length_range, List.getElem?_map, List.getElem?_range (by omega), Option.map_some,
      Option.any_some, hplace, decide_eq_true hi, Bool.true_and]
  · rw [List.getElem?_eq_none (by simpa using hi), decide_eq_false hi]
    rfl

theorem layout_lt (bit : Bool) (hmask : mask < 2 ^ 4) :
    layout bit mask < 2 ^ (followerCount mask + 1) := by
  apply Nat.lt_pow_two_of_testBit
  intro i hi
  obtain ⟨j, rfl⟩ := Nat.exists_eq_succ_of_ne_zero (show i ≠ 0 by omega)
  rw [layout_testBit_succ bit hmask, decide_eq_false (by omega), Bool.false_and]

/-- A nibble is known from where its lowest one is and from the bits above that. -/
theorem mask_ext {mask' : Nat} (hmask : mask < 2 ^ 4) (hmask' : mask' < 2 ^ 4)
    (hne : mask ≠ 0) (hne' : mask' ≠ 0) (hcount : followerCount mask = followerCount mask')
    (hbits : ∀ i < followerCount mask, mask.testBit (4 - followerCount mask + i) =
      mask'.testBit (4 - followerCount mask + i)) : mask = mask' := by
  obtain ⟨hlt, hone⟩ := testBit_trailingZeros hmask hne
  obtain ⟨hlt', hone'⟩ := testBit_trailingZeros hmask' hne'
  simp only [followerCount] at hcount hbits
  have hzeros : trailingZeros mask = trailingZeros mask' := by omega
  -- The bits below the lowest one, the lowest one, and those above it.
  apply Nat.eq_of_testBit_eq
  intro i
  rcases Nat.lt_trichotomy i (trailingZeros mask) with hbelow | rfl | habove
  · rw [testBit_of_lt_trailingZeros hmask hbelow,
      testBit_of_lt_trailingZeros hmask' (hzeros ▸ hbelow)]
  · rw [hone, hzeros, hone']
  · by_cases hi : i < 4
    · have hbit := hbits (i - (trailingZeros mask + 1)) (by omega)
      have hplace : 4 - (3 - trailingZeros mask) + (i - (trailingZeros mask + 1)) = i := by
        omega
      rwa [hplace] at hbit
    · have hpow : 2 ^ 4 ≤ 2 ^ i := Nat.pow_le_pow_right (by decide) (by omega)
      rw [Nat.testBit_lt_two_pow (by omega), Nat.testBit_lt_two_pow (by omega)]

end Layouts

/-- An `it` instruction with its raw condition and mask. -/
structure Begins (inst : RawInst) (code mask : Int64) : Prop where
  opcode : Opcode.ofWord? inst.opcode = some .tIt
  code : inst.operand 0 = .imm code
  mask : inst.operand 1 = .imm mask

/-- A raw condition and mask that make a block. -/
def Valid (code mask : Int64) : Prop := 0 ≤ code ∧ code ≤ 14 ∧ lowBits 4 mask ≠ 0

/-- The layout of a block with a raw condition and mask. -/
def rawLayout (code mask : Int64) : Nat :=
  layout (code.toUInt64.toNat.testBit 0) (lowBits 4 mask)

/-- The record of a block with a raw condition and mask. -/
def rawRecord (code mask : Int64) : Record where
  cc := Condition.ofCode? code.toInt.toNat
  itLayout := .ofNat (rawLayout code mask)

section Builds
variable {inst : RawInst} {code mask : Int64}

theorem readItLayout_eq_ok_iff (h : Begins inst code mask) {itLayout : UInt8} :
    readItLayout inst 1 = .ok itLayout ↔
      lowBits 4 mask ≠ 0 ∧ itLayout = .ofNat (rawLayout code mask) := by
  have hcode : readImm inst (1 - 1) = .ok code := readImm_eq_ok_iff.mpr h.code
  have hread : readItLayout inst 1 =
      if lowBits 4 mask = 0 then .error (.contract inst.opcode .itMaskZero)
      else .ok (.ofNat (rawLayout code mask)) := by
    rw [readItLayout, if_neg Nat.one_ne_zero, readImm_eq_ok_iff.mpr h.mask, ok_bind, hcode]
    rfl
  rw [hread]
  split
  next hzero => simp [hzero]
  next hne => simp [hne, eq_comm]

theorem readCondition_eq_ok_iff (h : Begins inst code mask) {cc : Option Condition} :
    readCondition inst .mandatory 0 = .ok cc ↔
      (0 ≤ code ∧ code ≤ 14) ∧ cc = Condition.ofCode? code.toInt.toNat := by
  have hrange : (PredicateKind.mandatory.decode? code).isSome ↔ 0 ≤ code ∧ code ≤ 14 :=
    isSome_decode?_iff .mandatory code
  have hdecode (h0 : 0 ≤ code) : PredicateKind.mandatory.decode? code =
      (Condition.ofCode? code.toInt.toNat).map some := by
    simp only [PredicateKind.decode?, reduceCtorEq, and_false, if_false, if_pos h0]
  rw [readCondition, readImm_eq_ok_iff.mpr h.code, ok_bind]
  cases hread : PredicateKind.mandatory.decode? code with
  | none =>
      rw [hread] at hrange
      constructor
      · intro hok
        cases hok
      · rintro ⟨hvalid, -⟩
        cases hrange.mpr hvalid
  | some read =>
      have hvalid := hrange.mp (by rw [hread]; rfl)
      have hcondition : read = Condition.ofCode? code.toInt.toNat := by
        rw [hdecode hvalid.1] at hread
        obtain ⟨c, hc, rfl⟩ := Option.map_eq_some_iff.mp hread
        exact hc.symm
      constructor
      · intro hok
        cases hok
        exact ⟨hvalid, hcondition⟩
      · rintro ⟨-, rfl⟩
        exact congrArg Except.ok hcondition

/-- The walk of an `it` instruction reads the layout and then the condition. -/
theorem buildOperands_it (ho : Opcode.ofWord? inst.opcode = some .tIt) (start : Record)
    (features : Features) :
    buildOperands inst start features = readItLayout inst 1 >>= fun itLayout =>
      readCondition inst .mandatory 0 >>= fun cc => .ok { start with itLayout, cc } := by
  have hwalk : walk inst.opcode = [.classify .itMask 1, .classify (.predicate .mandatory) 0] := by
    rw [walk, ho]
    rfl
  simp only [buildOperands, hwalk, Builder.run_cons, Builder.run_nil, Builder.step,
    Builder.classify, Builder.classifyGroup, Builder.setItLayout_eq, Builder.setCondition_eq,
    bind_assoc, ok_bind]
  rfl

theorem buildOperands_eq_ok_iff (h : Begins inst code mask) {features : Features} {r : Record} :
    buildOperands inst {} features = .ok r ↔ Valid code mask ∧ r = rawRecord code mask := by
  rw [buildOperands_it h.opcode]
  constructor
  · intro hok
    obtain ⟨itLayout, hlayout, hok⟩ := bind_eq_ok_iff.mp hok
    obtain ⟨cc, hcc, hok⟩ := bind_eq_ok_iff.mp hok
    obtain ⟨hmask, rfl⟩ := (readItLayout_eq_ok_iff h).mp hlayout
    obtain ⟨⟨h0, h14⟩, rfl⟩ := (readCondition_eq_ok_iff h).mp hcc
    cases hok
    exact ⟨⟨h0, h14, hmask⟩, rfl⟩
  · rintro ⟨⟨h0, h14, hmask⟩, rfl⟩
    rw [(readItLayout_eq_ok_iff h).mpr ⟨hmask, rfl⟩, ok_bind,
      (readCondition_eq_ok_iff h).mpr ⟨⟨h0, h14⟩, rfl⟩]
    rfl

/-- The build of an `it` instruction gives the record of its block if it has one. -/
theorem build_begins (h : Begins inst code mask) (d : Detail) (features : Features) :
    ((∃ name d', build inst d features = .ok (some name, d')) ↔ Valid code mask) ∧
    ∀ name d', build inst d features = .ok (name, d') → Valid code mask ∧
      d'.arm? = some (rawRecord code mask) := by
  obtain ⟨finish, hfinish, hbuild⟩ := build_eq_operands h.opcode rfl d features
  have hrecord (name : Option Mnemonic) (d' : Detail)
      (hok : build inst d features = .ok (name, d')) :
      Valid code mask ∧ d'.arm? = some (rawRecord code mask) := by
    rw [hbuild] at hok
    obtain ⟨r, hr, hok⟩ := bind_eq_ok_iff.mp hok
    obtain ⟨hvalid, rfl⟩ := (buildOperands_eq_ok_iff h).mp hr
    cases hok
    exact ⟨hvalid, hfinish _⟩
  refine ⟨⟨fun ⟨name, d', hok⟩ => (hrecord _ _ hok).1, fun hvalid => ?_⟩, hrecord⟩
  have hoperands : buildOperands inst {} features = .ok (rawRecord code mask) :=
    (buildOperands_eq_ok_iff h).mpr ⟨hvalid, rfl⟩
  exact ⟨_, _, hbuild.trans (congrArg (· >>= _) hoperands)⟩

end Builds

section Descriptions
variable {code mask : Int64}

theorem toNat_eq_of_valid (h : Valid code mask) :
    code.toUInt64.toNat = code.toInt.toNat ∧ code.toInt.toNat ≤ 14 := by
  have h0 := Int64.le_iff_toInt_le.mp h.1
  have h14 := Int64.le_iff_toInt_le.mp h.2.1
  have hbits := toInt_eq_or code
  have hlt := code.toUInt64.toNat_lt
  simp only [Int64.reduceToInt] at h0 h14
  omega

theorem rawRecord_itLayout (code mask : Int64) :
    (rawRecord code mask).itLayout.toNat = rawLayout code mask := by
  have hlt := layout_lt (code.toUInt64.toNat.testBit 0) (lowBits_lt 4 mask)
  have hcount := followerCount_le (lowBits 4 mask)
  have hpow : 2 ^ (followerCount (lowBits 4 mask) + 1) ≤ 2 ^ 4 :=
    Nat.pow_le_pow_right (by decide) (by omega)
  exact UInt8.toNat_ofNat_of_lt (by rw [UInt8.size]; exact Nat.lt_of_lt_of_le hlt (by omega))

/-- A follower runs under the first condition if the lowest bit stays as it is. -/
theorem followerCode_eq_iff (code mask k : Nat) :
    followerCode code mask k = code ↔ mask.testBit (4 - k) = code.testBit 0 := by
  rw [followerCode, Nat.testBit_zero]
  cases mask.testBit (4 - k) <;> simp <;> omega

/-- The record of a block with a condition code and a mask. -/
structure Describes (code mask : Nat) (r : Record) : Prop where
  condition : ∃ c, r.cc = some c ∧ c.code = code
  operands : r.operands.toList = []
  ends : r.itLayout.toNat % 2 = 1
  length : r.itLayout.toNat < 2 ^ (followerCount mask + 1)
  followers : ∀ k, 1 ≤ k → k ≤ followerCount mask →
    (r.itLayout.toNat.testBit (followerCount mask + 1 - k) = false ↔
      followerCode code mask k = code)

/-- The bits of the followers tell the masks of one length apart. -/
theorem rawLayout_injective {mask' : Int64} (h : lowBits 4 mask ≠ 0) (h' : lowBits 4 mask' ≠ 0)
    (hcount : followerCount (lowBits 4 mask) = followerCount (lowBits 4 mask'))
    (hlayout : rawLayout code mask = rawLayout code mask') : lowBits 4 mask = lowBits 4 mask' := by
  apply mask_ext (lowBits_lt 4 mask) (lowBits_lt 4 mask') h h' hcount
  intro i hi
  have hbit := congrArg (·.testBit (i + 1)) hlayout
  simp only [rawLayout, layout_testBit_succ _ (lowBits_lt 4 _), ← hcount, decide_eq_true hi,
    Bool.true_and] at hbit
  exact Bool.bne_left_inj.mp hbit

/-- The inverse condition changes the bit of each follower. -/
theorem rawLayout_inverse (code mask : Int64) (i : Nat) :
    (rawLayout code mask).testBit i ≠ (rawLayout (code ^^^ 1) mask).testBit i ↔
      1 ≤ i ∧ i ≤ followerCount (lowBits 4 mask) := by
  have hflip : (code ^^^ 1).toUInt64.toNat.testBit 0 = !code.toUInt64.toNat.testBit 0 := by
    rw [Int64.toUInt64_xor, UInt64.toNat_xor, Nat.testBit_xor]
    exact Bool.xor_true _
  cases i with
  | zero =>
      simp only [rawLayout, layout_testBit_zero]
      exact iff_of_false (not_not_intro rfl) (by omega)
  | succ i =>
      have hdiffer : ∀ follower bit : Bool, (follower != bit) ≠ (follower != !bit) := by decide
      simp only [rawLayout, layout_testBit_succ _ (lowBits_lt 4 mask), hflip]
      by_cases hi : i < followerCount (lowBits 4 mask)
      · simp only [decide_eq_true hi, Bool.true_and]
        exact iff_of_true (hdiffer _ _) (by omega)
      · simp only [decide_eq_false hi, Bool.false_and]
        exact iff_of_false (fun h => h rfl) (by omega)

theorem exists_code : ∀ code : Fin 15, ∃ c, Condition.ofCode? code = some c ∧ c.code = code := by
  decide

/-- The record that is built describes its block. -/
theorem rawRecord_describes (h : Valid code mask) :
    Describes code.toInt.toNat (lowBits 4 mask) (rawRecord code mask) where
  condition := exists_code ⟨code.toInt.toNat, Nat.lt_succ_of_le (toNat_eq_of_valid h).2⟩
  operands := rfl
  ends := by
    have hbit := layout_testBit_zero (code.toUInt64.toNat.testBit 0) (lowBits 4 mask)
    rw [Nat.testBit_zero, decide_eq_true_eq] at hbit
    rwa [rawRecord_itLayout]
  length := by
    rw [rawRecord_itLayout]
    exact layout_lt _ (lowBits_lt 4 mask)
  followers := by
    intro k hk hcount
    -- The bit of follower `k` in the layout and its bit in the mask.
    have hthree := followerCount_le (lowBits 4 mask)
    have hnext : followerCount (lowBits 4 mask) + 1 - k =
        followerCount (lowBits 4 mask) - k + 1 := by omega
    have hplace : 4 - followerCount (lowBits 4 mask) + (followerCount (lowBits 4 mask) - k) =
        4 - k := by omega
    rw [rawRecord_itLayout, rawLayout, hnext, layout_testBit_succ _ (lowBits_lt 4 mask), hplace,
      decide_eq_true (by omega), Bool.true_and, followerCode_eq_iff,
      ← (toNat_eq_of_valid h).1]
    exact bne_eq_false_iff_eq

/-- A raw condition and mask of which some build makes a record. -/
def Builds (code mask : Int64) (r : Record) : Prop :=
  ∃ inst d features name d', Begins inst code mask ∧
    build inst d features = .ok (name, d') ∧ d'.arm? = some r

theorem Builds.eq_rawRecord {r : Record} (h : Builds code mask r) :
    Valid code mask ∧ r = rawRecord code mask := by
  obtain ⟨inst, d, features, name, d', hbegins, hok, hr⟩ := h
  obtain ⟨hvalid, hrecord⟩ := (build_begins hbegins d features).2 name d' hok
  exact ⟨hvalid, Option.some.inj (hr.symm.trans hrecord)⟩

/-- An `it` instruction is built exactly if its condition code is that of a condition and the
low nibble of its mask is not zero. The record then has the condition and no operands, and its
layout describes the block. For a condition and a number of instructions the layout tells the
masks apart, and the layouts of a condition and its inverse differ in the bits of the
instructions after the first one. -/
theorem build_describes_block :
    (∀ inst code mask d features, Begins inst code mask →
      ((∃ name d', build inst d features = .ok (some name, d')) ↔
        0 ≤ code ∧ code ≤ 14 ∧ lowBits 4 mask ≠ 0) ∧
      ∀ name d', build inst d features = .ok (name, d') → ∃ r, d'.arm? = some r) ∧
    (∀ code mask r, Builds code mask r → Describes code.toInt.toNat (lowBits 4 mask) r) ∧
    (∀ code mask mask' r r', Builds code mask r → Builds code mask' r' →
      followerCount (lowBits 4 mask) = followerCount (lowBits 4 mask') →
      r.itLayout = r'.itLayout → lowBits 4 mask = lowBits 4 mask') ∧
    (∀ code mask r r', Builds code mask r → Builds (code ^^^ 1) mask r' → ∀ i,
      (r.itLayout.toNat.testBit i ≠ r'.itLayout.toNat.testBit i ↔
        1 ≤ i ∧ i ≤ followerCount (lowBits 4 mask))) := by
  refine ⟨?_, ?_, ?_, ?_⟩
  · intro inst code mask d features hbegins
    obtain ⟨hsome, hrecord⟩ := build_begins hbegins d features
    exact ⟨hsome, fun name d' hok => ⟨_, (hrecord name d' hok).2⟩⟩
  · intro code mask r hbuilds
    obtain ⟨hvalid, rfl⟩ := hbuilds.eq_rawRecord
    exact rawRecord_describes hvalid
  · intro code mask mask' r r' hbuilds hbuilds' hcount hlayout
    obtain ⟨hvalid, rfl⟩ := hbuilds.eq_rawRecord
    obtain ⟨hvalid', rfl⟩ := hbuilds'.eq_rawRecord
    have hlayout := congrArg UInt8.toNat hlayout
    rw [rawRecord_itLayout, rawRecord_itLayout] at hlayout
    exact rawLayout_injective hvalid.2.2 hvalid'.2.2 hcount hlayout
  · intro code mask r r' hbuilds hbuilds' i
    obtain ⟨-, rfl⟩ := hbuilds.eq_rawRecord
    obtain ⟨-, rfl⟩ := hbuilds'.eq_rawRecord
    rw [rawRecord_itLayout, rawRecord_itLayout]
    exact rawLayout_inverse code mask i

end Descriptions

/-- An `it` instruction without more operands than it needs. -/
def blockInst (code mask : Int64) : RawInst where
  opcode := Opcode.tIt.word
  operands := ⟨[.imm code, .imm mask], List.replicate 46 .invalid, rfl, by
    simp [BoundedList.maxCursor]⟩
  address := 0x1000
  mode := .thumb

/-- The masks 10 and 26 both mean three instructions under `eq`, `ne` and `eq` again. -/
theorem build_describes_block_three :
    (∃ name d', build (blockInst 0 10) .arm .all = .ok (some name, d')) ∧
    Describes 0 10 (rawRecord 0 10) ∧
    (rawRecord 0 10).itLayout = (rawRecord 0 26).itLayout ∧ lowBits 4 10 = lowBits 4 26 ∧
    ∀ i, ((rawRecord 0 10).itLayout.toNat.testBit i ≠ (rawRecord 1 10).itLayout.toNat.testBit i ↔
      1 ≤ i ∧ i ≤ 2) := by
  obtain ⟨hsome, hdescribes, hinjective, hinverse⟩ := build_describes_block
  have hfirst : Builds 0 10 (rawRecord 0 10) :=
    ⟨blockInst 0 10, .arm, .all, _, _, ⟨rfl, rfl, rfl⟩, rfl, rfl⟩
  have hsecond : Builds 0 26 (rawRecord 0 26) :=
    ⟨blockInst 0 26, .arm, .all, _, _, ⟨rfl, rfl, rfl⟩, rfl, rfl⟩
  have hinverted : Builds (0 ^^^ 1) 10 (rawRecord 1 10) :=
    ⟨blockInst 1 10, .arm, .all, _, _, ⟨rfl, rfl, rfl⟩, rfl, rfl⟩
  exact ⟨(hsome (blockInst 0 10) 0 10 .arm .all ⟨rfl, rfl, rfl⟩).1.mpr (by decide),
    hdescribes 0 10 _ hfirst, rfl, hinjective 0 10 26 _ _ hfirst hsecond rfl rfl,
    hinverse 0 10 _ _ hfirst hinverted⟩

end ItBlock

end Disassembly.Arm
