import Mathlib.Data.List.Pairwise
import Disassembly.Arm.Group
import Disassembly.Arm.Register
import Disassembly.Arm.SystemRegister
import Disassembly.Proofs.Numeral

/-!
# Labels tell their subjects apart

Registers, system registers and groups that have a name are written by it, and all others by
a stem and their number. No two of them have the same label, and every label is one word.
-/

namespace Disassembly.Arm

/-- Names that no two things share and that do not begin like the stem of a number. -/
structure Naming {ι : Type} (name? : ι → Option String) (stem : String) : Prop where
  injective : ∀ {a b s}, name? a = some s → name? b = some s → a = b
  word : ∀ {a s}, name? a = some s → IsWord s
  fresh : ∀ {a s}, name? a = some s → ¬ stem.toList <+: s.toList
  stem_word : IsWord stem

namespace Naming

variable {ι : Type} {name? other? : ι → Option String} {stem : String}

/-- Finitely many names are checked one by one. -/
theorem of_named (named : List ι) (hcomplete : ∀ a s, name? a = some s → a ∈ named)
    (hdistinct : (named.filterMap name?).Nodup)
    (hnames : ∀ s ∈ named.filterMap name?, IsWord s ∧ ¬ stem.toList <+: s.toList)
    (hstem : IsWord stem) : Naming name? stem := by
  have hmem {a : ι} {s : String} (ha : name? a = some s) : s ∈ named.filterMap name? :=
    List.mem_filterMap.mpr ⟨a, hcomplete a s ha, ha⟩
  constructor
  · intro a b s ha hb
    by_contra hne
    have : Std.Symm fun a b => ∀ s, name? a = some s → ∀ t, name? b = some t → s ≠ t :=
      ⟨fun a b hab s hs t ht => (hab t ht s hs).symm⟩
    have hpairs := List.pairwise_filterMap.mp hdistinct
    exact hpairs.forall (hcomplete a s ha) (hcomplete b s hb) hne s ha s hb rfl
  · exact fun ha => (hnames _ (hmem ha)).1
  · exact fun ha => (hnames _ (hmem ha)).2
  · exact hstem

/-- Names that take the place of others must be none of those. -/
theorem or (hname : Naming name? stem) (hother : Naming other? stem)
    (hapart : ∀ a b s, name? a = some s → other? b ≠ some s) :
    Naming (fun a => (name? a).or (other? a)) stem := by
  constructor
  · intro a b s ha hb
    rcases Option.or_eq_some_iff.mp ha with ha | ⟨-, ha⟩
    · rcases Option.or_eq_some_iff.mp hb with hb | ⟨-, hb⟩
      · exact hname.injective ha hb
      · exact absurd hb (hapart a b s ha)
    · rcases Option.or_eq_some_iff.mp hb with hb | ⟨-, hb⟩
      · exact absurd ha (hapart b a s hb)
      · exact hother.injective ha hb
  · intro a s ha
    rcases Option.or_eq_some_iff.mp ha with ha | ⟨-, ha⟩
    · exact hname.word ha
    · exact hother.word ha
  · intro a s ha
    rcases Option.or_eq_some_iff.mp ha with ha | ⟨-, ha⟩
    · exact hname.fresh ha
    · exact hother.fresh ha
  · exact hname.stem_word

/-- Things with different numbers have different labels. -/
theorem label_injective (h : Naming name? stem) {number : ι → Nat}
    (hnumber : ∀ a b, number a = number b → a = b) {a b : ι}
    (hlabel : (name? a).getD (stem ++ Numeral.decimal (number a)) =
      (name? b).getD (stem ++ Numeral.decimal (number b))) : a = b := by
  have hfresh {c : ι} {s : String} {n : Nat} (hs : name? c = some s) :
      s ≠ stem ++ Numeral.decimal n := by
    rintro rfl
    apply h.fresh hs
    rw [String.toList_append]
    exact List.prefix_append _ _
  cases ha : name? a with
  | some s =>
      cases hb : name? b with
      | some t =>
          rw [ha, hb] at hlabel
          cases hlabel
          exact h.injective ha hb
      | none =>
          rw [ha, hb] at hlabel
          exact absurd hlabel (hfresh ha)
  | none =>
      cases hb : name? b with
      | some t =>
          rw [ha, hb] at hlabel
          exact absurd hlabel.symm (hfresh hb)
      | none =>
          rw [ha, hb] at hlabel
          have hlists := congrArg String.toList hlabel
          simp only [Option.getD_none, String.toList_append, List.append_cancel_left_eq,
            String.toList_inj] at hlists
          exact hnumber a b (Numeral.decimal_injective hlists)

theorem isWord_label (h : Naming name? stem) (a : ι) (n : Nat) :
    IsWord ((name? a).getD (stem ++ Numeral.decimal n)) := by
  cases ha : name? a with
  | some s => exact h.word ha
  | none => exact .append h.stem_word (Numeral.isWord_decimal n)

end Naming

namespace Register

/-- The numbers of the registers that have a conventional name, and zero. -/
def named : List Register := (List.range 112).map fun n => ⟨.ofNat n⟩

theorem filterMap_named : named.filterMap conventionalName? = names := by
  decide +kernel

theorem mem_names {r : Register} {s : String} (h : r.conventionalName? = some s) :
    s ∈ names := by
  rw [conventionalName?] at h
  split at h
  · cases h
  · exact List.mem_of_getElem? h

theorem naming_conventional : Naming conventionalName? "reg" := by
  apply Naming.of_named named
  · intro r s hs
    rw [conventionalName?] at hs
    split at hs
    · cases hs
    · obtain ⟨hlt, -⟩ := List.getElem?_eq_some_iff.mp hs
      have hlength : names.length = 111 := rfl
      exact List.mem_map.mpr
        ⟨r.id.toNat, List.mem_range.mpr (by omega), by rw [UInt16.ofNat_toNat]⟩
  · rw [filterMap_named]
    decide +kernel
  · rw [filterMap_named]
    decide +kernel
  · decide

theorem naming_numeric : Naming numericName? "reg" := by
  apply Naming.of_named [sp, lr, pc]
  · intro r s hs
    by_contra hr
    simp only [List.mem_cons, List.not_mem_nil, or_false, not_or] at hr
    simp [numericName?, hr] at hs
  · decide
  · decide
  · decide

theorem naming (spelling : RegSpelling) : Naming (fun r : Register => r.name? spelling) "reg" := by
  cases spelling with
  | conventional => exact naming_conventional
  | numeric =>
      apply naming_numeric.or naming_conventional
      intro a b s ha hb
      have hs := mem_names hb
      have hnumbers : "r13" ∉ names ∧ "r14" ∉ names ∧ "r15" ∉ names := by decide +kernel
      simp only [numericName?] at ha
      grind

theorem label_injective {spelling : RegSpelling} {r r' : Register}
    (h : r.label spelling = r'.label spelling) : r = r' := by
  have hnumber (a b : Register) (hid : a.id.toNat = b.id.toNat) : a = b :=
    congrArg mk (UInt16.toNat_inj.mp hid)
  exact (naming spelling).label_injective hnumber h

@[simp] theorem label_inj {spelling : RegSpelling} {r r' : Register} :
    r.label spelling = r'.label spelling ↔ r = r' :=
  ⟨label_injective, fun h => h ▸ rfl⟩

theorem isWord_label (r : Register) (spelling : RegSpelling) : IsWord (r.label spelling) :=
  (naming spelling).isWord_label r r.id.toNat

end Register

namespace SystemRegister

/-- The system registers that have a name, and some that have none. -/
def named : List SystemRegister := (List.range 293).map fun n => ⟨.ofNat n⟩

theorem naming : Naming name? "sysreg" := by
  apply Naming.of_named named
  · intro r s hs
    have hlt : r.id.toNat < 293 := by
      simp only [name?] at hs
      split at hs
      next => cases hs
      next =>
          split at hs
          next hsaved => omega
          next =>
              split at hs
              next hcurrent => omega
              next =>
                  obtain ⟨hlt, -⟩ := List.getElem?_eq_some_iff.mp hs
                  have hlength : names.length = 37 := rfl
                  omega
    exact List.mem_map.mpr ⟨r.id.toNat, List.mem_range.mpr hlt, by rw [UInt16.ofNat_toNat]⟩
  · decide +kernel
  · decide +kernel
  · decide

theorem label_injective {r r' : SystemRegister} (h : r.label = r'.label) : r = r' := by
  have hnumber (a b : SystemRegister) (hid : a.id.toNat = b.id.toNat) : a = b :=
    congrArg mk (UInt16.toNat_inj.mp hid)
  exact naming.label_injective hnumber h

@[simp] theorem label_inj {r r' : SystemRegister} : r.label = r'.label ↔ r = r' :=
  ⟨label_injective, congrArg label⟩

theorem isWord_label (r : SystemRegister) : IsWord r.label :=
  naming.isWord_label r r.id.toNat

end SystemRegister

namespace Group

/-- The name of the group with a number. -/
def name? (id : UInt8) : Option String := (ofId? id).map name

theorem naming : Naming name? "group" := by
  apply Naming.of_named (all.map (·.id))
  · intro id s hs
    obtain ⟨g, hg, -⟩ := Option.map_eq_some_iff.mp hs
    have hid := List.find?_some hg
    exact List.mem_map.mpr ⟨g, List.mem_of_find?_eq_some hg, beq_iff_eq.mp hid⟩
  · decide +kernel
  · decide +kernel
  · decide

theorem label_injective {id id' : UInt8} (h : label id = label id') : id = id' :=
  naming.label_injective (fun _ _ hid => UInt8.toNat_inj.mp hid) h

theorem isWord_label (id : UInt8) : IsWord (label id) := naming.isWord_label id id.toNat

end Group

end Disassembly.Arm
