import Mathlib.Data.List.Nodup
import Disassembly.Proofs.Codec.Basic

/-!
# Records are read back

A record is written with one member for each name. The members stand at the places of their
names, so each part is found under its name, and the record is read from its parts.
-/

namespace Disassembly

namespace Reading

variable {α β : Type}

/-- A reading that succeeds with a result. -/
def Gives (x : Reading α) (a : α) : Prop := x.result = .ok a

theorem Gives.eq {x : Reading α} {a : α} (h : x.Gives a) : x = ⟨.ok a⟩ := by
  obtain ⟨result⟩ := x
  exact congrArg Reading.mk h

theorem Gives.map {x : Reading α} {a : α} (f : α → β) (h : x.Gives a) : (f <$> x).Gives (f a) := by
  rw [h.eq]
  rfl

theorem Gives.seq {f : Reading (α → β)} {g : α → β} {x : Reading α} {a : α} (hf : f.Gives g)
    (hx : x.Gives a) : (f <*> x).Gives (g a) := by
  rw [hf.eq, hx.eq]
  rfl

theorem Gives.seqRight {u : Reading Unit} {x : Reading α} {a : α} (hu : u.Gives ())
    (hx : x.Gives a) : (u *> x).Gives a := by
  rw [hu.eq, hx.eq]
  rfl

end Reading

namespace Members

/-- The members that are written for values with names. -/
def written (names : List String) (values : List Json) : Members :=
  ⟨(names.zip values).map fun m => (some m.1, m.2), true⟩

/-- Different keys do not clash with each other. -/
theorem clash?_eq_none {names : List String} {members : List (String × Json)}
    {seen : List String} (hmembers : (members.map (·.1)).Nodup)
    (hseen : ∀ m ∈ members, m.1 ∉ seen) :
    clash? names seen (members.map fun m => (some m.1, m.2)) = none := by
  induction members generalizing seen with
  | nil => rfl
  | cons m members ih =>
      obtain ⟨hnew, hmembers⟩ := List.nodup_cons.mp hmembers
      have hfirst : seen.contains m.1 = false := by
        rw [List.contains_eq_mem]
        exact decide_eq_false (hseen m List.mem_cons_self)
      have hrest : ∀ other ∈ members, other.1 ∉ m.1 :: seen := by
        intro other hother hmem
        rcases List.mem_cons.mp hmem with heq | hold
        · have hkey : other.1 ∈ members.map (·.1) := List.mem_map_of_mem hother
          rw [heq] at hkey
          exact hnew hkey
        · exact hseen other (List.mem_cons_of_mem m hother) hold
      rw [List.map_cons, clash?, hfirst, Bool.and_false, ih hmembers hrest]
      rfl

/-- A member is found at its own place. -/
theorem findIdx?_key {members : List (String × Json)} (hmembers : (members.map (·.1)).Nodup)
    {i : Nat} {name : String} {v : Json} (hi : members[i]? = some (name, v)) :
    (members.map fun m => (some m.1, m.2)).findIdx? (·.1 == some name) = some i := by
  induction members generalizing i with
  | nil => cases hi
  | cons m members ih =>
      obtain ⟨hnew, hmembers⟩ := List.nodup_cons.mp hmembers
      rw [List.map_cons, List.findIdx?_cons]
      cases i with
      | zero =>
          cases hi
          rw [if_pos (beq_self_eq_true _)]
      | succ i =>
          rw [List.getElem?_cons_succ] at hi
          have hmem : (name, v) ∈ members := List.mem_of_getElem? hi
          have hkey : name ∈ members.map (·.1) := List.mem_map_of_mem hmem
          have hne : ¬((some m.1 == some name) = true) := by
            rw [beq_iff_eq, Option.some_inj]
            rintro rfl
            exact hnew hkey
          rw [if_neg hne, ih hmembers hi]
          rfl

section Written
variable {α : Type} {names : List String} {values : List Json}

theorem nodup_keys (hnames : names.Nodup) : ((names.zip values).map (·.1)).Nodup := by
  have hlength : (names.take (min names.length values.length)).length ≤
      (values.take (min names.length values.length)).length := by
    rw [List.length_take, List.length_take]
    omega
  rw [List.zip_eq_zip_take_min, List.map_fst_zip hlength]
  exact hnames.sublist (List.take_sublist _ _)

/-- The keys of a written record are in order. -/
theorem check_written (hnames : names.Nodup) : ((written names values).check names).Gives () := by
  have hclash : clash? names [] (written names values).entries = none :=
    clash?_eq_none (nodup_keys hnames) fun _ _ => List.not_mem_nil
  rw [check, hclash]
  rfl

theorem field?_written (hnames : names.Nodup) {i : Nat} {name : String} {v : Json}
    (hi : (names.zip values)[i]? = some (name, v)) (c : Codec α) :
    (written names values).field? name c = some ⟨(c.read v).mapError (⟨i, ·⟩)⟩ := by
  have hentry : ((names.zip values).map fun m => (some m.1, m.2))[i]? = some (some name, v) := by
    rw [List.getElem?_map, hi]
    rfl
  have hplace := findIdx?_key (nodup_keys hnames) hi
  rw [field?, written, hplace, Option.bind_some, hentry]
  rfl

/-- A part is read from the member of its name. -/
theorem field_gives (hnames : names.Nodup) (i : Nat) {name : String} {c : Codec α} {a b : α}
    (hi : (names.zip values)[i]? = some (name, c.write a)) (h : c.Restores a b) :
    ((written names values).field name c).Gives b := by
  rw [field, field?_written hnames hi, h.read]
  rfl

theorem fieldOrNone_gives (hnames : names.Nodup) (i : Nat) {name : String} {c : Codec α}
    {a b : Option α} (hi : (names.zip values)[i]? = some (name, c.optional.write a))
    (h : c.optional.Restores a b) : ((written names values).fieldOrNone name c).Gives b := by
  rw [fieldOrNone, field?_written hnames hi, h.read]
  rfl

end Written

end Members

/-- A record is read back from the members that are written for it. -/
theorem Codec.record_restores {α : Type} {names : List String} {write : α → List Json}
    {read : Members → Reading α} {a b : α} (hnames : names.Nodup)
    (hsettled : ∀ v ∈ write a, v.Settled) (hread : (read (.written names (write a))).Gives b) :
    (Codec.record names write read).Restores a b := by
  constructor
  case settled =>
    apply Json.Settled.obj
    intro m hm
    obtain ⟨member, hmember, rfl⟩ := List.mem_map.mp hm
    exact hsettled member.2 (List.of_mem_zip hmember).2
  case read =>
    have hkeys : ((Members.written names (write a)).check names).Gives () :=
      Members.check_written hnames
    simp only [record, Json.ofMembers, Members.ofJson?]
    exact congrArg (Except.mapError (·.error.inRecord)) (hkeys.seqRight hread)

end Disassembly
