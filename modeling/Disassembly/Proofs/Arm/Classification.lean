import Disassembly.Proofs.Arm.FlagEffects

/-!
# Classifying into one record again and again

Opcodes may be classified one after the other into a record that is not reset in between.
Beside the record stands a listing, which holds the same as ordinary lists without a
capacity: facts extend its lists at the end, and a record follows the listing as long as
every list fits. A branch adds the group of the jumps only where it is not yet listed.
-/

namespace Disassembly

/-- Take over whether flags are set, into the record of an ARM instruction. -/
def Payload.withFlags (p : Payload) (on : Bool) : Payload :=
  match p with
  | .arm record => .arm { record with updateFlags := on }
  | other => other

/-- A later note on the flags replaces an earlier one. -/
theorem Payload.withFlags_withFlags (p : Payload) (on on' : Bool) :
    (p.withFlags on).withFlags on' = p.withFlags on' := by
  cases p <;> rfl

/-- A record of detail with ordinary lists. -/
@[ext]
structure Listing where
  regsRead : List UInt16
  regsWrite : List UInt16
  groups : List UInt8
  payload : Payload

/-- The elements of the lists of a record, and its payload. -/
def Detail.listing (d : Detail) : Listing :=
  ⟨d.regsRead.toList, d.regsWrite.toList, d.groups.toList, d.payload⟩

/-- A list that is not too long. -/
def within {α : Type} (n : Nat) (xs : List α) : Except CapacityError (List α) :=
  if xs.length ≤ n then .ok xs else .error (.full n)

namespace Listing

/-- A record has room for every list. -/
structure Fits (l : Listing) : Prop where
  regsRead : l.regsRead.length ≤ Detail.maxImplicit
  regsWrite : l.regsWrite.length ≤ Detail.maxImplicit
  groups : l.groups.length ≤ Detail.maxGroups

/-- The listing, looked through for the first list that is too long. -/
def checked (l : Listing) : Except CapacityError Listing := do
  let regsRead ← within Detail.maxImplicit l.regsRead
  let regsWrite ← within Detail.maxImplicit l.regsWrite
  let groups ← within Detail.maxGroups l.groups
  return { regsRead, regsWrite, groups, payload := l.payload }

theorem checked_of_fits {l : Listing} (h : l.Fits) : l.checked = .ok l := by
  simp only [checked, within, if_pos h.regsRead, if_pos h.regsWrite, if_pos h.groups]
  rfl

theorem checked_of_not_fits {l : Listing} (h : ¬ l.Fits) :
    ∃ capacity, l.checked = .error (.full capacity) := by
  by_cases hread : l.regsRead.length ≤ Detail.maxImplicit
  · by_cases hwrite : l.regsWrite.length ≤ Detail.maxImplicit
    · have hgroups : ¬ l.groups.length ≤ Detail.maxGroups :=
        fun hgroups => h ⟨hread, hwrite, hgroups⟩
      simp only [checked, within, if_pos hread, if_pos hwrite, if_neg hgroups]
      exact ⟨_, rfl⟩
    · simp only [checked, within, if_pos hread, if_neg hwrite]
      exact ⟨_, rfl⟩
  · simp only [checked, within, if_neg hread]
    exact ⟨_, rfl⟩

end Listing

theorem Detail.fits_listing (d : Detail) : d.listing.Fits :=
  ⟨d.regsRead.length_le, d.regsWrite.length_le, d.groups.length_le⟩

/-- Adding one by one appends, if everything fits. -/
theorem BoundedList.map_pushAll {α : Type} {n : Nat} (hn : n ≤ maxCursor) (l : BoundedList α n)
    (items : List α) :
    toList <$> l.pushAll items = within n (l.toList ++ items) := by
  induction items generalizing l with
  | nil =>
      rw [List.append_nil]
      exact (if_pos l.length_le).symm
  | cons a rest ih =>
      rw [pushAll, List.foldlM_cons]
      by_cases hroom : l.length < n
      · obtain ⟨r, hr, hlist⟩ := (l.push_eq_ok_iff hn a).mpr hroom
        have hsplit : l.toList ++ a :: rest = r.toList ++ rest := by
          rw [hlist, List.append_assoc, List.singleton_append]
        rw [hr, ok_bind, hsplit]
        exact ih r
      · have hover : ¬ (l.toList ++ a :: rest).length ≤ n := by
          have hlength : l.toList.length = l.length := rfl
          rw [List.length_append, List.length_cons]
          omega
        rw [l.push_eq_error a (Nat.le_of_not_lt hroom)]
        exact (if_neg hover).symm

namespace Arm

/-- The numbers of the groups that facts add to a list of groups: their own, and last that
of the jumps for a branch, unless it is there by then. -/
def Facts.addedGroups (facts : Facts) (groups : List UInt8) : List UInt8 :=
  let own := facts.groups.map (·.id)
  own ++ if facts.isJump = true ∧ Group.jump.id ∉ groups ++ own then [Group.jump.id] else []

/-- A listing with facts at the end of its lists. -/
def Facts.extend (facts : Facts) (l : Listing) : Listing where
  regsRead := l.regsRead ++ presentIds facts.reads
  regsWrite := l.regsWrite ++ presentIds facts.writes
  groups := l.groups ++ facts.addedGroups l.groups
  payload := l.payload.withFlags facts.setsFlags

/-- The group of the jumps is added after the other groups, to the list they are in. -/
theorem Facts.pushAll_addedGroups {n : Nat} (facts : Facts) (l : BoundedList UInt8 n) :
    l.pushAll (facts.addedGroups l.toList) = do
      let groups ← l.pushAll (facts.groups.map (·.id))
      if facts.isJump = true ∧ Group.jump.id ∉ groups.toList then groups.push Group.jump.id
      else return groups := by
  rw [addedGroups, BoundedList.pushAll, List.foldlM_append]
  change l.pushAll (facts.groups.map (·.id)) >>= _ = _
  cases hown : l.pushAll (facts.groups.map (·.id)) with
  | error e => rfl
  | ok groups =>
      rw [ok_bind, ok_bind, BoundedList.toList_pushAll hown]
      split
      · rw [List.foldlM_cons]
        exact bind_pure _
      · rfl

/-- Facts are added list by list. -/
theorem Facts.addTo_eq (facts : Facts) (d : Detail) :
    facts.addTo d = do
      let regsRead ← d.regsRead.pushAll (presentIds facts.reads)
      let regsWrite ← d.regsWrite.pushAll (presentIds facts.writes)
      let groups ← d.groups.pushAll (facts.addedGroups d.groups.toList)
      return { regsRead, regsWrite, groups, payload := d.payload.withFlags facts.setsFlags } := by
  simp only [Facts.pushAll_addedGroups, addTo, bind_assoc]
  refine bind_congr fun regsRead => bind_congr fun regsWrite => bind_congr fun groups => ?_
  have hlisted : groups.contains Group.jump.id = true ↔ Group.jump.id ∈ groups.toList :=
    List.contains_iff_mem
  have hjump : (facts.isJump && !groups.contains Group.jump.id) = true ↔
      facts.isJump = true ∧ Group.jump.id ∉ groups.toList := by
    rw [Bool.and_eq_true, Bool.not_eq_true', Bool.eq_false_iff, ne_eq, hlisted]
  simp only [Detail.inGroup, hjump]
  split
  · rfl
  · rfl

/-- Facts extend the listing of a record, if the record has room. -/
theorem Facts.map_addTo (facts : Facts) (d : Detail) :
    Detail.listing <$> facts.addTo d = (facts.extend d.listing).checked := by
  rw [addTo_eq, Listing.checked]
  change _ = (within _ (d.regsRead.toList ++ _) >>= fun _ =>
    within _ (d.regsWrite.toList ++ _) >>= fun _ => within _ (d.groups.toList ++ _) >>= _)
  have himplicit : Detail.maxImplicit ≤ BoundedList.maxCursor := by decide
  have hgroups : Detail.maxGroups ≤ BoundedList.maxCursor := by decide
  simp only [← BoundedList.map_pushAll himplicit, ← BoundedList.map_pushAll hgroups,
    bind_map_left, map_bind]
  rfl

section Calls
variable {word : UInt32} {facts : Facts} {d : Detail}

theorem classify_eq_none (hword : Facts.ofWord? word = none) (d : Detail) :
    classify word d = .ok (none, d) := by
  simp only [classify, hword]

/-- A word with facts is classified while the extended lists fit. -/
theorem classify_of_fits (hword : Facts.ofWord? word = some facts)
    (hfits : (facts.extend d.listing).Fits) :
    ∃ d', classify word d = .ok (some facts.mnemonic, d') ∧
      d'.listing = facts.extend d.listing := by
  have hlisting := facts.map_addTo d
  rw [Listing.checked_of_fits hfits] at hlisting
  simp only [classify, hword]
  cases hadd : facts.addTo d with
  | error e =>
      rw [hadd] at hlisting
      cases hlisting
  | ok d' =>
      rw [hadd] at hlisting
      exact ⟨d', rfl, Except.ok.inj hlisting⟩

/-- There is no room for extended lists that do not fit. -/
theorem classify_of_not_fits (hword : Facts.ofWord? word = some facts)
    (hover : ¬ (facts.extend d.listing).Fits) :
    ∃ capacity, classify word d = .error (.full capacity) := by
  have hlisting := facts.map_addTo d
  obtain ⟨capacity, hfull⟩ := Listing.checked_of_not_fits hover
  rw [hfull] at hlisting
  simp only [classify, hword]
  cases hadd : facts.addTo d with
  | error e =>
      rw [hadd] at hlisting
      cases hlisting
      exact ⟨capacity, rfl⟩
  | ok d' =>
      rw [hadd] at hlisting
      cases hlisting

end Calls

section Runs

/-- Classify opcode words one after the other into one record. -/
def classifyAll (d : Detail) (words : List UInt32) : Except CapacityError Detail :=
  words.foldlM (fun d word => (classify word d).map (·.2)) d

/-- The facts of the words that have any, in order. -/
def knownFacts (words : List UInt32) : List Facts := words.filterMap Facts.ofWord?

/-- A listing with facts one after the other at the end of its lists. -/
def extendAll (l : Listing) (known : List Facts) : Listing :=
  known.foldl (fun l facts => facts.extend l) l

theorem knownFacts_of_eq_none {word : UInt32} (hword : Facts.ofWord? word = none)
    (rest : List UInt32) : knownFacts (word :: rest) = knownFacts rest :=
  List.filterMap_cons_none hword

theorem knownFacts_of_eq_some {word : UInt32} {facts : Facts}
    (hword : Facts.ofWord? word = some facts) (rest : List UInt32) :
    knownFacts (word :: rest) = facts :: knownFacts rest :=
  List.filterMap_cons_some hword

variable {known : List Facts} {l : Listing}

theorem extendAll_cons (facts : Facts) :
    extendAll l (facts :: known) = extendAll (facts.extend l) known := rfl

/-- Lists that fit after an extension fitted before. -/
theorem Facts.fits_of_extend {facts : Facts} (h : (facts.extend l).Fits) : l.Fits where
  regsRead := Nat.le_trans (List.prefix_append _ _).length_le h.regsRead
  regsWrite := Nat.le_trans (List.prefix_append _ _).length_le h.regsWrite
  groups := Nat.le_trans (List.prefix_append _ _).length_le h.groups

theorem fits_of_extendAll (h : (extendAll l known).Fits) : l.Fits := by
  induction known generalizing l with
  | nil => exact h
  | cons facts rest ih => exact Facts.fits_of_extend (ih h)

theorem registers_extendAll :
    (extendAll l known).regsRead = l.regsRead ++ known.flatMap (presentIds ·.reads) ∧
      (extendAll l known).regsWrite = l.regsWrite ++ known.flatMap (presentIds ·.writes) := by
  induction known generalizing l with
  | nil => exact ⟨(List.append_nil _).symm, (List.append_nil _).symm⟩
  | cons facts rest ih =>
      rw [List.flatMap_cons, List.flatMap_cons, ← List.append_assoc, ← List.append_assoc]
      exact ih

theorem groups_prefix_extendAll : l.groups <+: (extendAll l known).groups := by
  induction known generalizing l with
  | nil => exact List.prefix_rfl
  | cons facts rest ih =>
      have hstep : l.groups <+: (facts.extend l).groups := List.prefix_append _ _
      exact hstep.trans ih

theorem withFlags_extendAll (on : Bool) :
    (extendAll l known).payload.withFlags on = l.payload.withFlags on := by
  induction known generalizing l with
  | nil => rfl
  | cons facts rest ih =>
      calc
        (extendAll (facts.extend l) rest).payload.withFlags on
            = (facts.extend l).payload.withFlags on := ih
        _ = l.payload.withFlags on := l.payload.withFlags_withFlags facts.setsFlags on

/-- The last facts decide on the flags. -/
theorem payload_extendAll :
    (extendAll l known).payload =
      (known.getLast?.map (l.payload.withFlags ·.setsFlags)).getD l.payload := by
  rcases List.eq_nil_or_concat known with rfl | ⟨first, last, rfl⟩
  · rfl
  · rw [List.concat_eq_append, List.getLast?_concat]
    calc
      (extendAll l (first ++ [last])).payload
          = (extendAll l first).payload.withFlags last.setsFlags := by
            rw [extendAll, List.foldl_append]
            rfl
      _ = l.payload.withFlags last.setsFlags := withFlags_extendAll last.setsFlags

/-- Facts that do not list the group of the jumps add it at most once, and not to a list
that has it. -/
theorem Facts.count_addedGroups {facts : Facts} (hjump : .jump ∉ facts.groups)
    (groups : List UInt8) :
    (groups ++ facts.addedGroups groups).count Group.jump.id =
      max (groups.count Group.jump.id) (if facts.isJump then 1 else 0) := by
  have hown : (facts.groups.map (·.id)).count Group.jump.id = 0 := by
    rw [List.count_map_of_injective _ _ Group.id_injective]
    exact List.count_eq_zero.mpr hjump
  simp only [addedGroups, ← List.append_assoc, List.count_append, hown, List.mem_append]
  have howned : Group.jump.id ∉ facts.groups.map (·.id) := List.count_eq_zero.mp hown
  by_cases hbranch : facts.isJump = true
  · by_cases hlisted : Group.jump.id ∈ groups
    · simp [hbranch, hlisted]
    · have hzero := List.count_eq_zero.mpr hlisted
      simp [hbranch, hlisted, howned, hzero]
  · simp [hbranch]

theorem jump_notMem_of_mem_knownFacts {words : List UInt32} {facts : Facts}
    (h : facts ∈ knownFacts words) : .jump ∉ facts.groups := by
  obtain ⟨word, -, hword⟩ := List.mem_filterMap.mp h
  obtain ⟨o, -, hfacts⟩ := Option.bind_eq_some_iff.mp hword
  exact (ofOpcode?_distinct hfacts).jump

/-- However many branches are classified, the group of the jumps is added at most once. -/
theorem count_jump_extendAll (hjump : ∀ facts ∈ known, .jump ∉ facts.groups) :
    (extendAll l known).groups.count Group.jump.id =
      max (l.groups.count Group.jump.id) (if known.any (·.isJump) then 1 else 0) := by
  induction known generalizing l with
  | nil => simp [extendAll]
  | cons facts rest ih =>
      have hstep : (facts.extend l).groups.count Group.jump.id = _ :=
        Facts.count_addedGroups (hjump facts List.mem_cons_self) l.groups
      have hrest := ih (l := facts.extend l)
        fun f hf => hjump f (List.mem_cons_of_mem facts hf)
      calc
        (extendAll (facts.extend l) rest).groups.count Group.jump.id
            = max ((facts.extend l).groups.count Group.jump.id)
                (if rest.any (·.isJump) then 1 else 0) := hrest
        _ = _ := by
            rw [hstep, List.any_cons]
            cases facts.isJump <;> cases rest.any (·.isJump) <;> simp

/-- Words are classified as long as the listing that all of them give fits. -/
theorem classifyAll_of_fits {d : Detail} {words : List UInt32}
    (hfits : (extendAll d.listing (knownFacts words)).Fits) :
    ∃ d', classifyAll d words = .ok d' ∧
      d'.listing = extendAll d.listing (knownFacts words) := by
  induction words generalizing d with
  | nil => exact ⟨d, rfl, rfl⟩
  | cons word rest ih =>
      simp only [classifyAll, List.foldlM_cons]
      cases hword : Facts.ofWord? word with
      | none =>
          rw [knownFacts_of_eq_none hword] at hfits ⊢
          rw [classify_eq_none hword]
          exact ih hfits
      | some facts =>
          rw [knownFacts_of_eq_some hword, extendAll_cons] at hfits ⊢
          obtain ⟨next, hnext, hlisting⟩ := classify_of_fits hword (fits_of_extendAll hfits)
          rw [← hlisting] at hfits ⊢
          rw [hnext]
          exact ih hfits

/-- Some word finds no room if the listing that all of them give does not fit. -/
theorem classifyAll_of_not_fits {d : Detail} {words : List UInt32}
    (hover : ¬ (extendAll d.listing (knownFacts words)).Fits) :
    ∃ capacity, classifyAll d words = .error (.full capacity) := by
  induction words generalizing d with
  | nil => exact absurd d.fits_listing hover
  | cons word rest ih =>
      simp only [classifyAll, List.foldlM_cons]
      cases hword : Facts.ofWord? word with
      | none =>
          rw [knownFacts_of_eq_none hword] at hover
          rw [classify_eq_none hword]
          exact ih hover
      | some facts =>
          rw [knownFacts_of_eq_some hword, extendAll_cons] at hover
          by_cases hfits : (facts.extend d.listing).Fits
          · obtain ⟨next, hnext, hlisting⟩ := classify_of_fits hword hfits
            rw [← hlisting] at hover
            rw [hnext]
            exact ih hover
          · obtain ⟨capacity, hfull⟩ := classify_of_not_fits hword hfits
            rw [hfull]
            exact ⟨capacity, rfl⟩

/-- What one call of the classification does with a record. -/
structure Classified (word : UInt32) (d : Detail) : Prop where
  /-- A word without facts leaves the record as it is. -/
  unknown : Facts.ofWord? word = none → classify word d = .ok (none, d)
  /-- Facts extend the lists, and decide on the flags. -/
  known : ∀ facts m d', Facts.ofWord? word = some facts → classify word d = .ok (m, d') →
    m = some facts.mnemonic ∧ d'.listing = facts.extend d.listing
  /-- There is no room exactly where a list would become too long. -/
  overflow : (∃ capacity, classify word d = .error (.full capacity)) ↔
    ∃ facts, Facts.ofWord? word = some facts ∧ ¬ (facts.extend d.listing).Fits
  overflow_only : ∀ e, classify word d = .error e → ∃ capacity, e = .full capacity

theorem classify_classified (word : UInt32) (d : Detail) : Classified word d := by
  cases hword : Facts.ofWord? word with
  | none =>
      have hresult := classify_eq_none hword d
      constructor
      case unknown => exact fun _ => hresult
      all_goals simp [hword, hresult]
  | some facts =>
      by_cases hfits : (facts.extend d.listing).Fits
      · obtain ⟨d', hresult, hlisting⟩ := classify_of_fits hword hfits
        constructor
        all_goals simp [hword, hresult, hfits, hlisting]
      · obtain ⟨capacity, hresult⟩ := classify_of_not_fits hword hfits
        constructor
        all_goals simp [hword, hresult, hfits]

/-- What a run of classifications has made of a record. -/
structure Extended (known : List Facts) (d d' : Detail) : Prop where
  listing : d'.listing = extendAll d.listing known
  regsRead : d'.regsRead.toList = d.regsRead.toList ++ known.flatMap (presentIds ·.reads)
  regsWrite : d'.regsWrite.toList = d.regsWrite.toList ++ known.flatMap (presentIds ·.writes)
  groups : d.groups.toList <+: d'.groups.toList
  /-- A branch adds the group of the jumps where it is missing, and nothing adds it a second
  time. -/
  count_jump : d'.groups.toList.count Group.jump.id =
    max (d.groups.toList.count Group.jump.id) (if known.any (·.isJump) then 1 else 0)
  /-- The last facts decide on the flags. -/
  payload : d'.payload = (known.getLast?.map (d.payload.withFlags ·.setsFlags)).getD d.payload

theorem extended_of_listing {d d' : Detail} {words : List UInt32}
    (h : d'.listing = extendAll d.listing (knownFacts words)) :
    Extended (knownFacts words) d d' where
  listing := h
  regsRead := (congrArg Listing.regsRead h).trans registers_extendAll.1
  regsWrite := (congrArg Listing.regsWrite h).trans registers_extendAll.2
  groups := by
    have hgroups : d'.groups.toList = _ := congrArg Listing.groups h
    rw [hgroups]
    exact groups_prefix_extendAll (l := d.listing)
  count_jump := by
    have hgroups : d'.groups.toList = _ := congrArg Listing.groups h
    rw [hgroups]
    exact count_jump_extendAll (l := d.listing) fun _ => jump_notMem_of_mem_knownFacts
  payload := (congrArg Listing.payload h).trans payload_extendAll

/-- Opcode words classified one after the other into any record, with no reset in between.
Each call leaves the record as it is, or extends its lists by the registers and the groups of
the facts and sets the flags by them alone, or finds no room exactly where one of the lists
would become too long. So does the whole run: the lists only grow at their ends, the group of
the jumps is never added to a record that has it, and the run fails exactly when the lists
that all of its words give do not fit. -/
theorem classifyAll_extends (d : Detail) (words : List UInt32) :
    (∀ word s, Classified word s) ∧
    (∀ d', classifyAll d words = .ok d' → Extended (knownFacts words) d d') ∧
    ((∃ e, classifyAll d words = .error e) ↔
      ¬ (extendAll d.listing (knownFacts words)).Fits) := by
  refine ⟨classify_classified, ?_⟩
  by_cases hfits : (extendAll d.listing (knownFacts words)).Fits
  · obtain ⟨d₁, hrun, hlisting⟩ := classifyAll_of_fits hfits
    constructor
    · intro d' hd'
      obtain rfl := Except.ok.inj (hrun.symm.trans hd')
      exact extended_of_listing hlisting
    · rw [hrun]
      exact iff_of_false nofun (not_not_intro hfits)
  · obtain ⟨capacity, hfull⟩ := classifyAll_of_not_fits hfits
    rw [hfull]
    exact ⟨nofun, iff_of_true ⟨_, rfl⟩ hfits⟩

/-- A record in the group of the jumps, with an operand. -/
def jumpedRecord : Detail where
  groups := ⟨[Group.jump.id], List.replicate 7 0, rfl, by decide⟩
  payload := .arm usedRecord

/-- Two branches around a word that is no opcode, and a comparison. -/
def branchesAndCompare : List UInt32 :=
  [Opcode.tBl.word, 0xFFFFFFFF, Opcode.bx.word, Opcode.cmnri.word]

theorem classifyAll_extends_branchesAndCompare :
    (∃ d', classifyAll jumpedRecord branchesAndCompare = .ok d' ∧
      d'.regsWrite.toList = [10, 11, 3] ∧ d'.groups.toList.count Group.jump.id = 1 ∧
      d'.payload = .arm { usedRecord with updateFlags := true }) ∧
    ∃ e, classifyAll jumpedRecord (branchesAndCompare ++ [Opcode.blxi.word]) = .error e := by
  obtain ⟨d', hd'⟩ : ∃ d', classifyAll jumpedRecord branchesAndCompare = .ok d' := ⟨_, rfl⟩
  have hextended := (classifyAll_extends jumpedRecord branchesAndCompare).2.1 d' hd'
  refine ⟨⟨d', hd', hextended.regsWrite, hextended.count_jump, hextended.payload⟩, ?_⟩
  apply (classifyAll_extends jumpedRecord _).2.2.mpr
  intro hfits
  exact absurd hfits.groups (by decide)

end Runs

end Arm
end Disassembly
