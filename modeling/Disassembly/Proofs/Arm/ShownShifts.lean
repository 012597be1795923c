import Disassembly.Proofs.Arm.FinishedOperands
import Disassembly.Proofs.Arm.Immediates
import Disassembly.Proofs.Arm.Influence
import Disassembly.Proofs.Arm.RegSummary
import Disassembly.Proofs.Arm.ShiftItems

/-!
# Shifts that a line does not show

The line of a built record shows the shift of every operand but for rotations through the
carry, which have no amount. Two shifted additions that differ in the packed shift alone have
the same line exactly when their shifts are the same or neither of them is shown.
-/

namespace Disassembly.Arm

section Amounts
variable {s s' : Shift} {ops : List Operand}

namespace Shift

/-- Of the shifts that a finished record may have, a rotation through the carry is the only
one by no amount. -/
theorem Finished.hidden_iff (h : s.Finished) :
    s.Hidden ↔ s.kind = .none ∨ s.kind = some .rrx := by
  simp only [Hidden]
  rw [Finished] at h
  split at h <;> simp_all

/-- Its amount is a number. -/
theorem Finished.byRegister (h : s.Finished) {kind : ShiftKind} (hkind : s.kind = some kind) :
    kind.byRegister = false := by
  rw [Finished, hkind] at h
  cases kind <;> first | rfl | exact h.elim

theorem number_injective {kind kind' : ShiftKind} (h : kind.number = kind'.number) :
    kind = kind' := by
  cases kind <;> cases kind' <;> first | rfl | cases h

theorem Hidden.lineItems (h : s.Hidden) : s.lineItems = [] := by
  apply List.eq_nil_of_length_eq_zero
  rw [s.length_lineItems, if_pos h]

/-- A shift that is not hidden has one item. -/
theorem exists_lineItem (h : ¬ s.Hidden) :
    ∃ kind, s.kind = some kind ∧ s.lineItems = [.shift kind s.amount] := by
  obtain ⟨hkind, hamount⟩ := not_or.mp h
  obtain ⟨kind, hkind⟩ := Option.ne_none_iff_exists'.mp hkind
  refine ⟨kind, hkind, ?_⟩
  simp only [lineItems, hkind, itemIf, if_pos (decide_eq_true hamount)]

/-- A shift by a number is known by the text of its item. -/
theorem eq_of_text {spelling : RegSpelling} {kind kind' : ShiftKind} {n n' : UInt32}
    (hkind : kind.byRegister = false) (hkind' : kind'.byRegister = false)
    (h : (LineItem.shift kind n).text spelling = (LineItem.shift kind' n').text spelling) :
    kind = kind' ∧ n = n' := by
  obtain ⟨-, -, hpayload⟩ := LineItem.parts_of_text h
  simp only [LineItem.payload, hkind, hkind', Bool.false_eq_true, if_false] at hpayload
  have hlists := congrArg String.toList hpayload
  simp only [String.toList_append, List.append_assoc] at hlists
  have hdigits (k : ShiftKind) : ' ' ∉ (Numeral.decimal k.number).toList :=
    (Numeral.isWord_decimal _).notMem (by decide)
  obtain ⟨hnumber, hrest⟩ := append_cons_inj (hdigits kind) (hdigits kind') hlists
  have hamount := List.append_cancel_left (hrest : ['=', ' '] ++ _ = ['=', ' '] ++ _)
  exact ⟨number_injective (Numeral.decimal_injective (String.toList_inj.mp hnumber)),
    UInt32.toNat_inj.mp (Numeral.decimal_injective (String.toList_inj.mp hamount))⟩

/-- Finished shifts that are shown alike are the same, or both are hidden. -/
theorem Finished.eq_of_pieces {spelling : RegSpelling} (h : s.Finished) (h' : s'.Finished)
    (hpieces : s.lineItems.map (fun item => between (item.text spelling)) =
      s'.lineItems.map fun item => between (item.text spelling)) :
    s = s' ∨ s.Hidden ∧ s'.Hidden := by
  have hlengths := congrArg List.length hpieces
  rw [List.length_map, List.length_map, s.length_lineItems, s'.length_lineItems] at hlengths
  by_cases hs : s.Hidden
  · by_cases hs' : s'.Hidden
    · exact .inr ⟨hs, hs'⟩
    · rw [if_pos hs, if_neg hs'] at hlengths
      cases hlengths
  · by_cases hs' : s'.Hidden
    · rw [if_neg hs, if_pos hs'] at hlengths
      cases hlengths
    · obtain ⟨kind, hkind, hitems⟩ := exists_lineItem hs
      obtain ⟨kind', hkind', hitems'⟩ := exists_lineItem hs'
      rw [hitems, hitems'] at hpieces
      obtain ⟨rfl, hamount⟩ := eq_of_text (h.byRegister hkind) (h'.byRegister hkind')
        (between_injective (List.head_eq_of_cons_eq hpieces))
      left
      cases s
      cases s'
      simp_all

end Shift

/-- Of finished shifts, all but the rotations through the carry are shown. -/
theorem countP_shown (h : ∀ op ∈ ops, op.shift.Finished) :
    ops.countP (¬ ·.shift.Hidden) + ops.countP (·.shift.kind = some .rrx) =
      ops.countP (·.shift.kind ≠ none) := by
  induction ops with
  | nil => rfl
  | cons op ops ih =>
      obtain ⟨hop, hrest⟩ := List.forall_mem_cons.mp h
      have hcount := ih hrest
      have hone : (if ¬ op.shift.Hidden then 1 else 0) +
          (if op.shift.kind = some .rrx then 1 else 0) =
            if op.shift.kind ≠ none then 1 else 0 := by
        simp only [hop.hidden_iff]
        grind
      simp only [List.countP_cons, decide_eq_true_eq]
      omega

end Amounts

/-- The shift that is packed into an immediate, the amount above three bits of shift opcode. A
shift left by nothing is none. -/
def Shift.packed (imm : UInt32) : Shift :=
  match ShiftKind.ofOpcode? (imm &&& 7).toUInt8 with
  | some (some kind) =>
      if kind = .lsl ∧ imm >>> 3 = 0 then .none
      else ⟨some kind, if kind = .rrx then 0 else decodeAmount (imm >>> 3)⟩
  | _ => .none

theorem Shift.packed_finished (imm : UInt32) : (packed imm).Finished := by
  rw [packed]
  split
  next kind hcode =>
      split
      · rfl
      · have hdecoded : decodeAmount (imm >>> 3) ≠ 0 := by
          rw [decodeAmount]
          split
          · decide
          · assumption
        have hnumber := byRegister_of_ofOpcode? hcode
        cases kind with
        | rrx => rfl
        | asr | lsl | lsr | ror => exact hdecoded
        | asrReg | lslReg | lsrReg | rorReg | rrxReg => cases hnumber
  next => rfl

/-- The shift that is packed into the immediate in a slot. -/
def rawShift (inst : RawInst) (slot : Nat) : Shift :=
  match inst.operand slot with
  | .imm raw => .packed raw.toUInt64.toUInt32
  | _ => .none

section Runs
variable {i j : RawInst} {f g : Features}

theorem Draft.run_congr {steps : List Step}
    (h : ∀ s ∈ steps, ∀ d : Draft, d.step i f s = d.step j g s) (d : Draft) :
    d.run i f steps = d.run j g steps := by
  induction steps generalizing d with
  | nil => rfl
  | cons s rest ih =>
      obtain ⟨hstep, hrest⟩ := List.forall_mem_cons.mp h
      simp only [Draft.run, List.foldlM_cons, hstep d]
      exact bind_congr fun d₁ => ih hrest d₁

/-- Away from branches a generic operand depends on its own slot only. -/
theorem step_op_congr {slot : Nat} (hopcode : i.opcode = j.opcode)
    (hbranch : isRelativeBranch i.opcode = false) (hslot : i.operand slot = j.operand slot)
    (d : Draft) : d.step i f (.op slot) = d.step j g (.op slot) := by
  have hresolve : resolveBranch i = resolveBranch j := by
    funext value
    simp only [resolveBranch, ← hopcode, hbranch, Bool.false_eq_true, if_false]
  have hgroup : groupOperands i f .generic slot = groupOperands j g .generic slot := by
    simp only [groupOperands, immOperand_congr hopcode hslot, regOperand_congr hopcode hslot,
      hresolve, hopcode]
  simp only [Draft.step, Step.op, Draft.classifyGroup, memoryPart_congr hopcode hslot, hgroup,
    hopcode]

/-- What the walk of a shifted addition does before it comes to the shift. -/
def addBeforeShift : List Step := [.classify .flagSetter 6, .pred 4, .op 0, .op 1, .op 2]

/-- Until then the packed shift is not read. -/
theorem run_addBeforeShift_congr (hi : i.opcode = Opcode.addrsi.word)
    (hj : j.opcode = Opcode.addrsi.word)
    (hslots : ∀ slot, slot ≠ 3 → i.operand slot = j.operand slot) (d : Draft) :
    d.run i f addBeforeShift = d.run j g addBeforeShift := by
  have hopcode : i.opcode = j.opcode := hi.trans hj.symm
  have hbranch : isRelativeBranch i.opcode = false := by
    rw [hi]
    rfl
  apply Draft.run_congr
  simp only [addBeforeShift, List.forall_mem_cons]
  refine ⟨?_, ?_, ?_, ?_, ?_, nofun⟩
  · intro d
    simp only [Draft.step, Draft.classifyGroup, readReg_congr hopcode (hslots 6 (by decide))]
  · intro d
    simp only [Draft.step, Step.pred, Draft.classifyGroup,
      readCondition_congr hopcode (hslots 4 (by decide))]
  · exact step_op_congr hopcode hbranch (hslots 0 (by decide))
  · exact step_op_congr hopcode hbranch (hslots 1 (by decide))
  · exact step_op_congr hopcode hbranch (hslots 2 (by decide))

variable {inst : RawInst} {features : Features} {d d' : Draft}

/-- A packed shift is that of the kind that is read from it, if there is one. -/
theorem packed_eq_of_readShift {imm : UInt32} {kind? : Option ShiftKind}
    (h : readShift inst (imm &&& 7).toUInt8 (imm >>> 3) = .ok kind?) :
    Shift.packed imm = (kind?.map fun kind => Shift.mk (some kind)
      (if kind = .rrx then 0 else Shift.decodeAmount (imm >>> 3))).getD .none := by
  rw [readShift] at h
  rw [Shift.packed]
  rcases hcode : ShiftKind.ofOpcode? (imm &&& 7).toUInt8 with _ | _ | kind
  · rw [hcode] at h
    cases h
  · rw [hcode] at h
    cases h
    rfl
  · rw [hcode] at h
    by_cases hleft : kind = .lsl ∧ imm >>> 3 = 0
    · simp only [if_pos hleft] at h ⊢
      cases h
      rfl
    · simp only [if_neg hleft] at h ⊢
      cases h
      rfl

/-- A packed shift becomes the shift of the last operand, which has none before. -/
theorem step_packedShift {slot : Nat} {ops : List Operand} {op : Operand}
    (hopened : d.opened = none) (hcommitted : d.committed = ops ++ [op])
    (hop : op.shift = .none) (h : d.step inst features (.packedShift slot) = .ok d') :
    d' = { d with committed := ops ++ [{ op with shift := rawShift inst slot }] } := by
  obtain ⟨raw, hraw, h⟩ := bind_eq_ok_iff.mp h
  obtain ⟨kind?, hkind, h⟩ := bind_eq_ok_iff.mp h
  have hshift : rawShift inst slot = .packed raw.toUInt64.toUInt32 := by
    rw [rawShift, readImm_eq_ok_iff.mp hraw]
  rw [hshift, packed_eq_of_readShift hkind]
  cases kind? with
  | none =>
      cases h
      rw [Option.map_none, Option.getD_none, ← hop, ← hcommitted]
  | some kind =>
      have hne : d.committed ≠ [] := by
        rw [hcommitted]
        exact List.append_ne_nil_of_right_ne_nil ops nofun
      have hlast : d.committed.length - 1 = ops.length := by
        rw [hcommitted, List.length_append]
        rfl
      simp only [hopened, if_neg hne, hlast] at h
      cases h
      simp only [hcommitted, List.modify_eq_take_drop]
      simp [Operand.shifted, hop, hopened, Shift.none]

/-- A shifted addition leaves the operands before the shift as they are, but for the shift of
the last one. -/
theorem run_addrsi (hopcode : inst.opcode = Opcode.addrsi.word) (hat : d.At .closed 0)
    (h : d.run inst features Opcode.addrsi.walk = .ok d') :
    ∃ d₁ ops op, d.run inst features addBeforeShift = .ok d₁ ∧ d₁.committed = ops ++ [op] ∧
      d' = { d₁ with committed := ops ++ [{ op with shift := rawShift inst 3 }] } := by
  have ho : Opcode.ofWord? inst.opcode = some .addrsi := by
    rw [hopcode]
    rfl
  have hwalk : Opcode.addrsi.walk = addBeforeShift ++ [.packedShift 3] := rfl
  have hfits := walk_fits .addrsi inst
  have hopens := Draft.opensPlain_of_closed hat.eq_none
  have hrun : Yields _ (d.run inst features addBeforeShift) :=
    run_grown ho addBeforeShift [.packedShift 3] hfits rfl hat hopens
  simp only [hwalk, Draft.run, List.foldlM_append, List.foldlM_cons, List.foldlM_nil,
    bind_pure] at h
  obtain ⟨d₁, hd₁, h⟩ := bind_eq_ok_iff.mp h
  obtain ⟨hgrown, hat₁⟩ := hrun.of_ok hd₁
  have hlength : d₁.committed.length = 3 := hat₁.length_eq
  obtain ⟨ops, op, hcommitted⟩ : ∃ ops op, d₁.committed = ops ++ [op] := by
    have hne : d₁.committed ≠ [] := by
      intro hnil
      rw [hnil] at hlength
      cases hlength
    exact ⟨_, _, (List.dropLast_concat_getLast hne).symm⟩
  have hop : op.shift = .none := by
    obtain ⟨new, hnew, hplain⟩ := hgrown.added
    rw [List.eq_nil_of_length_eq_zero hat.length_eq, List.nil_append, hcommitted] at hnew
    exact (hplain op (hnew ▸ List.mem_concat_self)).unshifted
  exact ⟨d₁, ops, op, hd₁, hcommitted, step_packedShift hat₁.eq_none hcommitted hop h⟩

end Runs

section Builds
variable {inst : RawInst} {features : Features} {d d' : Detail} {r r' : Record}
  {s s' : Shift}

/-- Two records that differ in nothing but the shift of the last operand. -/
structure Record.ShiftedApart (r r' : Record) (s s' : Shift) : Prop where
  marks : r.marks = r'.marks
  operands : ∃ (ops : List Operand) (op : Operand),
    r.operands.toList = ops ++ [{ op with shift := s }] ∧
      r'.operands.toList = ops ++ [{ op with shift := s' }]

/-- The shift of an operand is no register that it touches. -/
theorem Record.ShiftedApart.touches (h : r.ShiftedApart r' s s') : r.touches = r'.touches := by
  obtain ⟨ops, op, hops, hops'⟩ := h.operands
  have hwriteback : r.writeback = r'.writeback := congrArg Marks.writeback h.marks
  simp only [Record.touches, hops, hops', hwriteback, List.flatMap_append]
  rfl

theorem Record.ShiftedApart.lineItems (h : r.ShiftedApart r' s s')
    (hitems : s.lineItems = s'.lineItems) : r.lineItems = r'.lineItems := by
  obtain ⟨ops, op, hops, hops'⟩ := h.operands
  have hmarks := h.marks
  simp only [Record.marks, Marks.mk.injEq] at hmarks
  obtain ⟨hcc, -, hflags, hwriteback, hlayout⟩ := hmarks
  have hlast (i : Nat) : ({ op with shift := s } : Operand).lineItems i =
      ({ op with shift := s' } : Operand).lineItems i := by
    simp only [Operand.lineItems, hitems]
  have hempty (op : Operand) : (ops ++ [op]).isEmpty = false := by
    cases ops <;> rfl
  simp only [Record.lineItems, hops, hops', hcc, hflags, hwriteback, hlayout, hempty,
    List.zipIdx_append, List.flatMap_append, List.length_append, List.zipIdx_singleton,
    List.flatMap_singleton, hlast, List.length_singleton]

/-- Lines that differ in nothing but a shift are the same exactly when the items of the shift
are. -/
theorem Record.ShiftedApart.detailLine_eq_iff (h : r.ShiftedApart r' s s')
    (hr : d.arm? = some r) (hd' : d' = { d with payload := .arm r' })
    (hs : s.Finished) (hs' : s'.Finished) {spelling : RegSpelling} {line line' : String}
    (hline : detailLine (some d) spelling = .ok line)
    (hline' : detailLine (some d') spelling = .ok line') :
    line = line' ↔ s = s' ∨ s.Hidden ∧ s'.Hidden := by
  have hr' : d'.arm? = some r' := by
    rw [hd']
    rfl
  constructor
  · rintro rfl
    obtain ⟨ops, op, hops, hops'⟩ := h.operands
    have hpieces := (shiftPieces_detailLine hr hline).symm.trans
      (shiftPieces_detailLine hr' hline')
    rw [hops, hops'] at hpieces
    simp only [List.flatMap_append, List.map_append, List.append_cancel_left_eq,
      List.flatMap_singleton] at hpieces
    exact hs.eq_of_pieces hs' hpieces
  · intro hshifts
    have hitems : s.lineItems = s'.lineItems := by
      rcases hshifts with rfl | ⟨hhidden, hhidden'⟩
      · rfl
      · rw [hhidden.lineItems, hhidden'.lineItems]
    obtain ⟨access, haccess, rfl⟩ := exists_summary_of_line hr hline
    obtain ⟨access', haccess', rfl⟩ := exists_summary_of_line hr' hline'
    have hsame : regAccess d' = regAccess d := by
      rw [regAccess_eq hr, regAccess_eq hr', h.touches, hd']
      rfl
    obtain rfl : access' = access := Except.ok.inj (haccess'.symm.trans (hsame.trans haccess))
    rw [h.lineItems hitems, hd']

/-- Records that set flags alike write the same registers. -/
theorem noteFlags_apart {start : Detail} (hflags : r.updateFlags = r'.updateFlags)
    (h : noteFlags r { start with payload := .arm r } = .ok d)
    (h' : noteFlags r' { start with payload := .arm r' } = .ok d') :
    d' = { d with payload := .arm r' } := by
  have hwrites (r : Record) :
      Detail.writes { start with payload := .arm r } Register.cpsr.id =
        start.writes Register.cpsr.id := rfl
  simp only [noteFlags, hwrites, ← hflags] at h h'
  by_cases hnote : (r.updateFlags && !start.writes Register.cpsr.id) = true
  · rw [if_pos hnote] at h h'
    obtain ⟨regs, hregs, h⟩ := bind_eq_ok_iff.mp h
    obtain ⟨regs', hregs', h'⟩ := bind_eq_ok_iff.mp h'
    obtain rfl : regs' = regs := Except.ok.inj (hregs'.symm.trans hregs)
    cases h
    cases h'
    rfl
  · rw [if_neg hnote] at h h'
    cases h
    cases h'
    rfl

theorem rawShift_finished (inst : RawInst) (slot : Nat) : (rawShift inst slot).Finished := by
  rw [rawShift]
  split
  · exact Shift.packed_finished _
  · rfl

/-- The records of two shifted additions that differ in the packed shift alone. -/
theorem build_addrsi_apart {inst inst' : RawInst} {d₀ d₀' : Detail} {f f' : Features}
    {m m' : Mnemonic} (hopcode : inst.opcode = Opcode.addrsi.word)
    (hopcode' : inst'.opcode = Opcode.addrsi.word)
    (hslots : ∀ slot, slot ≠ 3 → inst.operand slot = inst'.operand slot)
    (h : build inst d₀ f = .ok (some m, d)) (h' : build inst' d₀' f' = .ok (some m', d')) :
    ∃ r r', d.arm? = some r ∧ d' = { d with payload := .arm r' } ∧
      r.ShiftedApart r' (rawShift inst 3) (rawShift inst' 3) := by
  obtain ⟨o, facts, start, r, -, ho, hfacts, hstart, hrecord, hnoted, hr, -⟩ :=
    build_some_parts h
  obtain ⟨o', facts', start', r', -, ho', hfacts', hstart', hrecord', hnoted', hr', -⟩ :=
    build_some_parts h'
  have haddrsi : Opcode.ofWord? Opcode.addrsi.word = some .addrsi := rfl
  obtain rfl : o = .addrsi := Option.some.inj (ho.symm.trans (hopcode ▸ haddrsi))
  obtain rfl : o' = .addrsi := Option.some.inj (ho'.symm.trans (hopcode' ▸ haddrsi))
  obtain rfl : facts' = facts := Option.some.inj (hfacts'.symm.trans hfacts)
  obtain rfl : start' = start := Except.ok.inj (hstart'.symm.trans hstart)
  let before : Record := { updateFlags := facts'.setsFlags }
  have hat : (Draft.ofRecord before).At .closed 0 := Draft.at_ofRecord rfl
  have halike : Alike Record.HoldsDraft (buildOperands inst before f) _ :=
    buildOperands_alike ho rfl f
  have halike' : Alike Record.HoldsDraft (buildOperands inst' before f') _ :=
    buildOperands_alike ho' rfl f'
  rw [hrecord] at halike
  rw [hrecord'] at halike'
  obtain ⟨after, hrun, hoperands, hmarks⟩ := halike.exists_right
  obtain ⟨after', hrun', hoperands', hmarks'⟩ := halike'.exists_right
  obtain ⟨d₁, ops, op, hd₁, hcommitted, rfl⟩ := run_addrsi hopcode hat hrun
  obtain ⟨d₁', ops', op', hd₁', hcommitted', rfl⟩ := run_addrsi hopcode' hat hrun'
  -- both walks come to the same draft before the shift
  rw [run_addBeforeShift_congr hopcode hopcode' hslots (g := f')] at hd₁
  obtain rfl : d₁' = d₁ := Except.ok.inj (hd₁'.symm.trans hd₁)
  obtain ⟨rfl, hop⟩ := List.append_inj' (hcommitted.symm.trans hcommitted') rfl
  cases hop
  have hapart : r.ShiftedApart r' (rawShift inst 3) (rawShift inst' 3) :=
    ⟨hmarks.trans hmarks'.symm, ops, op, hoperands, hoperands'⟩
  have hflags : r.updateFlags = r'.updateFlags := congrArg Marks.updateFlags hapart.marks
  exact ⟨r, r', hr, noteFlags_apart hflags hnoted hnoted', hapart⟩

/-- The operands of a built record have finished shifts. -/
theorem buildOperands_shifts {o : Opcode} {inst : RawInst} {before : Record}
    {features : Features} (ho : Opcode.ofWord? inst.opcode = some o)
    (hempty : before.operands.toList = [])
    (h : buildOperands inst before features = .ok r) :
    ∀ op ∈ r.operands.toList, op.shift.Finished := by
  have hends := (buildOperands_alike ho hempty features).ends
    (walk_finished ho (Draft.at_ofRecord hempty))
    (A := fun r => ∀ op ∈ r.operands.toList, op.shift.Finished)
    fun r d' hholds hfinished op hop => by
      rw [hholds.1] at hop
      obtain ⟨i, hi⟩ := List.mem_iff_getElem?.mp hop
      exact (hfinished i op hi).shift
  exact hends.of_ok h

/-- A built record with a mnemonic has finished shifts and a line. -/
theorem build_shifts_and_line {inst : RawInst} {d₀ : Detail} {features : Features}
    {m : Mnemonic} (h : build inst d₀ features = .ok (some m, d)) :
    ∃ r, d.arm? = some r ∧ (∀ op ∈ r.operands.toList, op.shift.Finished) ∧
      ∀ spelling, ∃ line, detailLine (some d) spelling = .ok line := by
  obtain ⟨o, facts, start, r, access, ho, -, -, hrecord, -, hr, haccess⟩ := build_some_parts h
  exact ⟨r, hr, buildOperands_shifts ho rfl hrecord, detailLine_total hr ⟨access, haccess⟩⟩

/-- The line of a built record shows all shifts but the rotations through the carry, so it
shows all of them exactly when there is no such rotation. Another shifted addition that
differs from this one in the packed shift alone has a record that differs in nothing but that
shift, and its line is the same exactly when the shift is or neither shift is shown, which is
where there is none or a rotation through the carry. -/
theorem shifts_shown_iff_no_rotation {inst : RawInst} {d₀ d : Detail} {f : Features}
    {m : Mnemonic} (h : build inst d₀ f = .ok (some m, d)) (spelling : RegSpelling) :
    ∃ r line, d.arm? = some r ∧ detailLine (some d) spelling = .ok line ∧
      (shiftPieces line).length + r.operands.toList.countP (·.shift.kind = some .rrx) =
        r.operands.toList.countP (·.shift.kind ≠ none) ∧
      ((shiftPieces line).length = r.operands.toList.countP (·.shift.kind ≠ none) ↔
        ∀ op ∈ r.operands.toList, op.shift.kind ≠ some .rrx) ∧
      ∀ (inst' : RawInst) (d₀' d' : Detail) (f' : Features) (m' : Mnemonic),
        inst.opcode = Opcode.addrsi.word → inst'.opcode = Opcode.addrsi.word →
        (∀ slot, slot ≠ 3 → inst.operand slot = inst'.operand slot) →
        build inst' d₀' f' = .ok (some m', d') →
          (∃ r', d'.arm? = some r' ∧
            r.ShiftedApart r' (rawShift inst 3) (rawShift inst' 3)) ∧
          (detailLine (some d') spelling = .ok line ↔
            rawShift inst 3 = rawShift inst' 3 ∨
              ((rawShift inst 3).kind = none ∨ (rawShift inst 3).kind = some .rrx) ∧
              ((rawShift inst' 3).kind = none ∨ (rawShift inst' 3).kind = some .rrx)) := by
  obtain ⟨r, hr, hshifts, hlines⟩ := build_shifts_and_line h
  obtain ⟨line, hline⟩ := hlines spelling
  have hcount : (shiftPieces line).length +
      r.operands.toList.countP (·.shift.kind = some .rrx) =
        r.operands.toList.countP (·.shift.kind ≠ none) := by
    rw [length_shiftPieces hr hline]
    exact countP_shown hshifts
  refine ⟨r, line, hr, hline, hcount, ?_, ?_⟩
  · have hnone : r.operands.toList.countP (·.shift.kind = some .rrx) = 0 ↔
        ∀ op ∈ r.operands.toList, op.shift.kind ≠ some .rrx := by
      simp [List.countP_eq_zero]
    rw [← hnone]
    omega
  · intro inst' d₀' d' f' m' hopcode hopcode' hslots h'
    obtain ⟨r₁, r', hr₁, hd', hapart⟩ := build_addrsi_apart hopcode hopcode' hslots h h'
    obtain rfl : r₁ = r := Option.some.inj (hr₁.symm.trans hr)
    have hr' : d'.arm? = some r' := by
      rw [hd']
      rfl
    refine ⟨⟨r', hr', hapart⟩, ?_⟩
    obtain ⟨-, -, -, hlines'⟩ := build_shifts_and_line h'
    obtain ⟨line', hline'⟩ := hlines' spelling
    have hshift := rawShift_finished inst 3
    have hshift' := rawShift_finished inst' 3
    rw [hline', Except.ok.injEq, ← hshift.hidden_iff, ← hshift'.hidden_iff,
      ← hapart.detailLine_eq_iff hr hd' hshift hshift' hline hline']
    exact eq_comm

end Builds

/-- An addition to `r0` of `r1` and of `r2`, which is shifted as packed. -/
def shiftedAdd (imm : Int64) : RawInst where
  opcode := Opcode.addrsi.word
  operands := ⟨[.reg 66, .reg 67, .reg 68, .imm imm, .imm 14, .reg 0, .reg 0],
    List.replicate 41 .invalid, rfl, by simp [BoundedList.maxCursor]⟩
  address := 0x1000
  mode := .arm

/-- The detail of such an addition. -/
def shiftedAddDetail (s : Shift) : Detail where
  groups := ⟨[Group.isArm.id], List.replicate 7 0, rfl, by decide⟩
  payload := .arm {
    cc := some .al
    operands := ⟨[{ value := .reg ⟨66⟩, access := .write },
      { value := .reg ⟨67⟩, access := .read },
      { value := .reg ⟨68⟩, access := .read, shift := s }], List.replicate 33 .blank, rfl, by
        simp [BoundedList.maxCursor]⟩ }

theorem operand_shiftedAdd {imm imm' : Int64} (slot : Nat) (hslot : slot ≠ 3) :
    (shiftedAdd imm).operand slot = (shiftedAdd imm').operand slot := by
  match slot with
  | 0 | 1 | 2 | 4 | 5 | 6 => rfl
  | 3 => exact absurd rfl hslot
  | n + 7 => rfl

/-- A shift by one is shown, and a rotation through the carry is told like no shift. -/
theorem shifts_shown_iff_no_rotation_adds :
    let plain := shiftedAddDetail .none
    let shifted := shiftedAddDetail ⟨some .asr, 1⟩
    let rotated := shiftedAddDetail ⟨some .rrx, 0⟩
    build (shiftedAdd 2) .arm .all = .ok (some .add, plain) ∧
    build (shiftedAdd 9) .arm .all = .ok (some .add, shifted) ∧
    build (shiftedAdd 5) .arm .all = .ok (some .add, rotated) ∧
    ∃ line line', detailLine (some shifted) .numeric = .ok line ∧
      (shiftPieces line).length = 1 ∧ detailLine (some plain) .numeric ≠ .ok line ∧
      detailLine (some rotated) .numeric = .ok line' ∧
      (shiftPieces line').length = 0 ∧ detailLine (some plain) .numeric = .ok line' := by
  intro plain shifted rotated
  have hplain : build (shiftedAdd 2) .arm .all = .ok (some .add, plain) := rfl
  have hshifted : build (shiftedAdd 9) .arm .all = .ok (some .add, shifted) := rfl
  have hrotated : build (shiftedAdd 5) .arm .all = .ok (some .add, rotated) := rfl
  obtain ⟨r, line, hr, hline, hcount, -, hother⟩ := shifts_shown_iff_no_rotation hshifted .numeric
  obtain ⟨r', line', hr', hline', hcount', -, hother'⟩ :=
    shifts_shown_iff_no_rotation hrotated .numeric
  cases hr
  cases hr'
  have hdiffer := (hother _ _ _ _ _ rfl rfl operand_shiftedAdd hplain).2
  have hsame := (hother' _ _ _ _ _ rfl rfl operand_shiftedAdd hplain).2
  refine ⟨hplain, hshifted, hrotated, line, line', hline, hcount, ?_, hline', ?_, ?_⟩
  · exact fun heq => absurd (hdiffer.mp heq) (by decide)
  · exact Nat.succ.inj hcount'
  · exact hsame.mpr (by decide)

/-- What is told of an addition with or without a rotation through the carry. -/
def addItems : List LineItem :=
  [.operandCount 3, .reg 0 ⟨66⟩, .access 0 "WRITE", .reg 1 ⟨67⟩, .access 1 "READ", .reg 2 ⟨68⟩,
    .access 2 "READ", .regsRead [⟨67⟩, ⟨68⟩], .regsWrite [⟨66⟩], .groups [Group.isArm.id]]

/-- A rotation through the carry is an operand with a shift, but no shift is shown, and the
line is that of the addition without one. -/
theorem rotated_add_shows_no_shift :
    let line := "op_count: 3 ; operands[0].type: REG = r0 ; operands[0].access: WRITE ; " ++
      "operands[1].type: REG = r1 ; operands[1].access: READ ; " ++
      "operands[2].type: REG = r2 ; operands[2].access: READ ; " ++
      "Registers read: r1 r2 ; Registers modified: r0 ; Groups: IsARM ;"
    let plain := shiftedAddDetail .none
    let rotated := shiftedAddDetail ⟨some .rrx, 0⟩
    build (shiftedAdd 2) .arm .all = .ok (some .add, plain) ∧
    build (shiftedAdd 5) .arm .all = .ok (some .add, rotated) ∧
    detailLine (some plain) .conventional = .ok line ∧
    detailLine (some rotated) .conventional = .ok line ∧
    (shiftPieces line).length = 0 ∧
    rotated.arm?.map (·.operands.toList.countP (·.shift.kind ≠ none)) = some 1 := by
  intro line plain rotated
  have htext : joinItems (addItems.map (·.text .conventional)) = line := by decide +kernel
  have hline {s : Shift} (hitems : lineItems (shiftedAddDetail s) = .ok addItems) :
      detailLine (some (shiftedAddDetail s)) .conventional = .ok line := by
    simp only [detailLine, hitems, Except.map, htext]
  have hrotated := hline (s := ⟨some .rrx, 0⟩) rfl
  have hcount := length_shiftPieces rfl hrotated
  exact ⟨rfl, rfl, hline rfl, hrotated, hcount, rfl⟩

end Disassembly.Arm
