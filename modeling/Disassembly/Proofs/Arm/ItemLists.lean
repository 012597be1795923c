import Disassembly.Arm.Line
import Disassembly.Proofs.Numeral

/-!
# Items of a line are told apart

Texts that are joined into a line can be found again in it, as long as none of them has a
semicolon in it. So can words in a listing, each of which follows a blank.
-/

namespace Disassembly.Arm

section Lists
variable {α : Type} {c : α} {ps qs : List (List α)}

/-- What stands before the first of an element and what stands behind it are known. -/
theorem append_cons_inj {p q s t : List α} (hp : c ∉ p) (hq : c ∉ q)
    (h : p ++ c :: s = q ++ c :: t) : p = q ∧ s = t := by
  induction p generalizing q with
  | nil =>
      cases q with
      | nil => exact ⟨rfl, List.tail_eq_of_cons_eq h⟩
      | cons b q =>
          obtain rfl := List.head_eq_of_cons_eq h
          exact absurd List.mem_cons_self hq
  | cons a p ih =>
      cases q with
      | nil =>
          obtain rfl := List.head_eq_of_cons_eq h
          exact absurd List.mem_cons_self hp
      | cons b q =>
          obtain ⟨rfl, hrest⟩ := List.cons_eq_cons.mp h
          obtain ⟨rfl, rfl⟩ := ih (List.not_mem_of_not_mem_cons hp)
            (List.not_mem_of_not_mem_cons hq) hrest
          exact ⟨rfl, rfl⟩

/-- Pieces that are each closed by an element that none of them has are known by the whole. -/
theorem flatMap_closed_injective (hps : ∀ p ∈ ps, c ∉ p) (hqs : ∀ q ∈ qs, c ∉ q)
    (h : ps.flatMap (· ++ [c]) = qs.flatMap (· ++ [c])) : ps = qs := by
  induction ps generalizing qs with
  | nil =>
      cases qs with
      | nil => rfl
      | cons q qs => simp at h
  | cons p ps ih =>
      cases qs with
      | nil => simp at h
      | cons q qs =>
          simp only [List.flatMap_cons, List.append_assoc, List.singleton_append] at h
          obtain ⟨rfl, hrest⟩ :=
            append_cons_inj (hps p List.mem_cons_self) (hqs q List.mem_cons_self) h
          obtain rfl := ih (fun p hp => hps p (List.mem_cons_of_mem _ hp))
            (fun q hq => hqs q (List.mem_cons_of_mem _ hq)) hrest
          rfl

/-- So are pieces that are each opened by it. -/
theorem flatMap_opened_injective (hps : ∀ p ∈ ps, c ∉ p) (hqs : ∀ q ∈ qs, c ∉ q)
    (h : ps.flatMap (c :: ·) = qs.flatMap (c :: ·)) : ps = qs := by
  have hclosed (ps : List (List α)) :
      ps.flatMap (c :: ·) ++ [c] = c :: ps.flatMap (· ++ [c]) := by
    induction ps with
    | nil => rfl
    | cons p ps ih => simp [ih]
  apply flatMap_closed_injective hps hqs
  have hlists := congrArg (· ++ [c]) h
  simp only [hclosed, List.cons.injEq, true_and] at hlists
  exact hlists

/-- What is made of the elements alone does not depend on their positions. -/
theorem flatMap_zipIdx {β : Type} (l : List α) (f : α → List β) :
    (l.zipIdx.flatMap fun p => f p.1) = l.flatMap f := by
  rw [← List.flatMap_map Prod.fst f, List.zipIdx_map_fst]

end Lists

/-- A text between blanks. -/
def between (text : String) : List Char := ' ' :: text.toList ++ [' ']

/-- With a blank before it, a line is its texts, each between blanks and closed by a
semicolon. -/
theorem toList_joinItems (t : String) (texts : List String) :
    ' ' :: (joinItems (t :: texts)).toList =
      ((t :: texts).map between).flatMap (· ++ [';']) := by
  induction texts generalizing t with
  | nil => simp [joinItems, between]
  | cons u rest ih =>
      have hrest := ih u
      simp only [joinItems, List.isEmpty_cons, Bool.false_eq_true, if_false,
        String.intercalate_cons_cons, String.toList_append] at hrest ⊢
      rw [List.map_cons, List.flatMap_cons, ← hrest]
      simp [between]

/-- The texts of a line are known by it. -/
theorem joinItems_injective {ts us : List String} (hts : ∀ t ∈ ts, ';' ∉ t.toList)
    (hus : ∀ u ∈ us, ';' ∉ u.toList) (h : joinItems ts = joinItems us) : ts = us := by
  have hend (t : String) (texts : List String) : joinItems (t :: texts) ≠ joinItems [] := by
    intro hempty
    have hlist := toList_joinItems t texts
    rw [hempty] at hlist
    simp [between, joinItems] at hlist
  cases ts with
  | nil =>
      cases us with
      | nil => rfl
      | cons u us => exact absurd h.symm (hend u us)
  | cons t ts =>
      cases us with
      | nil => exact absurd h (hend t ts)
      | cons u us =>
          have hclean {texts : List String} (htexts : ∀ t ∈ texts, ';' ∉ t.toList) :
              ∀ p ∈ texts.map between, ';' ∉ p := by
            intro p hp
            obtain ⟨t, ht, rfl⟩ := List.mem_map.mp hp
            simpa [between] using htexts t ht
          have hlists := congrArg (fun line => ' ' :: line.toList) h
          simp only [toList_joinItems] at hlists
          have hmap := flatMap_closed_injective (hclean hts) (hclean hus) hlists
          refine (List.map_inj_right ?_).mp hmap
          intro t u htu
          apply String.toList_inj.mp
          simpa [between] using htu

/-- What is listed by words is known by the listing. -/
theorem listing_injective {ι : Type} {label : ι → String} {heading : String} {as bs : List ι}
    (hlabel : ∀ a b, label a = label b → a = b) (hword : ∀ a, IsWord (label a))
    (h : LineItem.listing heading (as.map label) = LineItem.listing heading (bs.map label)) :
    as = bs := by
  have hclean (as : List ι) : ∀ p ∈ as.map fun a => (label a).toList, ' ' ∉ p := by
    intro p hp
    obtain ⟨a, -, rfl⟩ := List.mem_map.mp hp
    exact (hword a).notMem (by decide)
  have hlists := congrArg String.toList h
  simp only [LineItem.listing, String.toList_append, String.toList_join,
    List.append_cancel_left_eq] at hlists
  have hopened (as : List ι) : ((as.map label).map (" " ++ ·)).flatMap String.toList =
      (as.map fun a => (label a).toList).flatMap (' ' :: ·) := by
    rw [List.map_map, List.flatMap_map, List.flatMap_map]
    simp
  rw [hopened, hopened] at hlists
  have hmap := flatMap_opened_injective (hclean as) (hclean bs) hlists
  exact (List.map_inj_right fun a b hab => hlabel a b (String.toList_inj.mp hab)).mp hmap

end Disassembly.Arm
