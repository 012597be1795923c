import Disassembly.Json.Document
import Disassembly.Proofs.Json.Tokens

/-!
# Written values are read back

The text of a value with whole arrays and objects is read as the value. Reading goes along
with a stack of open containers, so the induction is over the value with any containers open
around it and any text after it.
-/

namespace Disassembly.Json

open Token

/-- Values that their text determines: arrays and objects are whole, and integers have 64
bits. -/
inductive Settled : Json → Prop
  | null : Settled .null
  | bool (b : Bool) : Settled (.bool b)
  | int {n : Int} (hn : IsWord64 n) : Settled (.int n)
  | real : Settled .real
  | str (s : String) : Settled (.str s)
  | garbled : Settled .garbled
  | arr {items : List Json} (h : ∀ v ∈ items, Settled v) : Settled (.arr items true)
  | obj {members : List (Option String × Json)} (h : ∀ m ∈ members, Settled m.2) :
      Settled (.obj members true)

/-- The characters of an item with a comma before it. -/
def itemText (v : Json) : List Char := ',' :: chars v

theorem itemChars_cons (v : Json) (rest : List Json) :
    itemChars (v :: rest) = chars v ++ rest.flatMap itemText := by
  induction rest generalizing v with
  | nil => rw [itemChars, List.flatMap_nil, List.append_nil]
  | cons w rest ih =>
      calc itemChars (v :: w :: rest)
        _ = chars v ++ ',' :: itemChars (w :: rest) := rfl
        _ = chars v ++ ',' :: (chars w ++ rest.flatMap itemText) := by rw [ih]
        _ = chars v ++ (w :: rest).flatMap itemText := by
          rw [List.flatMap_cons, itemText, List.cons_append]

/-- The characters of a member. -/
def memberText (m : Option String × Json) : List Char := keyText m.1 ++ ':' :: chars m.2

theorem memberChars_cons (m : Option String × Json) (rest : List (Option String × Json)) :
    memberChars (m :: rest) = memberText m ++ rest.flatMap fun m => ',' :: memberText m := by
  induction rest generalizing m with
  | nil =>
      rw [List.flatMap_nil, List.append_nil]
      rfl
  | cons w rest ih =>
      calc memberChars (m :: w :: rest)
        _ = memberText m ++ ',' :: memberChars (w :: rest) := rfl
        _ = memberText m ++ ',' :: (memberText w ++ rest.flatMap fun m => ',' :: memberText m) :=
          by rw [ih]
        _ = memberText m ++ (w :: rest).flatMap fun m => ',' :: memberText m := by
          rw [List.flatMap_cons, List.cons_append]

/-- A value can be put into the innermost open container, or stands alone. -/
def TakesValue : List Frame → Prop
  | .obj _ :: _ => False
  | _ => True

/-- What is read once a value is complete inside of the open containers. -/
def readOn (v : Json) : List Frame → List Token → Document
  | [], tokens => ⟨some v, tokens.isEmpty⟩
  | .arr items :: frames, tokens => readFrom .separator (.arr (v :: items) :: frames) tokens
  | .member members key :: frames, tokens =>
      readFrom .separator (.obj ((key, v) :: members) :: frames) tokens
  | .obj members :: frames, _ => ⟨abandon none (.obj members :: frames), false⟩

/-- A place where a value may start. -/
def Place.StartsValue (place : Place) : Prop := place = .value ∨ place = .valueOrClose

section Read
variable {place : Place} {frames : List Frame} {tokens : List Token} {rest : List Char}

/-- A token that completes a value. -/
theorem readFrom_give {outer : List Frame} {token : Token} {v : Json}
    (hframes : TakesValue outer)
    (hstep : Progress.step place frames token = Progress.give v outer) :
    readFrom place frames (token :: tokens) = readOn v outer tokens := by
  rw [readFrom, hstep]
  cases outer with
  | nil => rfl
  | cons frame outer =>
      cases frame with
      | arr items => rfl
      | member members key => rfl
      | obj members => exact hframes.elim

/-- A token that is no closing bracket starts a value. -/
theorem step_start (token : Token) (hplace : place.StartsValue) (htoken : token ≠ .closeArr) :
    Progress.step place frames token = Progress.start frames token := by
  rcases hplace with rfl | rfl
  · rfl
  · cases frames with
    | nil => rfl
    | cons frame outer =>
        -- only an open array is closed by its bracket
        cases frame with
        | arr items =>
            cases token with
            | closeArr => exact absurd rfl htoken
            | _ => rfl
        | member members key => rfl
        | obj members => rfl

/-- What the text of a value is read as: the value, put into the open containers. -/
def ReadsBack (v : Json) : Prop :=
  ∀ place frames rest, place.StartsValue → TakesValue frames → Delimited rest →
    readFrom place frames (scan (chars v ++ rest)) = readOn v frames (scan rest)

/-- The characters of further items end with what closes the array or start with a comma. -/
theorem delimited_items (items : List Json) (rest : List Char) :
    Delimited (items.flatMap itemText ++ ']' :: rest) := by
  cases items with
  | nil => exact .inr (.inl rfl)
  | cons v items => exact .inl rfl

/-- An open array takes in its further items. -/
theorem readFrom_items {items : List Json} (hitems : ∀ v ∈ items, ReadsBack v)
    (hframes : TakesValue frames) (done : List Json) :
    readFrom .separator (.arr done :: frames) (scan (items.flatMap itemText ++ ']' :: rest)) =
      readOn (.arr (done.reverse ++ items) true) frames (scan rest) := by
  induction items generalizing done with
  | nil =>
      rw [List.flatMap_nil, List.nil_append, scan_closeArr, List.append_nil]
      exact readFrom_give hframes rfl
  | cons v items ih =>
      have hrest := ih (fun w hw => hitems w (List.mem_cons_of_mem v hw)) (v :: done)
      rw [List.reverse_cons, List.append_assoc, List.singleton_append] at hrest
      have hitem := hitems v List.mem_cons_self .value (.arr done :: frames) _ (.inl rfl)
        trivial (delimited_items items rest)
      rw [List.flatMap_cons, itemText, List.append_assoc, List.cons_append, scan_comma]
      exact hitem.trans hrest

/-- An array of values that are read back is read back. -/
theorem ReadsBack.arr {items : List Json} (hitems : ∀ v ∈ items, ReadsBack v) :
    ReadsBack (.arr items true) := by
  intro place frames rest hplace hframes hrest
  have hopen (tokens : List Token) : readFrom place frames (.openArr :: tokens) =
      readFrom .valueOrClose (.arr [] :: frames) tokens := by
    rw [readFrom, step_start .openArr hplace nofun]
    rfl
  have hchars : chars (.arr items true) ++ rest = '[' :: (itemChars items ++ ']' :: rest) := by
    simp only [chars, if_true, List.append_assoc, List.cons_append, List.nil_append]
  rw [hchars, scan_openArr, hopen]
  cases items with
  | nil =>
      rw [itemChars, List.nil_append, scan_closeArr]
      exact readFrom_give hframes rfl
  | cons v items =>
      have hfirst := hitems v List.mem_cons_self .valueOrClose (.arr [] :: frames) _ (.inr rfl)
        trivial (delimited_items items rest)
      rw [itemChars_cons, List.append_assoc]
      exact hfirst.trans
        (readFrom_items (fun w hw => hitems w (List.mem_cons_of_mem v hw)) hframes [v])

/-- A place where a key may stand. -/
def Place.StartsKey (place : Place) : Prop := place = .key ∨ place = .keyOrClose

/-- A key and the colon after it. -/
theorem readFrom_key (hplace : place.StartsKey) (members : List (Option String × Json))
    (key : Option String) :
    readFrom place (.obj members :: frames) (scan (keyText key ++ ':' :: rest)) =
      readFrom .value (.member members key :: frames) (scan rest) := by
  cases key with
  | none =>
      have hkey : keyText none = garbledText := rfl
      rw [hkey, scan_garbled, scan_colon]
      rcases hplace with rfl | rfl <;> rfl
  | some s =>
      have hkey : keyText (some s) = quoted s := rfl
      rw [hkey, scan_quoted, scan_colon]
      rcases hplace with rfl | rfl <;> rfl

theorem readFrom_member {m : Option String × Json} (hm : ReadsBack m.2)
    (hplace : place.StartsKey) (hrest : Delimited rest) (done : List (Option String × Json)) :
    readFrom place (.obj done :: frames) (scan (memberText m ++ rest)) =
      readFrom .separator (.obj (m :: done) :: frames) (scan rest) := by
  rw [memberText, List.append_assoc, List.cons_append, readFrom_key hplace]
  exact hm .value (.member done m.1 :: frames) rest (.inl rfl) trivial hrest

/-- The characters of further members end with what closes the object or start with a
comma. -/
theorem delimited_members (members : List (Option String × Json)) (rest : List Char) :
    Delimited ((members.flatMap fun m => ',' :: memberText m) ++ '\x7d' :: rest) := by
  cases members with
  | nil => exact .inr (.inr rfl)
  | cons m members => exact .inl rfl

/-- An open object takes in its further members. -/
theorem readFrom_members {members : List (Option String × Json)}
    (hmembers : ∀ m ∈ members, ReadsBack m.2) (hframes : TakesValue frames)
    (done : List (Option String × Json)) :
    readFrom .separator (.obj done :: frames)
        (scan ((members.flatMap fun m => ',' :: memberText m) ++ '\x7d' :: rest)) =
      readOn (.obj (done.reverse ++ members) true) frames (scan rest) := by
  induction members generalizing done with
  | nil =>
      rw [List.flatMap_nil, List.nil_append, scan_closeObj, List.append_nil]
      exact readFrom_give hframes rfl
  | cons m members ih =>
      have hrest := ih (fun w hw => hmembers w (List.mem_cons_of_mem m hw)) (m :: done)
      rw [List.reverse_cons, List.append_assoc, List.singleton_append] at hrest
      rw [List.flatMap_cons, List.append_assoc, List.cons_append, scan_comma]
      exact (readFrom_member (hmembers m List.mem_cons_self) (.inl rfl)
        (delimited_members members rest) done).trans hrest

/-- An object whose members are read back is read back. -/
theorem ReadsBack.obj {members : List (Option String × Json)}
    (hmembers : ∀ m ∈ members, ReadsBack m.2) : ReadsBack (.obj members true) := by
  intro place frames rest hplace hframes hrest
  have hopen (tokens : List Token) : readFrom place frames (.openObj :: tokens) =
      readFrom .keyOrClose (.obj [] :: frames) tokens := by
    rw [readFrom, step_start .openObj hplace nofun]
    rfl
  have hchars : chars (.obj members true) ++ rest =
      '\x7b' :: (memberChars members ++ '\x7d' :: rest) := by
    simp only [chars, if_true, List.append_assoc, List.cons_append, List.nil_append]
  rw [hchars, scan_openObj, hopen]
  cases members with
  | nil =>
      rw [memberChars, List.nil_append, scan_closeObj]
      exact readFrom_give hframes rfl
  | cons m members =>
      rw [memberChars_cons, List.append_assoc]
      refine (readFrom_member (hmembers m List.mem_cons_self) (.inr rfl)
        (delimited_members members rest) []).trans ?_
      exact readFrom_members (fun w hw => hmembers w (List.mem_cons_of_mem m hw)) hframes [m]

end Read

end Disassembly.Json
