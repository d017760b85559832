import Attest.Proofs.Json.Layout

/-!
The text that is written for a value is one of the texts of the value, so that the draft which a reader gets from it is
the draft of the value.
-/

namespace Attest.Json

open Ascii (byte)

/-! ### Numerals -/

/-- The characters of a numeral with its sign. -/
theorem Numeral.mem_text {n : Numeral} (hn : n.Proper) {negative : Bool} {c : Char}
    (hc : c ∈ signText negative ++ n.text) : c.isDigit = true ∨ c ∈ ['-', '+', '.', 'e'] := by
  rcases List.mem_append.mp hc with hsign | hc
  · rw [signText] at hsign
    split at hsign
    · rw [List.mem_singleton.mp hsign]
      decide
    · cases hsign
  rcases List.mem_append.mp hc with hwhole | hc
  · exact .inl (hn.whole c hwhole)
  rcases List.mem_append.mp hc with hfraction | hexponent
  · rw [fractionText] at hfraction
    split at hfraction
    · cases hfraction
    · rcases List.mem_cons.mp hfraction with rfl | hdigit
      · decide
      · exact .inl (hn.fraction c hdigit)
  · rw [exponentText] at hexponent
    cases he : n.exponent with
    | none =>
        rw [he] at hexponent
        cases hexponent
    | some e =>
        rw [he, Option.elim_some] at hexponent
        rcases List.mem_cons.mp hexponent with rfl | hexponent
        · decide
        rcases List.mem_cons.mp hexponent with rfl | hdigit
        · split <;> decide
        · exact .inl ((hn.exponent e he).2 c hdigit)

theorem Numeral.ascii_text {n : Numeral} (hn : n.Proper) (negative : Bool) :
    ∀ c ∈ signText negative ++ n.text, c.toNat < 128 := by
  intro c hc
  rcases n.mem_text hn hc with hdigit | hmark
  · exact Ascii.lt_of_isDigit hdigit
  · exact Ascii.forall_mem_of_all (·.toNat < 128) (by decide) c hmark

theorem Numeral.exists_head {n : Numeral} (hn : n.Proper) (negative : Bool) :
    ∃ (c : Char) (rest : List Char), signText negative ++ n.text = c :: rest ∧ (c = '-' ∨ c.isDigit = true) := by
  rw [← n.text_literal]
  exact Literal.exists_head hn

theorem ofChars_ascii_cons {c : Char} (hc : c.toNat < 128) (cs : List Char) :
    Bytes.ofChars (c :: cs) = byte c :: Bytes.ofChars cs := by
  rw [Bytes.ofChars_cons, Ascii.utf8EncodeChar_ascii hc]
  rfl

/-! ### Written values -/

/-- A numeral is a text of the number that it stands for. -/
theorem writes_numeral {negative : Bool} {n : Numeral} (hn : n.Proper) {x : Number} (hx : n.number? negative = some x) :
    Writes (.number x) (Bytes.ofChars (signText negative ++ n.text)) := by
  rw [Ascii.ofChars_ascii (n.ascii_text hn negative), ← n.text_literal]
  exact .number hn hx

/-- What is written for a number is a literal of it. -/
theorem writes_number (x : Number) : Writes (.number x) (Bytes.ofChars x.text) := by
  obtain ⟨negative, n, hn, htext, hvalue⟩ := x.exists_numeral
  rw [htext]
  exact writes_numeral hn hvalue

/-- The texts of what a list is mapped to. -/
theorem WritesList.map {α β : Type} {writes : β → Bytes → Prop} {f : α → β} {xs : List α} {text : Bytes}
    (h : WritesList (fun x => writes (f x)) xs text) : WritesList writes (xs.map f) text := by
  induction h with
  | none hinside => exact .none hinside
  | last hbefore hx hafter => exact .last hbefore hx hafter
  | more hbefore hx hafter _ ih => exact .more hbefore hx hafter ih

/-- Texts separated by commas are a text of the list. -/
theorem writesList_separated {α : Type} {writes : α → Bytes → Prop} {chars : α → List Char} (xs : List α)
    (h : ∀ x ∈ xs, writes x (Bytes.ofChars (chars x))) :
    WritesList writes xs (Bytes.ofChars (separated (xs.map chars))) := by
  induction xs with
  | nil => exact .none blank_nil
  | cons x xs ih =>
      rw [List.forall_mem_cons] at h
      cases xs with
      | nil =>
          have hlast := WritesList.last blank_nil h.1 blank_nil
          rwa [List.nil_append, List.append_nil] at hlast
      | cons y ys =>
          have hmore := WritesList.more blank_nil h.1 blank_nil (ih h.2)
          show WritesList writes (x :: y :: ys) (Bytes.ofChars (chars x ++ ',' :: separated ((y :: ys).map chars)))
          rw [Bytes.ofChars_append, ofChars_ascii_cons (by decide)]
          exact hmore

theorem charsItems_eq_map (items : List Value) : Value.charsItems items = items.map Value.chars := by
  induction items with
  | nil => rfl
  | cons item items ih => rw [Value.charsItems, List.map_cons, ih]

theorem charsMembers_eq_map (members : List (String × Value)) :
    Value.charsMembers members = members.map fun member => (stringText member.1, member.2.chars) := by
  induction members with
  | nil => rfl
  | cons member members ih =>
      obtain ⟨name, v⟩ := member
      rw [Value.charsMembers, Value.charsMember, List.map_cons, ih]

/-- A quoted name with a text of a value behind it is a text of the member. -/
theorem writesMember_stringText (name : String) {v : Value} {text : List Char} (h : Writes v (Bytes.ofChars text)) :
    WritesMember Writes (name, v) (Bytes.ofChars (stringText name ++ ':' :: text)) := by
  rw [Bytes.ofChars_append, ofChars_ascii_cons (by decide)]
  exact .pair (writesString_stringText name) blank_nil blank_nil h

/-- Items between brackets are a text of the array. -/
theorem writes_arrayText {α : Type} {f : α → Value} {chars : α → List Char} (xs : List α)
    (h : ∀ x ∈ xs, Writes (f x) (Bytes.ofChars (chars x))) :
    Writes (.array (xs.map f)) (Bytes.ofChars (arrayText (xs.map chars))) := by
  have hitems := Writes.array (writesList_separated xs h).map
  rw [arrayText, List.cons_append, ofChars_ascii_cons (by decide), Bytes.ofChars_append,
    ofChars_ascii_cons (by decide)]
  exact hitems

/-- Members between braces are a text of the object. -/
theorem writes_objectText {f : String × Value → Value} {chars : String × Value → List Char}
    (members : List (String × Value)) (h : ∀ member ∈ members, Writes (f member) (Bytes.ofChars (chars member))) :
    Writes (.object (members.map fun member => (member.1, f member)))
      (Bytes.ofChars (objectText (members.map fun member => (stringText member.1, chars member)))) := by
  have hmember : ∀ member ∈ members, (fun member => WritesMember Writes (member.1, f member)) member
      (Bytes.ofChars (stringText member.1 ++ ':' :: chars member)) :=
    fun member hmember => writesMember_stringText member.1 (h member hmember)
  have hmembers := Writes.object (writesList_separated members hmember).map
  rw [objectText, List.map_map, List.cons_append, ofChars_ascii_cons (by decide), Bytes.ofChars_append,
    ofChars_ascii_cons (by decide)]
  exact hmembers

/-- What is written for a value is one of its texts. -/
theorem writes_chars (v : Value) : Writes v (Bytes.ofChars v.chars) := by
  induction v using Value.nestedRec with
  | null =>
      rw [Value.chars, Ascii.ofChars_ascii (Ascii.forall_mem_of_all _ (by decide))]
      exact .null
  | bool b =>
      have hascii : ∀ c ∈ boolText b, c.toNat < 128 := by cases b <;> simp [boolText]
      rw [Value.chars, Ascii.ofChars_ascii hascii]
      exact .bool b
  | number x => exact writes_number x
  | string s => exact .string (writesString_stringText s)
  | array items ih =>
      have hitems := writes_arrayText items ih
      rw [List.map_id'] at hitems
      rwa [Value.chars, charsItems_eq_map]
  | object members ih =>
      have hmembers := writes_objectText members ih
      rw [List.map_id'] at hmembers
      rwa [Value.chars, charsMembers_eq_map]

theorem writesText_bytes (v : Value) : WritesText v v.bytes := by
  have htext := WritesText.around blank_nil (writes_chars v) blank_nil
  rwa [List.nil_append, List.append_nil] at htext

/-- The text of a value is read whole. -/
theorem scan_bytes (v : Value) : scan v.bytes = (v.draft, false) := scan_of_writesText (writesText_bytes v)

/-- The names under which a text lists the members of its object. -/
def listedNames (text : Bytes) : List (Except Error String) :=
  match (scan text).1 with
  | .object members _ => members.map Prod.fst
  | _ => []

/-- Members are listed as they are given, also where names are repeated. -/
theorem listedNames_bytes (members : List (String × Value)) :
    listedNames (Value.object members).bytes = (members.map Prod.fst).map .ok := by
  have hname (member : String × Value) : (draftMember member).1 = .ok member.1 := by rw [draftMember]
  rw [listedNames, scan_bytes, Value.draft, draftMembers_eq_map]
  simp only [List.map_map, Function.comp_def, hname]

end Attest.Json
