import Attest.Proofs.Json.Unambiguous
import Mathlib.Data.List.Forall2

/-!
The order of members in canonical texts. The text of a value lists the members of every object, each once, in the
ascending order of their names as they stand in the text, with quotes and escapes, and outside of strings it has no
white space. The code units of the names in UTF-16 put them into the same order if the names are of plain characters.
They need not if a name has a character below the quote that closes it, one that is escaped or one of two code units.
-/

namespace Attest.Json

/-! ### Orders of names -/

/-- The code units of a text in UTF-16. -/
def utf16 (s : String) : List Nat := s.toList.flatMap codeUnits

/-- The order of names as they stand in a text. -/
def QuotedBefore (a b : String) : Prop := nameText a < nameText b

/-- The order of names by code units. -/
def UnitsBefore (a b : String) : Prop := utf16 a < utf16 b

/-- A character of one code unit that follows the quote and stands for itself in a string. -/
def PlainChar (c : Char) : Prop := '"'.toNat < c.toNat ∧ c ≠ '\\' ∧ c.toNat < 0x10000

instance (c : Char) : Decidable (PlainChar c) :=
  inferInstanceAs (Decidable ('"'.toNat < c.toNat ∧ c ≠ '\\' ∧ c.toNat < 0x10000))

/-- A name of plain characters. -/
def PlainName (name : String) : Prop := ∀ c ∈ name.toList, PlainChar c

theorem PlainChar.escapedChar {c : Char} (h : PlainChar c) : escapedChar c = [c] := by
  obtain ⟨hquote, hbackslash, -⟩ := h
  have hquoted : c ≠ '"' := by
    rintro rfl
    exact Nat.lt_irrefl _ hquote
  have hlow (n : Nat) (hn : n < 34) : c.toNat ≠ n := by
    have hvalue : '"'.toNat = 34 := rfl
    omega
  have hcontrol : ¬ c.toNat < 0x20 := by
    have hvalue : '"'.toNat = 34 := rfl
    omega
  rw [Json.escapedChar, if_neg hquoted, if_neg hbackslash, if_neg (hlow 8 (by decide)), if_neg (hlow 9 (by decide)),
    if_neg (hlow 10 (by decide)), if_neg (hlow 12 (by decide)), if_neg (hlow 13 (by decide)), if_neg hcontrol]

theorem PlainName.nameText {name : String} (h : PlainName name) :
    (nameText name).toList = '"' :: (name.toList ++ ['"']) := by
  have hchars (cs : List Char) (hcs : ∀ c ∈ cs, PlainChar c) : cs.flatMap escapedChar = cs := by
    induction cs with
    | nil => rfl
    | cons c cs ih =>
        rw [List.forall_mem_cons] at hcs
        rw [List.flatMap_cons, hcs.1.escapedChar, ih hcs.2, List.singleton_append]
  rw [Json.nameText, String.toList_ofList, stringText, hchars _ h, List.cons_append]

theorem PlainName.utf16 {name : String} (h : PlainName name) : utf16 name = name.toList.map Char.toNat := by
  have hchars (cs : List Char) (hcs : ∀ c ∈ cs, PlainChar c) : cs.flatMap codeUnits = cs.map Char.toNat := by
    induction cs with
    | nil => rfl
    | cons c cs ih =>
        rw [List.forall_mem_cons] at hcs
        rw [List.flatMap_cons, codeUnits, if_pos hcs.1.2.2, ih hcs.2, List.singleton_append, List.map_cons]
  exact hchars _ h

/-- The closing quote sorts before plain characters, as the end of a name does. -/
theorem map_lt_of_closed_lt {cs ds : List Char} (hcs : ∀ c ∈ cs, PlainChar c)
    (h : cs ++ ['"'] < ds ++ ['"']) : cs.map Char.toNat < ds.map Char.toNat := by
  induction cs generalizing ds with
  | nil =>
      cases ds with
      | nil => exact absurd h (List.lt_irrefl _)
      | cons d ds => exact List.nil_lt_cons _ _
  | cons c cs ih =>
      rw [List.forall_mem_cons] at hcs
      cases ds with
      | nil =>
          rcases List.cons_lt_cons_iff.mp h with hlt | ⟨rfl, -⟩
          · exact absurd hcs.1.1 (Nat.not_lt.mpr (Nat.le_of_lt hlt))
          · exact absurd hcs.1.1 (Nat.lt_irrefl _)
      | cons d ds =>
          rw [List.map_cons, List.map_cons, List.cons_lt_cons_iff]
          rcases List.cons_lt_cons_iff.mp h with hlt | ⟨rfl, hrest⟩
          · exact .inl hlt
          · exact .inr ⟨rfl, ih hcs.2 hrest⟩

/-- Plain names have the same order with their quotes and by code units. -/
theorem PlainName.unitsBefore {a b : String} (ha : PlainName a) (hb : PlainName b) (h : QuotedBefore a b) :
    UnitsBefore a b := by
  rw [QuotedBefore, String.lt_iff, ha.nameText, hb.nameText] at h
  rw [UnitsBefore, ha.utf16, hb.utf16]
  rcases List.cons_lt_cons_iff.mp h with hlt | ⟨-, hrest⟩
  · exact absurd hlt (Char.lt_irrefl _)
  · exact map_lt_of_closed_lt ha hrest

/-! ### Listings -/

/-- A text lists a value under an order of names: of every object each member once, in strictly ascending order, and
the items of arrays in their order. -/
inductive Listing (before : String → String → Prop) : Value → List Char → Prop
  | null : Listing before .null nullText
  | bool (b : Bool) : Listing before (.bool b) (boolText b)
  | number (n : Number) : Listing before (.number n) n.canonicalText
  | string (s : String) : Listing before (.string s) (stringText s)
  | array {items : List Value} {texts : List (List Char)} (hitems : List.Forall₂ (Listing before) items texts) :
      Listing before (.array items) (arrayText texts)
  | object {members listed : List (String × Value)} {texts : List (List Char)}
      (hperm : listed.Perm (Dict.ofList members)) (hsorted : listed.Pairwise fun a b => before a.1 b.1)
      (hvalues : List.Forall₂ (Listing before) (listed.map Prod.snd) texts) :
      Listing before (.object members) (objectText ((listed.map fun member => stringText member.1).zip texts))

/-- All names in a value, at every depth, are of a kind. -/
inductive NamesIn (P : String → Prop) : Value → Prop
  | null : NamesIn P .null
  | bool (b : Bool) : NamesIn P (.bool b)
  | number (n : Number) : NamesIn P (.number n)
  | string (s : String) : NamesIn P (.string s)
  | array {items : List Value} (hitems : ∀ item ∈ items, NamesIn P item) : NamesIn P (.array items)
  | object {members : List (String × Value)} (hnames : ∀ member ∈ members, P member.1)
      (hmembers : ∀ member ∈ members, NamesIn P member.2) : NamesIn P (.object members)

theorem namesIn_of_forall {P : String → Prop} (h : ∀ name, P name) (v : Value) : NamesIn P v := by
  induction v using Value.nestedRec with
  | null => exact .null
  | bool b => exact .bool b
  | number n => exact .number n
  | string s => exact .string s
  | array items ih => exact .array ih
  | object members ih => exact .object (fun member _ => h member.1) ih

theorem canonicalItems_eq_map (items : List Value) :
    Value.canonicalItems items = items.map Value.canonicalChars := by
  induction items with
  | nil => rfl
  | cons item items ih => rw [Value.canonicalItems, ih, List.map_cons]

/-- A canonical text lists its value under every order that follows from that of the quoted names. -/
theorem listing_canonicalChars {P : String → Prop} {before : String → String → Prop}
    (hbefore : ∀ {a b}, P a → P b → QuotedBefore a b → before a b) (v : Value) (hv : NamesIn P v) :
    Listing before v v.canonicalChars := by
  induction v using Value.nestedRec with
  | null => exact .null
  | bool b => exact .bool b
  | number n => exact .number n
  | string s => exact .string s
  | array items ih =>
      cases hv with
      | array hitems =>
          rw [Value.canonicalChars, canonicalItems_eq_map]
          refine .array (List.forall₂_map_right_iff.mpr (List.forall₂_same.mpr fun item hitem => ?_))
          exact ih item hitem (hitems item hitem)
  | object members ih =>
      cases hv with
      | object hnames hmembers =>
          obtain ⟨listed, htext, hsorted, hperm⟩ := exists_listing members
          have hmem {member : String × Value} (hmember : member ∈ listed) : member ∈ members :=
            Dict.mem_of_mem_ofList (hperm.mem_iff.mp hmember)
          rw [htext, ← List.zip_map']
          refine .object hperm (hsorted.imp_of_mem fun ha hb hab => ?_) ?_
          · exact hbefore (hnames _ (hmem ha)) (hnames _ (hmem hb)) hab
          · rw [List.forall₂_map_left_iff, List.forall₂_map_right_iff, List.forall₂_same]
            exact fun member hmember => ih member (hmem hmember) (hmembers member (hmem hmember))

/-! ### White space -/

/-- Where one is in a text, as far as strings go. -/
inductive Place
  | outside
  | inside
  /-- After a backslash in a string. -/
  | escaped

/-- The characters of a text that stand outside of strings, from a place on. -/
def unquoted : Place → List Char → List Char
  | _, [] => []
  | .outside, c :: text => if c = '"' then unquoted .inside text else c :: unquoted .outside text
  | .inside, c :: text =>
    if c = '"' then unquoted .outside text
    else if c = '\\' then unquoted .escaped text
    else unquoted .inside text
  | .escaped, _ :: text => unquoted .inside text

/-- The characters that are white space in a text. -/
def blanks : List Char := [' ', '\t', '\n', '\r']

/-- A text that ends outside of strings, as it starts, and has no white space there. -/
def Unspaced (text : List Char) : Prop :=
  ∃ marks, (∀ c ∈ marks, c ∉ blanks) ∧
    ∀ rest, unquoted .outside (text ++ rest) = marks ++ unquoted .outside rest

theorem unspaced_nil : Unspaced [] := ⟨[], nofun, fun _ => rfl⟩

theorem Unspaced.append {text other : List Char} (htext : Unspaced text) (hother : Unspaced other) :
    Unspaced (text ++ other) := by
  obtain ⟨marks, hmarks, hunquoted⟩ := htext
  obtain ⟨marks', hmarks', hunquoted'⟩ := hother
  refine ⟨marks ++ marks', List.forall_mem_append.mpr ⟨hmarks, hmarks'⟩, fun rest => ?_⟩
  rw [List.append_assoc, hunquoted, hunquoted', List.append_assoc]

theorem unspaced_of_forall {text : List Char} (h : ∀ c ∈ text, c ≠ '"' ∧ c ∉ blanks) : Unspaced text := by
  refine ⟨text, fun c hc => (h c hc).2, fun rest => ?_⟩
  induction text with
  | nil => rfl
  | cons c text ih =>
      rw [List.forall_mem_cons] at h
      rw [List.cons_append, unquoted, if_neg h.1.1, ih h.2, List.cons_append]

theorem unspaced_of_all {text : List Char} (h : text.all (fun c => decide (c ≠ '"' ∧ c ∉ blanks)) = true) :
    Unspaced text := unspaced_of_forall (Ascii.forall_mem_of_all _ h)

theorem Unspaced.cons {c : Char} (hc : c ≠ '"' ∧ c ∉ blanks) {text : List Char} (h : Unspaced text) :
    Unspaced (c :: text) := (unspaced_of_forall (List.forall_mem_singleton.mpr hc)).append h

theorem unquoted_escapedChar (c : Char) (rest : List Char) :
    unquoted .inside (escapedChar c ++ rest) = unquoted .inside rest := by
  have hdigit : ∀ n < 16, Nat.digitChar n ≠ '"' ∧ Nat.digitChar n ≠ '\\' := by decide
  have hcons {c : Char} (hc : c ≠ '"' ∧ c ≠ '\\') (rest : List Char) :
      unquoted .inside (c :: rest) = unquoted .inside rest := by
    rw [unquoted, if_neg hc.1, if_neg hc.2]
  rw [escapedChar]
  split
  · rfl
  split
  · rfl
  split
  · rfl
  split
  · rfl
  split
  · rfl
  split
  · rfl
  split
  · rfl
  split
  · rename_i hcontrol
    show unquoted .inside ('0' :: '0' :: Nat.digitChar _ :: Nat.digitChar _ :: rest) = _
    rw [hcons (by decide), hcons (by decide), hcons (hdigit _ (by omega)), hcons (hdigit _ (by omega))]
  · rename_i hquote hbackslash _ _ _ _ _ _
    exact hcons ⟨hquote, hbackslash⟩ rest

theorem unspaced_stringText (s : String) : Unspaced (stringText s) := by
  refine ⟨[], nofun, fun rest => ?_⟩
  have hinside (cs : List Char) (rest : List Char) :
      unquoted .inside (cs.flatMap escapedChar ++ rest) = unquoted .inside rest := by
    induction cs with
    | nil => rfl
    | cons c cs ih => rw [List.flatMap_cons, List.append_assoc, unquoted_escapedChar, ih]
  rw [stringText, List.cons_append, List.cons_append, List.append_assoc, unquoted, if_pos rfl, hinside]
  rfl

theorem unspaced_canonicalText (x : Number) : Unspaced x.canonicalText := by
  obtain ⟨negative, n, hn, htext⟩ := exists_numeral_canonical x
  rw [htext]
  refine unspaced_of_forall fun c hc => ?_
  rcases n.mem_text hn hc with hdigit | hmark
  · have hblank : ∀ c ∈ blanks, c.isDigit = false := Ascii.forall_mem_of_all _ (by decide)
    refine ⟨?_, fun hmem => ?_⟩
    · rintro rfl
      cases hdigit
    · rw [hblank c hmem] at hdigit
      cases hdigit
  · exact Ascii.forall_mem_of_all (fun c => c ≠ '"' ∧ c ∉ blanks) (by decide) c hmark

theorem unspaced_separated {texts : List (List Char)} (h : ∀ text ∈ texts, Unspaced text) :
    Unspaced (separated texts) := by
  match texts with
  | [] => exact unspaced_nil
  | [text] => exact h text List.mem_cons_self
  | text :: next :: texts =>
      rw [List.forall_mem_cons] at h
      exact h.1.append ((unspaced_separated h.2).cons (by decide))

theorem unspaced_arrayText {texts : List (List Char)} (h : ∀ text ∈ texts, Unspaced text) :
    Unspaced (arrayText texts) :=
  ((unspaced_separated h).append (unspaced_of_all (by decide))).cons (by decide)

theorem unspaced_objectText {texts : List (List Char × List Char)}
    (h : ∀ text ∈ texts, Unspaced text.1 ∧ Unspaced text.2) : Unspaced (objectText texts) := by
  refine ((unspaced_separated ?_).append (unspaced_of_all (by decide))).cons (by decide)
  rw [List.forall_mem_map]
  exact fun text htext => (h text htext).1.append ((h text htext).2.cons (by decide))

theorem unspaced_canonicalChars (v : Value) : Unspaced v.canonicalChars := by
  induction v using Value.nestedRec with
  | null => exact unspaced_of_all (by decide)
  | bool b => cases b <;> exact unspaced_of_all (by decide)
  | number n => exact unspaced_canonicalText n
  | string s => exact unspaced_stringText s
  | array items ih =>
      rw [Value.canonicalChars, canonicalItems_eq_map]
      exact unspaced_arrayText (List.forall_mem_map.mpr ih)
  | object members ih =>
      obtain ⟨listed, htext, -, hperm⟩ := exists_listing members
      rw [htext]
      refine unspaced_objectText (List.forall_mem_map.mpr fun member hmember => ⟨unspaced_stringText _, ?_⟩)
      exact ih member (Dict.mem_of_mem_ofList (hperm.mem_iff.mp hmember))

theorem Unspaced.not_mem_blanks {text : List Char} (h : Unspaced text) :
    ∀ c ∈ unquoted .outside text, c ∉ blanks := by
  obtain ⟨marks, hmarks, hunquoted⟩ := h
  have htext := hunquoted []
  rw [unquoted, List.append_nil, List.append_nil] at htext
  rwa [htext]

/-! ### The order -/

/-- A canonical text lists the members of every object in the order of their quoted names, which is that of their code
units if all names are plain, and it has no white space outside of strings. -/
theorem canonicalChars_order (v : Value) :
    Listing QuotedBefore v v.canonicalChars ∧ (NamesIn PlainName v → Listing UnitsBefore v v.canonicalChars) ∧
      ∀ c ∈ unquoted .outside v.canonicalChars, c ∉ blanks :=
  ⟨listing_canonicalChars (fun _ _ => id) v (namesIn_of_forall (fun _ => trivial) v),
    listing_canonicalChars PlainName.unitsBefore v, (unspaced_canonicalChars v).not_mem_blanks⟩

/-- An object with an object in an array, all with plain names. -/
def Sample.nested : Value :=
  .object [("\u00fc", .null), ("b", .array [.object [("ab", .bool true), ("a", .string " ")]])]

open Json.Sample in
/-- Plain names are listed by their code units at every depth. -/
theorem canonicalChars_order_nested :
    NamesIn PlainName nested ∧ Listing UnitsBefore nested nested.canonicalChars := by
  have hplain {name : String} (h : name.toList.all (fun c => decide (PlainChar c)) = true) : PlainName name :=
    Ascii.forall_mem_of_all PlainChar h
  have hinner : NamesIn PlainName (.object [("ab", .bool true), ("a", .string " ")]) := by
    refine .object ?_ ?_ <;> simp only [List.forall_mem_cons]
    · exact ⟨hplain (by decide), hplain (by decide), nofun⟩
    · exact ⟨.bool true, .string " ", nofun⟩
  have hnames : NamesIn PlainName nested := by
    refine .object ?_ ?_ <;> simp only [List.forall_mem_cons]
    · exact ⟨hplain (by decide), hplain (by decide), nofun⟩
    · exact ⟨.null, .array (List.forall_mem_singleton.mpr hinner), nofun⟩
  exact ⟨hnames, (canonicalChars_order nested).2.1 hnames⟩

/-- An object with a name and with the same followed by an exclamation mark, which sorts before the quote. -/
def Sample.exclaimed : Value :=
  .object [("a", .number (.integer 1 (by decide))), ("a!", .number (.integer 2 (by decide)))]

open Json.Sample in
/-- The shorter name has the smaller code units, but it is listed behind the other. -/
theorem not_listing_unitsBefore :
    UnitsBefore "a" "a!" ∧ exclaimed.canonicalBytes = Bytes.ofString "\x7b\"a!\":2,\"a\":1\x7d" ∧
      ¬ Listing UnitsBefore exclaimed exclaimed.canonicalChars := by
  have hunits : UnitsBefore "a" "a!" := by
    rw [UnitsBefore]
    decide
  refine ⟨hunits, by decide, fun h => ?_⟩
  generalize htext : exclaimed.canonicalChars = text at h
  rw [exclaimed] at h
  cases h with
  | @object _ listed texts hperm hsorted hvalues =>
      have hlisted : listed = [("a", .number (.integer 1 (by decide))), ("a!", .number (.integer 2 (by decide)))] :=
        hperm.eq_of_pairwise (fun a b _ _ hab hba => absurd hba (List.lt_asymm hab)) hsorted
          (List.pairwise_pair.mpr hunits)
      subst hlisted
      obtain _ | ⟨hfirst, _ | ⟨hsecond, ⟨⟩⟩⟩ := hvalues
      cases hfirst
      cases hsecond
      exact absurd htext (by decide)

end Attest.Json
