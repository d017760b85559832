import Attest.Proofs.Json.Numerals
import Attest.Proofs.Json.Strings
import Attest.Proofs.Json.Values

/-!
The texts of a value. White space may stand around every token, each character of a string may stand for itself or be
escaped, and a number may be written by any literal of it. Each of the texts is read to its end and without a fault: the
draft that a reader gets from it is the draft of the value. This holds wherever the text stands, as long as what follows
does not go on as a number may, and for values of any depth.
-/

namespace Attest.Json

open Ascii (byte isDigit)

/-! ### The texts of a value -/

/-- White space of any length. -/
def Blank (text : Bytes) : Prop := ∀ b ∈ text, b = byte ' ' ∨ b = byte '\n' ∨ b = byte '\t' ∨ b = byte '\r'

theorem blank_nil : Blank [] := List.forall_mem_nil _

/-- The texts of a list between its brackets, given the texts of what it lists: commas between, and white space
around each. -/
inductive WritesList {α : Type} (writes : α → Bytes → Prop) : List α → Bytes → Prop
  | none {inside : Bytes} (hinside : Blank inside) : WritesList writes [] inside
  | last {x : α} {before text after : Bytes} (hbefore : Blank before) (hx : writes x text) (hafter : Blank after) :
      WritesList writes [x] (before ++ (text ++ after))
  | more {x y : α} {ys : List α} {before text after others : Bytes} (hbefore : Blank before) (hx : writes x text)
      (hafter : Blank after) (hothers : WritesList writes (y :: ys) others) :
      WritesList writes (x :: y :: ys) (before ++ (text ++ (after ++ byte ',' :: others)))

/-- The texts of a member, given those of values. -/
inductive WritesMember (writes : Value → Bytes → Prop) : String × Value → Bytes → Prop
  | pair {name : String} {v : Value} {quoted before after text : Bytes} (hname : WritesString name quoted)
      (hbefore : Blank before) (hafter : Blank after) (hv : writes v text) :
      WritesMember writes (name, v) (quoted ++ (before ++ byte ':' :: (after ++ text)))

/-- The texts of a value, without white space around. The members of an object stand in the order of the object. -/
inductive Writes : Value → Bytes → Prop
  | null : Writes .null (nullText.map byte)
  | bool (b : Bool) : Writes (.bool b) ((boolText b).map byte)
  | number {l : Literal} {x : Number} (hl : l.numeral.Proper) (hx : l.number? = some x) :
      Writes (.number x) (l.text.map byte)
  | string {s : String} {text : Bytes} (h : WritesString s text) : Writes (.string s) text
  | array {items : List Value} {inside : Bytes} (h : WritesList Writes items inside) :
      Writes (.array items) (byte '[' :: (inside ++ [byte ']']))
  | object {members : List (String × Value)} {inside : Bytes} (h : WritesList (WritesMember Writes) members inside) :
      Writes (.object members) (byte '\x7b' :: (inside ++ [byte '\x7d']))

/-- The texts that hold a value and nothing else. -/
inductive WritesText : Value → Bytes → Prop
  | around {v : Value} {before text after : Bytes} (hbefore : Blank before) (hv : Writes v text)
      (hafter : Blank after) : WritesText v (before ++ (text ++ after))

/-! ### White space -/

theorem Blank.isBlank {text : Bytes} (h : Blank text) : ∀ b ∈ text, isBlank b = true := by
  intro b hb
  rcases h b hb with rfl | rfl | rfl | rfl <;> decide

theorem skipBlank_append {before : Bytes} (h : Blank before) (text : Bytes) :
    skipBlank (before ++ text) = skipBlank text := List.dropWhile_append_of_pos h.isBlank

theorem Blank.unnumbered {before text : Bytes} (h : Blank before) (htext : Unnumbered text) :
    Unnumbered (before ++ text) := by
  cases before with
  | nil => exact htext
  | cons b before =>
      intro c hc
      obtain rfl := Option.some.inj hc
      rcases h _ List.mem_cons_self with rfl | rfl | rfl | rfl <;> decide

theorem unnumbered_cons {b : UInt8} (h : isDigit b = false ∧ b ≠ byte '.' ∧ b ≠ byte 'e' ∧ b ≠ byte 'E')
    (text : Bytes) : Unnumbered (b :: text) := by
  intro c hc
  obtain rfl := Option.some.inj hc
  exact h

/-- White space before a value is passed over. -/
theorem scanValue_append {before : Bytes} (h : Blank before) (fuel : Nat) (text : Bytes) :
    scanValue fuel (before ++ text) = scanValue fuel text := by
  cases fuel with
  | zero => rfl
  | succ fuel => rw [scanValue, scanValue, skipBlank_append h]

theorem skipBlank_cons {b : UInt8} (h : isBlank b = false) (text : Bytes) :
    skipBlank (b :: text) = b :: text := by
  rw [skipBlank, List.dropWhile_cons, h]
  rfl

/-! ### The start of a value -/

/-- A literal starts with a digit or with the minus. -/
theorem Literal.exists_head {l : Literal} (hn : l.numeral.Proper) :
    ∃ (c : Char) (rest : List Char), l.text = c :: rest ∧ (c = '-' ∨ c.isDigit = true) := by
  rw [Literal.text]
  cases l.negative with
  | true => exact ⟨'-', _, rfl, .inl rfl⟩
  | false =>
      cases hw : l.numeral.whole with
      | nil => exact absurd hw hn.whole_ne_nil
      | cons c cs => exact ⟨c, _, rfl, .inr (hn.whole c (by simp [hw]))⟩

/-- A byte with which a value can start. -/
def StartsValue (b : UInt8) : Prop := isBlank b = false ∧ b ≠ byte ']'

theorem startsValue_digit {c : Char} (h : c.isDigit = true) : StartsValue (byte c) := by
  have hne {d : Char} (hd : d.isDigit = false) (hd' : d.toNat < 128) : byte c ≠ byte d :=
    beq_eq_false_iff_ne.mp (byte_ne_of_isDigit h hd hd')
  refine ⟨?_, hne (by decide) (by decide)⟩
  simp only [isBlank, Bool.or_eq_false_iff, beq_eq_false_iff_ne]
  exact ⟨⟨⟨hne (by decide) (by decide), hne (by decide) (by decide)⟩, hne (by decide) (by decide)⟩,
    hne (by decide) (by decide)⟩

theorem ascii_numeral {c : Char} (h : c = '-' ∨ c.isDigit = true) : c.toNat < 128 := by
  rcases h with rfl | hdigit
  · decide
  · exact Ascii.lt_of_isDigit hdigit

theorem startsValue_numeral {c : Char} (h : c = '-' ∨ c.isDigit = true) : StartsValue (byte c) := by
  rcases h with rfl | hdigit
  · unfold StartsValue
    decide
  · exact startsValue_digit hdigit

/-! ### Lists -/

section Lists

variable {α δ : Type} {all : Nat → (first : Bool) → Bytes → List δ × Ending × Option Bytes}
  {one : Nat → Bytes → List δ × Ending × Option Bytes} {close : UInt8}

variable (all one close) in
/-- What the reading of items and that of members have in common: `all` reads what stands behind the opening bracket
or behind an element, and `one` an element and what stands behind it. -/
structure ReadsLists : Prop where
  bracket : close = byte ']' ∨ close = byte '\x7d'
  closed : ∀ fuel first text rest, skipBlank text = close :: rest →
    all (fuel + 1) first text = ([], .closed, some rest)
  first : ∀ fuel text b rest, skipBlank text = b :: rest → b ≠ close → all (fuel + 1) true text = one fuel (b :: rest)
  next : ∀ fuel text others b rest, skipBlank text = byte ',' :: others → skipBlank others = b :: rest → b ≠ close →
    all (fuel + 1) false text = one fuel (b :: rest)

variable (all one close) in
/-- A text of an element is read, wherever it stands. -/
structure ReadsElement (text : Bytes) (d : δ) : Prop where
  start : ∃ b rest, text = b :: rest ∧ isBlank b = false ∧ b ≠ close
  read : ∀ fuel rest, Unnumbered rest → 3 * text.length ≤ fuel → ∀ ds ending after,
    all fuel false rest = (ds, ending, after) → one (fuel + 1) (text ++ rest) = (d :: ds, ending, after)

/-- An element is read behind white space, together with the elements that follow it. -/
theorem ReadsElement.read_front {text : Bytes} {d : δ} (h : ReadsElement all one close text d)
    {before following : Bytes} (hbefore : Blank before) (hfollowing : Unnumbered following) {fuel : Nat}
    (hfuel : 3 * text.length ≤ fuel) {ds : List δ} {ending : Ending} {after : Option Bytes}
    (hall : all fuel false following = (ds, ending, after)) :
    ∃ b rest, skipBlank (before ++ (text ++ following)) = b :: rest ∧ b ≠ close ∧
      one (fuel + 1) (b :: rest) = (d :: ds, ending, after) := by
  have hone := h.read fuel following hfollowing hfuel ds ending after hall
  obtain ⟨b, tail, rfl, hblank, hb⟩ := h.start
  refine ⟨b, tail ++ following, ?_, hb, hone⟩
  rw [skipBlank_append hbefore, List.cons_append, skipBlank_cons hblank]

theorem ReadsElement.length_pos {text : Bytes} {d : δ} (h : ReadsElement all one close text d) : 1 ≤ text.length := by
  obtain ⟨b, tail, rfl, -⟩ := h.start
  exact Nat.le_add_left 1 _

/-- From the first element on a list is read to its end. -/
theorem ReadsLists.read_cons (h : ReadsLists all one close) {writes : α → Bytes → Prop} {draft : α → δ}
    {xs : List α} {inside : Bytes} (hxs : WritesList writes xs inside) (hne : xs ≠ [])
    (hread : ∀ x ∈ xs, ∀ text, writes x text → ReadsElement all one close text (draft x))
    (fuel : Nat) (rest : Bytes) (hfuel : 3 * inside.length + 1 ≤ fuel) :
    ∃ b others, skipBlank (inside ++ close :: rest) = b :: others ∧ b ≠ close ∧
      one fuel (b :: others) = (xs.map draft, .closed, some rest) := by
  have hclose : Unnumbered (close :: rest) ∧ skipBlank (close :: rest) = close :: rest := by
    rcases h.bracket with hbracket | hbracket <;> rw [hbracket] <;>
      exact ⟨unnumbered_cons (by decide) rest, skipBlank_cons (by decide) rest⟩
  induction hxs generalizing fuel with
  | none => exact absurd rfl hne
  | @last x before text after hbefore hx hafter =>
      have helement := hread x List.mem_cons_self text hx
      have hlength := helement.length_pos
      simp only [List.length_append] at hfuel
      obtain ⟨fuel, rfl⟩ : ∃ n, fuel = n + 2 := ⟨fuel - 2, by omega⟩
      have hend : all (fuel + 1) false (after ++ close :: rest) = ([], .closed, some rest) :=
        h.closed fuel false _ rest (by rw [skipBlank_append hafter, hclose.2])
      rw [List.append_assoc, List.append_assoc]
      exact helement.read_front hbefore (hafter.unnumbered hclose.1) (by omega) hend
  | @more x y ys before text after others hbefore hx hafter hothers ih =>
      have helement := hread x List.mem_cons_self text hx
      simp only [List.length_append, List.length_cons] at hfuel
      obtain ⟨fuel, rfl⟩ : ∃ n, fuel = n + 2 := ⟨fuel - 2, by omega⟩
      obtain ⟨c, following, hskip, hc, hone⟩ :=
        ih (List.cons_ne_nil _ _) (fun x hx => hread x (List.mem_cons_of_mem _ hx)) fuel (by omega)
      have hcomma : skipBlank (after ++ byte ',' :: (others ++ close :: rest)) =
          byte ',' :: (others ++ close :: rest) := by
        rw [skipBlank_append hafter, skipBlank_cons (by decide)]
      have hnext := h.next fuel _ _ _ _ hcomma hskip hc
      rw [hone] at hnext
      rw [List.append_assoc, List.append_assoc, List.append_assoc, List.cons_append]
      exact helement.read_front hbefore (hafter.unnumbered (unnumbered_cons (by decide) _)) (by omega) hnext

/-- A list is read from each of its texts. -/
theorem ReadsLists.read (h : ReadsLists all one close) {writes : α → Bytes → Prop} {draft : α → δ}
    {xs : List α} {inside : Bytes} (hxs : WritesList writes xs inside)
    (hread : ∀ x ∈ xs, ∀ text, writes x text → ReadsElement all one close text (draft x))
    (fuel : Nat) (rest : Bytes) (hfuel : 3 * inside.length + 2 ≤ fuel) :
    all fuel true (inside ++ close :: rest) = (xs.map draft, .closed, some rest) := by
  obtain ⟨fuel, rfl⟩ : ∃ n, fuel = n + 1 := ⟨fuel - 1, by omega⟩
  by_cases hnil : xs = []
  · subst hnil
    cases hxs with
    | none hinside =>
        refine h.closed fuel true _ rest ?_
        rw [skipBlank_append hinside]
        rcases h.bracket with hbracket | hbracket <;> rw [hbracket] <;> exact skipBlank_cons (by decide) rest
  · obtain ⟨b, others, hskip, hb, hone⟩ := h.read_cons hxs hnil hread fuel rest (by omega)
    rw [h.first fuel _ b others hskip hb, hone]

end Lists

theorem readsLists_items : ReadsLists scanItems scanItem (byte ']') where
  bracket := .inl rfl
  closed fuel first text rest hskip := by
    rw [scanItems, hskip]
    rfl
  first fuel text b rest hskip hb := by
    rw [scanItems, hskip]
    simp only [beq_eq_false_iff_ne.mpr hb, Bool.false_eq_true, if_false, if_true]
  next fuel text others b rest hskip hothers hb := by
    rw [scanItems, hskip]
    simp only [show (byte ',' == byte ']') = false by decide, Bool.false_eq_true, if_false, beq_self_eq_true, if_true,
      hothers, beq_eq_false_iff_ne.mpr hb]

theorem readsLists_members : ReadsLists scanMembers scanMember (byte '\x7d') where
  bracket := .inr rfl
  closed fuel first text rest hskip := by
    rw [scanMembers, hskip]
    rfl
  first fuel text b rest hskip hb := by
    rw [scanMembers, hskip]
    simp only [beq_eq_false_iff_ne.mpr hb, Bool.false_eq_true, if_false, if_true]
  next fuel text others b rest hskip hothers hb := by
    rw [scanMembers, hskip]
    simp only [show (byte ',' == byte '\x7d') = false by decide, Bool.false_eq_true, if_false, beq_self_eq_true,
      if_true, hothers, beq_eq_false_iff_ne.mpr hb]

/-! ### Values -/

theorem scanLiteral_letters (meaning : Draft) (letters : List Char) (rest : Bytes) :
    scanLiteral meaning letters (letters.map byte ++ rest) = (meaning, some rest) := by
  have hskip : skipLetters letters (letters.map byte ++ rest) = .ok rest := by
    induction letters with
    | nil => rfl
    | cons c letters ih =>
        rw [List.map_cons, List.cons_append, skipLetters, beq_self_eq_true, if_pos rfl, ih]
  rw [scanLiteral, hskip]

/-- A value read at its first byte, which is not white space. -/
theorem scanValue_start {b : UInt8} (hb : isBlank b = false) (fuel : Nat) (rest : Bytes) :
    scanValue (fuel + 1) (b :: rest) =
      if b == byte '"' then
        match scanString rest with
        | .ok (content, after) => (.string content, some after)
        | .error fault => (.broken fault, none)
      else if b == byte '[' then
        let (items, ending, after) := scanItems fuel true rest
        (.array items ending, after)
      else if b == byte '\x7b' then
        let (members, ending, after) := scanMembers fuel true rest
        (.object members ending, after)
      else if b == byte 'n' then scanLiteral .null ['u', 'l', 'l'] rest
      else if b == byte 't' then scanLiteral (.bool true) ['r', 'u', 'e'] rest
      else if b == byte 'f' then scanLiteral (.bool false) ['a', 'l', 's', 'e'] rest
      else if b == byte '-' || isDigit b then scanNumber (b :: rest)
      else (.broken (.both .expectedValue), none) := by
  have hskip := skipBlank_cons hb rest
  rw [scanValue]
  split
  · rename_i hempty
    cases hempty.symm.trans hskip
  · rename_i hfirst
    cases hfirst.symm.trans hskip
    rfl

/-- A value that starts as a number does is read as one. -/
theorem scanValue_numeral {c : Char} (hc : c = '-' ∨ c.isDigit = true) (fuel : Nat) (text : Bytes) :
    scanValue (fuel + 1) (byte c :: text) = scanNumber (byte c :: text) := by
  have hascii := ascii_numeral hc
  have hsign : (byte c == byte '-' || isDigit (byte c)) = true := by
    rcases hc with rfl | hdigit
    · rfl
    · rw [Ascii.isDigit_byte hdigit, Bool.or_true]
  have hne {d : Char} (hd : d.isDigit = false) (hd' : d.toNat < 128) (hminus : '-' ≠ d) :
      (byte c == byte d) = false := by
    rcases hc with rfl | hdigit
    · exact beq_eq_false_iff_ne.mpr fun heq => hminus (Ascii.byte_inj hascii hd' heq)
    · exact byte_ne_of_isDigit hdigit hd hd'
  rw [scanValue_start (startsValue_numeral hc).1, hne (d := '"') (by decide) (by decide) (by decide),
    hne (d := '[') (by decide) (by decide) (by decide), hne (d := '\x7b') (by decide) (by decide) (by decide),
    hne (d := 'n') (by decide) (by decide) (by decide), hne (d := 't') (by decide) (by decide) (by decide),
    hne (d := 'f') (by decide) (by decide) (by decide), hsign]
  simp only [Bool.false_eq_true, if_false, if_true]

/-- A text is read as a draft, wherever it stands. -/
structure ReadsAs (text : Bytes) (d : Draft) : Prop where
  start : ∃ b rest, text = b :: rest ∧ StartsValue b
  scan : ∀ fuel rest, Unnumbered rest → 3 * text.length ≤ fuel → scanValue fuel (text ++ rest) = (d, some rest)

/-- The texts of scalars are read in one step. -/
theorem readsAs_scalar {text : Bytes} {d : Draft} (hstart : ∃ b rest, text = b :: rest ∧ StartsValue b)
    (hscan : ∀ fuel rest, Unnumbered rest → scanValue (fuel + 1) (text ++ rest) = (d, some rest)) :
    ReadsAs text d := by
  refine ⟨hstart, fun fuel rest hrest hfuel => ?_⟩
  obtain ⟨b, tail, rfl, -⟩ := hstart
  rw [List.length_cons] at hfuel
  obtain ⟨fuel, rfl⟩ : ∃ n, fuel = n + 1 := ⟨fuel - 1, by omega⟩
  exact hscan fuel rest hrest

theorem readsAs_null : ReadsAs (nullText.map byte) .null :=
  readsAs_scalar ⟨_, _, rfl, by unfold StartsValue; decide⟩
    fun _ rest _ => scanLiteral_letters .null ['u', 'l', 'l'] rest

theorem readsAs_bool (b : Bool) : ReadsAs ((boolText b).map byte) (.bool b) := by
  cases b with
  | true =>
      exact readsAs_scalar ⟨_, _, rfl, by unfold StartsValue; decide⟩
        fun _ rest _ => scanLiteral_letters (.bool true) ['r', 'u', 'e'] rest
  | false =>
      exact readsAs_scalar ⟨_, _, rfl, by unfold StartsValue; decide⟩
        fun _ rest _ => scanLiteral_letters (.bool false) ['a', 'l', 's', 'e'] rest

theorem readsAs_number {l : Literal} {x : Number} (hl : l.numeral.Proper) (hx : l.number? = some x) :
    ReadsAs (l.text.map byte) (.number (.ok x)) := by
  obtain ⟨c, cs, htext, hc⟩ := Literal.exists_head hl
  refine readsAs_scalar ⟨byte c, cs.map byte, by rw [htext, List.map_cons], startsValue_numeral hc⟩
    fun fuel rest hrest => ?_
  have hscan := scanNumber_literal hl hrest
  rw [hx, Option.elim_some, htext, List.map_cons, List.cons_append] at hscan
  rw [htext, List.map_cons, List.cons_append, scanValue_numeral hc, hscan]

theorem readsAs_string {s : String} {text : Bytes} (h : WritesString s text) : ReadsAs text (.string (.ok s)) := by
  cases h with
  | quoted hcontent =>
      refine readsAs_scalar ⟨_, _, rfl, by unfold StartsValue; decide⟩ fun fuel rest _ => ?_
      rw [List.cons_append, List.append_assoc, List.singleton_append, scanValue_start (by decide),
        beq_self_eq_true, if_pos rfl, scanString_writesChars hcontent]

/-- A text that is read as a draft is an element of an array. -/
theorem ReadsAs.readsItem {text : Bytes} {d : Draft} (h : ReadsAs text d) :
    ReadsElement scanItems scanItem (byte ']') text d where
  start := by
    obtain ⟨b, rest, htext, hb⟩ := h.start
    exact ⟨b, rest, htext, hb.1, hb.2⟩
  read fuel rest hrest hfuel ds ending after hafter := by
    rw [scanItem, h.scan fuel rest hrest hfuel]
    simp only [hafter]

/-- The name of a member, a colon and a text that is read as a draft are an element of an object. -/
theorem readsMember {name : String} {d : Draft} {quoted before after text : Bytes} (hname : WritesString name quoted)
    (hbefore : Blank before) (hafter : Blank after) (h : ReadsAs text d) :
    ReadsElement scanMembers scanMember (byte '\x7d') (quoted ++ (before ++ byte ':' :: (after ++ text)))
      (.ok name, d) := by
  cases hname with
  | @quoted content hcontent =>
      refine ⟨⟨byte '"', _, rfl, by decide, by decide⟩, fun fuel rest hrest hfuel ds ending tail htail => ?_⟩
      simp only [List.length_cons, List.length_append, List.length_nil] at hfuel
      have hvalue := h.scan fuel rest hrest (by omega)
      have hskip : skipBlank (before ++ byte ':' :: (after ++ (text ++ rest))) =
          byte ':' :: (after ++ (text ++ rest)) := by
        rw [skipBlank_append hbefore, skipBlank_cons (by decide)]
      have htext : byte '"' :: (content ++ [byte '"']) ++ (before ++ byte ':' :: (after ++ text)) ++ rest =
          byte '"' :: (content ++ byte '"' :: (before ++ byte ':' :: (after ++ (text ++ rest)))) := by simp
      rw [htext, scanMember]
      simp only [bne_self_eq_false, Bool.false_eq_true, if_false, scanString_writesChars hcontent, hskip,
        scanValue_append hafter, hvalue, htail]

theorem draftItems_eq_map (items : List Value) : draftItems items = items.map Value.draft := by
  induction items with
  | nil => rfl
  | cons item items ih => rw [draftItems, List.map_cons, ih]

theorem draftMembers_eq_map (members : List (String × Value)) : draftMembers members = members.map draftMember := by
  induction members with
  | nil => rfl
  | cons member members ih => rw [draftMembers, List.map_cons, ih]

theorem readsAs_array {items : List Value} {inside : Bytes} (h : WritesList Writes items inside)
    (hitems : ∀ item ∈ items, ∀ text, Writes item text → ReadsAs text item.draft) :
    ReadsAs (byte '[' :: (inside ++ [byte ']'])) (Value.array items).draft := by
  refine ⟨⟨_, _, rfl, by unfold StartsValue; decide⟩, fun fuel rest _ hfuel => ?_⟩
  simp only [List.length_cons, List.length_append, List.length_nil] at hfuel
  obtain ⟨fuel, rfl⟩ : ∃ n, fuel = n + 1 := ⟨fuel - 1, by omega⟩
  have hall := readsLists_items.read h (fun item hitem text htext => (hitems item hitem text htext).readsItem)
    fuel rest (by omega)
  rw [Value.draft, draftItems_eq_map, List.cons_append, List.append_assoc, List.singleton_append,
    scanValue_start (by decide)]
  simp only [hall]
  rfl

theorem readsAs_object {members : List (String × Value)} {inside : Bytes}
    (h : WritesList (WritesMember Writes) members inside)
    (hmembers : ∀ member ∈ members, ∀ text, Writes member.2 text → ReadsAs text member.2.draft) :
    ReadsAs (byte '\x7b' :: (inside ++ [byte '\x7d'])) (Value.object members).draft := by
  have helement : ∀ member ∈ members, ∀ text, WritesMember Writes member text →
      ReadsElement scanMembers scanMember (byte '\x7d') text (draftMember member) := by
    intro member hmember text htext
    cases htext with
    | pair hname hbefore hafter hv => exact readsMember hname hbefore hafter (hmembers _ hmember _ hv)
  refine ⟨⟨_, _, rfl, by unfold StartsValue; decide⟩, fun fuel rest _ hfuel => ?_⟩
  simp only [List.length_cons, List.length_append, List.length_nil] at hfuel
  obtain ⟨fuel, rfl⟩ : ∃ n, fuel = n + 1 := ⟨fuel - 1, by omega⟩
  have hall := readsLists_members.read h helement fuel rest (by omega)
  rw [Value.draft, draftMembers_eq_map, List.cons_append, List.append_assoc, List.singleton_append,
    scanValue_start (by decide)]
  simp only [hall]
  rfl

/-- Every text of a value is read as the draft of the value. -/
theorem readsAs_of_writes (v : Value) : ∀ text, Writes v text → ReadsAs text v.draft := by
  induction v using Value.nestedRec with
  | null =>
      intro text h
      cases h with
      | null => exact readsAs_null
  | bool b =>
      intro text h
      cases h with
      | bool => exact readsAs_bool b
  | number x =>
      intro text h
      cases h with
      | number hl hx => exact readsAs_number hl hx
  | string s =>
      intro text h
      cases h with
      | string hs => exact readsAs_string hs
  | array items ih =>
      intro text h
      cases h with
      | array hitems => exact readsAs_array hitems ih
  | object members ih =>
      intro text h
      cases h with
      | object hmembers => exact readsAs_object hmembers ih

/-- A text that holds a value and nothing else is read whole. -/
theorem scan_of_writesText {v : Value} {text : Bytes} (h : WritesText v text) : scan text = (v.draft, false) := by
  cases h with
  | @around before body after hbefore hbody hafter =>
      have hlength : 3 * body.length ≤ 3 * (before ++ (body ++ after)).length + 3 := by
        simp only [List.length_append]
        omega
      have hend : Unnumbered after := by
        rw [← List.append_nil after]
        exact hafter.unnumbered fun _ hb => by cases hb
      have hskip : skipBlank after = [] := by
        rw [← List.append_nil after, skipBlank_append hafter]
        rfl
      rw [scan, scanValue_append hbefore, (readsAs_of_writes v body hbody).scan _ _ hend hlength]
      show (v.draft, !(skipBlank after).isEmpty) = _
      rw [hskip]
      rfl

end Attest.Json
