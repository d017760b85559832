import Attest.Json.Canonical
import Attest.Proofs.Dict
import Attest.Proofs.Json.Texts
import Attest.Proofs.Json.Values
import Mathlib.Data.List.Nodup

/-!
A canonical text determines its value. More than that, the text shows where it ends: two canonical
texts, each followed by the end of a text, a comma or a closing bracket, agree only if they are the
texts of one value and the same follows. The members of an object are recovered although the text
lists them in the order of their quoted names.
-/

namespace Attest.Json

open Ascii (byte isDigit)

/-- The same JSON value: numbers by their canonical texts, arrays item by item, and objects by what
they say under each name. -/
inductive Value.Same : Value → Value → Prop
  | null : Same .null .null
  | bool (b : Bool) : Same (.bool b) (.bool b)
  | number {m n : Number} (h : m.canonicalText = n.canonicalText) : Same (.number m) (.number n)
  | string (s : String) : Same (.string s) (.string s)
  | array {items others : List Value} (h : List.Forall₂ Same items others) :
      Same (.array items) (.array others)
  | object {members others : Object}
      (h : ∀ name, Option.Rel Same (members.get? name) (others.get? name)) :
      Same (.object members) (.object others)

/-- A text that goes on as one may after a value. -/
def AfterValue (text : Bytes) : Prop :=
  ∀ b ∈ text.head?, b = byte ',' ∨ b = byte ']' ∨ b = byte '\x7d'

theorem afterValue_nil : AfterValue [] := fun _ hb => by cases hb

theorem afterValue_comma (text : Bytes) : AfterValue (byte ',' :: text) := fun _ hb =>
  .inl (Option.some.inj hb).symm

theorem afterValue_bracket (text : Bytes) : AfterValue (byte ']' :: text) := fun _ hb =>
  .inr (.inl (Option.some.inj hb).symm)

theorem afterValue_brace (text : Bytes) : AfterValue (byte '\x7d' :: text) := fun _ hb =>
  .inr (.inr (Option.some.inj hb).symm)

/-- A value that is determined by its canonical text, also where more follows. -/
def Determined (v : Value) : Prop :=
  ∀ (w : Value) (rest others : Bytes), w.Ordered → AfterValue rest → AfterValue others →
    v.canonicalBytes ++ rest = w.canonicalBytes ++ others → v.Same w ∧ rest = others

/-! ### Strings -/

/-- The text of a string determines the string and shows where it ends. -/
theorem stringText_unique {s t : String} {rest others : Bytes}
    (h : Bytes.ofChars (stringText s) ++ rest = Bytes.ofChars (stringText t) ++ others) :
    s = t ∧ rest = others := by
  rw [ofChars_stringText, ofChars_stringText] at h
  have hscan := congrArg scanString (List.cons.inj h).2
  rw [scanString_text, scanString_text] at hscan
  injection hscan with hscan
  injection hscan with hstring hrest
  exact ⟨Except.ok.inj hstring, hrest⟩

theorem nameText_injective : Function.Injective nameText := by
  intro s t h
  have htext : stringText s = stringText t := by
    rw [← String.toList_ofList (l := stringText s), ← String.toList_ofList (l := stringText t)]
    exact congrArg String.toList h
  have hbytes : Bytes.ofChars (stringText s) ++ [] = Bytes.ofChars (stringText t) ++ [] := by rw [htext]
  exact (stringText_unique hbytes).1

/-! ### Numbers -/

theorem exists_numeral_canonical (x : Number) :
    ∃ (negative : Bool) (n : Numeral), n.Proper ∧ x.canonicalText = signText negative ++ n.text := by
  cases x with
  | integer value h =>
      obtain ⟨negative, n, hn, htext, -⟩ := (Number.integer value h).exists_numeral
      exact ⟨negative, n, hn, htext⟩
  | double x =>
      by_cases hx : x.significand = 0
      · refine ⟨false, .ofNat 0, Numeral.proper_ofNat 0, ?_⟩
        have hzero : x.isZero = true := beq_iff_eq.mpr hx
        rw [Number.canonicalText, Binary.canonicalText, if_pos hzero, Numeral.text_ofNat]
        rfl
      · obtain ⟨n, htext, hwrites, -⟩ :=
          exists_numeral_text .canonical (Binary.namedBy_shortest x hx).normal
        have hzero : x.isZero = false := beq_eq_false_iff_ne.mpr hx
        refine ⟨x.negative, n, hwrites.proper, ?_⟩
        rw [Number.canonicalText, Binary.canonicalText, hzero, signText]
        simp only [Bool.false_eq_true, if_false, htext]
        cases x.negative <;> rfl

/-- A byte that can follow a value. -/
def isDelimiter (b : UInt8) : Bool := b == byte ',' || b == byte ']' || b == byte '\x7d'

theorem isDelimiter_numeral {n : Numeral} (hn : n.Proper) (negative : Bool) :
    ∀ b ∈ Bytes.ofChars (signText negative ++ n.text), isDelimiter b = false := by
  rw [Ascii.ofChars_ascii (n.ascii_text hn negative)]
  intro b hb
  obtain ⟨c, hc, rfl⟩ := List.mem_map.mp hb
  rcases n.mem_text hn hc with hdigit | hmark
  · have hne {d : Char} (hd : d.isDigit = false) (hd' : d.toNat < 128) : (byte c == byte d) = false :=
      byte_ne_of_isDigit hdigit hd hd'
    rw [isDelimiter, hne (by decide) (by decide), hne (by decide) (by decide), hne (by decide) (by decide)]
    rfl
  · exact Ascii.forall_mem_of_all (fun c => isDelimiter (byte c) = false) (by decide) c hmark

theorem AfterValue.span {front text : Bytes} (hfront : ∀ b ∈ front, isDelimiter b = false)
    (htext : AfterValue text) : (front ++ text).takeWhile (!isDelimiter ·) = front := by
  rw [List.takeWhile_append_of_pos fun b hb => by simp [hfront b hb]]
  cases text with
  | nil => simp
  | cons b text =>
      have hb : isDelimiter b = true := by
        rcases htext b rfl with rfl | rfl | rfl <;> decide
      simp [hb]

/-! ### Kinds -/

/-- The kind of value that starts with a byte; none if no value does. -/
def leadingKind (b : UInt8) : Option String :=
  if b == byte 'n' then some "null"
  else if b == byte 't' || b == byte 'f' then some "boolean"
  else if b == byte '"' then some "string"
  else if b == byte '[' then some "array"
  else if b == byte '\x7b' then some "object"
  else if b == byte '-' || isDigit b then some "number"
  else none

theorem leadingKind_digit {c : Char} (hc : c.isDigit = true) : leadingKind (byte c) = some "number" := by
  have hne {d : Char} (hd : d.isDigit = false) (hd' : d.toNat < 128) : (byte c == byte d) = false :=
    byte_ne_of_isDigit hc hd hd'
  rw [leadingKind, hne (by decide) (by decide), hne (by decide) (by decide), hne (by decide) (by decide),
    hne (by decide) (by decide), hne (by decide) (by decide), hne (by decide) (by decide),
    Ascii.isDigit_byte hc, hne (by decide) (by decide)]
  rfl

/-- The first byte of a canonical text tells the kind of the value. -/
theorem exists_leading (v : Value) :
    ∃ b text, v.canonicalBytes = b :: text ∧ leadingKind b = some v.kind := by
  have hascii {c : Char} (hc : c.toNat < 128) (hkind : leadingKind (byte c) = some v.kind) {rest : List Char}
      (hchars : v.canonicalChars = c :: rest) : ∃ b text, v.canonicalBytes = b :: text ∧
        leadingKind b = some v.kind :=
    ⟨byte c, Bytes.ofChars rest, by rw [Value.canonicalBytes, hchars, ofChars_ascii_cons hc], hkind⟩
  cases v with
  | null => exact hascii (c := 'n') (by decide) (by decide) rfl
  | bool b =>
      cases b with
      | true => exact hascii (c := 't') (by decide) (by decide) rfl
      | false => exact hascii (c := 'f') (by decide) (by decide) rfl
  | number x =>
      obtain ⟨negative, n, hn, htext⟩ := exists_numeral_canonical x
      obtain ⟨c, rest, hhead, hc⟩ := n.exists_head hn negative
      have hchars : (Value.number x).canonicalChars = c :: rest := by rw [Value.canonicalChars, htext, hhead]
      rcases hc with rfl | hdigit
      · exact hascii (by decide) rfl hchars
      · exact hascii (Ascii.lt_of_isDigit hdigit) (leadingKind_digit hdigit) hchars
  | string s => exact hascii (c := '"') (by decide) rfl rfl
  | array items => exact hascii (c := '[') (by decide) rfl rfl
  | object members => exact hascii (c := '\x7b') (by decide) rfl rfl

/-- Values whose canonical texts start alike are of one kind. -/
theorem kind_eq {v w : Value} {rest others : Bytes}
    (h : v.canonicalBytes ++ rest = w.canonicalBytes ++ others) : v.kind = w.kind := by
  obtain ⟨b, text, hv, hb⟩ := exists_leading v
  obtain ⟨c, text', hw, hc⟩ := exists_leading w
  rw [hv, hw, List.cons_append, List.cons_append] at h
  rw [(List.cons.inj h).1, hc] at hb
  exact (Option.some.inj hb).symm

/-! ### Values without parts -/

theorem determined_null : Determined .null := by
  intro w rest others _ _ _ h
  cases w with
  | null => exact ⟨.null, List.append_cancel_left h⟩
  | _ => exact absurd (kind_eq h) (by simp [Value.kind])

theorem determined_bool (b : Bool) : Determined (.bool b) := by
  intro w rest others _ _ _ h
  cases w with
  | bool c =>
      cases b <;> cases c
      · exact ⟨.bool _, List.append_cancel_left h⟩
      · exact absurd (List.cons.inj h).1 (by decide)
      · exact absurd (List.cons.inj h).1 (by decide)
      · exact ⟨.bool _, List.append_cancel_left h⟩
  | _ => exact absurd (kind_eq h) (by simp [Value.kind])

theorem determined_string (s : String) : Determined (.string s) := by
  intro w rest others _ _ _ h
  cases w with
  | string t =>
      obtain ⟨rfl, hrest⟩ := stringText_unique h
      exact ⟨.string s, hrest⟩
  | _ => exact absurd (kind_eq h) (by simp [Value.kind])

theorem determined_number (m : Number) : Determined (.number m) := by
  intro w rest others _ hrest hothers h
  cases w with
  | number n =>
      obtain ⟨negative, p, hp, htext⟩ := exists_numeral_canonical m
      obtain ⟨negative', q, hq, htext'⟩ := exists_numeral_canonical n
      have hm := isDelimiter_numeral hp negative
      have hn := isDelimiter_numeral hq negative'
      rw [← htext] at hm
      rw [← htext'] at hn
      have hspan := congrArg (List.takeWhile (!isDelimiter ·)) h
      have hbytes : Bytes.ofChars m.canonicalText = Bytes.ofChars n.canonicalText :=
        (hrest.span hm).symm.trans (hspan.trans (hothers.span hn))
      have hsame : m.canonicalText = n.canonicalText := Ascii.ofChars_injective hbytes
      refine ⟨.number hsame, (List.append_right_inj (Bytes.ofChars m.canonicalText)).mp ?_⟩
      exact h.trans (by rw [hbytes]; rfl)
  | _ => exact absurd (kind_eq h) (by simp [Value.kind])

/-! ### Arrays -/

/-- The texts of items, each with the comma before it. -/
def canonicalTail (items : List Value) : Bytes := items.flatMap fun item => byte ',' :: item.canonicalBytes

theorem canonicalTail_cons (item : Value) (items : List Value) (rest : Bytes) :
    canonicalTail (item :: items) ++ rest =
      byte ',' :: (item.canonicalBytes ++ (canonicalTail items ++ rest)) := by
  simp [canonicalTail]

theorem canonicalBytes_array_nil (rest : Bytes) :
    (Value.array []).canonicalBytes ++ rest = byte '[' :: byte ']' :: rest := rfl

theorem separated_cons (text : List Char) (texts : List (List Char)) :
    separated (text :: texts) = text ++ texts.flatMap (',' :: ·) := by
  induction texts generalizing text with
  | nil => simp [separated]
  | cons next texts ih =>
      show text ++ ',' :: separated (next :: texts) = _
      rw [ih, List.flatMap_cons, List.cons_append]

theorem canonicalBytes_array_cons (item : Value) (items : List Value) (rest : Bytes) :
    (Value.array (item :: items)).canonicalBytes ++ rest =
      byte '[' :: (item.canonicalBytes ++ (canonicalTail items ++ byte ']' :: rest)) := by
  have htail (items : List Value) :
      Bytes.ofChars ((Value.canonicalItems items).flatMap (',' :: ·)) = canonicalTail items := by
    induction items with
    | nil => rfl
    | cons item items ih =>
        rw [Value.canonicalItems, List.flatMap_cons, Bytes.ofChars_append, ih, ofChars_ascii_cons (by decide)]
        rfl
  rw [Value.canonicalBytes, Value.canonicalChars, arrayText, Value.canonicalItems, separated_cons,
    List.cons_append, ofChars_ascii_cons (by decide), Bytes.ofChars_append, Bytes.ofChars_append, htail,
    ofChars_ascii_cons (by decide), Bytes.ofChars_nil]
  simp [Value.canonicalBytes]

theorem afterValue_canonicalTail (items : List Value) (rest : Bytes) :
    AfterValue (canonicalTail items ++ byte ']' :: rest) := by
  cases items with
  | nil => exact afterValue_bracket rest
  | cons item items => exact afterValue_comma _

theorem canonicalTail_unique {items : List Value} (hitems : ∀ item ∈ items, Determined item)
    {others : List Value} (hothers : ∀ item ∈ others, item.Ordered) {rest rest' : Bytes}
    (h : canonicalTail items ++ byte ']' :: rest = canonicalTail others ++ byte ']' :: rest') :
    List.Forall₂ Value.Same items others ∧ rest = rest' := by
  induction items generalizing others with
  | nil =>
      cases others with
      | nil => exact ⟨.nil, (List.cons.inj h).2⟩
      | cons other others => exact absurd (List.cons.inj h).1 (by decide)
  | cons item items ih =>
      cases others with
      | nil => exact absurd (List.cons.inj h).1 (by decide)
      | cons other others =>
          rw [List.forall_mem_cons] at hitems hothers
          rw [canonicalTail_cons, canonicalTail_cons] at h
          obtain ⟨hsame, htail⟩ := hitems.1 other _ _ hothers.1 (afterValue_canonicalTail items rest)
            (afterValue_canonicalTail others rest') (List.cons.inj h).2
          obtain ⟨hall, hrest⟩ := ih hitems.2 hothers.2 htail
          exact ⟨.cons hsame hall, hrest⟩

/-- No value starts with the bracket that closes an array. -/
theorem bracket_ne_canonicalBytes (v : Value) (rest text : Bytes) :
    byte ']' :: rest ≠ v.canonicalBytes ++ text := by
  intro h
  obtain ⟨b, front, hv, hb⟩ := exists_leading v
  rw [hv, List.cons_append] at h
  rw [← (List.cons.inj h).1] at hb
  cases hb

theorem determined_array {items : List Value} (hitems : ∀ item ∈ items, Determined item) :
    Determined (.array items) := by
  intro w rest rest' hw hrest hrest' h
  cases w with
  | array others =>
      have hothers := Value.ordered_array.mp hw
      cases items with
      | nil =>
          cases others with
          | nil => exact ⟨.array .nil, List.append_cancel_left h⟩
          | cons other others =>
              rw [canonicalBytes_array_nil, canonicalBytes_array_cons] at h
              exact absurd (List.cons.inj h).2 (bracket_ne_canonicalBytes _ _ _)
      | cons item items =>
          cases others with
          | nil =>
              rw [canonicalBytes_array_nil, canonicalBytes_array_cons] at h
              exact absurd (List.cons.inj h).2.symm (bracket_ne_canonicalBytes _ _ _)
          | cons other others =>
              rw [List.forall_mem_cons] at hitems hothers
              rw [canonicalBytes_array_cons, canonicalBytes_array_cons] at h
              obtain ⟨hsame, htail⟩ := hitems.1 other _ _ hothers.1 (afterValue_canonicalTail items rest)
                (afterValue_canonicalTail others rest') (List.cons.inj h).2
              obtain ⟨hall, hrest⟩ := canonicalTail_unique hitems.2 hothers.2 htail
              exact ⟨.array (.cons hsame hall), hrest⟩
  | _ => exact absurd (kind_eq h) (by simp [Value.kind])

/-! ### Objects -/

/-- The canonical text of a member. -/
def canonicalMemberBytes (member : String × Value) : Bytes :=
  Bytes.ofChars (stringText member.1) ++ byte ':' :: member.2.canonicalBytes

/-- The texts of members, each with the comma before it. -/
def canonicalMembersTail (members : List (String × Value)) : Bytes :=
  members.flatMap fun member => byte ',' :: canonicalMemberBytes member

/-- The canonical text of an object whose members are listed in a given order. -/
def listedBytes (members : List (String × Value)) : Bytes :=
  Bytes.ofChars (objectText (members.map fun member => (stringText member.1, member.2.canonicalChars)))

theorem canonicalMembersTail_cons (member : String × Value) (members : List (String × Value)) (rest : Bytes) :
    canonicalMembersTail (member :: members) ++ rest =
      byte ',' :: (canonicalMemberBytes member ++ (canonicalMembersTail members ++ rest)) := by
  simp [canonicalMembersTail]

theorem listedBytes_nil (rest : Bytes) : listedBytes [] ++ rest = byte '\x7b' :: byte '\x7d' :: rest := rfl

theorem listedBytes_cons (member : String × Value) (members : List (String × Value)) (rest : Bytes) :
    listedBytes (member :: members) ++ rest = byte '\x7b' ::
      (canonicalMemberBytes member ++ (canonicalMembersTail members ++ byte '\x7d' :: rest)) := by
  have hmember (member : String × Value) :
      Bytes.ofChars (stringText member.1 ++ ':' :: member.2.canonicalChars) = canonicalMemberBytes member := by
    rw [Bytes.ofChars_append, ofChars_ascii_cons (by decide)]
    rfl
  have htail (members : List (String × Value)) :
      Bytes.ofChars (members.flatMap fun member =>
        ',' :: (stringText member.1 ++ ':' :: member.2.canonicalChars)) = canonicalMembersTail members := by
    induction members with
    | nil => rfl
    | cons member members ih =>
        rw [List.flatMap_cons, Bytes.ofChars_append, ih, ofChars_ascii_cons (by decide), hmember]
        rfl
  rw [listedBytes, objectText, List.map_cons, List.map_cons, separated_cons, List.flatMap_map, List.flatMap_map,
    List.cons_append, ofChars_ascii_cons (by decide), Bytes.ofChars_append, Bytes.ofChars_append, htail, hmember,
    ofChars_ascii_cons (by decide), Bytes.ofChars_nil]
  simp

theorem afterValue_canonicalMembersTail (members : List (String × Value)) (rest : Bytes) :
    AfterValue (canonicalMembersTail members ++ byte '\x7d' :: rest) := by
  cases members with
  | nil => exact afterValue_brace rest
  | cons member members => exact afterValue_comma _

/-- The same name with the same value. -/
def SameMember (member other : String × Value) : Prop := member.1 = other.1 ∧ member.2.Same other.2

theorem canonicalMemberBytes_unique {member other : String × Value} (hmember : Determined member.2)
    (hother : other.2.Ordered) {rest rest' : Bytes} (hrest : AfterValue rest) (hrest' : AfterValue rest')
    (h : canonicalMemberBytes member ++ rest = canonicalMemberBytes other ++ rest') :
    SameMember member other ∧ rest = rest' := by
  rw [canonicalMemberBytes, canonicalMemberBytes, List.append_assoc, List.append_assoc] at h
  obtain ⟨hname, hvalue⟩ := stringText_unique h
  obtain ⟨hsame, htail⟩ := hmember _ _ _ hother hrest hrest' (List.cons.inj hvalue).2
  exact ⟨⟨hname, hsame⟩, htail⟩

theorem canonicalMembersTail_unique {members : List (String × Value)}
    (hmembers : ∀ member ∈ members, Determined member.2) {others : List (String × Value)}
    (hothers : ∀ member ∈ others, member.2.Ordered) {rest rest' : Bytes}
    (h : canonicalMembersTail members ++ byte '\x7d' :: rest =
      canonicalMembersTail others ++ byte '\x7d' :: rest') :
    List.Forall₂ SameMember members others ∧ rest = rest' := by
  induction members generalizing others with
  | nil =>
      cases others with
      | nil => exact ⟨.nil, (List.cons.inj h).2⟩
      | cons other others => exact absurd (List.cons.inj h).1 (by decide)
  | cons member members ih =>
      cases others with
      | nil => exact absurd (List.cons.inj h).1 (by decide)
      | cons other others =>
          rw [List.forall_mem_cons] at hmembers hothers
          rw [canonicalMembersTail_cons, canonicalMembersTail_cons] at h
          obtain ⟨hsame, htail⟩ := canonicalMemberBytes_unique hmembers.1 hothers.1
            (afterValue_canonicalMembersTail members rest) (afterValue_canonicalMembersTail others rest')
            (List.cons.inj h).2
          obtain ⟨hall, hrest⟩ := ih hmembers.2 hothers.2 htail
          exact ⟨.cons hsame hall, hrest⟩

theorem listedBytes_unique {members : List (String × Value)}
    (hmembers : ∀ member ∈ members, Determined member.2) {others : List (String × Value)}
    (hothers : ∀ member ∈ others, member.2.Ordered) {rest rest' : Bytes}
    (h : listedBytes members ++ rest = listedBytes others ++ rest') :
    List.Forall₂ SameMember members others ∧ rest = rest' := by
  cases members with
  | nil =>
      cases others with
      | nil => exact ⟨.nil, List.append_cancel_left h⟩
      | cons other others =>
          rw [listedBytes_nil, listedBytes_cons] at h
          exact absurd (List.cons.inj (List.cons.inj h).2).1 (by decide)
  | cons member members =>
      cases others with
      | nil =>
          rw [listedBytes_nil, listedBytes_cons] at h
          exact absurd (List.cons.inj (List.cons.inj h).2).1 (by decide)
      | cons other others =>
          rw [List.forall_mem_cons] at hmembers hothers
          rw [listedBytes_cons, listedBytes_cons] at h
          obtain ⟨hsame, htail⟩ := canonicalMemberBytes_unique hmembers.1 hothers.1
            (afterValue_canonicalMembersTail members rest) (afterValue_canonicalMembersTail others rest')
            (List.cons.inj h).2
          obtain ⟨hall, hrest⟩ := canonicalMembersTail_unique hmembers.2 hothers.2 htail
          exact ⟨.cons hsame hall, hrest⟩

/-- A member under its name as it stands in a text. -/
def quoteName (member : String × Value) : String × Value := (nameText member.1, member.2)

theorem canonicalMembers_eq_map (members : List (String × Value)) :
    Value.canonicalMembers members =
      (members.map quoteName).map fun member => (member.1, member.2.canonicalChars) := by
  induction members with
  | nil => rfl
  | cons member members ih =>
      obtain ⟨name, value⟩ := member
      rw [Value.canonicalMembers, ih]
      rfl

theorem exists_map_of_forall_mem {α β : Type} {f : α → β} {l : List α} (m : List β)
    (h : ∀ b ∈ m, b ∈ l.map f) : ∃ k : List α, m = k.map f := by
  induction m with
  | nil => exact ⟨[], rfl⟩
  | cons b m ih =>
      rw [List.forall_mem_cons] at h
      obtain ⟨a, -, rfl⟩ := List.mem_map.mp h.1
      obtain ⟨k, rfl⟩ := ih h.2
      exact ⟨a :: k, rfl⟩

theorem quoteName_injective : Function.Injective quoteName := by
  rintro ⟨name, v⟩ ⟨other, w⟩ h
  obtain ⟨hname, hvalue⟩ := Prod.mk.inj h
  exact Prod.ext (nameText_injective hname) hvalue

/-- The canonical text of an object lists the members of its map in the order of their quoted names. -/
theorem exists_listing (members : List (String × Value)) :
    ∃ listed : List (String × Value),
      (Value.object members).canonicalChars =
        objectText (listed.map fun member => (stringText member.1, member.2.canonicalChars)) ∧
      listed.Pairwise (fun a b => nameText a.1 < nameText b.1) ∧ listed.Perm (Dict.ofList members) := by
  obtain ⟨listed, hlisted⟩ := exists_map_of_forall_mem (Dict.ofList (members.map quoteName))
    fun _ hmember => Dict.mem_of_mem_ofList hmember
  have hascending : Dict.Ascending (listed.map quoteName) := hlisted ▸ Dict.ascending_ofList _
  have hsorted : listed.Pairwise fun a b => nameText a.1 < nameText b.1 := by
    rw [Dict.Ascending, List.pairwise_map] at hascending
    exact hascending
  refine ⟨listed, ?_, hsorted, ?_⟩
  · have htexts : (listed.map quoteName).map (fun member => (member.1.toList, member.2.canonicalChars)) =
        listed.map fun member => (stringText member.1, member.2.canonicalChars) := by
      rw [List.map_map]
      exact List.map_congr_left fun member _ => by simp [quoteName, nameText]
    rw [← htexts, Value.canonicalChars, canonicalObject, canonicalMembers_eq_map, Dict.ofList_map, hlisted,
      List.map_map]
    rfl
  · have hnodup : listed.Nodup := (List.nodup_map_iff quoteName_injective).mp hascending.nodup
    refine (List.perm_ext_iff_of_nodup hnodup (Dict.ascending_ofList members).nodup).mpr fun member => ?_
    have hname (name : String) : Dict.get? (members.reverse.map quoteName) (nameText name) =
        Dict.get? members.reverse name := Dict.get?_map_name nameText_injective _ _
    calc member ∈ listed
        ↔ quoteName member ∈ Dict.ofList (members.map quoteName) := by
          rw [hlisted, List.mem_map_of_injective quoteName_injective]
      _ ↔ Dict.get? (members.reverse.map quoteName) (nameText member.1) = some member.2 := by
          rw [Dict.mem_iff_get? (Dict.ascending_ofList _), Dict.get?_ofList, List.map_reverse]
          rfl
      _ ↔ member ∈ Dict.ofList members := by
          rw [hname, Dict.mem_iff_get? (Dict.ascending_ofList _), Dict.get?_ofList]

theorem get?_of_sameMembers {members others : List (String × Value)}
    (h : List.Forall₂ SameMember members others) (name : String) :
    Option.Rel Value.Same (Dict.get? members name) (Dict.get? others name) := by
  induction h with
  | nil => exact .none
  | @cons member other _ _ hhead _ ih =>
      obtain ⟨key, value⟩ := member
      obtain ⟨key', value'⟩ := other
      obtain ⟨hkey, hsame⟩ := hhead
      cases hkey
      rw [Dict.get?_cons, Dict.get?_cons]
      split
      · exact .some hsame
      · exact ih

theorem determined_object {members : Object} (hordered : Dict.Ascending members)
    (hmembers : ∀ member ∈ members, Determined member.2) : Determined (.object members) := by
  intro w rest rest' hw hrest hrest' h
  cases w with
  | object others =>
      obtain ⟨hascending, hothers⟩ := Value.ordered_object.mp hw
      obtain ⟨listed, htext, -, hperm⟩ := exists_listing members
      obtain ⟨listed', htext', -, hperm'⟩ := exists_listing others
      rw [Dict.ofList_of_ascending hordered] at hperm
      rw [Dict.ofList_of_ascending hascending] at hperm'
      have hlisted : listedBytes listed ++ rest = listedBytes listed' ++ rest' := by
        rwa [Value.canonicalBytes, Value.canonicalBytes, htext, htext'] at h
      obtain ⟨hsame, hrest⟩ := listedBytes_unique (fun member hmember => hmembers member (hperm.mem_iff.mp hmember))
        (fun member hmember => hothers member (hperm'.mem_iff.mp hmember)) hlisted
      refine ⟨.object fun name => ?_, hrest⟩
      rw [← Dict.get?_of_perm (Dict.Ascending.nodup_names hordered) hperm,
        ← Dict.get?_of_perm (Dict.Ascending.nodup_names hascending) hperm']
      exact get?_of_sameMembers hsame name
  | _ => exact absurd (kind_eq h) (by simp [Value.kind])

/-- The canonical text of a value in order determines it and shows where it ends. -/
theorem determined (v : Value) (hv : v.Ordered) : Determined v := by
  induction v using Value.nestedRec with
  | null => exact determined_null
  | bool b => exact determined_bool b
  | number n => exact determined_number n
  | string s => exact determined_string s
  | array items ih =>
      have hitems := Value.ordered_array.mp hv
      exact determined_array fun item hitem => ih item hitem (hitems item hitem)
  | object members ih =>
      obtain ⟨hascending, hmembers⟩ := Value.ordered_object.mp hv
      exact determined_object hascending fun member hmember => ih member hmember (hmembers member hmember)

/-- Values with one canonical text are the same. -/
theorem same_of_canonicalBytes {v w : Value} (hv : v.Ordered) (hw : w.Ordered)
    (h : v.canonicalBytes = w.canonicalBytes) : v.Same w :=
  (determined v hv w [] [] hw afterValue_nil afterValue_nil (by rw [h])).1

end Attest.Json
