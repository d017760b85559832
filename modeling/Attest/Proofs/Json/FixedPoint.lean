import Attest.Proofs.Json.MemberOrder
import Attest.Proofs.Json.Rearrangement

/-!
Canonical texts as texts. The canonical text of a value is read as the value again, but for the form of its numbers: a
whole floating-point number whose digits are those of an integer of 64 bits is read as that integer. The canonical text
of what was read is the same text again, at every depth that a reader allows.
-/

namespace Attest

/-- The integer whose digits stand in the canonical text of a floating-point number, if that text has neither a point
nor an exponent. -/
def Binary.wholeText? (x : Double) : Option Int :=
  if x.isZero then some 0
  else if 0 ≤ x.shortest.exponent ∧ x.shortest.point - 1 ≤ DecimalLayout.canonical.greatest then
    let magnitude := x.shortest.coefficient * 10 ^ x.shortest.exponent.toNat
    some (if x.negative then -(magnitude : Int) else magnitude)
  else none

namespace Json

open Ascii (byte)

/-- The number as its canonical text is read: an integer where the text is that of an integer which fits. -/
def Number.respelled : Number → Number
  | .integer value fits => .integer value fits
  | .double x =>
    match x.wholeText? with
    | none => .double x
    | some value => if fits : leastInteger ≤ value ∧ value ≤ greatestInteger then .integer value fits else .double x

namespace Value

mutual

/-- The value with every number in it changed, at every depth. -/
def mapNumbers (f : Number → Number) : Value → Value
  | .null => .null
  | .bool b => .bool b
  | .number n => .number (f n)
  | .string s => .string s
  | .array items => .array (mapItems f items)
  | .object members => .object (mapMembers f members)

def mapItems (f : Number → Number) : List Value → List Value
  | [] => []
  | item :: items => item.mapNumbers f :: mapItems f items

def mapMembers (f : Number → Number) : List (String × Value) → List (String × Value)
  | [] => []
  | member :: members => mapMember f member :: mapMembers f members

def mapMember (f : Number → Number) : String × Value → String × Value
  | (name, value) => (name, value.mapNumbers f)

end

end Value

/-! ### Numbers -/

theorem canonicalText_double {x : Double} (hx : x.significand ≠ 0) :
    (Number.double x).canonicalText = signText x.negative ++ DecimalLayout.canonical.text x.shortest := by
  have hzero : x.isZero = false := beq_eq_false_iff_ne.mpr hx
  rw [Number.canonicalText, Binary.canonicalText, hzero, signText]
  generalize DecimalLayout.canonical.text x.shortest = text
  cases x.negative <;> rfl

/-- A decimal number with zeros up to its point is written with them, and without a point. -/
theorem text_canonical_whole {s : Scientific} (hs : s.Normal) (hpos : 0 < s.coefficient) (hexponent : 0 ≤ s.exponent)
    (hpoint : s.point - 1 ≤ DecimalLayout.canonical.greatest) :
    DecimalLayout.canonical.text s = Nat.toDigits 10 (s.coefficient * 10 ^ s.exponent.toNat) := by
  obtain ⟨c, cs, hdigits, -⟩ := hs.head
  have hlength : 0 < s.digits.length := by
    rw [hdigits]
    exact Nat.succ_pos _
  rw [Scientific.exponent] at hexponent
  obtain ⟨whole, hwhole⟩ : ∃ whole : Nat, s.point = whole + 1 := ⟨(s.point - 1).toNat, by omega⟩
  have hleast : DecimalLayout.canonical.least ≤ s.point - 1 := by
    have hvalue : DecimalLayout.canonical.least = -6 := rfl
    omega
  have hcase : s.point = Int.ofNat (whole + 1) := hwhole
  have hfew : s.digits.length ≤ whole + 1 := by omega
  have hzeros : s.exponent.toNat = whole + 1 - s.digits.length := by
    rw [Scientific.exponent]
    omega
  rw [DecimalLayout.text, if_pos ⟨hleast, hpoint⟩, toDigits_mul_pow hpos, hs.toDigits_coefficient, hzeros]
  simp only [DecimalLayout.positional, hcase, if_pos hfew]
  exact List.append_nil _

theorem wholeText?_zero {x : Double} (hx : x.significand = 0) : x.wholeText? = some 0 := by
  have hzero : x.isZero = true := beq_iff_eq.mpr hx
  rw [Binary.wholeText?, if_pos hzero]

/-- A canonical text without point and exponent is that of an integer to which the floating-point number is the nearest
one. -/
theorem exists_of_wholeText? {x : Double} (hx : x.significand ≠ 0) {value : Int} (h : x.wholeText? = some value) :
    ∃ m : Nat, m ≠ 0 ∧ value = (if x.negative then -(m : Int) else m) ∧
      (Number.double x).canonicalText = signText x.negative ++ Nat.toDigits 10 m ∧
      Binary.ofDecimal? .double x.negative m 0 = some x := by
  have hzero : ¬ x.isZero = true := fun h => hx (beq_iff_eq.mp h)
  have hnamed := Binary.namedBy_shortest x hx
  have hpos := hnamed.coefficient_pos hx
  rw [Binary.wholeText?, if_neg hzero] at h
  split at h
  · rename_i hwhole
    refine ⟨_, Nat.mul_ne_zero (Nat.ne_of_gt hpos) (Nat.ne_of_gt (Nat.pow_pos (by decide))), (Option.some.inj h).symm,
      ?_, ?_⟩
    · rw [canonicalText_double hx, text_canonical_whole hnamed.normal hpos hwhole.1 hwhole.2]
    · have hexponent : x.shortest.exponent - (x.shortest.exponent.toNat : Int) = 0 := by omega
      rw [← hnamed.rounds, ← Binary.ofDecimal?_mul_pow x.negative hpos x.shortest.exponent.toNat, hexponent]
  · cases h

theorem canonicalText_of_wholeText? {x : Double} {value : Int} (h : x.wholeText? = some value) :
    (Number.double x).canonicalText = DecimalLayout.integer value := by
  by_cases hx : x.significand = 0
  · have hzero : x.isZero = true := beq_iff_eq.mpr hx
    cases (wholeText?_zero hx).symm.trans h
    rw [Number.canonicalText, Binary.canonicalText, if_pos hzero]
    rfl
  · obtain ⟨m, hm, rfl, htext, -⟩ := exists_of_wholeText? hx h
    obtain ⟨k, rfl⟩ := Nat.exists_eq_succ_of_ne_zero hm
    rw [htext]
    cases x.negative <;> rfl

/-- The digits of an integer that does not fit stand for the floating-point number to which it rounds. -/
theorem Numeral.number?_ofNat_of_not_fits {negative : Bool} {m : Nat} (hm : m ≠ 0)
    (hfits : ¬ (leastInteger ≤ (if negative then -(m : Int) else m) ∧
      (if negative then -(m : Int) else m) ≤ greatestInteger)) :
    (Numeral.ofNat m).number? negative = (Binary.ofDecimal? .double negative m 0).map .double := by
  have hzero : ¬ (negative = true ∧ m = 0) := fun h => hm h.2
  simp only [Numeral.number?, Numeral.ofNat, Numeral.exponentValue, Option.map_none, Nat.ofDigitChars_ten_toDigits,
    Number.ofParts?, List.length_nil, if_true, if_neg hzero, dif_neg hfits]
  simp

/-- A numeral of a floating-point number without point and exponent is that of an integer. -/
theorem wholeText?_ne_none {x : Double} {n : Numeral} (hx : x.significand ≠ 0)
    (htext : DecimalLayout.canonical.text x.shortest = n.text) (hn : n.Writes x.shortest) (hfraction : n.fraction = [])
    (hexponent : n.exponent = none) : x.wholeText? ≠ none := by
  have hzero : ¬ x.isZero = true := fun h => hx (beq_iff_eq.mp h)
  obtain ⟨-, j, -, hj⟩ := hn.digits
  have hvalue : n.exponentValue = none := by rw [Numeral.exponentValue, hexponent, Option.map_none]
  rw [hvalue, hfraction, Option.getD_none, List.length_nil] at hj
  have hwhole : 0 ≤ x.shortest.exponent := by omega
  have hpoint : x.shortest.point - 1 ≤ DecimalLayout.canonical.greatest := by
    by_contra hfar
    -- Beyond the layout there would be an exponent, whose mark is no digit.
    rw [DecimalLayout.text, if_neg fun h => hfar h.2] at htext
    have hmark : 'e' ∈ n.whole := by
      have hmem : 'e' ∈ n.text := by
        rw [← htext, DecimalLayout.exponential]
        simp
      simpa [Numeral.text, Numeral.fractionText, Numeral.exponentText, hfraction, hexponent] using hmem
    exact absurd (hn.proper.whole 'e' hmark) (by decide)
  rw [Binary.wholeText?, if_neg hzero, if_pos ⟨hwhole, hpoint⟩]
  exact Option.some_ne_none _

/-- What is written for a number in a canonical text is a text of the number that it is read as. -/
theorem writes_respelled (n : Number) : Writes (.number n.respelled) (Bytes.ofChars n.canonicalText) := by
  cases n with
  | integer value fits => exact writes_number (.integer value fits)
  | double x =>
      rw [Number.respelled]
      cases hwhole : x.wholeText? with
      | some value =>
          by_cases fits : leastInteger ≤ value ∧ value ≤ greatestInteger
          · simp only [dif_pos fits]
            rw [canonicalText_of_wholeText? hwhole]
            exact writes_number (.integer value fits)
          · have hx : x.significand ≠ 0 := by
              intro hzero
              cases (wholeText?_zero hzero).symm.trans hwhole
              exact fits (by decide)
            obtain ⟨m, hm, rfl, htext, hrounds⟩ := exists_of_wholeText? hx hwhole
            have hnumber := Numeral.number?_ofNat_of_not_fits hm fits
            rw [hrounds, Option.map_some] at hnumber
            simp only [dif_neg fits]
            rw [htext, ← Numeral.text_ofNat]
            exact writes_numeral (Numeral.proper_ofNat m) hnumber
      | none =>
          have hx : x.significand ≠ 0 := by
            intro hzero
            cases (wholeText?_zero hzero).symm.trans hwhole
          have hnamed := Binary.namedBy_shortest x hx
          obtain ⟨n, htext, hn, -⟩ := exists_numeral_text .canonical hnamed.normal
          have hpoint : n.fraction ≠ [] ∨ n.exponent ≠ none := by
            by_contra hplain
            rw [not_or, not_not, not_not] at hplain
            exact wholeText?_ne_none hx htext hn hplain.1 hplain.2 hwhole
          rw [canonicalText_double hx, htext]
          exact writes_numeral hn.proper (hn.number? hnamed hx hpoint)

theorem canonicalText_respelled (n : Number) : n.respelled.canonicalText = n.canonicalText := by
  cases n with
  | integer value fits => rfl
  | double x =>
      rw [Number.respelled]
      cases hwhole : x.wholeText? with
      | none => rfl
      | some value =>
          by_cases fits : leastInteger ≤ value ∧ value ≤ greatestInteger
          · simp only [dif_pos fits]
            exact (canonicalText_of_wholeText? hwhole).symm
          · simp only [dif_neg fits]

/-! ### Values -/

namespace Value

theorem mapItems_eq_map (f : Number → Number) (items : List Value) : mapItems f items = items.map (mapNumbers f) := by
  induction items with
  | nil => rfl
  | cons item items ih => rw [mapItems, ih, List.map_cons]

theorem mapMembers_eq_map (f : Number → Number) (members : List (String × Value)) :
    mapMembers f members = members.map fun member => (member.1, member.2.mapNumbers f) := by
  induction members with
  | nil => rfl
  | cons member members ih =>
      obtain ⟨name, v⟩ := member
      rw [mapMembers, mapMember, ih, List.map_cons]

theorem mapNumbers_array (f : Number → Number) (items : List Value) :
    (array items).mapNumbers f = array (items.map (mapNumbers f)) := by rw [mapNumbers, mapItems_eq_map]

theorem mapNumbers_object (f : Number → Number) (members : List (String × Value)) :
    (object members).mapNumbers f = object (members.map fun member => (member.1, member.2.mapNumbers f)) := by
  rw [mapNumbers, mapMembers_eq_map]

theorem ordered_mapNumbers (f : Number → Number) {v : Value} (hv : v.Ordered) : (v.mapNumbers f).Ordered := by
  induction v using nestedRec with
  | array items ih =>
      have hitems := ordered_array.mp hv
      rw [mapNumbers_array, ordered_array, List.forall_mem_map]
      exact fun item hitem => ih item hitem (hitems item hitem)
  | object members ih =>
      obtain ⟨hascending, hmembers⟩ := ordered_object.mp hv
      rw [mapNumbers_object, ordered_object, List.forall_mem_map]
      refine ⟨?_, fun member hmember => ih member hmember (hmembers member hmember)⟩
      rw [Dict.Ascending, List.pairwise_map]
      exact hascending
  | _ => exact hv

theorem depth_mapNumbers_le (f : Number → Number) {v : Value} {budget : Nat} (h : v.depth ≤ budget) :
    (v.mapNumbers f).depth ≤ budget := by
  induction v using nestedRec generalizing budget with
  | array items ih =>
      obtain ⟨budget, rfl⟩ : ∃ n, budget = n + 1 := ⟨budget - 1, by rw [depth] at h; omega⟩
      rw [depth_array_le] at h
      rw [mapNumbers_array, depth_array_le, List.forall_mem_map]
      exact fun item hitem => ih item hitem (h item hitem)
  | object members ih =>
      obtain ⟨budget, rfl⟩ : ∃ n, budget = n + 1 := ⟨budget - 1, by rw [depth] at h; omega⟩
      rw [depth_object_le] at h
      rw [mapNumbers_object, depth_object_le, List.forall_mem_map]
      exact fun member hmember => ih member hmember (h member hmember)
  | _ => exact h

/-- Numbers may be changed to others with the same canonical text. -/
theorem canonicalChars_mapNumbers {f : Number → Number} (hf : ∀ n, (f n).canonicalText = n.canonicalText) (v : Value) :
    (v.mapNumbers f).canonicalChars = v.canonicalChars := by
  induction v using nestedRec with
  | number n => exact hf n
  | array items ih =>
      rw [mapNumbers_array, canonicalChars, canonicalChars, canonicalItems_eq_map, canonicalItems_eq_map, List.map_map]
      exact congrArg arrayText (List.map_congr_left ih)
  | object members ih =>
      rw [mapNumbers_object, canonicalChars, canonicalChars, canonicalMembers_eq_map, canonicalMembers_eq_map]
      simp only [List.map_map]
      exact congrArg canonicalObject (List.map_congr_left fun member hmember =>
        congrArg (Prod.mk (nameText member.1)) (ih member hmember))
  | _ => rfl

end Value

/-! ### Texts -/

/-- The canonical text of a value is a text of the value with its numbers as they are spelled there. -/
theorem isTextOf_canonicalBytes {v : Value} (hv : v.Ordered) :
    IsTextOf (v.mapNumbers Number.respelled) v.canonicalBytes := by
  have hnonempty : Nonempty Value := ⟨.null⟩
  have hwritten : ∃ u, Rearranged u (v.mapNumbers Number.respelled) ∧ Writes u (Bytes.ofChars v.canonicalChars) := by
    induction v using Value.nestedRec with
    | number n => exact ⟨_, .number _, writes_respelled n⟩
    | array items ih =>
        have hitems := Value.ordered_array.mp hv
        choose! u hsame hwrites using fun item hitem => ih item hitem (hitems item hitem)
        refine ⟨.array (items.map u), ?_, ?_⟩
        · rw [Value.mapNumbers_array]
          refine .array (List.forall₂_map_left_iff.mpr (List.forall₂_map_right_iff.mpr (List.forall₂_same.mpr ?_)))
          exact hsame
        · rw [Value.canonicalChars, canonicalItems_eq_map]
          exact writes_arrayText items hwrites
    | object members ih =>
        obtain ⟨hascending, hmembers⟩ := Value.ordered_object.mp hv
        obtain ⟨listed, htext, -, hperm⟩ := exists_listing members
        rw [Dict.ofList_of_ascending hascending] at hperm
        choose! u hsame hwrites using fun member hmember => ih member hmember (hmembers member hmember)
        refine ⟨.object (listed.map fun member => (member.1, u member)), ?_, ?_⟩
        · rw [Value.mapNumbers_object]
          refine .object ?_ (hperm.map _)
          refine List.forall₂_map_left_iff.mpr (List.forall₂_map_right_iff.mpr (List.forall₂_same.mpr ?_))
          exact fun member hmember => .values (hsame member (hperm.mem_iff.mp hmember))
        · rw [htext]
          exact writes_objectText listed fun member hmember => hwrites member (hperm.mem_iff.mp hmember)
    | _ => exact ⟨_, .refl _, writes_chars _⟩
  obtain ⟨u, hsame, hwrites⟩ := hwritten
  have htext := WritesText.around blank_nil hwrites blank_nil
  rw [List.nil_append, List.append_nil] at htext
  exact ⟨u, hsame, htext⟩

/-- The canonical text of a value is read as the same value, in which each number is as it is spelled there, and it is
the canonical text of what is read. -/
theorem parse_canonicalBytes {v : Value} (hv : v.Ordered) (hdepth : v.depth ≤ nestingLimit) :
    parse v.canonicalBytes = .ok (v.mapNumbers Number.respelled) ∧ v.Same (v.mapNumbers Number.respelled) ∧
      (v.mapNumbers Number.respelled).canonicalBytes = v.canonicalBytes := by
  have hordered := Value.ordered_mapNumbers Number.respelled hv
  have hbytes : (v.mapNumbers Number.respelled).canonicalBytes = v.canonicalBytes :=
    congrArg Bytes.ofChars (Value.canonicalChars_mapNumbers canonicalText_respelled v)
  refine ⟨?_, same_of_canonicalBytes hv hordered hbytes.symm, hbytes⟩
  exact parse_of_isTextOf hordered (Value.depth_mapNumbers_le _ hdepth) (isTextOf_canonicalBytes hv)

namespace Sample

/-- A value whose members are listed in another order in its canonical text, with characters that are escaped and
others that take more than one byte, where `one` stands as a number. -/
def escaping (one : Number) : Value :=
  .object [("\"\n", .string "\\\x01é😀"), ("a", .array [.number one, .null]), ("a!", .object [])]

end Sample

open Json.Sample in
/-- The floating-point number one comes back as an integer, and all else as it was. -/
theorem parse_canonicalBytes_escaping :
    let double : Number := .double ⟨false, 4503599627370496, 1022, by decide, by decide, by decide⟩
    let integer : Number := .integer 1 (by decide)
    (escaping double).Ordered ∧ (escaping double).depth ≤ nestingLimit ∧
      (escaping double).canonicalBytes =
        Bytes.ofString "\x7b\"\\\"\\n\":\"\\\\\\u0001é😀\",\"a!\":\x7b\x7d,\"a\":[1,null]\x7d" ∧
      parse (escaping double).canonicalBytes = .ok (escaping integer) ∧ (escaping double).Same (escaping integer) ∧
      (escaping integer).canonicalBytes = (escaping double).canonicalBytes := by
  intro double integer
  have hordered : (escaping double).Ordered := by
    refine Value.ordered_object.mpr ⟨by unfold Dict.Ascending; decide, ?_⟩
    simp [Value.Ordered, Value.OrderedItems, Value.OrderedMembers, Dict.Ascending]
  have hdepth : (escaping double).depth ≤ nestingLimit := by decide
  have hread : (escaping double).mapNumbers Number.respelled = escaping integer := by decide +kernel
  exact ⟨hordered, hdepth, by decide +kernel, hread ▸ parse_canonicalBytes hordered hdepth⟩

end Json

end Attest
