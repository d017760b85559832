import Attest.Json.Scan
import Attest.Proofs.Numeral.ReadBack
import Attest.Proofs.Text.Ascii

/-!
Numbers in a text. A numeral is read to its end, wherever the text does not go on with it, and gives
the number that its digits stand for; the numeral of a number gives that number back.
-/

namespace Attest.Json

open Ascii (byte isDigit Undigited)

/-- A numeral without its sign: the digits before the point, those after it, without which there is
no point, and the exponent as its sign and its digits. -/
structure Numeral where
  whole : List Char
  fraction : List Char
  exponent : Option (Bool × List Char)

namespace Numeral

/-- The point and the digits after it. -/
def fractionText (n : Numeral) : List Char := if n.fraction = [] then [] else '.' :: n.fraction

/-- The exponent with its mark. -/
def exponentText (n : Numeral) : List Char :=
  n.exponent.elim [] fun e => 'e' :: (if e.1 then '-' else '+') :: e.2

/-- The numeral as characters. -/
def text (n : Numeral) : List Char := n.whole ++ (n.fractionText ++ n.exponentText)

/-- The number that the exponent stands for. -/
def exponentValue (n : Numeral) : Option Int :=
  n.exponent.map fun e =>
    if e.1 then -(Nat.ofDigitChars 10 e.2 0 : Int) else Nat.ofDigitChars 10 e.2 0

/-- The number that the numeral stands for. -/
def number? (negative : Bool) (n : Numeral) : Option Number :=
  Number.ofParts? negative (Nat.ofDigitChars 10 n.whole 0) (Nat.ofDigitChars 10 n.fraction 0)
    n.fraction.length n.exponentValue

/-- The parts of the numeral consist of digits, and no zero stands in front. -/
structure Proper (n : Numeral) : Prop where
  whole : ∀ c ∈ n.whole, c.isDigit = true
  whole_ne_nil : n.whole ≠ []
  no_zero : n.whole.head? = some '0' → n.whole.length = 1
  fraction : ∀ c ∈ n.fraction, c.isDigit = true
  exponent : ∀ e ∈ n.exponent, e.2 ≠ [] ∧ ∀ c ∈ e.2, c.isDigit = true

end Numeral

/-- A numeral as a text spells it: with the sign of a negative number, the mark of the exponent small or capital, and
an exponent that is not negative with a plus or without. -/
structure Literal where
  negative : Bool
  numeral : Numeral
  capital : Bool
  plus : Bool

/-- The sign of a numeral. -/
def signText (negative : Bool) : List Char := if negative then ['-'] else []

namespace Literal

/-- The sign of an exponent. -/
def exponentSign (negative plus : Bool) : List Char := if negative then ['-'] else if plus then ['+'] else []

/-- The exponent with its mark. -/
def exponentText (l : Literal) : List Char :=
  l.numeral.exponent.elim [] fun e => (if l.capital then 'E' else 'e') :: (exponentSign e.1 l.plus ++ e.2)

/-- The literal as characters. -/
def text (l : Literal) : List Char :=
  signText l.negative ++ (l.numeral.whole ++ (l.numeral.fractionText ++ l.exponentText))

/-- The number that the literal stands for, if it is not out of range. -/
def number? (l : Literal) : Option Number := l.numeral.number? l.negative

end Literal

/-- A text that does not go on with a number. -/
def Unnumbered (text : Bytes) : Prop :=
  ∀ b ∈ text.head?, isDigit b = false ∧ b ≠ byte '.' ∧ b ≠ byte 'e' ∧ b ≠ byte 'E'

theorem Unnumbered.undigited {text : Bytes} (h : Unnumbered text) : Undigited text :=
  fun b hb => (h b hb).1

theorem isEmpty_map_byte {cs : List Char} (h : cs ≠ []) : (cs.map byte).isEmpty = false := by
  cases cs with
  | nil => exact absurd rfl h
  | cons c cs => rfl

theorem byte_ne_of_isDigit {c d : Char} (hc : c.isDigit = true) (hd : d.isDigit = false)
    (hd' : d.toNat < 128) : (byte c == byte d) = false := by
  apply beq_eq_false_iff_ne.mpr
  intro h
  rw [Ascii.byte_inj (Ascii.lt_of_isDigit hc) hd' h, hd] at hc
  exact Bool.false_ne_true hc

theorem scanExponent_digits (negative plus : Bool) {cs : List Char} (hne : cs ≠ [])
    (hdigits : ∀ c ∈ cs, c.isDigit = true) {rest : Bytes} (hrest : Unnumbered rest) :
    scanExponent ((Literal.exponentSign negative plus ++ cs).map byte ++ rest) =
      .ok (if negative then -(Nat.ofDigitChars 10 cs 0 : Int) else Nat.ofDigitChars 10 cs 0, rest) := by
  have hspan := Ascii.span_digits hdigits hrest.undigited
  have hvalue := Ascii.decimalValue_digits hdigits
  cases negative with
  | true =>
      simp only [Literal.exponentSign, if_true, List.cons_append, List.nil_append, List.map_cons, scanExponent,
        beq_self_eq_true, hspan, isEmpty_map_byte hne, Bool.false_eq_true, if_false, hvalue]
  | false =>
      cases plus with
      | true =>
          simp only [Literal.exponentSign, Bool.false_eq_true, if_false, if_true, List.cons_append, List.nil_append,
            List.map_cons, scanExponent, show (byte '+' == byte '-') = false by decide, beq_self_eq_true, hspan,
            isEmpty_map_byte hne, hvalue]
      | false =>
          -- The first digit stands where a sign could.
          cases cs with
          | nil => exact absurd rfl hne
          | cons c cs =>
              have hdigit := hdigits c List.mem_cons_self
              have hminus := byte_ne_of_isDigit hdigit (d := '-') (by decide) (by decide)
              have hplus := byte_ne_of_isDigit hdigit (d := '+') (by decide) (by decide)
              have hempty := isEmpty_map_byte (List.cons_ne_nil c cs)
              simp only [List.map_cons, List.cons_append] at hspan hvalue hempty
              simp only [Literal.exponentSign, Bool.false_eq_true, if_false, List.nil_append, List.map_cons,
                List.cons_append, scanExponent, hminus, hplus, hspan, hempty, hvalue]

theorem head_exponentText (l : Literal) {rest : Bytes} (hrest : Unnumbered rest) :
    ∀ b ∈ (l.exponentText.map byte ++ rest).head?, isDigit b = false ∧ b ≠ byte '.' := by
  rw [Literal.exponentText]
  cases l.numeral.exponent with
  | none => exact fun b hb => ⟨(hrest b hb).1, (hrest b hb).2.1⟩
  | some e =>
      intro b hb
      obtain rfl := Option.some.inj hb
      cases l.capital <;> decide

theorem undigited_exponentText (l : Literal) {rest : Bytes} (hrest : Unnumbered rest) :
    Undigited (l.exponentText.map byte ++ rest) := fun b hb => (head_exponentText l hrest b hb).1

theorem undigited_fractionText (l : Literal) {rest : Bytes} (hrest : Unnumbered rest) :
    Undigited (l.numeral.fractionText.map byte ++ (l.exponentText.map byte ++ rest)) := by
  rw [Numeral.fractionText]
  split
  · exact undigited_exponentText l hrest
  · exact Ascii.undigited_cons (by decide)

theorem no_zero_bytes {n : Numeral} (hn : n.Proper) :
    ((n.whole.map byte).head? == some (byte '0') && decide ((n.whole.map byte).length > 1)) = false := by
  cases hw : n.whole with
  | nil => rfl
  | cons c cs =>
      by_cases hc : c = '0'
      · have hlength := hn.no_zero (by rw [hw, hc, List.head?_cons])
        rw [hw, List.length_cons] at hlength
        have hcs : cs = [] := List.eq_nil_of_length_eq_zero (by omega)
        rw [hcs]
        simp
      · have hdigit := hn.whole c (by simp [hw])
        have hne : ¬ byte c = byte '0' := fun h =>
          hc (Ascii.byte_inj (Ascii.lt_of_isDigit hdigit) (by decide) h)
        simp [hne]

/-- The last part of a literal: its exponent, or nothing if the text does not go on with one. -/
theorem scanExponent_literal {l : Literal} (hn : l.numeral.Proper) {rest : Bytes} (hrest : Unnumbered rest)
    (whole fraction : Bytes) :
    (match l.exponentText.map byte ++ rest with
      | b :: afterMark =>
        if b == byte 'e' || b == byte 'E' then do
          let (exponent, after) ← scanExponent afterMark
          return (whole, fraction, some exponent, after)
        else return (whole, fraction, none, l.exponentText.map byte ++ rest)
      | [] => return (whole, fraction, none, [])) =
      Except.ok (ε := Fault) (whole, fraction, l.numeral.exponentValue, rest) := by
  cases he : l.numeral.exponent with
  | none =>
      have htext : l.exponentText = [] := by rw [Literal.exponentText, he, Option.elim_none]
      have hvalue : l.numeral.exponentValue = none := by rw [Numeral.exponentValue, he, Option.map_none]
      rw [htext, hvalue]
      cases rest with
      | nil => rfl
      | cons b rest =>
          obtain ⟨-, -, hsmall, hlarge⟩ := hrest b rfl
          simp only [List.map_nil, List.nil_append, beq_eq_false_iff_ne.mpr hsmall,
            beq_eq_false_iff_ne.mpr hlarge, Bool.or_self, Bool.false_eq_true, if_false]
          rfl
  | some e =>
      obtain ⟨hne, hdigits⟩ := hn.exponent e (by rw [he]; rfl)
      have hscan := scanExponent_digits e.1 l.plus hne hdigits hrest
      have htext : l.exponentText =
          (if l.capital then 'E' else 'e') :: (Literal.exponentSign e.1 l.plus ++ e.2) := by
        rw [Literal.exponentText, he, Option.elim_some]
      have hmark : (byte (if l.capital then 'E' else 'e') == byte 'e' ||
          byte (if l.capital then 'E' else 'e') == byte 'E') = true := by
        cases l.capital <;> decide
      rw [htext, Numeral.exponentValue, he]
      simp only [List.map_cons, List.cons_append, hmark, if_true, Option.map_some]
      rw [hscan]
      rfl

theorem scanUnsigned_literal {l : Literal} (hn : l.numeral.Proper) {rest : Bytes} (hrest : Unnumbered rest) :
    scanUnsigned (l.numeral.whole.map byte ++
        (l.numeral.fractionText.map byte ++ (l.exponentText.map byte ++ rest))) =
      .ok (l.numeral.whole.map byte, l.numeral.fraction.map byte, l.numeral.exponentValue, rest) := by
  have hwhole := Ascii.span_digits hn.whole (undigited_fractionText l hrest)
  have hfraction := Ascii.span_digits hn.fraction (undigited_exponentText l hrest)
  rw [scanUnsigned, hwhole]
  simp only [isEmpty_map_byte hn.whole_ne_nil, Bool.false_eq_true, if_false, no_zero_bytes hn]
  cases hf : l.numeral.fraction with
  | nil =>
      have hnoPoint : l.numeral.fractionText = [] := by rw [Numeral.fractionText, if_pos hf]
      rw [hnoPoint, List.map_nil, List.nil_append]
      have hlast := scanExponent_literal hn hrest (l.numeral.whole.map byte) []
      cases htail : l.exponentText.map byte ++ rest with
      | nil =>
          rw [htail] at hlast
          exact hlast
      | cons b tail =>
          have hpoint : (b == byte '.') = false :=
            beq_eq_false_iff_ne.mpr (head_exponentText l hrest b (by rw [htail]; rfl)).2
          rw [htail] at hlast
          simp only [hpoint, Bool.false_eq_true, if_false]
          exact hlast
  | cons d ds =>
      have hpoint : l.numeral.fractionText = '.' :: l.numeral.fraction := by
        rw [Numeral.fractionText, if_neg (by rw [hf]; exact List.cons_ne_nil d ds)]
      have hne : l.numeral.fraction ≠ [] := by
        rw [hf]
        exact List.cons_ne_nil d ds
      rw [hpoint, ← hf]
      simp only [List.map_cons, List.cons_append, beq_self_eq_true, if_true, hfraction,
        isEmpty_map_byte hne, Bool.false_eq_true, if_false]
      exact scanExponent_literal hn hrest (l.numeral.whole.map byte) (l.numeral.fraction.map byte)

/-- A literal is read to its end, however it spells its exponent. -/
theorem scanNumber_literal {l : Literal} (hn : l.numeral.Proper) {rest : Bytes} (hrest : Unnumbered rest) :
    scanNumber (l.text.map byte ++ rest) =
      (.number (l.number?.elim (.error .numberOutOfRange) .ok), some rest) := by
  have hscan := scanUnsigned_literal hn hrest
  have hnumber : Number.ofParts? l.negative (Ascii.decimalValue (l.numeral.whole.map byte))
      (Ascii.decimalValue (l.numeral.fraction.map byte)) (l.numeral.fraction.map byte).length
      l.numeral.exponentValue = l.number? := by
    rw [Ascii.decimalValue_digits hn.whole, Ascii.decimalValue_digits hn.fraction, List.length_map]
    rfl
  have htext : l.text.map byte ++ rest = (signText l.negative).map byte ++ (l.numeral.whole.map byte ++
      (l.numeral.fractionText.map byte ++ (l.exponentText.map byte ++ rest))) := by
    simp [Literal.text]
  rw [htext]
  cases hsign : l.negative with
  | true =>
      rw [hsign] at hnumber
      simp only [signText, if_true, List.cons_append, List.nil_append, List.map_cons, List.map_nil, scanNumber,
        List.head?_cons, beq_self_eq_true, List.tail_cons, hscan, hnumber]
  | false =>
      rw [hsign] at hnumber
      have hhead : ((l.numeral.whole.map byte ++ (l.numeral.fractionText.map byte ++
          (l.exponentText.map byte ++ rest))).head? == some (byte '-')) = false := by
        cases hw : l.numeral.whole with
        | nil => exact absurd hw hn.whole_ne_nil
        | cons c cs =>
            have hdigit := hn.whole c (by rw [hw]; exact List.mem_cons_self)
            have hne := byte_ne_of_isDigit hdigit (d := '-') (by decide) (by decide)
            simpa using hne
      simp only [signText, Bool.false_eq_true, if_false, List.map_nil, List.nil_append, scanNumber, hhead, hscan,
        hnumber]

/-- The literal that spells a numeral as it is written. -/
def Numeral.literal (n : Numeral) (negative : Bool) : Literal := ⟨negative, n, false, true⟩

theorem Numeral.text_literal (n : Numeral) (negative : Bool) :
    (n.literal negative).text = signText negative ++ n.text := by
  have hexponent : (n.literal negative).exponentText = n.exponentText := by
    rw [Literal.exponentText, Numeral.exponentText, literal]
    cases n.exponent with
    | none => rfl
    | some e =>
        obtain ⟨small, digits⟩ := e
        cases small <;> rfl
  rw [Literal.text, hexponent]
  rfl

/-! ### The numerals of numbers -/

/-- The digits of a numeral are those of a decimal number between zeros, and its exponent is that of
the decimal number less one for each zero at the end. -/
structure Numeral.Writes (n : Numeral) (s : Scientific) : Prop where
  proper : n.Proper
  digits : ∃ i j : Nat,
    n.whole ++ n.fraction = List.replicate i '0' ++ (s.digits ++ List.replicate j '0') ∧
    n.exponentValue.getD 0 - (n.fraction.length : Int) = s.exponent - j

theorem mem_replicate_zero {k : Nat} {c : Char} (h : c ∈ List.replicate k '0') : c.isDigit = true := by
  rw [List.eq_of_mem_replicate h]
  decide

theorem isDigit_zero : ∀ c ∈ ['0'], c.isDigit = true := List.forall_mem_singleton.mpr (by decide)

theorem forall_mem_none {α : Type} {p : α → Prop} : ∀ x ∈ (none : Option α), p x :=
  fun x hx => absurd hx (Option.not_mem_none x)

theorem exists_numeral_positional (l : DecimalLayout) {s : Scientific} (hs : s.Normal) :
    ∃ n : Numeral, l.positional s = n.text ∧ n.Writes s ∧ (l.keepsFraction = true → n.fraction ≠ []) := by
  obtain ⟨c, cs, hdigits, hc⟩ := hs.head
  have hne : s.digits ≠ [] := by
    rw [hdigits]
    exact List.cons_ne_nil c cs
  rcases hp : s.point with (_ | whole) | zeros
  · refine ⟨⟨['0'], s.digits, none⟩, ?_, ⟨⟨isDigit_zero, List.cons_ne_nil _ _, fun _ => rfl, hs.isDigit,
      forall_mem_none⟩, 1, 0, by simp, ?_⟩, fun _ => hne⟩
    · simp only [DecimalLayout.positional, hp]
      simp [Numeral.text, Numeral.fractionText, Numeral.exponentText, hne]
    · simp [Numeral.exponentValue, Scientific.exponent, hp]
  · have hpoint : s.point = whole + 1 := hp
    by_cases hlong : s.digits.length ≤ whole + 1
    · have hwhole : ∀ d ∈ s.digits ++ List.replicate (whole + 1 - s.digits.length) '0',
          d.isDigit = true := fun d hd =>
        (List.mem_append.mp hd).elim (hs.isDigit d) mem_replicate_zero
      have hzero : (s.digits ++ List.replicate (whole + 1 - s.digits.length) '0').head? = some '0' →
          (s.digits ++ List.replicate (whole + 1 - s.digits.length) '0').length = 1 := by
        rw [hdigits, List.cons_append, List.head?_cons]
        intro h
        exact absurd (Option.some.inj h) hc
      cases hk : l.keepsFraction with
      | true =>
          refine ⟨⟨_, ['0'], none⟩, ?_, ⟨⟨hwhole, by simp [hne], hzero, isDigit_zero, forall_mem_none⟩,
            0, whole + 1 - s.digits.length + 1, ?_, ?_⟩, fun _ => List.cons_ne_nil _ _⟩
          · simp only [DecimalLayout.positional, hp, if_pos hlong, hk, if_true]
            simp [Numeral.text, Numeral.fractionText, Numeral.exponentText]
          · simp [List.replicate_succ']
          · simp [Numeral.exponentValue, Scientific.exponent, hpoint]
            omega
      | false =>
          refine ⟨⟨_, [], none⟩, ?_, ⟨⟨hwhole, by simp [hne], hzero, List.forall_mem_nil _, forall_mem_none⟩,
            0, whole + 1 - s.digits.length, by simp, ?_⟩, fun hkeeps => absurd hkeeps Bool.false_ne_true⟩
          · simp only [DecimalLayout.positional, hp, if_pos hlong, hk, Bool.false_eq_true, if_false]
            simp [Numeral.text, Numeral.fractionText, Numeral.exponentText]
          · simp [Numeral.exponentValue, Scientific.exponent, hpoint]
            omega
    · have hdrop : s.digits.drop (whole + 1) ≠ [] := fun h => hlong (List.drop_eq_nil_iff.mp h)
      refine ⟨⟨s.digits.take (whole + 1), s.digits.drop (whole + 1), none⟩, ?_,
        ⟨⟨fun d hd => hs.isDigit d (List.mem_of_mem_take hd), ?_, ?_,
          fun d hd => hs.isDigit d (List.mem_of_mem_drop hd), forall_mem_none⟩, 0, 0, by simp, ?_⟩, fun _ => hdrop⟩
      · simp only [DecimalLayout.positional, hp, if_neg hlong]
        simp [Numeral.text, Numeral.fractionText, Numeral.exponentText, hdrop]
      · simp [hdigits]
      · rw [hdigits, List.take_succ_cons, List.head?_cons]
        intro h
        exact absurd (Option.some.inj h) hc
      · simp [Numeral.exponentValue, Scientific.exponent, hpoint]
        omega
  · have hpoint : s.point = -(zeros + 1 : Int) := by
      rw [hp, Int.negSucc_eq]
    refine ⟨⟨['0'], List.replicate (zeros + 1) '0' ++ s.digits, none⟩, ?_,
      ⟨⟨isDigit_zero, List.cons_ne_nil _ _, fun _ => rfl, fun d hd =>
        (List.mem_append.mp hd).elim mem_replicate_zero (hs.isDigit d), forall_mem_none⟩,
        zeros + 2, 0, ?_, ?_⟩, fun _ => by simp⟩
    · simp only [DecimalLayout.positional, hp]
      simp [Numeral.text, Numeral.fractionText, Numeral.exponentText]
    · simp [List.replicate_succ]
    · simp [Numeral.exponentValue, Scientific.exponent, hpoint]
      omega

theorem exponentValue_signed (whole fraction : List Char) (e : Int) :
    Numeral.exponentValue ⟨whole, fraction, some (decide (e < 0), Nat.toDigits 10 e.natAbs)⟩ = some e := by
  simp only [Numeral.exponentValue, Option.map_some, Nat.ofDigitChars_ten_toDigits, decide_eq_true_eq,
    Option.some.injEq]
  split
  · rename_i hneg
    rw [Int.ofNat_natAbs_of_nonpos (Int.le_of_lt hneg), Int.neg_neg]
  · rename_i hnonneg
    exact Int.natAbs_of_nonneg (Int.not_lt.mp hnonneg)

theorem exists_numeral_exponential {s : Scientific} (hs : s.Normal) :
    ∃ n : Numeral, DecimalLayout.exponential s = n.text ∧ n.Writes s ∧ n.exponent ≠ none := by
  obtain ⟨c, cs, hdigits, hc⟩ := hs.head
  obtain ⟨e, he⟩ : ∃ e, s.point - 1 = e := ⟨_, rfl⟩
  refine ⟨⟨[c], cs, some (decide (e < 0), Nat.toDigits 10 e.natAbs)⟩, ?_,
    ⟨⟨?_, List.cons_ne_nil _ _, ?_, ?_, ?_⟩, 0, 0, by simp [hdigits], ?_⟩, nofun⟩
  · cases cs with
    | nil => simp [DecimalLayout.exponential, hdigits, he, Numeral.text, Numeral.fractionText,
        Numeral.exponentText]
    | cons d ds => simp [DecimalLayout.exponential, hdigits, he, Numeral.text, Numeral.fractionText,
        Numeral.exponentText]
  · intro d hd
    exact hs.isDigit d (by rw [hdigits, List.mem_singleton.mp hd]; exact List.mem_cons_self)
  · intro h
    exact absurd (Option.some.inj h) hc
  · intro d hd
    exact hs.isDigit d (by rw [hdigits]; exact List.mem_cons_of_mem _ hd)
  · intro x hx
    obtain rfl := Option.some.inj hx
    exact ⟨Nat.toDigits_ne_nil, fun d hd => Nat.isDigit_of_mem_toDigits (by decide) (by decide) hd⟩
  · rw [exponentValue_signed, Option.getD_some, Scientific.exponent, hdigits, List.length_cons]
    show e - (cs.length : Int) = s.point - ((cs.length + 1 : Nat) : Int) - ((0 : Nat) : Int)
    omega

/-- A decimal number is written as a numeral in every layout; one that is to keep its fraction does
not look like an integer. -/
theorem exists_numeral_text (l : DecimalLayout) {s : Scientific} (hs : s.Normal) :
    ∃ n : Numeral, l.text s = n.text ∧ n.Writes s ∧
      (l.keepsFraction = true → n.fraction ≠ [] ∨ n.exponent ≠ none) := by
  rw [DecimalLayout.text]
  split
  · obtain ⟨n, htext, hwrites, hfraction⟩ := exists_numeral_positional l hs
    exact ⟨n, htext, hwrites, fun hk => .inl (hfraction hk)⟩
  · obtain ⟨n, htext, hwrites, hexponent⟩ := exists_numeral_exponential hs
    exact ⟨n, htext, hwrites, fun _ => .inr hexponent⟩

/-- The digits of a numeral taken as one number. -/
theorem Numeral.Writes.coefficient {n : Numeral} {s : Scientific} (h : n.Writes s) :
    ∃ j : Nat, Nat.ofDigitChars 10 n.whole 0 * Nat.pow 10 n.fraction.length +
        Nat.ofDigitChars 10 n.fraction 0 = s.coefficient * 10 ^ j ∧
      n.exponentValue.getD 0 - (n.fraction.length : Int) = s.exponent - j := by
  obtain ⟨i, j, hdigits, hexponent⟩ := h.digits
  refine ⟨j, ?_, hexponent⟩
  have hvalue := congrArg (Nat.ofDigitChars 10 · 0) hdigits
  simp only [Nat.ofDigitChars_append, Nat.ofDigitChars_replicate_zero, Nat.mul_zero] at hvalue
  rw [Nat.ofDigitChars_eq_ofDigitChars_zero] at hvalue
  rw [Scientific.coefficient, Nat.mul_comm, Nat.mul_comm _ (10 ^ j)]
  exact hvalue

/-- A numeral that does not look like an integer gives the number that its digits round to. -/
theorem Numeral.Writes.number? {n : Numeral} {x : Double} {s : Scientific} (h : n.Writes s)
    (hs : x.NamedBy s) (hx : x.significand ≠ 0) (hpoint : n.fraction ≠ [] ∨ n.exponent ≠ none) :
    n.number? x.negative = some (.double x) := by
  obtain ⟨j, hcoefficient, hexponent⟩ := h.coefficient
  have hrounds := hs.rounds
  rw [← Binary.ofDecimal?_mul_pow x.negative (hs.coefficient_pos hx) j] at hrounds
  simp only [Numeral.number?, Number.ofParts?, hcoefficient]
  by_cases hplaces : n.fraction.length = 0
  · have hnil := List.eq_nil_of_length_eq_zero hplaces
    cases he : n.exponentValue with
    | none =>
        have hnone : n.exponent = none := Option.map_eq_none_iff.mp he
        exact absurd hnone (hpoint.resolve_left (not_not.mpr hnil))
    | some e =>
        rw [he, Option.getD_some] at hexponent
        rw [if_pos hplaces]
        simp only [hexponent, hrounds, Option.map_some]
  · rw [if_neg hplaces]
    simp only [hexponent, hrounds, Option.map_some]

/-- The numeral of a natural number. -/
def Numeral.ofNat (m : Nat) : Numeral := ⟨Nat.toDigits 10 m, [], none⟩

theorem Numeral.proper_ofNat (m : Nat) : (Numeral.ofNat m).Proper := by
  refine ⟨fun c hc => Nat.isDigit_of_mem_toDigits (by decide) (by decide) hc, Nat.toDigits_ne_nil,
    fun hzero => ?_, nofun, nofun⟩
  rcases Nat.eq_zero_or_pos m with rfl | hm
  · rfl
  · obtain ⟨c, rest, hdigits, hc⟩ := head_toDigits hm
    rw [Numeral.ofNat, hdigits] at hzero
    exact absurd (Option.some.inj hzero) hc

theorem Numeral.text_ofNat (m : Nat) : (Numeral.ofNat m).text = Nat.toDigits 10 m := by
  simp [Numeral.text, Numeral.ofNat, Numeral.fractionText, Numeral.exponentText]

theorem Numeral.number?_ofNat (negative : Bool) (m : Nat) (hm : negative = true → m ≠ 0)
    (hfits : leastInteger ≤ (if negative then -(m : Int) else m) ∧
      (if negative then -(m : Int) else m) ≤ greatestInteger) :
    (Numeral.ofNat m).number? negative = some (.integer (if negative then -(m : Int) else m) hfits) := by
  have hzero : ¬ (negative = true ∧ m = 0) := fun h => hm h.1 h.2
  simp only [Numeral.number?, Numeral.ofNat, Numeral.exponentValue, Option.map_none,
    Nat.ofDigitChars_ten_toDigits, Number.ofParts?, List.length_nil, if_true, if_neg hzero]
  rw [dif_pos hfits]

/-- A number is written as a numeral that stands for it. -/
theorem Number.exists_numeral (x : Number) :
    ∃ (negative : Bool) (n : Numeral), n.Proper ∧ x.text = signText negative ++ n.text ∧
      n.number? negative = some x := by
  cases x with
  | integer value h =>
      cases value with
      | ofNat m =>
          exact ⟨false, .ofNat m, Numeral.proper_ofNat m, (Numeral.text_ofNat m).symm,
            Numeral.number?_ofNat false m nofun h⟩
      | negSucc m =>
          refine ⟨true, .ofNat (m + 1), Numeral.proper_ofNat _, ?_,
            Numeral.number?_ofNat true (m + 1) (fun _ => Nat.succ_ne_zero m) h⟩
          rw [Numeral.text_ofNat]
          rfl
  | double x =>
      by_cases hx : x.significand = 0
      · have hzero : x.isZero = true := beq_iff_eq.mpr hx
        refine ⟨x.negative, ⟨['0'], ['0'], none⟩, ⟨isDigit_zero, List.cons_ne_nil _ _, fun _ => rfl,
          isDigit_zero, nofun⟩, ?_, ?_⟩
        · rw [Number.text, Binary.documentText, hzero, signText]
          cases x.negative <;> rfl
        · have hself : Binary.zero .double x.negative = x := Binary.zero_eq_self hx
          have hcoefficient : Nat.ofDigitChars 10 ['0'] 0 * Nat.pow 10 1 + Nat.ofDigitChars 10 ['0'] 0 = 0 :=
            rfl
          simp [Numeral.number?, Number.ofParts?, hcoefficient, Binary.ofDecimal?, hself]
      · obtain ⟨n, htext, hwrites, hpoint⟩ :=
          exists_numeral_text .document (Binary.namedBy_shortest x hx).normal
        refine ⟨x.negative, n, hwrites.proper, ?_,
          hwrites.number? (Binary.namedBy_shortest x hx) hx (hpoint rfl)⟩
        have hzero : x.isZero = false := beq_eq_false_iff_ne.mpr hx
        rw [Number.text, Binary.documentText, hzero, signText]
        simp only [Bool.false_eq_true, if_false, htext]
        cases x.negative <;> rfl

end Attest.Json
