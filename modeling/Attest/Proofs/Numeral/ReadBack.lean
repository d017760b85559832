import Attest.Proofs.Numeral.Nearest
import Attest.Proofs.Text.Ascii
import Mathlib.Data.List.Induction
import Mathlib.Data.List.TakeWhile

/-!
The digits found for a binary number name it: taken with their exponent they round to the number,
whether they are the shortest that were found or all digits of the number.
-/

namespace Attest

namespace Scientific

/-- The digits as a natural number. -/
def coefficient (s : Scientific) : Nat := Nat.ofDigitChars 10 s.digits 0

/-- The power of ten that the coefficient is multiplied with. -/
def exponent (s : Scientific) : Int := s.point - s.digits.length

/-- There are digits, and the first of them is not zero. -/
structure Normal (s : Scientific) : Prop where
  isDigit : ∀ c ∈ s.digits, c.isDigit = true
  head : ∃ c rest, s.digits = c :: rest ∧ c ≠ '0'

end Scientific

/-- A positive number is not written with a zero in front. -/
theorem head_toDigits {n : Nat} (hn : 0 < n) :
    ∃ c rest, Nat.toDigits 10 n = c :: rest ∧ c ≠ '0' := by
  induction n using Nat.strongRecOn with
  | _ n ih =>
      by_cases hsmall : n < 10
      · refine ⟨n.digitChar, [], Nat.toDigits_of_lt_base hsmall, fun heq => ?_⟩
        have hvalue := Nat.toNat_digitChar_sub_48_of_lt_ten hsmall
        rw [heq] at hvalue
        exact absurd hvalue (Nat.ne_of_lt hn)
      · obtain ⟨c, rest, hdigits, hc⟩ := ih (n / 10) (by omega) (by omega)
        refine ⟨c, rest ++ Nat.toDigits 10 (n % 10), ?_, hc⟩
        rw [← List.cons_append, ← hdigits, Nat.toDigits_append_toDigits (by decide) (by omega) (by omega),
          Nat.div_add_mod]

/-- Digits without a zero in front are those of the number that they stand for. -/
theorem toDigits_ofDigitChars {cs : List Char} (hdigits : ∀ c ∈ cs, c.isDigit = true)
    (hhead : ∃ c rest, cs = c :: rest ∧ c ≠ '0') : Nat.toDigits 10 (Nat.ofDigitChars 10 cs 0) = cs := by
  induction cs using List.reverseRecOn with
  | nil =>
      obtain ⟨c, rest, hnil, -⟩ := hhead
      cases hnil
  | append_singleton cs c ih =>
      have hc := hdigits c (by simp)
      have hdigit := Ascii.digitChar_of_isDigit hc
      have hsmall : c.toNat - '0'.toNat < 10 := by
        have hbounds := Ascii.toNat_of_isDigit hc
        have hzero : '0'.toNat = 48 := rfl
        omega
      rw [Nat.ofDigitChars_append, Nat.ofDigitChars_cons, Nat.ofDigitChars_nil]
      cases cs with
      | nil =>
          rw [Nat.ofDigitChars_nil, Nat.mul_zero, Nat.zero_add, Nat.toDigits_of_lt_base hsmall, hdigit]
          rfl
      | cons d ds =>
          have hd : d ≠ '0' := by
            obtain ⟨first, rest, hcons, hfirst⟩ := hhead
            rwa [(List.cons.inj hcons).1]
          have hfront := ih (fun x hx => hdigits x (List.mem_append_left _ hx)) ⟨d, ds, rfl, hd⟩
          have hpos : 0 < Nat.ofDigitChars 10 (d :: ds) 0 := by
            refine Nat.pos_of_ne_zero fun hzero => ?_
            rw [hzero, Nat.toDigits_zero] at hfront
            exact hd (List.cons.inj hfront).1.symm
          rw [← Nat.toDigits_append_toDigits (by decide) hpos hsmall, hfront, Nat.toDigits_of_lt_base hsmall, hdigit]

/-- A power of ten is written as zeros at the end. -/
theorem toDigits_mul_pow {c : Nat} (hc : 0 < c) (j : Nat) :
    Nat.toDigits 10 (c * 10 ^ j) = Nat.toDigits 10 c ++ List.replicate j '0' := by
  induction j with
  | zero => simp
  | succ j ih =>
      rw [pow_succ, ← Nat.mul_assoc, Binary.toDigits_mul_ten (Nat.mul_pos hc (Nat.pow_pos (by decide))), ih,
        List.replicate_succ', List.append_assoc]

/-- A text is what stands in front of the zeros at its end, and these zeros. -/
theorem exists_trailing_zeros (cs : List Char) :
    ∃ j, cs = (cs.reverse.dropWhile (· == '0')).reverse ++ List.replicate j '0' := by
  refine ⟨(cs.reverse.takeWhile (· == '0')).length, ?_⟩
  have hzeros : cs.reverse.takeWhile (· == '0') =
      List.replicate (cs.reverse.takeWhile (· == '0')).length '0' :=
    List.eq_replicate_iff.mpr ⟨rfl, fun c hc => by
      have hzero := List.mem_takeWhile_imp hc
      simpa using hzero⟩
  have hsplit := congrArg List.reverse (List.takeWhile_append_dropWhile (p := (· == '0')) (l := cs.reverse))
  rw [List.reverse_append, List.reverse_reverse, hzeros, List.reverse_replicate] at hsplit
  exact hsplit.symm

namespace Scientific

theorem Normal.toDigits_coefficient {s : Scientific} (hs : s.Normal) : Nat.toDigits 10 s.coefficient = s.digits :=
  toDigits_ofDigitChars hs.isDigit hs.head

theorem exists_ofCoefficient (c : Nat) (e : Int) :
    ∃ j : Nat, (ofCoefficient c e).coefficient * 10 ^ j = c ∧ (ofCoefficient c e).exponent - j = e ∧
      Nat.toDigits 10 c = (ofCoefficient c e).digits ++ List.replicate j '0' := by
  obtain ⟨j, hj⟩ := exists_trailing_zeros (Nat.toDigits 10 c)
  have hdigits : (ofCoefficient c e).digits =
      ((Nat.toDigits 10 c).reverse.dropWhile (· == '0')).reverse := rfl
  rw [← hdigits] at hj
  refine ⟨j, ?_, ?_, hj⟩
  · have hvalue := Nat.ofDigitChars_ten_toDigits (n := c)
    rw [hj, Nat.ofDigitChars_append, Nat.ofDigitChars_replicate_zero] at hvalue
    rw [Nat.mul_comm]
    exact hvalue
  · have hlength := congrArg List.length hj
    rw [List.length_append, List.length_replicate] at hlength
    have hpoint : (ofCoefficient c e).point = (Nat.toDigits 10 c).length + e := rfl
    rw [exponent, hpoint]
    omega

theorem normal_ofCoefficient {c : Nat} (hc : 0 < c) (e : Int) : (ofCoefficient c e).Normal := by
  obtain ⟨j, -, -, hj⟩ := exists_ofCoefficient c e
  obtain ⟨d, rest, hd, hne⟩ := head_toDigits hc
  constructor
  · intro x hx
    apply Nat.isDigit_of_mem_toDigits (b := 10) (n := c) (by decide) (by decide)
    rw [hj]
    exact List.mem_append_left _ hx
  · rw [hj] at hd
    cases hdigits : (ofCoefficient c e).digits with
    | nil =>
        rw [hdigits, List.nil_append] at hd
        have hmem : d ∈ List.replicate j '0' := hd ▸ List.mem_cons_self
        exact absurd (List.eq_of_mem_replicate hmem) hne
    | cons x xs =>
        rw [hdigits, List.cons_append] at hd
        exact ⟨x, xs, rfl, (List.cons.inj hd).1 ▸ hne⟩

end Scientific

namespace Binary

variable {f : BinaryFormat}

/-- A number without significand is the zero with its sign. -/
theorem zero_eq_self {x : Binary f} (hx : x.significand = 0) :
    zero f x.negative = x := by
  have hpow : 0 < Nat.pow 2 (f.precision - 1) := Nat.two_pow_pos _
  have hexponent : x.exponent = 0 := x.normal.resolve_right (by rw [hx]; omega)
  obtain ⟨negative, significand, exponent, _, _, _⟩ := x
  cases hx
  cases hexponent
  rfl

/-- A decimal number rounds to a binary one. -/
structure NamedBy (x : Binary f) (s : Scientific) : Prop where
  normal : s.Normal
  rounds : ofDecimal? f x.negative s.coefficient s.exponent = some x

theorem NamedBy.coefficient_pos {x : Binary f} {s : Scientific} (h : x.NamedBy s)
    (hx : x.significand ≠ 0) : 0 < s.coefficient := by
  refine Nat.pos_of_ne_zero fun hzero => hx ?_
  have hrounds := h.rounds
  simp only [ofDecimal?, hzero, true_or, if_true] at hrounds
  rw [← Option.some.inj hrounds]
  rfl

theorem pos_of_ofDecimal? {x : Binary f} (hx : x.significand ≠ 0) {c : Nat} {e : Int}
    (h : ofDecimal? f x.negative c e = some x) : 0 < c := by
  refine Nat.pos_of_ne_zero fun hzero => hx ?_
  simp only [ofDecimal?, hzero, true_or, if_true] at h
  rw [← Option.some.inj h]
  rfl

theorem namedBy_ofCoefficient {x : Binary f} (hx : x.significand ≠ 0) {c : Nat} {e : Int}
    (h : ofDecimal? f x.negative c e = some x) : x.NamedBy (.ofCoefficient c e) := by
  have hc := pos_of_ofDecimal? hx h
  obtain ⟨j, hcoefficient, hexponent, -⟩ := Scientific.exists_ofCoefficient c e
  refine ⟨Scientific.normal_ofCoefficient hc e, ?_⟩
  have hpos : 0 < (Scientific.ofCoefficient c e).coefficient :=
    Nat.pos_of_ne_zero fun hzero => by
      rw [hzero, Nat.zero_mul] at hcoefficient
      exact absurd hcoefficient (Nat.ne_of_lt hc)
  rw [← ofDecimal?_mul_pow x.negative hpos j, hcoefficient, hexponent, h]

theorem namedBy_of_decimalAt? {x : Binary f} (hx : x.significand ≠ 0) {e : Int} {s : Scientific}
    (h : x.decimalAt? e = some s) : x.NamedBy s := by
  obtain ⟨c, hfind, rfl⟩ := Option.map_eq_some_iff.mp h
  exact namedBy_ofCoefficient hx (by simpa using List.find?_some hfind)

/-- All digits of a number round to it, if the bounds on magnitudes do not decide before. -/
theorem ofDecimal?_exact (x : Binary f) (hprecision : 0 < f.precision) (hunit : 0 < f.unit)
    (hx : x.significand ≠ 0)
    (hlow : ¬ -(f.unit : Int) +
      (Nat.toDigits 10 (x.significand * 2 ^ x.exponent * 5 ^ f.unit)).length < -magnitudeBound)
    (hhigh : ¬ magnitudeBound < -(f.unit : Int) +
      (Nat.toDigits 10 (x.significand * 2 ^ x.exponent * 5 ^ f.unit)).length) :
    ofDecimal? f x.negative (x.significand * 2 ^ x.exponent * 5 ^ f.unit) (-(f.unit : Int)) =
      some x := by
  have hpow {b : Nat} (hb : 0 < b) (n : Nat) : b ^ n ≠ 0 := Nat.pos_iff_ne_zero.mp (Nat.pow_pos hb)
  have hne : ¬ x.significand * 2 ^ x.exponent * 5 ^ f.unit = 0 :=
    Nat.mul_ne_zero (Nat.mul_ne_zero hx (hpow (by decide) _)) (hpow (by decide) _)
  obtain ⟨n, hn⟩ : ∃ n, f.unit = n + 1 := ⟨f.unit - 1, by omega⟩
  have hneg : -(f.unit : Int) = Int.negSucc n := by
    rw [hn]
    rfl
  have hten : Nat.pow 10 (n + 1) = 2 ^ f.unit * 5 ^ f.unit := by
    rw [hn]
    exact Nat.mul_pow 2 5 (n + 1)
  simp only [ofDecimal?, or_iff_right hne, if_neg hlow, if_neg hhigh]
  simp only [hneg, hten]
  rw [nearest?_mul x.negative _ _ (Nat.pow_pos (by decide))]
  exact nearest?_self x hprecision

/-- All digits of a number round to it. -/
theorem namedBy_exactDecimal (x : Double) (hx : x.significand ≠ 0) : x.NamedBy x.exactDecimal := by
  have hpowEq (b n : Nat) : Nat.pow b n = b ^ n := rfl
  rw [exactDecimal, hpowEq, hpowEq]
  apply namedBy_ofCoefficient hx
  have hpow (n : Nat) : 0 < 2 ^ n := Nat.pow_pos (by decide)
  have hfew : ¬ (Nat.toDigits 10
      (x.significand * 2 ^ x.exponent * 5 ^ BinaryFormat.double.unit)).length ≤ 673 := by
    rw [Nat.length_toDigits_le_iff (by decide) (by decide), Nat.not_lt]
    refine Nat.le_trans (m := 5 ^ BinaryFormat.double.unit) (by decide +kernel) ?_
    exact Nat.le_mul_of_pos_left _ (Nat.mul_pos (Nat.pos_of_ne_zero hx) (hpow _))
  have hmany : (Nat.toDigits 10
      (x.significand * 2 ^ x.exponent * 5 ^ BinaryFormat.double.unit)).length ≤ 1474 := by
    rw [Nat.length_toDigits_le_iff (by decide) (by decide)]
    refine Nat.lt_of_lt_of_le (m := 2 ^ BinaryFormat.double.precision * 2 ^ BinaryFormat.double.top *
      5 ^ BinaryFormat.double.unit) ?_ (by decide +kernel)
    refine Nat.mul_lt_mul_of_pos_right ?_ (Nat.pow_pos (by decide))
    exact Nat.mul_lt_mul_of_lt_of_le x.significand_lt
      (Nat.pow_le_pow_right (by decide) x.exponent_le) (hpow _)
  have hbounds {n : Nat} (hlow : ¬ n ≤ 673) (hhigh : n ≤ 1474) :
      ¬ -(BinaryFormat.double.unit : Int) + n < -magnitudeBound ∧
        ¬ magnitudeBound < -(BinaryFormat.double.unit : Int) + n := by
    have hunit : (BinaryFormat.double.unit : Int) = 1074 := rfl
    rw [hunit, magnitudeBound]
    omega
  obtain ⟨hlow, hhigh⟩ := hbounds hfew hmany
  have hunit : 0 < BinaryFormat.double.unit := by decide
  exact ofDecimal?_exact x (by decide) hunit hx hlow hhigh

/-- The shortest digits of a number round to it. -/
theorem namedBy_shortest (x : Double) (hx : x.significand ≠ 0) : x.NamedBy x.shortest := by
  rw [shortest]
  cases hfound : (List.range 17).findSome? fun (n : Nat) => x.decimalAt? (x.ratio.magnitude - n) with
  | none => exact namedBy_exactDecimal x hx
  | some s =>
      obtain ⟨n, -, hn⟩ := List.exists_of_findSome?_eq_some hfound
      exact namedBy_of_decimalAt? hx hn

end Binary

end Attest
