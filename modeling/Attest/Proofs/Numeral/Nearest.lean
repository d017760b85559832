import Attest.Numeral.Shortest
import Mathlib.Algebra.Order.Ring.Nat
import Mathlib.Tactic.Ring

/-!
The nearest binary number depends on the rational number alone, not on the fraction or the decimal
notation that names it, and a binary number is the nearest one to itself. So each notation of a
decimal number that rounds to a binary number rounds to it.
-/

namespace Attest

theorem roundHalfEven_mul (num den : Nat) {k : Nat} (hk : 0 < k) :
    roundHalfEven (num * k) (den * k) = roundHalfEven num den := by
  have hmod : num * k % (den * k) = num % den * k := Nat.mul_mod_mul_right k num den
  have hlow : 2 * (num % den * k) < den * k ↔ 2 * (num % den) < den := by
    rw [← Nat.mul_assoc]
    exact Nat.mul_lt_mul_right hk
  have hhigh : den * k < 2 * (num % den * k) ↔ den < 2 * (num % den) := by
    rw [← Nat.mul_assoc]
    exact Nat.mul_lt_mul_right hk
  simp only [roundHalfEven, Nat.mul_div_mul_right num den hk, hmod, hlow, hhigh]

theorem roundHalfEven_exact (n : Nat) {den : Nat} (hden : 0 < den) :
    roundHalfEven (n * den) den = n := by
  simp only [roundHalfEven, Nat.mul_mod_left, Nat.mul_div_left n hden, Nat.mul_zero, hden, if_true]

namespace Binary

variable {f : BinaryFormat}

theorem nearest?_mul (negative : Bool) (num den : Nat) {k : Nat} (hk : 0 < k) :
    nearest? f negative (num * k) (den * k) = nearest? f negative num den := by
  have hunits : num * k * Nat.pow 2 f.unit = num * Nat.pow 2 f.unit * k := Nat.mul_right_comm _ _ _
  have hdiv : num * Nat.pow 2 f.unit * k / (den * k) = num * Nat.pow 2 f.unit / den :=
    Nat.mul_div_mul_right _ _ hk
  have hscale (e : Nat) : den * k * Nat.pow 2 e = den * Nat.pow 2 e * k := Nat.mul_right_comm _ _ _
  simp only [nearest?, hunits, hdiv, hscale, roundHalfEven_mul _ _ hk]

theorem toDigits_mul_ten {c : Nat} (hc : 0 < c) :
    Nat.toDigits 10 (c * 10) = Nat.toDigits 10 c ++ ['0'] := by
  have h := Nat.toDigits_append_toDigits (b := 10) (d := 0) (by decide) hc (by decide)
  rw [Nat.add_zero, Nat.mul_comm, Nat.toDigits_zero] at h
  exact h.symm

theorem ofDecimal?_mul_ten (negative : Bool) {c : Nat} (hc : 0 < c) (e : Int) :
    ofDecimal? f negative (c * 10) (e - 1) = ofDecimal? f negative c e := by
  have hlength : e - 1 + ((Nat.toDigits 10 (c * 10)).length : Int) =
      e + (Nat.toDigits 10 c).length := by
    rw [toDigits_mul_ten hc, List.length_append, List.length_singleton]
    omega
  have hzero : c * 10 = 0 ↔ c = 0 := by omega
  simp only [ofDecimal?, hlength, hzero]
  split
  · rfl
  split
  · rfl
  · rcases e with (_ | n) | n
    · show nearest? f negative (c * 10) (Nat.pow 10 1) = nearest? f negative (c * Nat.pow 10 0) 1
      have h := nearest?_mul (f := f) negative c 1 (k := 10) (by decide)
      simpa using h
    · have he : Int.ofNat (n + 1) - 1 = Int.ofNat n := by simp
      rw [he]
      show nearest? f negative (c * 10 * Nat.pow 10 n) 1 = nearest? f negative (c * Nat.pow 10 (n + 1)) 1
      rw [Nat.mul_assoc, Nat.mul_comm 10]
      rfl
    · have he : Int.negSucc n - 1 = Int.negSucc (n + 1) := rfl
      rw [he]
      show nearest? f negative (c * 10) (Nat.pow 10 (n + 1) * 10) = nearest? f negative c (Nat.pow 10 (n + 1))
      exact nearest?_mul negative c _ (by decide)

/-- Zeros at the end of the coefficient may be taken into the exponent. -/
theorem ofDecimal?_mul_pow (negative : Bool) {c : Nat} (hc : 0 < c) (j : Nat) (e : Int) :
    ofDecimal? f negative (c * 10 ^ j) (e - j) = ofDecimal? f negative c e := by
  induction j generalizing e with
  | zero => simp
  | succ j ih =>
      have hpos : 0 < c * 10 ^ j := Nat.mul_pos hc (Nat.pow_pos (by decide))
      have he : e - ((j + 1 : Nat) : Int) = (e - j) - 1 := by omega
      rw [pow_succ, ← Nat.mul_assoc, he, ofDecimal?_mul_ten negative hpos, ih]

/-- A number of the format is the nearest one to itself. -/
theorem nearest?_self (x : Binary f) (hprecision : 0 < f.precision) :
    nearest? f x.negative (x.significand * 2 ^ x.exponent) (2 ^ f.unit) = some x := by
  have hden : 0 < 2 ^ f.unit := Nat.pow_pos (by decide)
  have hlt : x.significand < 2 ^ f.precision := x.significand_lt
  have hexponent : (x.significand * 2 ^ x.exponent).log2 + 1 - f.precision = x.exponent := by
    rcases x.normal with hzero | hnormal
    · rw [hzero, pow_zero, Nat.mul_one]
      by_cases hs : x.significand = 0
      · rw [hs, Nat.log2_zero]
        omega
      · have := (Nat.log2_lt hs).mpr hlt
        omega
    · have hlow : 2 ^ (f.precision - 1) ≤ x.significand := hnormal
      have hne : x.significand * 2 ^ x.exponent ≠ 0 := by
        have := Nat.pow_pos (n := f.precision - 1) (show 0 < 2 by decide)
        exact Nat.mul_ne_zero (by omega) (Nat.pos_iff_ne_zero.mp (Nat.pow_pos (by decide)))
      have hlog : (x.significand * 2 ^ x.exponent).log2 = f.precision - 1 + x.exponent := by
        rw [Nat.log2_eq_iff hne]
        constructor
        · rw [pow_add]
          exact Nat.mul_le_mul_right _ hlow
        · have hsucc : f.precision - 1 + x.exponent + 1 = f.precision + x.exponent := by omega
          rw [hsucc, pow_add]
          exact Nat.mul_lt_mul_of_pos_right hlt (Nat.pow_pos (by decide))
      omega
  have hround : roundHalfEven (x.significand * 2 ^ x.exponent * 2 ^ f.unit)
      (2 ^ f.unit * 2 ^ x.exponent) = x.significand := by
    rw [Nat.mul_assoc, Nat.mul_comm (2 ^ x.exponent)]
    exact roundHalfEven_exact _ (Nat.mul_pos hden (Nat.pow_pos (by decide)))
  have hne : ¬ x.significand = Nat.pow 2 f.precision := Nat.ne_of_lt x.significand_lt
  have hdiv : x.significand * 2 ^ x.exponent * Nat.pow 2 f.unit / 2 ^ f.unit =
      x.significand * 2 ^ x.exponent := Nat.mul_div_left _ hden
  simp only [nearest?, hdiv, hexponent]
  rw [show roundHalfEven (x.significand * 2 ^ x.exponent * Nat.pow 2 f.unit)
    (2 ^ f.unit * Nat.pow 2 x.exponent) = x.significand from hround, if_neg hne, ofParts?,
    dif_pos ⟨x.significand_lt, x.normal, x.exponent_le⟩]

end Binary

end Attest
