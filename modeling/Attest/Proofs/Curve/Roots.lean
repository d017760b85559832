import Attest.Proofs.Curve.Group
import Mathlib.NumberTheory.LegendreSymbol.Basic

/-!
The two roots of the curve equation. For the `x` of a point the one that is computed is the `y` of the point or the
opposite of it, and the two are never the same, because the right side of the equation has no root.
-/

namespace Attest.Weierstrass

open Attest.Modular

/-! ### No point is opposite to itself -/

/-- A root of `t² + b t + 1`. If it were a cube, then a cube root and its inverse would add up to a root of the right
side of the curve equation. -/
def auxiliaryRoot : Nat := 0xe6bc85a78096c1f9b695d42f2c755e0275c2a78c319ffe2632a254c7351713cf

theorem auxiliaryRoot_eq : (auxiliaryRoot : ZMod prime) ^ 2 + constant * auxiliaryRoot + 1 = 0 := by
  have hnumber : (auxiliaryRoot ^ 2 + constant * auxiliaryRoot + 1) % prime = 0 := by decide +kernel
  have hcast := (ZMod.natCast_eq_zero_iff _ _).mpr (Nat.dvd_of_mod_eq_zero hnumber)
  exact_mod_cast hcast

/-- The root is not a cube. -/
theorem auxiliaryRoot_pow_ne : (auxiliaryRoot : ZMod prime) ^ ((prime - 1) / 3) ≠ 1 := by
  have hnumber : pow prime auxiliaryRoot ((prime - 1) / 3) ≠ 1 := by decide +kernel
  rwa [Ne, cast_pow_eq_one (by decide)]

/-- The right side of the curve equation has no root. -/
theorem cubic_ne_zero (x : ZMod prime) : x ^ 3 - 3 * x + constant ≠ 0 := by
  intro hx
  have ht := auxiliaryRoot_eq
  have hcube : (auxiliaryRoot + x) ^ 3 = (auxiliaryRoot : ZMod prime) * (x ^ 2 - 1) ^ 3 := by
    linear_combination (-x ^ 3 - auxiliaryRoot) * (auxiliaryRoot * hx - ht)
  have hdenominator : x ^ 2 - 1 ≠ 0 := by
    intro hone
    rw [hone, zero_pow three_ne_zero, mul_zero, pow_eq_zero_iff three_ne_zero] at hcube
    rw [eq_neg_of_add_eq_zero_left hcube] at ht
    refine constant_sq_ne ?_
    linear_combination (x ^ 2 + 3 - constant ^ 2) * hone - (constant * x + x ^ 2 + 1) * ht
  have hroot : (auxiliaryRoot : ZMod prime) ≠ 0 := by
    intro hzero
    rw [hzero] at ht
    simp at ht
  have hsum : auxiliaryRoot + x ≠ 0 := by
    intro hzero
    rw [hzero, zero_pow three_ne_zero] at hcube
    exact mul_ne_zero hroot (pow_ne_zero 3 hdenominator) hcube.symm
  -- The third part of the exponent of the field turns the cubes into one, and so the root as well.
  have hthird : 3 * ((prime - 1) / 3) = prime - 1 := by decide
  have hpower := congrArg (· ^ ((prime - 1) / 3)) hcube
  simp only [mul_pow, ← pow_mul, hthird, ZMod.pow_card_sub_one_eq_one hsum,
    ZMod.pow_card_sub_one_eq_one hdenominator, mul_one] at hpower
  exact auxiliaryRoot_pow_ne hpower.symm

/-! ### The roots for an `x` -/

section Roots

variable {a : Affine} (h : a.onCurve = true)

include h

theorem y_pos : 0 < a.y := by
  obtain ⟨-, -, hcurve⟩ := onCurve_iff.mp h
  refine Nat.pos_of_ne_zero fun hzero => cubic_ne_zero (a.x : ZMod prime) ?_
  rw [← nonsingular_iff.mp hcurve, hzero, Nat.cast_zero, zero_pow (two_ne_zero' ℕ)]

/-- The opposite of a point is one of the curve. -/
theorem onCurve_opposite : (⟨a.x, prime - a.y⟩ : Affine).onCurve = true := by
  obtain ⟨hx, hy, hcurve⟩ := onCurve_iff.mp h
  have hpos := y_pos h
  have hopposite : ((prime - a.y : Nat) : ZMod prime) = -a.y := by
    rw [Nat.cast_sub hy.le, ZMod.natCast_self, zero_sub]
  refine onCurve_iff.mpr ⟨hx, Nat.sub_lt (by decide) hpos, ?_⟩
  rw [hopposite, nonsingular_iff, neg_sq]
  exact nonsingular_iff.mp hcurve

/-- The root that is computed is that of the point or of its opposite. -/
theorem root?_of_onCurve : root? a.x = some a.y ∨ root? a.x = some (prime - a.y) := by
  obtain ⟨-, hy, hcurve⟩ := onCurve_iff.mp h
  have hside : (rightSide a.x : ZMod prime) = a.y ^ 2 := by
    rw [cast_rightSide, nonsingular_iff.mp hcurve]
  have hy0 : (a.y : ZMod prime) ≠ 0 := fun hzero => (y_pos h).ne' ((cast_eq_zero hy).mp hzero)
  have hopposite : prime - a.y < prime := (onCurve_iff.mp (onCurve_opposite h)).2.1
  let r := pow prime (rightSide a.x) ((prime + 1) / 4)
  have hexponent : 2 * ((prime + 1) / 4) = prime / 2 + 1 := by decide
  have hpower : (r : ZMod prime) = a.y ^ (prime / 2) * a.y := by
    rw [cast_pow, hside, ← pow_mul, hexponent, pow_succ]
  have hsign := ZMod.pow_div_two_eq_neg_one_or_one prime hy0
  have hsquare : mul prime r r = rightSide a.x := by
    rw [← cast_inj_of_lt (mul_lt _ _) (rightSide_lt _), cast_mul, hside, hpower]
    rcases hsign with hone | hone <;> rw [hone] <;> ring
  have hroot : root? a.x = some r := by rw [root?, if_pos hsquare]
  rw [hroot, Option.some.injEq, Option.some.injEq, ← cast_inj_of_lt (pow_lt _ _) hy,
    ← cast_inj_of_lt (pow_lt _ _) hopposite, Nat.cast_sub hy.le, ZMod.natCast_self, hpower]
  rcases hsign with hone | hone
  · exact .inl (by rw [hone, one_mul])
  · exact .inr (by rw [hone, neg_one_mul, zero_sub])

end Roots

theorem onCurve_of_root? {x y : Nat} (hx : x < prime) (h : root? x = some y) :
    (⟨x, y⟩ : Affine).onCurve = true := by
  have hlt : pow prime (rightSide x) ((prime + 1) / 4) < prime := pow_lt _ _
  rw [root?] at h
  split at h
  · rename_i hsquare
    rw [Option.some.inj h] at hsquare hlt
    refine onCurve_iff.mpr ⟨hx, hlt, ?_⟩
    rw [nonsingular_iff, pow_two, ← cast_mul, hsquare, cast_rightSide]
  · cases h

end Attest.Weierstrass
