import Attest.Proofs.Curve.Primality
import Mathlib.AlgebraicGeometry.EllipticCurve.Affine.Point
import Mathlib.GroupTheory.OrderOfElement

/-!
Sums and multiples in Jacobian coordinates are those of the group of the curve. Coordinates denote a point of the curve,
the sum of two of them denotes the sum of the points, and so a multiple denotes the multiple. Since the order of the
base point is prime and its multiple by the order is the neutral point, no smaller multiple is.
-/

namespace Attest.Weierstrass

open Attest.Modular

instance factPrime : Fact prime.Prime := ⟨prime_prime⟩

theorem cast_ne_zero {n : Nat} (h : n % prime ≠ 0) : (n : ZMod prime) ≠ 0 := by
  rwa [Ne, ZMod.natCast_eq_zero_iff, Nat.dvd_iff_mod_eq_zero]

/-- A reduced number is zero if its residue is. -/
theorem cast_eq_zero {a : Nat} (ha : a < prime) : (a : ZMod prime) = 0 ↔ a = 0 := by
  rw [← Nat.cast_zero, cast_inj_of_lt ha (by decide)]

/-! ### The curve -/

/-- The curve over the field of residues. -/
def curve : WeierstrassCurve.Affine (ZMod prime) where
  a₁ := 0
  a₂ := 0
  a₃ := 0
  a₄ := -3
  a₆ := constant

theorem constant_sq_ne : (constant : ZMod prime) ^ 2 ≠ 4 := by
  have hconstant : constant ^ 2 % prime ≠ 4 % prime := by decide +kernel
  intro h
  exact hconstant ((ZMod.natCast_eq_natCast_iff' _ _ _).mp (by exact_mod_cast h))

/-- No point of the curve is singular, since the constant is neither two nor minus two. -/
theorem nonsingular_iff {x y : ZMod prime} : curve.Nonsingular x y ↔ y ^ 2 = x ^ 3 - 3 * x + constant := by
  have hfactors : curve.Δ = 432 * (4 - (constant : ZMod prime) ^ 2) := by
    simp only [curve, WeierstrassCurve.Δ, WeierstrassCurve.b₂, WeierstrassCurve.b₄, WeierstrassCurve.b₆,
      WeierstrassCurve.b₈]
    ring
  have hnumber : (432 : ZMod prime) ≠ 0 := by exact_mod_cast cast_ne_zero (n := 432) (by decide)
  have hΔ : curve.Δ ≠ 0 := by
    rw [hfactors]
    exact mul_ne_zero hnumber (sub_ne_zero.mpr constant_sq_ne.symm)
  rw [← WeierstrassCurve.Affine.equation_iff_nonsingular_of_Δ_ne_zero hΔ, WeierstrassCurve.Affine.equation_iff]
  simp only [curve, zero_mul, add_zero, sub_eq_add_neg, neg_mul]

theorem negY_eq (x y : ZMod prime) : curve.negY x y = -y := by
  simp [curve]

/-- The slope of the tangent at a point that is not opposite to itself. -/
theorem slope_self {x y : ZMod prime} (hy : 2 * y ≠ 0) : curve.slope x x y y * (2 * y) = 3 * x ^ 2 - 3 := by
  have hheight : y - curve.negY x y = 2 * y := by
    rw [negY_eq]
    ring
  have hneg : y ≠ curve.negY x y := fun h => hy (by rw [← hheight, sub_eq_zero]; exact h)
  rw [WeierstrassCurve.Affine.slope_of_Y_ne rfl hneg, hheight, div_mul_cancel₀ _ hy]
  simp only [curve]
  ring

/-- The slope of the line through two points. -/
theorem slope_of_ne {x₁ x₂ : ZMod prime} (hx : x₁ ≠ x₂) (y₁ y₂ : ZMod prime) :
    curve.slope x₁ x₂ y₁ y₂ * (x₁ - x₂) = y₁ - y₂ := by
  rw [WeierstrassCurve.Affine.slope_of_X_ne hx, div_mul_cancel₀ _ (sub_ne_zero.mpr hx)]

@[simp] theorem cast_rightSide (x : Nat) : (rightSide x : ZMod prime) = x ^ 3 - 3 * x + constant := by
  simp only [rightSide, cast_add, cast_sub, cast_mul, Nat.cast_mul, Nat.cast_ofNat]
  ring

theorem rightSide_lt (x : Nat) : rightSide x < prime := add_lt _ _

theorem onCurve_iff {a : Affine} :
    a.onCurve = true ↔ a.x < prime ∧ a.y < prime ∧ curve.Nonsingular a.x a.y := by
  rw [Affine.onCurve, Bool.and_eq_true, Bool.and_eq_true, decide_eq_true_iff, decide_eq_true_iff, beq_iff_eq,
    and_assoc, ← cast_inj_of_lt (mul_lt _ _) (rightSide_lt _), cast_mul, cast_rightSide, ← pow_two, nonsingular_iff]

/-- The point of the curve with the given coordinates. -/
def Affine.point (a : Affine) (h : a.onCurve = true) : curve.Point := .some a.x a.y (onCurve_iff.mp h).2.2

/-! ### Sums in coordinates -/

namespace Point

/-- Coordinates with `Z = 0` denote the neutral point, others the point with `x = X / Z²` and `y = Y / Z³`. -/
inductive Denotes (p : Point) : curve.Point → Prop
  | neutral (hz : p.z = 0) : p.Denotes 0
  | affine {x y : ZMod prime} {h : curve.Nonsingular x y} (hlt : p.z < prime) (hz : p.z ≠ 0)
      (hx : (p.x : ZMod prime) = x * p.z ^ 2) (hy : (p.y : ZMod prime) = y * p.z ^ 3) : p.Denotes (.some x y h)

/-- The sum of two points from the slope of the line through them, with all coordinates on one scale. -/
theorem denotes_of_line {p : Point} {x₁ x₂ y₁ l : ZMod prime}
    {h : curve.Nonsingular (curve.addX x₁ x₂ l) (curve.addY x₁ x₂ y₁ l)} (hlt : p.z < prime) (hz : p.z ≠ 0)
    (hx : (p.x : ZMod prime) = (l * p.z) ^ 2 - (x₁ * p.z ^ 2 + x₂ * p.z ^ 2))
    (hy : (p.y : ZMod prime) = l * p.z * (x₁ * p.z ^ 2 - p.x) - y₁ * p.z ^ 3) : p.Denotes (.some _ _ h) := by
  have hsum : curve.addX x₁ x₂ l = l ^ 2 - x₁ - x₂ := by
    simp [curve]
  refine .affine hlt hz ?_ ?_
  · rw [hsum, hx]
    ring
  · rw [WeierstrassCurve.Affine.addY, WeierstrassCurve.Affine.negAddY, negY_eq, hsum, hy, hx]
    ring

theorem denotes_double {p : Point} {P : curve.Point} (h : p.Denotes P) : p.double.Denotes (P + P) := by
  have hlt : p.double.z < prime := mul_lt _ _
  have hz3 : (p.double.z : ZMod prime) = 2 * p.y * p.z := by simp [double]
  cases h with
  | neutral hz =>
      rw [add_zero]
      refine .neutral ((cast_eq_zero hlt).mp ?_)
      rw [hz3, hz, Nat.cast_zero, mul_zero]
  | @affine x y _ hzlt hz hx hy =>
      by_cases htwice : 2 * y = 0
      · -- The tangent is vertical.
        rw [WeierstrassCurve.Affine.Point.add_self_of_Y_eq (by rw [negY_eq]; linear_combination htwice)]
        refine .neutral ((cast_eq_zero hlt).mp ?_)
        rw [hz3, hy, ← mul_assoc, htwice, zero_mul, zero_mul]
      · have hz0 : (p.z : ZMod prime) ≠ 0 := fun h => hz ((cast_eq_zero hzlt).mp h)
        have hslope := slope_self (x := x) htwice
        have hx3 : (p.double.x : ZMod prime) = (3 * ((p.x - p.z * p.z) * (p.x + p.z * p.z))) ^ 2 -
            2 * (4 * p.x * (p.y * p.y)) := by
          simp [double, pow_two]
        have hy3 : (p.double.y : ZMod prime) = 3 * ((p.x - p.z * p.z) * (p.x + p.z * p.z)) *
            (4 * p.x * (p.y * p.y) - p.double.x) - 8 * (p.y * p.y * (p.y * p.y)) := by
          simp [double]
        rw [WeierstrassCurve.Affine.Point.add_self_of_Y_ne fun h => htwice (by
          rw [negY_eq] at h
          linear_combination h)]
        refine denotes_of_line hlt (fun h => ?_) ?_ ?_
        · rw [h, Nat.cast_zero, hy] at hz3
          refine mul_ne_zero htwice (pow_ne_zero 4 hz0) ?_
          linear_combination -hz3
        · rw [hx3, hz3, hx, hy]
          linear_combination -(p.z ^ 8 : ZMod prime) * (curve.slope x x y y * (2 * y) + (3 * x ^ 2 - 3)) * hslope
        · rw [hy3, hz3, hx, hy]
          linear_combination -(p.z ^ 4 : ZMod prime) * (4 * x * y ^ 2 * p.z ^ 8 - p.double.x) * hslope

/-- The sum of two points with different `x` from their coordinates on the scale `d`. -/
def chord (u v s t d : Nat) : Point :=
  let h := sub prime v u
  let r := sub prime t s
  let hh := mul prime h h
  let hhh := mul prime h hh
  let uhh := mul prime u hh
  let x := sub prime (mul prime r r) (hhh + 2 * uhh)
  ⟨x, sub prime (mul prime r (sub prime uhh x)) (mul prime s hhh), mul prime h d⟩

theorem denotes_chord {x₁ y₁ x₂ y₂ : ZMod prime} {h₁ : curve.Nonsingular x₁ y₁} {h₂ : curve.Nonsingular x₂ y₂}
    (hne : x₁ ≠ x₂) {u v s t d : Nat} (hd : (d : ZMod prime) ≠ 0) (hu : (u : ZMod prime) = x₁ * d ^ 2)
    (hv : (v : ZMod prime) = x₂ * d ^ 2) (hs : (s : ZMod prime) = y₁ * d ^ 3) (ht : (t : ZMod prime) = y₂ * d ^ 3) :
    (chord u v s t d).Denotes (.some x₁ y₁ h₁ + .some x₂ y₂ h₂) := by
  have hslope := slope_of_ne hne y₁ y₂
  have hz3 : ((chord u v s t d).z : ZMod prime) = (x₂ - x₁) * d ^ 3 := by
    simp only [chord, cast_mul, cast_sub, hu, hv]
    ring
  have hx3 : ((chord u v s t d).x : ZMod prime) = (t - s) ^ 2 - ((v - u) ^ 3 + 2 * (u * (v - u) ^ 2)) := by
    simp only [chord, cast_mul, cast_sub, Nat.cast_add, Nat.cast_mul, Nat.cast_ofNat]
    ring
  have hy3 : ((chord u v s t d).y : ZMod prime) =
      (t - s) * (u * (v - u) ^ 2 - (chord u v s t d).x) - s * (v - u) ^ 3 := by
    simp only [chord, cast_mul, cast_sub, Nat.cast_add, Nat.cast_mul, Nat.cast_ofNat]
    ring
  rw [WeierstrassCurve.Affine.Point.add_of_X_ne hne]
  refine denotes_of_line (mul_lt _ _) (fun h => ?_) ?_ ?_
  · rw [h, Nat.cast_zero] at hz3
    exact mul_ne_zero (sub_ne_zero.mpr hne.symm) (pow_ne_zero 3 hd) hz3.symm
  · rw [hx3, hz3, hu, hv, hs, ht]
    linear_combination (d ^ 6 : ZMod prime) * ((y₂ - y₁) + curve.slope x₁ x₂ y₁ y₂ * (x₂ - x₁)) * hslope
  · rw [hy3, hz3, hu, hv, hs, ht]
    linear_combination (d ^ 3 : ZMod prime) * (x₁ * ((x₂ - x₁) * d ^ 3) ^ 2 - (chord u v s t d).x) * hslope

/-- Coordinates of two points that are brought on one scale are the same exactly if those of the points are. -/
theorem scaled_inj {a b : Nat} (ha : a < prime) (hb : b < prime) {x₁ x₂ c : ZMod prime} (hc : c ≠ 0)
    (hx₁ : (a : ZMod prime) = x₁ * c) (hx₂ : (b : ZMod prime) = x₂ * c) : a = b ↔ x₁ = x₂ := by
  rw [← cast_inj_of_lt ha hb, hx₁, hx₂, mul_left_inj' hc]

theorem denotes_add {p q : Point} {P Q : curve.Point} (hp : p.Denotes P) (hq : q.Denotes Q) :
    (p.add q).Denotes (P + Q) := by
  cases hp with
  | neutral hz => rwa [zero_add, add, if_pos hz]
  | @affine x₁ y₁ h₁ hplt hpz hpx hpy =>
      have hp : p.Denotes (.some x₁ y₁ h₁) := .affine hplt hpz hpx hpy
      cases hq with
      | neutral hz => rwa [add_zero, add, if_neg hpz, if_pos hz]
      | @affine x₂ y₂ h₂ hqlt hqz hqx hqy =>
          have hd : (mul prime p.z q.z : ZMod prime) ≠ 0 := by
            rw [cast_mul]
            exact mul_ne_zero (fun h => hpz ((cast_eq_zero hplt).mp h)) fun h => hqz ((cast_eq_zero hqlt).mp h)
          have hu : (mul prime p.x (mul prime q.z q.z) : ZMod prime) = x₁ * (mul prime p.z q.z : ZMod prime) ^ 2 := by
            simp only [cast_mul, hpx]
            ring
          have hv : (mul prime q.x (mul prime p.z p.z) : ZMod prime) = x₂ * (mul prime p.z q.z : ZMod prime) ^ 2 := by
            simp only [cast_mul, hqx]
            ring
          have hs : (mul prime p.y (mul prime q.z (mul prime q.z q.z)) : ZMod prime) =
              y₁ * (mul prime p.z q.z : ZMod prime) ^ 3 := by
            simp only [cast_mul, hpy]
            ring
          have ht : (mul prime q.y (mul prime p.z (mul prime p.z p.z)) : ZMod prime) =
              y₂ * (mul prime p.z q.z : ZMod prime) ^ 3 := by
            simp only [cast_mul, hqy]
            ring
          rw [add, if_neg hpz, if_neg hqz]
          simp only [scaled_inj (mul_lt _ _) (mul_lt _ _) (pow_ne_zero 2 hd) hu hv,
            scaled_inj (mul_lt _ _) (mul_lt _ _) (pow_ne_zero 3 hd) hs ht]
          by_cases hx : x₁ = x₂
          · rw [if_pos hx]
            by_cases hy : y₁ = y₂
            · rw [if_pos hy]
              subst hx hy
              exact denotes_double hp
            · -- Two points with one `x` are the same or opposite.
              have hopposite := (WeierstrassCurve.Affine.Y_eq_of_X_eq h₁.1 h₂.1 hx).resolve_left hy
              rw [if_neg hy, WeierstrassCurve.Affine.Point.add_of_Y_eq hx hopposite]
              exact .neutral rfl
          · rw [if_neg hx]
            exact denotes_chord hx hd hu hv hs ht

/-- A multiple in coordinates denotes the multiple of the point. -/
theorem denotes_multiply {p : Point} {P : curve.Point} (h : p.Denotes P) (n : Nat) :
    (p.multiply n).Denotes (n • P) := by
  refine foldl_binaryDigits (R := fun n (q : Point) => q.Denotes (n • P)) ?_ ?_ n
  · rw [zero_nsmul]
    exact .neutral rfl
  · intro n q digit hq
    have hdouble := denotes_double hq
    rw [← add_nsmul, ← two_mul] at hdouble
    cases digit with
    | false => exact hdouble
    | true =>
        rw [Bool.toNat_true, succ_nsmul]
        exact denotes_add hdouble h

theorem Denotes.eq_zero {p : Point} {P : curve.Point} (h : p.Denotes P) (hz : p.z = 0) : P = 0 := by
  cases h with
  | neutral => rfl
  | affine _ hne => exact absurd hz hne

theorem denotes_ofAffine {a : Affine} (h : a.onCurve = true) : (ofAffine a).Denotes (a.point h) := by
  have hone : ((ofAffine a).z : ZMod prime) = 1 := Nat.cast_one
  refine .affine (by decide : 1 < prime) Nat.one_ne_zero ?_ ?_
  · rw [hone, one_pow, mul_one]
    rfl
  · rw [hone, one_pow, mul_one]
    rfl

/-- Coordinates of a point other than the neutral one give its affine coordinates. -/
theorem Denotes.exists_affine {p : Point} {P : curve.Point} (h : p.Denotes P) (hP : P ≠ 0) :
    ∃ a hcurve, p.affine? = some a ∧ P = a.point hcurve := by
  cases h with
  | neutral => exact absurd rfl hP
  | @affine x y hxy hlt hz hx hy =>
      have hz0 : (p.z : ZMod prime) ≠ 0 := fun h => hz ((cast_eq_zero hlt).mp h)
      have hscale := cast_inverse hz0
      let scale := inverse prime p.z
      let a : Affine := ⟨mul prime p.x (mul prime scale scale), mul prime p.y (mul prime scale (mul prime scale scale))⟩
      have hax : (a.x : ZMod prime) = x := by
        simp only [a, scale, cast_mul, hscale, hx]
        field_simp
      have hay : (a.y : ZMod prime) = y := by
        simp only [a, scale, cast_mul, hscale, hy]
        field_simp
      have hcurve : a.onCurve = true := onCurve_iff.mpr ⟨mul_lt _ _, mul_lt _ _, by rwa [hax, hay]⟩
      refine ⟨a, hcurve, if_neg hz, ?_⟩
      simp only [Affine.point, hax, hay]

end Point

/-! ### Multiples of the base point -/

/-- The base point of the curve. -/
def generator : curve.Point := Affine.point ⟨Point.base.x, Point.base.y⟩ (by decide +kernel)

theorem denotes_base : Point.base.Denotes generator := Point.denotes_ofAffine (a := ⟨Point.base.x, Point.base.y⟩) _

theorem addOrderOf_generator : addOrderOf generator = order := by
  have hzero : (Point.base.multiply order).z = 0 := by decide +kernel
  have : Fact order.Prime := ⟨prime_order⟩
  exact addOrderOf_eq_prime ((Point.denotes_multiply denotes_base order).eq_zero hzero) nofun

/-- No multiple of the base point by less than the order is the neutral point. -/
theorem nsmul_generator_ne_zero {n : Nat} (hpos : 0 < n) (hlt : n < order) : n • generator ≠ 0 := by
  intro h
  have hdvd := addOrderOf_dvd_iff_nsmul_eq_zero.mpr h
  rw [addOrderOf_generator] at hdvd
  exact absurd (Nat.le_of_dvd hpos hdvd) (Nat.not_le_of_lt hlt)

/-- The multiples of the base point by less than the order have affine coordinates. -/
theorem exists_affine_multiply_base {n : Nat} (hpos : 0 < n) (hlt : n < order) :
    ∃ a hcurve, (Point.base.multiply n).affine? = some a ∧ n • generator = a.point hcurve :=
  (Point.denotes_multiply denotes_base n).exists_affine (nsmul_generator_ne_zero hpos hlt)

end Attest.Weierstrass
