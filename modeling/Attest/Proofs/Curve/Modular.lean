import Attest.Curve.Modular
import Mathlib.FieldTheory.Finite.Basic

/-!
Arithmetic modulo a number as arithmetic of its residues. What is built up by doubling and adding over the binary
digits of a number is a power or a multiple by that number, since the digits read so far are always the number
without its last digits.
-/

namespace Attest

/-- What holds at zero and is kept by doubling, with one added or not as a digit tells, holds at a number after its
binary digits. -/
theorem foldl_binaryDigits {α : Type} {R : Nat → α → Prop} {step : α → Bool → α} {start : α} (hstart : R 0 start)
    (hstep : ∀ (n : Nat) (a : α) (digit : Bool), R n a → R (2 * n + digit.toNat) (step a digit)) (n : Nat) :
    R n ((binaryDigits n).foldl step start) := by
  -- With the last `count` digits still to come, what has been read is the number without them.
  have hlast (count : Nat) (a : α) (ha : R (n / 2 ^ count) a) :
      R n (((List.range count).reverse.map n.testBit).foldl step a) := by
    induction count generalizing a with
    | zero => rwa [pow_zero, Nat.div_one] at ha
    | succ count ih =>
        have hdigit : 2 * (n / 2 ^ (count + 1)) + (n.testBit count).toNat = n / 2 ^ count := by
          rw [Nat.toNat_testBit, Nat.pow_succ, ← Nat.div_div_eq_div_mul, Nat.div_add_mod]
        rw [List.range_succ, List.reverse_append, List.reverse_singleton, List.singleton_append, List.map_cons,
          List.foldl_cons]
        exact ih _ (hdigit ▸ hstep _ a _ ha)
  refine hlast (n.log2 + 1) start ?_
  rwa [Nat.div_eq_of_lt Nat.lt_log2_self]

namespace Modular

variable {p : Nat}

/-- Two reduced numbers with one residue are the same. -/
theorem cast_inj_of_lt {a b : Nat} (ha : a < p) (hb : b < p) : (a : ZMod p) = b ↔ a = b := by
  rw [ZMod.natCast_eq_natCast_iff', Nat.mod_eq_of_lt ha, Nat.mod_eq_of_lt hb]

@[simp] theorem cast_add (a b : Nat) : (add p a b : ZMod p) = a + b := by
  rw [add, ZMod.natCast_mod, Nat.cast_add]

@[simp] theorem cast_mul (a b : Nat) : (mul p a b : ZMod p) = a * b := by
  rw [mul, ZMod.natCast_mod, Nat.cast_mul]

@[simp] theorem cast_pow (a e : Nat) : (pow p a e : ZMod p) = a ^ e := by
  refine foldl_binaryDigits (R := fun n (x : Nat) => (x : ZMod p) = a ^ n) ?_ ?_ e
  · rw [ZMod.natCast_mod, Nat.cast_one, pow_zero]
  · intro n x digit hx
    cases digit with
    | false => simp [hx, two_mul, pow_add]
    | true => simp [hx, two_mul, pow_add]

variable [NeZero p]

@[simp] theorem cast_sub (a b : Nat) : (sub p a b : ZMod p) = a - b := by
  have hle : b % p ≤ p := (Nat.mod_lt b (NeZero.pos p)).le
  rw [sub, ZMod.natCast_mod, Nat.cast_add, Nat.cast_sub hle, ZMod.natCast_mod, ZMod.natCast_self, zero_sub,
    sub_eq_add_neg]

theorem add_lt (a b : Nat) : add p a b < p := Nat.mod_lt _ (NeZero.pos p)

theorem sub_lt (a b : Nat) : sub p a b < p := Nat.mod_lt _ (NeZero.pos p)

theorem mul_lt (a b : Nat) : mul p a b < p := Nat.mod_lt _ (NeZero.pos p)

theorem pow_lt (a e : Nat) : pow p a e < p := by
  refine foldl_binaryDigits (R := fun _ (x : Nat) => x < p) ?_ ?_ e
  · exact Nat.mod_lt _ (NeZero.pos p)
  · intro _ _ digit _
    cases digit with
    | false => exact mul_lt _ _
    | true => exact mul_lt _ _

/-- Whether a power is one is the same for the residue and for the number computed. -/
theorem cast_pow_eq_one (hp : 1 < p) (a e : Nat) : (a : ZMod p) ^ e = 1 ↔ pow p a e = 1 := by
  rw [← cast_pow, ← Nat.cast_one, cast_inj_of_lt (pow_lt a e) hp]

omit [NeZero p] in
theorem cast_inverse [hp : Fact p.Prime] {a : Nat} (ha : (a : ZMod p) ≠ 0) : (inverse p a : ZMod p) = (a : ZMod p)⁻¹ := by
  have hexponent : p - 2 + 1 = p - 1 := by
    have := hp.out.two_le
    omega
  refine eq_inv_of_mul_eq_one_left ?_
  rw [inverse, cast_pow, ← pow_succ, hexponent, ZMod.pow_card_sub_one_eq_one ha]

end Modular

end Attest
