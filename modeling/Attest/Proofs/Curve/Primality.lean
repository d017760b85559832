import Attest.Curve.Weierstrass
import Attest.Proofs.Curve.Modular
import Mathlib.Data.List.Prime
import Mathlib.NumberTheory.LucasPrimality
import Mathlib.Tactic.NormNum.Prime

/-!
The field of the curve P-256 has as many elements as a prime tells, and so has the group that its base point makes.
A number is prime if a residue has powers up to the number less one before they start again. Whether it has shows in
its powers by the quotients of that number by each of its prime factors, of which those that are too large to be
tried out are shown to be prime in the same way before.
-/

namespace Attest

/-- A number that is to be prime, a residue whose powers show it, and the prime factors of the number before it. -/
structure PrimeStep where
  number : Nat
  root : Nat
  factors : List Nat

namespace PrimeStep

/-- The factors are known to be primes, and no power of the residue by a quotient of them is one. -/
def Shows (known : List Nat) (s : PrimeStep) : Prop :=
  1 < s.number ∧ s.factors.prod = s.number - 1 ∧ Modular.pow s.number s.root (s.number - 1) = 1 ∧
    ∀ q ∈ s.factors, q ∈ known ∧ Modular.pow s.number s.root ((s.number - 1) / q) ≠ 1

instance decidableShows (known : List Nat) (s : PrimeStep) : Decidable (s.Shows known) :=
  inferInstanceAs (Decidable (_ ∧ _ ∧ _ ∧ _))

/-- Each step shows its number to be prime, once those of the steps before it are known. -/
def AllShow : (known : List Nat) → List PrimeStep → Prop
  | _, [] => True
  | known, s :: steps => s.Shows known ∧ AllShow (s.number :: known) steps

instance decidableAllShow : (known : List Nat) → (steps : List PrimeStep) → Decidable (AllShow known steps)
  | _, [] => isTrue trivial
  | known, s :: steps =>
    have := decidableAllShow (s.number :: known) steps
    inferInstanceAs (Decidable (_ ∧ _))

variable {known : List Nat} (hknown : ∀ q ∈ known, q.Prime)

include hknown

theorem Shows.prime {s : PrimeStep} (h : s.Shows known) : s.number.Prime := by
  obtain ⟨hlt, hproduct, hroot, hfactors⟩ := h
  have : NeZero s.number := ⟨by omega⟩
  have hone := Modular.cast_pow_eq_one hlt s.root
  refine lucas_primality s.number s.root ((hone _).mpr hroot) fun q hq hdvd => ?_
  -- A prime that divides the product of the factors is one of them.
  rw [← hproduct, hq.prime.dvd_prod_iff] at hdvd
  obtain ⟨factor, hfactor, hdvd⟩ := hdvd
  obtain ⟨hmem, hne⟩ := hfactors factor hfactor
  rw [(Nat.prime_dvd_prime_iff_eq hq (hknown factor hmem)).mp hdvd]
  exact fun hpow => hne ((hone _).mp hpow)

theorem AllShow.prime {steps : List PrimeStep} (h : AllShow known steps) : ∀ s ∈ steps, s.number.Prime := by
  induction steps generalizing known with
  | nil => exact List.forall_mem_nil _
  | cons s steps ih =>
      have hs := h.1.prime hknown
      exact List.forall_mem_cons.mpr ⟨hs, ih (List.forall_mem_cons.mpr ⟨hs, hknown⟩) h.2⟩

end PrimeStep

namespace Weierstrass

/-- Primes that can be tried out. -/
def smallPrimes : List Nat :=
  [2, 3, 5, 7, 11, 17, 19, 23, 29, 41, 43, 53, 71, 107, 127, 131, 173, 197, 229, 257, 311, 373, 641, 1201, 1297, 1531,
    2411, 3023, 3407, 3677, 3769, 16879, 17449, 18169, 38189, 65537, 78283, 104471, 126241, 155317, 490463, 704251]

theorem prime_of_mem_smallPrimes : ∀ q ∈ smallPrimes, q.Prime := by
  norm_num [smallPrimes]

/-- How the order of the field is shown to be prime. -/
def fieldSteps : List PrimeStep :=
  [⟨6700417, 5, [2, 2, 2, 2, 2, 2, 2, 3, 17449]⟩,
    ⟨204061199, 11, [2, 11, 23, 107, 3769]⟩,
    ⟨34282281433, 17, [2, 2, 2, 3, 7, 204061199]⟩,
    ⟨66417393611, 6, [2, 5, 53, 173, 197, 3677]⟩,
    ⟨11290956913871, 13, [2, 5, 17, 66417393611]⟩,
    ⟨46076956964474543, 5, [2, 23, 18169, 78283, 704251]⟩,
    ⟨774023187263532362759620327192479577272145303, 3,
      [2, 3, 3, 2411, 34282281433, 11290956913871, 46076956964474543]⟩,
    ⟨835945042244614951780389953367877943453916927241, 11,
      [2, 2, 2, 3, 3, 3, 5, 774023187263532362759620327192479577272145303]⟩,
    ⟨prime, 6, [2, 3, 5, 5, 17, 257, 641, 1531, 65537, 490463, 6700417,
      835945042244614951780389953367877943453916927241]⟩]

/-- How the order of the base point is shown to be prime. -/
def orderSteps : List PrimeStep :=
  [⟨9350987, 2, [2, 17, 229, 1201]⟩,
    ⟨187019741, 2, [2, 2, 5, 9350987]⟩,
    ⟨311245691, 2, [2, 5, 7, 17, 29, 29, 311]⟩,
    ⟨622491383, 5, [2, 311245691]⟩,
    ⟨3969899, 2, [2, 19, 104471]⟩,
    ⟨1002328039319, 19, [2, 126241, 3969899]⟩,
    ⟨191039911, 3, [2, 3, 5, 41, 155317]⟩,
    ⟨208150935158385979, 2, [2, 3, 11, 43, 127, 3023, 191039911]⟩,
    ⟨2624747550333869278416773953, 7, [2, 2, 2, 2, 2, 2, 3, 3, 1297, 16879, 208150935158385979]⟩,
    ⟨order, 7, [2, 2, 2, 2, 3, 71, 131, 373, 3407, 17449, 38189, 187019741, 622491383, 1002328039319,
      2624747550333869278416773953]⟩]

theorem prime_prime : prime.Prime := by
  have hsteps : PrimeStep.AllShow smallPrimes fieldSteps := by decide +kernel
  exact hsteps.prime prime_of_mem_smallPrimes _ (List.mem_of_getLast? rfl)

theorem prime_order : order.Prime := by
  have hsteps : PrimeStep.AllShow smallPrimes orderSteps := by decide +kernel
  exact hsteps.prime prime_of_mem_smallPrimes _ (List.mem_of_getLast? rfl)

end Weierstrass

end Attest
