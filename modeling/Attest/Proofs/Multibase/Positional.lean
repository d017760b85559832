import Attest.Multibase.Positional
import Mathlib.Data.Nat.Digits.Lemmas

/-!
Digit strings in one base and in another. Reading a string in another base and back gives the string,
leading zeros included, since the zeros are kept apart from the number that the rest stands for. The first
digits of a number are those of its quotient by a power of the base.
-/

namespace Attest

theorem digitsUpTo_eq_digits {base : Nat} (hbase : 1 < base) {count n : Nat} (h : n < base ^ count) :
    digitsUpTo base count n = (Nat.digits base n).reverse := by
  induction count generalizing n with
  | zero =>
      obtain rfl : n = 0 := by simpa using h
      simp [digitsUpTo]
  | succ count ih =>
      rw [digitsUpTo]
      split
      · rename_i hzero
        simp [hzero]
      · rename_i hne
        have hpos := Nat.pos_of_ne_zero hne
        have hquotient : n / base < base ^ count := Nat.div_lt_of_lt_mul (by rwa [← Nat.pow_succ'])
        rw [Nat.digits_def' hbase hpos, List.reverse_cons, ih hquotient]

theorem digits_eq_digits {base : Nat} (hbase : 1 < base) (n : Nat) :
    digits base n = (Nat.digits base n).reverse := by
  have hlog : n < 2 ^ (n.log2 + 1) := Nat.lt_log2_self
  exact digitsUpTo_eq_digits hbase (Nat.lt_of_lt_of_le hlog (Nat.pow_le_pow_left hbase _))

theorem ofDigits_eq_ofDigits (base : Nat) (ds : List Nat) : ofDigits base ds = Nat.ofDigits base ds.reverse := by
  rw [Nat.ofDigits_eq_foldr, List.foldr_reverse, ofDigits]
  simp [Nat.add_comm]

theorem ofDigits_digits {base : Nat} (hbase : 1 < base) (n : Nat) : ofDigits base (digits base n) = n := by
  rw [ofDigits_eq_ofDigits, digits_eq_digits hbase, List.reverse_reverse, Nat.ofDigits_digits]

theorem digits_ofDigits {base : Nat} (hbase : 1 < base) {ds : List Nat} (hlt : ∀ d ∈ ds, d < base)
    (hhead : ds.head? ≠ some 0) : digits base (ofDigits base ds) = ds := by
  rw [digits_eq_digits hbase, ofDigits_eq_ofDigits, Nat.digits_ofDigits base hbase, List.reverse_reverse]
  · intro d hd
    exact hlt d (List.mem_reverse.mp hd)
  · intro hne
    rw [List.getLast_reverse]
    intro hzero
    exact hhead (by rw [List.head?_eq_some_head (by simpa using hne), hzero])

/-- The digits of a number do not start with zero. -/
theorem head?_digits_ne {base : Nat} (hbase : 1 < base) (n : Nat) : (digits base n).head? ≠ some 0 := by
  rw [digits_eq_digits hbase, List.head?_reverse]
  rcases Nat.eq_zero_or_pos n with rfl | hpos
  · simp
  · have hne := Nat.pos_iff_ne_zero.mp hpos
    rw [List.getLast?_eq_getLast_of_ne_nil (Nat.digits_ne_nil_iff_ne_zero.mpr hne)]
    intro h
    exact Nat.getLast_digit_ne_zero base hne (Option.some.inj h)

/-- The last digit of a number comes off at the end. -/
theorem digits_eq_append {base n : Nat} (hbase : 1 < base) (hpos : 0 < n) :
    digits base n = digits base (n / base) ++ [n % base] := by
  rw [digits_eq_digits hbase, digits_eq_digits hbase, Nat.digits_def' hbase hpos, List.reverse_cons]

/-- A number starts with the digits of what is left of it when its last digits are cut off. -/
theorem exists_last_digits {base n : Nat} (hbase : 1 < base) (count : Nat) (hpos : 0 < n / base ^ count) :
    ∃ last, last.length = count ∧ digits base n = digits base (n / base ^ count) ++ last := by
  induction count with
  | zero => exact ⟨[], rfl, by simp⟩
  | succ count ih =>
      rw [Nat.pow_succ, ← Nat.div_div_eq_div_mul] at hpos ⊢
      have hfront : 0 < n / base ^ count := Nat.pos_of_ne_zero fun hzero => by
        rw [hzero, Nat.zero_div] at hpos
        exact Nat.lt_irrefl 0 hpos
      obtain ⟨last, hlength, hdigits⟩ := ih hfront
      refine ⟨n / base ^ count % base :: last, congrArg (· + 1) hlength, ?_⟩
      rw [hdigits, digits_eq_append hbase hfront, List.append_assoc, List.singleton_append]

theorem ofDigits_append (base : Nat) (front back : List Nat) :
    ofDigits base (front ++ back) = ofDigits base front * base ^ back.length + ofDigits base back := by
  rw [ofDigits_eq_ofDigits, ofDigits_eq_ofDigits, ofDigits_eq_ofDigits, List.reverse_append, Nat.ofDigits_append,
    List.length_reverse, Nat.mul_comm, Nat.add_comm]

theorem ofDigits_lt {base : Nat} (hbase : 1 < base) {ds : List Nat} (hlt : ∀ d ∈ ds, d < base) :
    ofDigits base ds < base ^ ds.length := by
  rw [ofDigits_eq_ofDigits, ← List.length_reverse]
  refine Nat.ofDigits_lt_base_pow_length hbase ?_
  intro d hd
  exact hlt d (List.mem_reverse.mp hd)

theorem ofDigits_replicate_zero (base zeros : Nat) (ds : List Nat) :
    ofDigits base (List.replicate zeros 0 ++ ds) = ofDigits base ds := by
  induction zeros with
  | zero => rfl
  | succ zeros ih =>
      rw [List.replicate_succ, List.cons_append, ← ih]
      rfl

theorem takeWhile_zeros (zeros : Nat) {ds : List Nat} (hhead : ds.head? ≠ some 0) :
    ((List.replicate zeros 0 ++ ds).takeWhile (· == 0)).length = zeros := by
  have hstop : ds.takeWhile (· == 0) = [] := by
    cases ds with
    | nil => rfl
    | cons d ds =>
        have hd : (d == 0) = false := beq_eq_false_iff_ne.mpr fun heq => hhead (by rw [heq]; rfl)
        rw [List.takeWhile_cons, hd]
        rfl
  rw [List.takeWhile_append_of_pos fun d hd => beq_iff_eq.mpr (List.eq_of_mem_replicate hd), hstop,
    List.append_nil, List.length_replicate]

/-- A string of digits is some zeros and a string that does not start with zero. -/
theorem exists_zeros (ds : List Nat) :
    ∃ zeros rest, ds = List.replicate zeros 0 ++ rest ∧ rest.head? ≠ some 0 := by
  induction ds with
  | nil => exact ⟨0, [], rfl, by simp⟩
  | cons d ds ih =>
      by_cases hd : d = 0
      · obtain ⟨zeros, rest, rfl, hrest⟩ := ih
        exact ⟨zeros + 1, rest, by rw [hd]; rfl, hrest⟩
      · exact ⟨0, d :: ds, rfl, by simpa using hd⟩

/-- A digit string is read back from another base. -/
theorem convertDigits_convertDigits {source target : Nat} (hsource : 1 < source) (htarget : 1 < target)
    {ds : List Nat} (hlt : ∀ d ∈ ds, d < source) :
    convertDigits target source (convertDigits source target ds) = ds := by
  obtain ⟨zeros, rest, rfl, hrest⟩ := exists_zeros ds
  rw [convertDigits, convertDigits, takeWhile_zeros zeros hrest, ofDigits_replicate_zero, ofDigits_replicate_zero,
    takeWhile_zeros zeros (head?_digits_ne htarget _), ofDigits_digits htarget,
    digits_ofDigits hsource (fun d hd => hlt d (List.mem_append_right _ hd)) hrest]

theorem lt_of_mem_convertDigits {source target : Nat} (htarget : 1 < target) {ds : List Nat} :
    ∀ d ∈ convertDigits source target ds, d < target := by
  intro d hd
  rcases List.mem_append.mp hd with hzero | hdigit
  · rw [List.eq_of_mem_replicate hzero]
    exact Nat.lt_of_succ_lt htarget
  · rw [digits_eq_digits htarget, List.mem_reverse] at hdigit
    exact Nat.digits_lt_base htarget hdigit

end Attest
