import Attest.Proofs.Curve.Roots

/-!
Points as bytes. The bytes that are read as a point are its encodings and no others: the compressed one, the one with
both coordinates, and for one of two opposite points the one that tells nothing of `y`. So a point is read back from
each of its encodings, since of the two roots for its `x` exactly one has the parity that the tag tells.
-/

namespace Attest

/-! ### Numbers of a fixed width -/

namespace Bytes

theorem toNat_append_singleton (b : Bytes) (x : UInt8) : toNat (b ++ [x]) = 256 * toNat b + x.toNat := by
  rw [toNat, List.foldl_append]
  rfl

/-- A number is read back from bytes that are wide enough for it. -/
theorem toNat_ofNat {width n : Nat} (h : n < 256 ^ width) : toNat (ofNat width n) = n := by
  induction width generalizing n with
  | zero =>
      rw [pow_zero, Nat.lt_one_iff] at h
      rw [h]
      rfl
  | succ width ih =>
      have hquotient : n / 256 < 256 ^ width := Nat.div_lt_of_lt_mul (by rwa [← Nat.pow_succ'])
      rw [ofNat, toNat_append_singleton, ih hquotient, Nat.toUInt8, UInt8.toNat_ofNat', Nat.div_add_mod]

/-- Bytes are those of the number they stand for. -/
theorem ofNat_toNat {width : Nat} {b : Bytes} (h : b.length = width) : ofNat width (toNat b) = b := by
  subst h
  induction b using List.reverseRecOn with
  | nil => rfl
  | append_singleton b x ih =>
      have hx := x.toNat_lt
      have hquotient : (256 * toNat b + x.toNat) / 256 = toNat b := by omega
      have hlast : (256 * toNat b + x.toNat).toUInt8 = x := by
        apply UInt8.toNat_inj.mp
        rw [Nat.toUInt8, UInt8.toNat_ofNat']
        omega
      rw [List.length_append, List.length_singleton, ofNat, toNat_append_singleton, hquotient, ih, hlast]

end Bytes

namespace Weierstrass

theorem toNat_coordinate {n : Nat} (h : n < prime) : Bytes.toNat (Bytes.ofNat 32 n) = n :=
  Bytes.toNat_ofNat (h.trans (by decide))

namespace Affine

/-- The bytes of both coordinates. -/
def uncompressed (a : Affine) : Bytes := 0x04 :: (Bytes.ofNat 32 a.x ++ Bytes.ofNat 32 a.y)

/-- The bytes of `x` alone, which stand for the point with the smaller `y`. -/
def compact (a : Affine) : Bytes := 0x05 :: Bytes.ofNat 32 a.x

/-- The encodings of a point. -/
inductive Encodes (a : Affine) : Bytes → Prop
  | compress : a.Encodes a.compress
  | uncompressed : a.Encodes a.uncompressed
  | compact (h : a.y ≤ prime - a.y) : a.Encodes a.compact

/-! ### Reading one coordinate -/

/-- Which of two opposite roots is taken is told by a property that exactly one of them has. -/
structure Takes (choose : Nat → Nat → Nat) (taken : Nat → Prop) : Prop where
  choose_eq : ∀ y < prime, 0 < y →
    taken y ∧ choose y (prime - y) = y ∨ taken (prime - y) ∧ choose y (prime - y) = prime - y
  unique : ∀ y < prime, 0 < y → taken y → ¬ taken (prime - y)

/-- A choice by a property that exactly one of two opposite roots has. -/
theorem takes_of_exclusive {choose : Nat → Nat → Nat} {taken : Nat → Prop} [DecidablePred taken]
    (hchoose : ∀ y, choose y (prime - y) = if taken y then y else prime - y)
    (hexclusive : ∀ y < prime, 0 < y → (taken (prime - y) ↔ ¬ taken y)) : Takes choose taken where
  choose_eq y hy hpos := by
    by_cases h : taken y
    · exact .inl ⟨h, (hchoose y).trans (if_pos h)⟩
    · exact .inr ⟨(hexclusive y hy hpos).mpr h, (hchoose y).trans (if_neg h)⟩
  unique y hy hpos h hother := (hexclusive y hy hpos).mp hother h

-- The prime is odd, so of two opposite roots one is even, one is odd, and they are not equal.
theorem prime_mod_two : prime % 2 = 1 := by decide

theorem takes_even : Takes (fun y z => if y % 2 = 0 then y else z) fun y => y % 2 = 0 := by
  have := prime_mod_two
  exact takes_of_exclusive (fun _ => rfl) fun y hy _ => by omega

theorem takes_odd : Takes (fun y z => if y % 2 = 1 then y else z) fun y => y % 2 = 1 := by
  have := prime_mod_two
  exact takes_of_exclusive (fun _ => rfl) fun y hy _ => by omega

theorem takes_min : Takes min fun y => y ≤ prime - y := by
  have := prime_mod_two
  exact takes_of_exclusive (fun y => Nat.min_def) fun y hy _ => by omega

theorem ofAbscissa?_eq_some_iff {choose : Nat → Nat → Nat} {taken : Nat → Prop} (h : Takes choose taken)
    {bytes : Bytes} {a : Affine} :
    ofAbscissa? bytes choose = some a ↔ a.onCurve = true ∧ bytes = Bytes.ofNat 32 a.x ∧ taken a.y := by
  rw [ofAbscissa?]
  constructor
  · intro hread
    obtain ⟨⟨hlength, hx⟩, hread⟩ := Option.ite_none_right_eq_some.mp hread
    obtain ⟨y, hy, rfl⟩ := Option.map_eq_some_iff.mp hread
    have hcurve := onCurve_of_root? hx hy
    have hbytes := (Bytes.ofNat_toNat hlength).symm
    rcases h.choose_eq y (onCurve_iff.mp hcurve).2.1 (y_pos hcurve) with ⟨htaken, heq⟩ | ⟨htaken, heq⟩
    · rw [heq]
      exact ⟨hcurve, hbytes, htaken⟩
    · rw [heq]
      exact ⟨onCurve_opposite hcurve, hbytes, htaken⟩
  · rintro ⟨hcurve, hbytes, htaken⟩
    obtain ⟨hx, hy, -⟩ := onCurve_iff.mp hcurve
    obtain ⟨-, hy', -⟩ := onCurve_iff.mp (onCurve_opposite hcurve)
    have htwice : prime - (prime - a.y) = a.y := Nat.sub_sub_self hy.le
    rw [hbytes, toNat_coordinate hx, if_pos ⟨Bytes.length_ofNat _ _, hx⟩]
    rcases root?_of_onCurve hcurve with hroot | hroot
    · rw [hroot, Option.map_some]
      rcases h.choose_eq a.y hy (y_pos hcurve) with ⟨-, heq⟩ | ⟨hother, -⟩
      · rw [heq]
      · exact absurd hother (h.unique a.y hy (y_pos hcurve) htaken)
    · rw [hroot, Option.map_some]
      rcases h.choose_eq _ hy' (y_pos (onCurve_opposite hcurve)) with ⟨hother, -⟩ | ⟨-, heq⟩
      · exact absurd hother (h.unique a.y hy (y_pos hcurve) htaken)
      · rw [heq, htwice]

/-! ### Reading encodings -/

variable {a : Affine}

theorem ofBytes?_compress (h : a.onCurve = true) : ofBytes? a.compress = some a := by
  rw [compress]
  by_cases heven : a.y % 2 = 0
  · rw [if_pos heven, ofBytes?, if_pos rfl, ofAbscissa?_eq_some_iff takes_even]
    exact ⟨h, rfl, heven⟩
  · rw [if_neg heven, ofBytes?, if_neg (by decide), if_pos rfl, ofAbscissa?_eq_some_iff takes_odd]
    exact ⟨h, rfl, Nat.mod_two_ne_zero.mp heven⟩

theorem ofBytes?_uncompressed (h : a.onCurve = true) : ofBytes? a.uncompressed = some a := by
  obtain ⟨hx, hy, -⟩ := onCurve_iff.mp h
  have hlength : (Bytes.ofNat 32 a.x ++ Bytes.ofNat 32 a.y).length = 64 := by
    rw [List.length_append, Bytes.length_ofNat, Bytes.length_ofNat]
  have hpair : (⟨Bytes.toNat (Bytes.ofNat 32 a.x), Bytes.toNat (Bytes.ofNat 32 a.y)⟩ : Affine) = a := by
    rw [toNat_coordinate hx, toNat_coordinate hy]
  rw [uncompressed, ofBytes?, if_neg (by decide), if_neg (by decide), if_neg (by decide), if_pos ⟨rfl, hlength⟩,
    List.take_left' (Bytes.length_ofNat _ _), List.drop_left' (Bytes.length_ofNat _ _), hpair, if_pos h]

/-- What is read as a point are its encodings and nothing else. -/
theorem ofBytes?_eq_some_iff {bytes : Bytes} : ofBytes? bytes = some a ↔ a.onCurve = true ∧ a.Encodes bytes := by
  constructor
  · intro h
    cases bytes with
    | nil => cases h
    | cons tag bytes =>
        rw [ofBytes?] at h
        by_cases htag : tag = 0x02
        · rw [if_pos htag, ofAbscissa?_eq_some_iff takes_even] at h
          obtain ⟨hcurve, hbytes, heven⟩ := h
          have hform : tag :: bytes = a.compress := by rw [compress, if_pos heven, htag, hbytes]
          exact ⟨hcurve, hform ▸ .compress⟩
        rw [if_neg htag] at h
        by_cases htag : tag = 0x03
        · rw [if_pos htag, ofAbscissa?_eq_some_iff takes_odd] at h
          obtain ⟨hcurve, hbytes, hodd⟩ := h
          have hform : tag :: bytes = a.compress := by rw [compress, if_neg (by omega), htag, hbytes]
          exact ⟨hcurve, hform ▸ .compress⟩
        rw [if_neg htag] at h
        by_cases htag : tag = 0x05
        · rw [if_pos htag, ofAbscissa?_eq_some_iff takes_min] at h
          obtain ⟨hcurve, hbytes, hmin⟩ := h
          have hform : tag :: bytes = a.compact := by rw [compact, htag, hbytes]
          exact ⟨hcurve, hform ▸ .compact hmin⟩
        rw [if_neg htag] at h
        obtain ⟨⟨htag, hlength⟩, h⟩ := Option.ite_none_right_eq_some.mp h
        obtain ⟨hcurve, h⟩ := Option.ite_none_right_eq_some.mp h
        have hpair := Option.some.inj h
        have hform : tag :: bytes = a.uncompressed := by
          rw [uncompressed, htag, ← hpair, Bytes.ofNat_toNat (by simp [hlength]),
            Bytes.ofNat_toNat (by simp [hlength]), List.take_append_drop]
        exact ⟨hpair ▸ hcurve, hform ▸ .uncompressed⟩
  · rintro ⟨hcurve, hencodes⟩
    cases hencodes with
    | compress => exact ofBytes?_compress hcurve
    | uncompressed => exact ofBytes?_uncompressed hcurve
    | compact hmin =>
        rw [compact, ofBytes?, if_neg (by decide), if_neg (by decide), if_pos rfl, ofAbscissa?_eq_some_iff takes_min]
        exact ⟨hcurve, rfl, hmin⟩

end Affine

end Weierstrass

end Attest
