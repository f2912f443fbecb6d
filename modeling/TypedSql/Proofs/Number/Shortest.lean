import TypedSql.Proofs.Number.Rounding

/-!
# The shortest decimal rounds to its double

`RoundingInterval.shortest` searches the decimal grids of one digit, two
digits and so on. What it returns lies in the interval of the double
(`Double.Canonical.holds_shortest`), so that reading it gives the double
back. Two things make that up: a grid point is accepted only when it lies in
the interval (`RoundingInterval.contains_iff`), and the seventeenth grid has
such a point at the latest, because its steps are narrower than the interval
(`Double.Canonical.isSome_nearestPoint?`) – without that, the search would end
with an answer that nothing vouches for.
-/

namespace TypedSql

theorem ten_zpow_eq_div (place : Int) :
    (10 : ℚ) ^ place = (10 ^ place.toNat : ℕ) / (10 ^ (-place).toNat : ℕ) := by
  rcases Int.eq_nat_or_neg place with ⟨n, rfl | rfl⟩
  · simp
  · simp

theorem exponent_lt_of_ten_zpow_lt {p q : Int} (h : (10 : ℚ) ^ p < 10 ^ q) : p < q :=
  (zpow_lt_zpow_iff_right₀ (by norm_num)).mp h

/-- The first digit of a number is not zero. -/
theorem pow_le_of_length_toDigits {n k : Nat} (hn : 0 < n)
    (h : (Nat.toDigits 10 n).length = k + 1) : 10 ^ k ≤ n := by
  rcases Nat.eq_zero_or_pos k with rfl | hk
  · exact hn
  · by_contra hlt
    have := (Nat.length_toDigits_le_iff (by omega) hk).mpr (Nat.not_le.mp hlt)
    omega

theorem exists_length_toDigits (n : Nat) : ∃ k, (Nat.toDigits 10 n).length = k + 1 :=
  Nat.exists_eq_succ_of_ne_zero fun h => Nat.toDigits_ne_nil (List.length_eq_zero_iff.mp h)

theorem lt_pow_length_toDigits (n : Nat) : n < 10 ^ (Nat.toDigits 10 n).length :=
  (Nat.length_toDigits_le_iff (by omega) (List.length_pos_iff.mpr Nat.toDigits_ne_nil)).mp le_rfl

/-! ## Grid points -/

namespace DecimalGrid

theorem ofPlace_denominator_pos (quarter place : Int) :
    0 < (ofPlace quarter place).denominator := by
  simp only [ofPlace, Nat.shiftLeft_eq]
  exact Nat.mul_pos (Nat.pow_pos (Nat.succ_pos 9)) (Nat.two_pow_pos _)

/-- **The two scales of a grid** agree: numerator and denominator are a
quarter unit and a step of the grid, each taken equally often. -/
theorem ofPlace_scale (quarter place : Int) :
    ∃ s : ℚ, 0 < s ∧ ((ofPlace quarter place).numerator : ℚ) = 2 ^ quarter * s ∧
      ((ofPlace quarter place).denominator : ℚ) = 10 ^ place * s := by
  have hstep : (0 : ℚ) < 10 ^ place := by positivity
  have hden : (0 : ℚ) < (ofPlace quarter place).denominator := by
    exact_mod_cast ofPlace_denominator_pos quarter place
  refine ⟨(ofPlace quarter place).denominator / 10 ^ place, by positivity, ?_, by field_simp⟩
  rw [ten_zpow_eq_div, two_zpow_eq_div]
  simp only [ofPlace, Nat.shiftLeft_eq, Nat.pow_eq]
  push_cast
  field_simp

end DecimalGrid

namespace RoundingInterval

/-- A grid point is accepted when it lies in the interval. -/
theorem contains_iff (r : RoundingInterval) (place : Int) (d : Nat) :
    r.contains (DecimalGrid.ofPlace r.quarter place) d = true ↔ r.Holds (d * 10 ^ place) := by
  obtain ⟨s, hs, hnum, hden⟩ := DecimalGrid.ofPlace_scale r.quarter place
  have hle : ∀ a b : ℚ, a * s ≤ b * s ↔ a ≤ b := fun a b => mul_le_mul_iff_left₀ hs
  have hlt : ∀ a b : ℚ, a * s < b * s ↔ a < b := fun a b => mul_lt_mul_iff_left₀ hs
  simp only [contains, Holds]
  split
  · rw [Bool.and_eq_true, decide_eq_true_iff, decide_eq_true_iff, ← Nat.cast_le (α := ℚ),
      ← Nat.cast_le (α := ℚ)]
    push_cast
    rw [hnum, hden, ← mul_assoc, ← mul_assoc, ← mul_assoc, hle, hle]
  · rw [Bool.and_eq_true, decide_eq_true_iff, decide_eq_true_iff, ← Nat.cast_lt (α := ℚ),
      ← Nat.cast_lt (α := ℚ)]
    push_cast
    rw [hnum, hden, ← mul_assoc, ← mul_assoc, ← mul_assoc, hlt, hlt]

/-- The nearest point of a grid is a point of the interval. -/
theorem contains_of_nearestPoint? {r : RoundingInterval} {g : DecimalGrid} {d : Nat}
    (h : r.nearestPoint? g = some d) : r.contains g d = true := by
  simp only [nearestPoint?] at h
  split at h
  · next hbelow habove =>
    split at h
    · exact Option.some.inj h ▸ hbelow
    · exact Option.some.inj h ▸ habove
  · next hbelow _ => exact Option.some.inj h ▸ hbelow
  · next habove => exact Option.some.inj h ▸ habove
  · cases h

/-- A grid has a nearest point when one of the two neighbours of the double
lies in the interval. -/
theorem isSome_nearestPoint? {r : RoundingInterval} {g : DecimalGrid}
    (h : r.contains g (r.value * g.numerator / g.denominator) = true ∨
      r.contains g (r.value * g.numerator / g.denominator + 1) = true) :
    (r.nearestPoint? g).isSome := by
  simp only [nearestPoint?]
  split
  · split <;> rfl
  · rfl
  · rfl
  · next hbelow habove => simp_all

/-- The two neighbours of a double on a grid have the double between them. -/
theorem neighbours (r : RoundingInterval) (place : Int) :
    ∃ below : Nat,
      r.value * (DecimalGrid.ofPlace r.quarter place).numerator /
        (DecimalGrid.ofPlace r.quarter place).denominator = below ∧
      (below : ℚ) * 10 ^ place ≤ r.value * 2 ^ r.quarter ∧
      (r.value : ℚ) * 2 ^ r.quarter < (below + 1 : ℕ) * 10 ^ place := by
  obtain ⟨s, hs, hnum, hden⟩ := DecimalGrid.ofPlace_scale r.quarter place
  have hfloor := Nat.div_mul_le_self
    (r.value * (DecimalGrid.ofPlace r.quarter place).numerator)
    (DecimalGrid.ofPlace r.quarter place).denominator
  have hceil := Nat.lt_mul_div_succ
    (r.value * (DecimalGrid.ofPlace r.quarter place).numerator)
    (DecimalGrid.ofPlace_denominator_pos r.quarter place)
  refine ⟨_, rfl, ?_, ?_⟩
  · rw [← Nat.cast_le (α := ℚ), Nat.cast_mul, Nat.cast_mul, hnum, hden, ← mul_assoc,
      ← mul_assoc, mul_le_mul_iff_left₀ hs] at hfloor
    exact hfloor
  · rw [Nat.mul_comm _ (_ + 1), ← Nat.cast_lt (α := ℚ), Nat.cast_mul, Nat.cast_mul, hnum, hden,
      ← mul_assoc, ← mul_assoc, mul_lt_mul_iff_left₀ hs] at hceil
    exact hceil

/-! ## The search

The search ends with the first grid that has a point in the interval. That it
ends with one needs a grid of which this is known beforehand, and any will do:
the induction is on the fuel, and what carries it is that the fuel reaches to
that grid. -/

/-- **A search that reaches a grid with a point** returns a point of the
interval. -/
theorem holds_search {r : RoundingInterval} {whole : Int} {last : Nat}
    (hlast : (r.nearestPoint? (DecimalGrid.ofPlace r.quarter (whole - last))).isSome)
    (fuel digits : Nat) (hdigits : digits ≤ last) (hfuel : last < digits + fuel) :
    r.Holds ((r.search whole fuel digits).1 * 10 ^ (r.search whole fuel digits).2) := by
  induction fuel generalizing digits with
  | zero => omega
  | succ fuel ih =>
    simp only [search]
    split
    · next d hd => exact (contains_iff r _ d).mp (contains_of_nearestPoint? hd)
    · next hnone =>
      refine ih (digits + 1) ?_ (by omega)
      rcases Nat.eq_or_lt_of_le hdigits with rfl | hlt
      · rw [hnone] at hlast
        cases hlast
      · exact hlt

/-- The digits before the point are counted so that the first of them is not
zero. -/
theorem ten_zpow_wholeDigits_le {r : RoundingInterval} (hvalue : 0 < r.value) :
    (10 : ℚ) ^ (r.wholeDigits - 1) ≤ r.value * 2 ^ r.quarter := by
  have hquotient : (r.value : ℚ) * (2 : ℚ) ^ r.quarter
      = (r.value <<< r.quarter.toNat : ℕ) / (1 <<< (-r.quarter).toNat : ℕ) := by
    have h := shifted_quotient r.value 1 (-r.quarter)
    rw [neg_neg] at h
    rw [h, zpow_neg, Nat.cast_one, div_one, div_inv_eq_mul]
  have hnum : 0 < r.value <<< r.quarter.toNat :=
    Nat.shiftLeft_eq r.value _ ▸ Nat.mul_pos hvalue (Nat.two_pow_pos _)
  have hden : 0 < 1 <<< (-r.quarter).toNat :=
    Nat.shiftLeft_eq 1 _ ▸ Nat.mul_pos Nat.one_pos (Nat.two_pow_pos _)
  rw [hquotient, wholeDigits]
  generalize r.value <<< r.quarter.toNat = num at hnum ⊢
  generalize 1 <<< (-r.quarter).toNat = den at hden ⊢
  have hden' : (0 : ℚ) < den := by exact_mod_cast hden
  split
  · next hle =>
    -- the whole part has as many digits as it is long
    obtain ⟨k, hk⟩ := exists_length_toDigits (num / den)
    have hpow : 10 ^ k ≤ num / den := pow_le_of_length_toDigits (Nat.div_pos hle hden) hk
    have hmul : 10 ^ k * den ≤ num := (Nat.le_div_iff_mul_le hden).mp hpow
    rw [hk, le_div_iff₀ hden', Nat.cast_add_one, add_sub_cancel_right, zpow_natCast]
    exact_mod_cast hmul
  · next hlt =>
    -- the digits of the inverse count the zeros behind the point
    have hmul : den ≤ num * 10 ^ (Nat.toDigits 10 ((den - 1) / num)).length := by
      have := (Nat.div_lt_iff_lt_mul hnum).mp (lt_pow_length_toDigits ((den - 1) / num))
      rw [Nat.mul_comm]
      omega
    rw [show (1 : Int) - ((Nat.toDigits 10 ((den - 1) / num)).length : Int) - 1
        = -((Nat.toDigits 10 ((den - 1) / num)).length : Int) by omega,
      zpow_neg, zpow_natCast, inv_le_iff_one_le_mul₀ (by positivity), div_mul_eq_mul_div,
      le_div_iff₀ hden', one_mul]
    exact_mod_cast hmul

end RoundingInterval

/-! ## The seventeenth grid

A double has a significand below `10 ^ 16`, and seventeen digits are steps of
less than a unit of the last place, counted from the first digit that is not
zero. Below a power of two the interval is shorter by a quarter of a unit, but
there the significand is known, and there is room for it. -/

namespace Double

open RoundingInterval

/-- A double in quarter units. -/
theorem value_eq (significand : Nat) (exponent : Int) :
    ((ofFinite significand exponent).value : ℚ) * 2 ^ (ofFinite significand exponent).quarter
      = significand * 2 ^ exponent := by
  simp only [ofFinite, two_zpow_quarter]
  push_cast
  ring

/-- A grid whose steps are narrower than the interval of a double has a point
in it next to the double. -/
theorem isSome_nearestPoint? {significand : Nat} {exponent : Int} {place : Int}
    (hpos : 0 < significand)
    (hstep : ((ofFinite significand exponent).lower : ℚ) *
        2 ^ (ofFinite significand exponent).quarter + 10 ^ place
      < (significand + 1 / 2) * 2 ^ exponent) :
    ((ofFinite significand exponent).nearestPoint?
      (DecimalGrid.ofPlace (ofFinite significand exponent).quarter place)).isSome := by
  have hunit : (0 : ℚ) < 2 ^ exponent := by positivity
  obtain ⟨below, hbelow, hle, hlt⟩ := (ofFinite significand exponent).neighbours place
  rw [value_eq] at hle hlt
  refine RoundingInterval.isSome_nearestPoint? ?_
  rw [hbelow, contains_iff, contains_iff]
  -- if neither neighbour were in the interval, the step between them would reach across it
  by_cases hlow : ((ofFinite significand exponent).lower : ℚ) *
      2 ^ (ofFinite significand exponent).quarter < below * 10 ^ place
  · refine .inl (holds_of_lt hlow ?_)
    rw [upper_eq]
    calc (below : ℚ) * 10 ^ place ≤ significand * 2 ^ exponent := hle
      _ < (significand + 1 / 2) * 2 ^ exponent := by
        gcongr
        linarith
  · refine .inr (holds_of_lt ?_ ?_)
    · calc ((ofFinite significand exponent).lower : ℚ) *
            2 ^ (ofFinite significand exponent).quarter
          ≤ (significand - 1 / 4) * 2 ^ exponent := lower_le hpos
        _ < significand * 2 ^ exponent := by
          gcongr
          linarith
        _ < (below + 1 : ℕ) * 10 ^ place := hlt
    · rw [upper_eq]
      calc ((below + 1 : ℕ) : ℚ) * 10 ^ place = below * 10 ^ place + 10 ^ place := by
            push_cast
            ring
        _ ≤ (ofFinite significand exponent).lower *
            2 ^ (ofFinite significand exponent).quarter + 10 ^ place :=
          add_le_add (not_lt.mp hlow) le_rfl
        _ < (significand + 1 / 2) * 2 ^ exponent := hstep

/-- The steps of the seventeenth grid are narrower than the interval. -/
theorem Canonical.seventeenth_step {significand : Nat} {exponent : Int}
    (h : Canonical significand exponent) :
    ((ofFinite significand exponent).lower : ℚ) * 2 ^ (ofFinite significand exponent).quarter +
        10 ^ ((ofFinite significand exponent).wholeDigits - (17 : ℕ))
      < (significand + 1 / 2) * 2 ^ exponent := by
  have hunit : (0 : ℚ) < 2 ^ exponent := by positivity
  have hvalue : 0 < (ofFinite significand exponent).value := Nat.mul_pos (by omega) h.pos
  have hfirst := ten_zpow_wholeDigits_le hvalue
  rw [value_eq] at hfirst
  have hstep : (10 : ℚ) ^ ((ofFinite significand exponent).wholeDigits - (17 : ℕ))
      ≤ significand / 10 ^ 16 * 2 ^ exponent := by
    calc (10 : ℚ) ^ ((ofFinite significand exponent).wholeDigits - (17 : ℕ))
        = 10 ^ ((ofFinite significand exponent).wholeDigits - 1) / 10 ^ 16 := by
          rw [← zpow_natCast, ← zpow_sub₀ (by norm_num)]
          congr 1
          push_cast
          omega
      _ ≤ significand * 2 ^ exponent / 10 ^ 16 := by gcongr
      _ = significand / 10 ^ 16 * 2 ^ exponent := by ring
  have hsignificand : (significand : ℚ) < 10 ^ 16 := by
    have hlt : significand < 10 ^ 16 := h.lt.trans (by decide)
    exact_mod_cast hlt
  by_cases hbit : significand = leadingBit ∧ -1074 < exponent
  · obtain ⟨rfl, hexponent⟩ := hbit
    rw [cast_leadingBit] at hstep
    rw [lower_eq_leadingBit hexponent, cast_leadingBit]
    nlinarith [hstep, hunit]
  · rw [lower_eq h.pos hbit]
    calc ((significand : ℚ) - 1 / 2) * 2 ^ exponent +
          10 ^ ((ofFinite significand exponent).wholeDigits - (17 : ℕ))
        ≤ (significand - 1 / 2) * 2 ^ exponent + significand / 10 ^ 16 * 2 ^ exponent := by gcongr
      _ = (significand - 1 / 2 + significand / 10 ^ 16) * 2 ^ exponent := by ring
      _ < (significand + 1 / 2) * 2 ^ exponent :=
        mul_lt_mul_of_pos_right (by linarith) hunit

/-- **The shortest decimal of a double lies in its interval.** -/
theorem Canonical.holds_shortest {significand : Nat} {exponent : Int}
    (h : Canonical significand exponent) :
    (ofFinite significand exponent).Holds
      ((ofFinite significand exponent).shortest.1 *
        10 ^ (ofFinite significand exponent).shortest.2) :=
  holds_search (isSome_nearestPoint? h.pos h.seventeenth_step) 17 1 (by omega) (by omega)

end Double

end TypedSql
