import TypedSql.Proofs.Number.Double

/-!
# The double nearest to a number

`Double.IsNearest` says which double a rational number is rounded to, without
a word on how it is found: no finite double is nearer, of two that are equally
near it is the one with an even last bit, and it is an infinity exactly if the
number lies half a unit or more beyond the greatest double.

`Double.nearest` and `Numeral.toDouble` give that double
(`Double.nearest_isNearest`, `Numeral.toDouble_isNearest`). Behind it is the
grid that the rounding works on (`Double.OnGrid`). The doubles beside the
number are the points of this grid; a double of a finer grid lies below the
binade of the number, and the first point of the binade stands between the
two.
-/

namespace TypedSql

/-! ## Signs -/

/-- A number with a sign. -/
def withSign (negative : Bool) (v : ℚ) : ℚ := if negative then -v else v

@[simp] theorem withSign_false (v : ℚ) : withSign false v = v := rfl

@[simp] theorem withSign_true (v : ℚ) : withSign true v = -v := rfl

theorem withSign_withSign (negative : Bool) (v : ℚ) :
    withSign negative (withSign negative v) = v := by
  cases negative
  · rfl
  · exact neg_neg v

theorem withSign_not_withSign (negative : Bool) (v : ℚ) :
    withSign (!negative) (withSign negative v) = -v := by
  cases negative <;> rfl

theorem abs_withSign (negative : Bool) (v : ℚ) : |withSign negative v| = |v| := by
  cases negative
  · rfl
  · exact abs_neg v

theorem abs_withSign_sub (negative : Bool) (a v : ℚ) :
    |withSign negative a - v| = |a - withSign negative v| := by
  cases negative
  · rfl
  · rw [withSign_true, withSign_true, ← abs_neg]
    congr 1
    ring

namespace Double

/-! ## Bits and meaning -/

/-- A significand and an exponent are what is read off the double with these
bits. -/
theorem Canonical.meaning_ofMagnitude {significand : Nat} {exponent : Int}
    (h : Canonical significand exponent) (negative : Bool) :
    meaning (ofMagnitude negative (magnitudeBits significand exponent)) =
      .finite negative significand exponent := by
  have hfinite := h.magnitudeBits_lt
  rw [Double.meaning_ofMagnitude negative hfinite.le, if_neg hfinite.ne]
  obtain ⟨hpos, hlt, hleast, -, hnormal⟩ := h
  rcases Nat.lt_or_ge significand leadingBit with hsmall | hlarge
  · obtain rfl := hnormal.resolve_right (Nat.not_le.mpr hsmall)
    have hbits : magnitudeBits significand (-1074) = significand := Nat.zero_add _
    rw [hbits, if_pos hsmall]
  · have hbit : leadingBit = 2 ^ 52 := rfl
    rw [hbit] at hlt hlarge
    have hbits : magnitudeBits significand exponent
        = (exponent + 1074).toNat * 2 ^ 52 + significand := rfl
    rw [if_neg (by rw [hbits, hbit]; omega), hbits, hbit]
    congr 1
    · omega
    · omega

theorem meaning_ofMagnitude_infinityBits (negative : Bool) :
    meaning (ofMagnitude negative infinityBits) = .infinite negative := by
  rw [meaning_ofMagnitude negative le_rfl, if_pos rfl]

theorem meaning_ofMagnitude_zero (negative : Bool) :
    meaning (ofMagnitude negative 0) = .finite negative 0 (-1074) :=
  (meaning_ofMagnitude negative (Nat.zero_le _)).trans rfl

/-! ## Values

The value of a double is a significand times a power of two, with a sign. Zero
is the one double whose significand is not in the range that the others keep
to, and `Parts` lets it in, so that what is said of doubles beside a number
needs no case for it. -/

/-- **The number that a finite double is.** -/
def value? (x : Float) : Option ℚ :=
  match meaning x with
  | .finite negative significand exponent => some (withSign negative (significand * 2 ^ exponent))
  | _ => none

/-- What is read off a finite double, zero or not. -/
def Parts (significand : Nat) (exponent : Int) : Prop :=
  significand = 0 ∧ exponent = -1074 ∨ Canonical significand exponent

theorem value?_eq_some {x : Float} {a : ℚ} (h : value? x = some a) :
    ∃ negative significand exponent, meaning x = .finite negative significand exponent ∧
      Parts significand exponent ∧ a = withSign negative (significand * 2 ^ exponent) := by
  unfold value? at h
  split at h
  · next negative significand exponent hmeaning =>
    exact ⟨negative, significand, exponent, hmeaning, (ofMagnitude_of_finite hmeaning).2,
      (Option.some.inj h).symm⟩
  · cases h

/-- A double that is put together from parts has their number. -/
theorem Parts.value?_ofMagnitude {significand : Nat} {exponent : Int}
    (h : Parts significand exponent) (negative : Bool) :
    value? (ofMagnitude negative (magnitudeBits significand exponent)) =
      some (withSign negative (significand * 2 ^ exponent)) := by
  obtain ⟨rfl, rfl⟩ | h := h
  · have hbits : magnitudeBits 0 (-1074) = 0 := rfl
    rw [value?, hbits, meaning_ofMagnitude_zero]
  · rw [value?, h.meaning_ofMagnitude]

theorem abs_value? {x : Float} {a : ℚ} (h : value? x = some a) :
    ∃ significand exponent, Parts significand exponent ∧ |a| = significand * 2 ^ exponent := by
  obtain ⟨negative, significand, exponent, -, hparts, rfl⟩ := value?_eq_some h
  exact ⟨significand, exponent, hparts, (abs_withSign _ _).trans (abs_of_nonneg (by positivity))⟩

/-- Parts have fewer bits than infinity. -/
theorem Parts.magnitudeBits_lt {significand : Nat} {exponent : Int}
    (h : Parts significand exponent) : magnitudeBits significand exponent < infinityBits := by
  obtain ⟨rfl, rfl⟩ | h := h
  · decide
  · exact h.magnitudeBits_lt

/-- A finite double has less than fifty-four bits before its unit. -/
theorem Parts.value_lt {significand : Nat} {exponent : Int} (h : Parts significand exponent) :
    (significand : ℚ) * 2 ^ exponent < 2 ^ (exponent + 53) := by
  have hunit : (0 : ℚ) < 2 ^ exponent := by positivity
  have hlt : (significand : ℚ) < 2 * leadingBit := by
    obtain ⟨rfl, -⟩ | h := h
    · norm_num [cast_leadingBit]
    · exact_mod_cast h.lt
  calc (significand : ℚ) * 2 ^ exponent < 2 * leadingBit * 2 ^ exponent := by gcongr
    _ = 2 ^ (exponent + 53) := two_mul_leadingBit_mul_two_zpow exponent

/-- Where an infinity is nearer than every double: half a unit beyond the
greatest of them. -/
def overflow : ℚ := (2 * leadingBit - 1 / 2) * 2 ^ (971 : Int)

/-- The limit lies in the last binade. -/
theorem overflow_bounds : (2 : ℚ) ^ (1023 : Int) < overflow ∧ overflow < 2 ^ (1024 : Int) := by
  have hunit : (0 : ℚ) < 2 ^ (971 : Int) := by positivity
  have hlow : (2 : ℚ) ^ (1023 : Int) = leadingBit * 2 ^ (971 : Int) := by
    rw [leadingBit_mul_two_zpow]
    norm_num
  have hhigh : (2 : ℚ) ^ (1024 : Int) = 2 * leadingBit * 2 ^ (971 : Int) := by
    rw [two_mul_leadingBit_mul_two_zpow]
    norm_num
  rw [overflow, hlow, hhigh]
  constructor
  · gcongr
    norm_num [cast_leadingBit]
  · gcongr
    linarith

/-- **The double nearest to a number.** -/
structure IsNearest (x : Float) (v : ℚ) : Prop where
  /-- It is a number or an infinity. -/
  number : meaning x ≠ .nan
  /-- It is an infinity exactly beyond the finite range. -/
  infinite : ∀ negative, meaning x = .infinite negative ↔ overflow ≤ withSign negative v
  /-- No finite double is nearer. -/
  least : ∀ a, value? x = some a → ∀ y b, value? y = some b → |a - v| ≤ |b - v|
  /-- Of two that are equally near it is the even one. -/
  even : ∀ a, value? x = some a → ∀ y b, value? y = some b → b ≠ a → |a - v| = |b - v| →
    x.toBits.toNat % 2 = 0

/-! ## The grid

A number has one grid, that of its binade, and the rounding knows only this
one. But a double that competes with the point that was chosen may be on any
grid. If its grid is coarser, its points are points of the finer one as well
(`exists_point`). If it is finer, the double is below the binade of the number
(`below_of_finer`), and the first point of the binade, which is on the grid, is
nearer. So the comparison is only ever made between points of one grid, which
are a whole number of units apart (`le_abs_sub_point`). -/

/-- **A number on the grid of its binade**: `k` units of `2 ^ q` are the grid
point nearest to it. -/
structure OnGrid (v : ℚ) (k : Nat) (q : Int) : Prop where
  /-- The point is half a unit above the number at most. -/
  low : ((k : ℚ) - 1 / 2) * 2 ^ q ≤ v
  /-- It is half a unit below it at most. -/
  high : v ≤ (k + 1 / 2) * 2 ^ q
  /-- An odd point is nearer than half a unit. -/
  odd : k % 2 = 1 → ((k : ℚ) - 1 / 2) * 2 ^ q < v ∧ v < (k + 1 / 2) * 2 ^ q
  /-- The unit of the smallest doubles. -/
  least : -1074 ≤ q
  /-- The number has no more than fifty-three bits before the unit. -/
  binade : v < 2 ^ (q + 53)
  /-- It has no fewer above the smallest unit. -/
  normal : q = -1074 ∨ 2 ^ (q + 52) ≤ v

namespace OnGrid

variable {v : ℚ} {k : Nat} {q : Int}

/-- The point is no more than half a unit away, and less if it is odd. -/
theorem abs_sub_le_half (h : OnGrid v k q) :
    |k * 2 ^ q - v| ≤ 1 / 2 * 2 ^ q ∧ (k % 2 = 1 → |k * 2 ^ q - v| < 1 / 2 * 2 ^ q) := by
  constructor
  · rw [abs_sub_le_iff]
    constructor <;> linarith only [h.low, h.high]
  · intro hk
    obtain ⟨hlow, hhigh⟩ := h.odd hk
    rw [abs_sub_lt_iff]
    constructor <;> linarith only [hlow, hhigh]

/-- **No point of the grid is nearer**, and an odd one is nearer than every
other. -/
theorem le_abs_sub_point (h : OnGrid v k q) (j : Int) :
    |k * 2 ^ q - v| ≤ |(j : ℚ) * 2 ^ q - v| ∧
      (j ≠ k → |k * 2 ^ q - v| = |j * 2 ^ q - v| → k % 2 = 0) := by
  have hunit : (0 : ℚ) < 2 ^ q := by positivity
  by_cases hj : j = k
  · subst hj
    exact ⟨le_rfl, fun hne => absurd rfl hne⟩
  -- another point is a whole unit away from this one, so half a unit from the number
  have hhalf : 1 / 2 * 2 ^ q ≤ |(j : ℚ) * 2 ^ q - v| := by
    have hstep : (1 : ℚ) ≤ |(j : ℚ) - k| := by
      exact_mod_cast Int.one_le_abs (sub_ne_zero.mpr hj)
    have hapart : 1 * (2 : ℚ) ^ q ≤ |(j : ℚ) * 2 ^ q - k * 2 ^ q| := by
      rw [← sub_mul, abs_mul, abs_of_pos hunit]
      gcongr
    have htriangle := abs_sub_le ((j : ℚ) * 2 ^ q) v (k * 2 ^ q)
    rw [abs_sub_comm v] at htriangle
    linarith only [hapart, htriangle, h.abs_sub_le_half.1]
  refine ⟨h.abs_sub_le_half.1.trans hhalf, fun _ heq => ?_⟩
  by_contra hodd
  have hnear := h.abs_sub_le_half.2 (by omega)
  linarith only [hnear, hhalf, heq]

/-- The point lies in the binade or at its end. -/
theorem point_bounds (h : OnGrid v k q) :
    k ≤ 2 * leadingBit ∧ (q = -1074 ∨ leadingBit ≤ k) := by
  have hunit : (0 : ℚ) < 2 ^ q := by positivity
  constructor
  · have hlt : ((k : ℚ) - 1 / 2) * 2 ^ q < 2 * leadingBit * 2 ^ q :=
      h.low.trans_lt (two_mul_leadingBit_mul_two_zpow q ▸ h.binade)
    have hk : (k : ℚ) < 2 * leadingBit + 1 := by
      linarith only [lt_of_mul_lt_mul_right hlt hunit.le]
    exact Nat.lt_succ_iff.mp (by exact_mod_cast hk)
  · refine h.normal.imp_right fun hnormal => ?_
    have hle : (leadingBit : ℚ) * 2 ^ q ≤ (k + 1 / 2) * 2 ^ q :=
      (leadingBit_mul_two_zpow q ▸ hnormal).trans h.high
    have hk : (leadingBit : ℚ) < k + 1 := by
      linarith only [le_of_mul_le_mul_right hle hunit]
    exact Nat.lt_succ_iff.mp (by exact_mod_cast hk)

/-- A double of no finer grid is a point. -/
theorem exists_point {s : Nat} {e : Int} (h : q ≤ e) {b : ℚ} (hb : |b| = s * 2 ^ e) :
    ∃ j : Int, b = (j : ℚ) * 2 ^ q := by
  obtain ⟨n, hn⟩ := Int.eq_ofNat_of_zero_le (sub_nonneg.mpr h)
  have hpoint : (s : ℚ) * 2 ^ e = (s * 2 ^ n : ℕ) * 2 ^ q := by
    rw [← sub_add_cancel e q, hn, zpow_add₀ (by norm_num), zpow_natCast]
    push_cast
    ring
  rw [hpoint] at hb
  rcases eq_or_eq_neg_of_abs_eq hb with rfl | rfl
  · exact ⟨(s * 2 ^ n : ℕ), rfl⟩
  · exact ⟨-(s * 2 ^ n : ℕ), by push_cast; ring⟩

/-- **A double of a finer grid lies below the binade.** -/
theorem below_of_finer (h : OnGrid v k q) {s : Nat} {e : Int} (hparts : Parts s e) (he : e < q)
    {b : ℚ} (hb : |b| = s * 2 ^ e) : b < leadingBit * 2 ^ q ∧ (leadingBit : ℚ) * 2 ^ q ≤ v := by
  constructor
  · calc b ≤ |b| := le_abs_self b
      _ < 2 ^ (e + 53) := hb ▸ hparts.value_lt
      _ ≤ 2 ^ (q + 52) := zpow_le_zpow_right₀ (by norm_num) (by omega)
      _ = leadingBit * 2 ^ q := (leadingBit_mul_two_zpow q).symm
  · rw [leadingBit_mul_two_zpow]
    refine h.normal.resolve_left ?_
    obtain ⟨-, rfl⟩ | hparts := hparts
    · omega
    · have := hparts.least
      omega

/-- **No double is nearer than the point**, and none is equally near as an odd
one. -/
theorem le_abs_sub (h : OnGrid v k q) {s : Nat} {e : Int} (hparts : Parts s e) {b : ℚ}
    (hb : |b| = s * 2 ^ e) :
    |k * 2 ^ q - v| ≤ |b - v| ∧ (b ≠ k * 2 ^ q → |k * 2 ^ q - v| = |b - v| → k % 2 = 0) := by
  rcases le_or_gt q e with hle | hlt
  · obtain ⟨j, rfl⟩ := exists_point hle hb
    obtain ⟨hnear, heven⟩ := h.le_abs_sub_point j
    exact ⟨hnear, fun hne => heven fun hj => hne (by rw [hj, Int.cast_natCast])⟩
  · -- the first point of the binade stands between the double and the number
    obtain ⟨hbelow, hfirst⟩ := h.below_of_finer hparts hlt hb
    have hstrict : |k * 2 ^ q - v| < |b - v| := by
      calc |k * 2 ^ q - v| ≤ |leadingBit * 2 ^ q - v| := by
            exact_mod_cast (h.le_abs_sub_point leadingBit).1
        _ < |b - v| := by
          rw [abs_of_nonpos (by linarith only [hfirst]),
            abs_of_neg (by linarith only [hfirst, hbelow])]
          linarith only [hbelow]
    exact ⟨hstrict.le, fun _ heq => absurd heq hstrict.ne⟩

/-- **Below the limit the point is a double.** The end of the binade is the
first point of the next. -/
theorem exists_parts (h : OnGrid v k q) (hv : v < overflow) :
    ∃ s e, Parts s e ∧ magnitudeBits k q = magnitudeBits s e ∧ (k : ℚ) * 2 ^ q = s * 2 ^ e := by
  have hleast := h.least
  obtain ⟨hk, hnormal⟩ := h.point_bounds
  have hq : q ≤ 971 := by
    rcases h.normal with rfl | hle
    · omega
    · have := exponent_lt_of_two_zpow_lt ((hle.trans_lt hv).trans overflow_bounds.2)
      omega
  rcases Nat.lt_or_ge k (2 * leadingBit) with hlt | hge
  · refine ⟨k, q, ?_, rfl, rfl⟩
    rcases Nat.eq_zero_or_pos k with rfl | hpos
    · exact .inl ⟨rfl, hnormal.resolve_right (by decide)⟩
    · exact .inr ⟨hpos, hlt, hleast, hq, hnormal⟩
  · obtain rfl : k = 2 * leadingBit := Nat.le_antisymm hk hge
    have hq' : q ≠ 971 := by
      rintro rfl
      have hlow : overflow ≤ v := by simpa only [overflow, Nat.cast_mul, Nat.cast_ofNat] using h.low
      exact absurd hv hlow.not_gt
    refine ⟨leadingBit, q + 1, .inr ⟨by decide, by decide, by omega, by omega, .inr le_rfl⟩, ?_, ?_⟩
    · have hcarry : magnitudeBits (2 * leadingBit) (q + 1 - 1) = magnitudeBits leadingBit (q + 1) :=
        magnitudeBits_carry (by omega)
      rwa [add_sub_cancel_right] at hcarry
    · rw [two_zpow_succ]
      push_cast
      ring

/-- **From the limit on the point has the bits of infinity**, or more. -/
theorem infinityBits_le (h : OnGrid v k q) (hv : overflow ≤ v) :
    infinityBits ≤ magnitudeBits k q := by
  have hq : 971 ≤ q := by
    have := exponent_lt_of_two_zpow_lt ((overflow_bounds.1.trans_le hv).trans h.binade)
    omega
  have hnormal : leadingBit ≤ k := h.point_bounds.2.resolve_left (by omega)
  rw [infinityBits, magnitudeBits]
  rcases eq_or_lt_of_le hq with rfl | hlt
  · -- the greatest double is odd, so the tie at the limit goes to the next point
    have hk : 2 * leadingBit ≤ k := by
      have hunit : (0 : ℚ) < 2 ^ (971 : Int) := by positivity
      have hle := le_of_mul_le_mul_right (hv.trans h.high) hunit
      have hge : (2 * leadingBit : ℚ) < k + 2 := by linarith only [hle]
      have hge' : 2 * leadingBit < k + 2 := by exact_mod_cast hge
      by_contra hlt
      obtain hlast : k + 1 = 2 * leadingBit := by omega
      have hstrict := lt_of_mul_lt_mul_right (hv.trans_lt (h.odd (by omega)).2) hunit.le
      have hcast : (k : ℚ) + 1 = 2 * leadingBit := by exact_mod_cast hlast
      linarith only [hstrict, hcast]
    have hfield : ((971 : Int) + 1074).toNat = 2045 := rfl
    rw [hfield]
    omega
  · have hfield : 2046 * leadingBit ≤ (q + 1074).toNat * leadingBit :=
      Nat.mul_le_mul_right _ (by omega)
    omega

end OnGrid

/-- **From the limit on the nearest double is an infinity.** -/
theorem isNearest_infinity {v : ℚ} (h : overflow ≤ v) (negative : Bool) :
    IsNearest (ofMagnitude negative infinityBits) (withSign negative v) := by
  have hmeaning := meaning_ofMagnitude_infinityBits negative
  have hvalue : ∀ a, value? (ofMagnitude negative infinityBits) ≠ some a := by
    simp [value?, hmeaning]
  refine ⟨by simp [hmeaning], fun negative' => ?_, fun a ha => absurd ha (hvalue a),
    fun a ha => absurd ha (hvalue a)⟩
  rw [hmeaning, Meaning.infinite.injEq]
  rcases Bool.eq_or_eq_not negative' negative with rfl | rfl
  · simpa only [withSign_withSign, true_iff] using h
  · have hpos : (0 : ℚ) < overflow := lt_trans (by positivity) overflow_bounds.1
    refine iff_of_false (by simp) (not_le.mpr (lt_of_le_of_lt ?_ hpos))
    rw [withSign_not_withSign]
    linarith only [h, hpos]

/-! ## The rounding

What remains is that the bits are those of the point. They are computed from
integers, so that the quotient, its grid and the rounded quotient have to be
found in the shifts; `roundDiv_bounds` and `exists_onGrid` do this, and the
signs are put on at the end. -/

/-- The rounded quotient is no more than a half away, and less than a half if
it is odd. -/
theorem roundDiv_bounds (num : Nat) {den : Nat} (hden : 0 < den) :
    ((roundDiv num den : ℚ) - 1 / 2 ≤ num / den ∧ (num : ℚ) / den ≤ roundDiv num den + 1 / 2) ∧
      (roundDiv num den % 2 = 1 →
        (roundDiv num den : ℚ) - 1 / 2 < num / den ∧
          (num : ℚ) / den < roundDiv num den + 1 / 2) := by
  have hden' : (0 : ℚ) < den := by exact_mod_cast hden
  have hsplit : den * (num / den) + num % den = num := Nat.div_add_mod num den
  have hrest : num % den < den := Nat.mod_lt _ hden
  have hbounds : 2 * (roundDiv num den * den) ≤ 2 * num + den ∧
      2 * num ≤ 2 * (roundDiv num den * den) + den ∧
      (roundDiv num den % 2 = 1 → 2 * (roundDiv num den * den) < 2 * num + den ∧
        2 * num < 2 * (roundDiv num den * den) + den) := by
    simp only [roundDiv]
    rw [Nat.mul_comm] at hsplit
    generalize num / den = quotient at hsplit ⊢
    generalize num % den = rest at hsplit hrest ⊢
    split
    · omega
    · rw [Nat.add_mul]
      omega
  generalize roundDiv num den = k at hbounds ⊢
  rw [le_div_iff₀ hden', div_le_iff₀ hden', lt_div_iff₀ hden', div_lt_iff₀ hden']
  qify at hbounds
  obtain ⟨hlow, hhigh, hodd⟩ := hbounds
  refine ⟨⟨by linarith only [hlow], by linarith only [hhigh]⟩, fun hk => ?_⟩
  obtain ⟨hlow', hhigh'⟩ := hodd (by exact_mod_cast hk)
  exact ⟨by linarith only [hlow'], by linarith only [hhigh']⟩

/-- **The bits of a quotient are those of the point nearest to it**, as far as
they are not beyond infinity. -/
theorem exists_onGrid {num den : Nat} (hnum : 0 < num) (hden : 0 < den) :
    ∃ k q, OnGrid (num / den) k q ∧
      nearestBits num den = min (magnitudeBits k q) infinityBits := by
  obtain ⟨p, hlow, hhigh⟩ := exists_binade (v := (num : ℚ) / den) (by positivity)
  have hgrid := gridExponent_eq hnum hden hlow hhigh
  generalize hq : max (p - 52) (-1074) = q at hgrid
  have hunit : (0 : ℚ) < 2 ^ q := by positivity
  have hshifted : 0 < den <<< q.toNat :=
    Nat.shiftLeft_eq den _ ▸ Nat.mul_pos hden (Nat.two_pow_pos _)
  obtain ⟨⟨hl, hh⟩, hodd⟩ := roundDiv_bounds (num <<< (-q).toNat) hshifted
  simp only [shifted_quotient, le_div_iff₀ hunit, div_le_iff₀ hunit, lt_div_iff₀ hunit,
    div_lt_iff₀ hunit] at hl hh hodd
  refine ⟨_, q, ⟨hl, hh, hodd, by omega, ?_, ?_⟩, ?_⟩
  · exact hhigh.trans_le (zpow_le_zpow_right₀ (by norm_num) (by omega))
  · rcases eq_or_ne q (-1074) with h | h
    · exact .inl h
    · exact .inr (by rwa [show q + 52 = p by omega])
  · simp only [nearestBits, if_neg hnum.ne', hgrid, magnitudeBits]

/-- Signs leave the point as near as it is. -/
theorem OnGrid.le_abs_sub_withSign {v : ℚ} {k : Nat} {q : Int} (h : OnGrid v k q)
    (negative : Bool) {y : Float} {b : ℚ} (hb : value? y = some b) :
    |withSign negative (k * 2 ^ q) - withSign negative v| ≤ |b - withSign negative v| ∧
      (b ≠ withSign negative (k * 2 ^ q) →
        |withSign negative (k * 2 ^ q) - withSign negative v| = |b - withSign negative v| →
        k % 2 = 0) := by
  obtain ⟨s, e, hparts, hmagnitude⟩ := abs_value? hb
  obtain ⟨hnear, heven⟩ := h.le_abs_sub hparts ((abs_withSign negative b).trans hmagnitude)
  rw [← abs_withSign_sub, ← abs_withSign_sub, withSign_withSign]
  exact ⟨hnear, fun hne => heven fun heq => hne (heq ▸ (withSign_withSign _ _).symm)⟩

/-- **Below the limit the nearest double is a number.** -/
theorem OnGrid.isNearest_of_lt {v : ℚ} {k : Nat} {q : Int} (h : OnGrid v k q) (hv : 0 ≤ v)
    (hlt : v < overflow) (negative : Bool) :
    magnitudeBits k q ≤ infinityBits ∧
      IsNearest (ofMagnitude negative (magnitudeBits k q)) (withSign negative v) := by
  obtain ⟨s, e, hparts, hbits, hpoint⟩ := h.exists_parts hlt
  have hle : magnitudeBits k q ≤ infinityBits := by
    rw [hbits]
    exact hparts.magnitudeBits_lt.le
  have hvalue := hparts.value?_ofMagnitude negative
  rw [← hbits, ← hpoint] at hvalue
  obtain ⟨_, _, _, hmeaning, -⟩ := value?_eq_some hvalue
  refine ⟨hle, by simp [hmeaning], fun negative' => ?_, fun a ha y b hb => ?_,
    fun a ha y b hb hne heq => ?_⟩
  · rw [hmeaning]
    refine iff_of_false (by simp) (not_le.mpr (lt_of_le_of_lt (le_abs_self _) ?_))
    rwa [abs_withSign, abs_withSign, abs_of_nonneg hv]
  · obtain rfl := Option.some.inj (hvalue.symm.trans ha)
    exact (h.le_abs_sub_withSign negative hb).1
  · obtain rfl := Option.some.inj (hvalue.symm.trans ha)
    have hk := (h.le_abs_sub_withSign negative hb).2 hne heq
    rw [toNat_toBits_ofMagnitude negative hle, magnitudeBits]
    simp only [signBit, leadingBit, Nat.shiftLeft_eq, Nat.one_mul]
    split <;> omega

/-- **The point nearest to a number makes the double nearest to it.** -/
theorem OnGrid.isNearest {v : ℚ} {k : Nat} {q : Int} (h : OnGrid v k q) (hv : 0 ≤ v)
    (negative : Bool) :
    IsNearest (ofMagnitude negative (min (magnitudeBits k q) infinityBits))
      (withSign negative v) := by
  rcases lt_or_ge v overflow with hlt | hge
  · obtain ⟨hle, hnearest⟩ := h.isNearest_of_lt hv hlt negative
    rwa [min_eq_left hle]
  · rw [min_eq_right (h.infinityBits_le hge)]
    exact isNearest_infinity hge negative

/-- **Up to half the smallest double the nearest double is a zero.** -/
theorem isNearest_zero {v : ℚ} (hv : 0 ≤ v) (h : v ≤ 2 ^ (-1075 : Int)) (negative : Bool) :
    IsNearest (ofMagnitude negative 0) (withSign negative v) := by
  have hunit : (0 : ℚ) < 2 ^ (-1075 : Int) := by positivity
  have hhalf : (2 : ℚ) ^ (-1074 : Int) = 2 * 2 ^ (-1075 : Int) := by
    rw [← two_zpow_succ]
    norm_num
  have hgrid : OnGrid v 0 (-1074) := by
    refine ⟨?_, ?_, fun h => absurd h (by decide), le_rfl, ?_, .inl rfl⟩
    · rw [hhalf, Nat.cast_zero]
      linarith only [hv, hunit]
    · rw [hhalf, Nat.cast_zero]
      linarith only [h]
    · exact h.trans_lt (zpow_lt_zpow_right₀ (by norm_num) (by norm_num))
  exact hgrid.isNearest hv negative

/-- **The rounded quotient is the double nearest to it.** -/
theorem nearest_isNearest (negative : Bool) (num : Nat) {den : Nat} (hden : 0 < den) :
    IsNearest (nearest negative num den) (withSign negative (num / den)) := by
  rcases Nat.eq_zero_or_pos num with rfl | hnum
  · rw [nearest, nearestBits, if_pos rfl]
    exact isNearest_zero (by simp) (by simp) negative
  · obtain ⟨k, q, hgrid, hbits⟩ := exists_onGrid hnum hden
    rw [nearest, hbits]
    exact hgrid.isNearest (by positivity) negative

end Double

/-- **A numeral is read as the double nearest to its value.** -/
theorem Numeral.toDouble_isNearest (n : Numeral) :
    Double.IsNearest n.toDouble (withSign n.negative n.value) := by
  have hpos : 0 ≤ n.value := mul_nonneg (Nat.cast_nonneg _) (by positivity)
  by_cases hdigits : n.digits = 0
  · rw [toDouble_of_digits_eq_zero hdigits]
    refine Double.isNearest_zero hpos ?_ n.negative
    rw [value, hdigits, Nat.cast_zero, zero_mul]
    positivity
  obtain ⟨hlow, hhigh⟩ := value_bounds hdigits
  simp only [toDouble, hdigits, false_or]
  split
  · next hsmall =>
    refine Double.isNearest_zero hpos (hhigh.le.trans ?_) n.negative
    exact (zpow_le_zpow_right₀ (by norm_num) hsmall.le).trans ten_zpow_le_two_zpow
  · split
    · next hlarge =>
      refine Double.isNearest_infinity (Double.overflow_bounds.2.le.trans ?_) n.negative
      exact (two_zpow_le_ten_zpow.trans
        (zpow_le_zpow_right₀ (by norm_num) (by omega))).trans hlow
    · rw [value_eq_div]
      exact Double.nearest_isNearest n.negative _ (Nat.pow_pos (Nat.succ_pos 9))

end TypedSql
