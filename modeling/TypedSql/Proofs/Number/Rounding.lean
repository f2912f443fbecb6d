import TypedSql.Number.Shortest
import Mathlib.Algebra.Order.Archimedean.Basic
import Mathlib.Algebra.Order.Field.Basic
import Mathlib.Algebra.Order.Field.Power
import Mathlib.Data.Rat.Floor
import Mathlib.Tactic.FieldSimp
import Mathlib.Tactic.GCongr
import Mathlib.Tactic.Linarith
import Mathlib.Tactic.NormNum
import Mathlib.Tactic.Qify
import Mathlib.Tactic.Ring

/-!
# The numbers that round to a double

A `RoundingInterval` is given in quarter units of the last place of a double;
`RoundingInterval.Holds` says of a rational number that it lies in it. The
theorem of this module, `Double.nearestBits_eq`, is what the interval is for:
every quotient that lies in the interval of a double is rounded to the bits
of that double, whether it is written with small numbers or large ones.

Rounding goes in two steps. `gridExponent` finds the grid of doubles around
the quotient, and `roundDiv` the nearest point of that grid. The grid is the
double's own except where the double is a power of two and the quotient lies
below it: there the grid is twice as fine, and the double is the first point
beyond its end.
-/

namespace TypedSql

/-! ## Quotients and powers of two -/

theorem two_zpow_eq_div (q : Int) :
    (2 : ℚ) ^ q = (2 ^ q.toNat : ℕ) / (2 ^ (-q).toNat : ℕ) := by
  rcases Int.eq_nat_or_neg q with ⟨n, rfl | rfl⟩
  · simp
  · simp

/-- Shifting the numerator or the denominator scales the quotient. -/
theorem shifted_quotient (num den : Nat) (q : Int) :
    ((num <<< (-q).toNat : ℕ) : ℚ) / (den <<< q.toNat : ℕ) = num / den / 2 ^ q := by
  rw [two_zpow_eq_div, Nat.shiftLeft_eq, Nat.shiftLeft_eq]
  push_cast
  field_simp

theorem exponent_lt_of_two_zpow_lt {p q : Int} (h : (2 : ℚ) ^ p < 2 ^ q) : p < q :=
  (zpow_lt_zpow_iff_right₀ (by norm_num)).mp h

theorem two_zpow_succ (q : Int) : (2 : ℚ) ^ (q + 1) = 2 * 2 ^ q := by
  rw [zpow_add_one₀ (by norm_num)]
  ring

theorem cast_leadingBit : (Double.leadingBit : ℚ) = 2 ^ (52 : Int) := by
  norm_num [Double.leadingBit, Nat.shiftLeft_eq]

theorem leadingBit_mul_two_zpow (q : Int) :
    (Double.leadingBit : ℚ) * 2 ^ q = 2 ^ (q + 52) := by
  rw [cast_leadingBit, ← zpow_add₀ (by norm_num), add_comm]

theorem two_mul_leadingBit_mul_two_zpow (q : Int) :
    2 * (Double.leadingBit : ℚ) * 2 ^ q = 2 ^ (q + 53) := by
  rw [mul_assoc, leadingBit_mul_two_zpow, ← two_zpow_succ, add_assoc]
  norm_num

/-! ## The interval of a double

The interval is given by natural numbers, and the ends are brought into the
form that the arithmetic needs: half a unit up, and half a unit down, save
below a power of two, where the doubles are twice as dense and the interval
reaches down a quarter of a unit only. `lower_le` and `le_lower` bound the
lower end where it does not matter which of the two it is. -/

/-- **The numbers of an interval**: those between its ends, and the ends
themselves when they count. -/
def RoundingInterval.Holds (r : RoundingInterval) (v : ℚ) : Prop :=
  if r.inclusive then r.lower * 2 ^ r.quarter ≤ v ∧ v ≤ r.upper * 2 ^ r.quarter
  else r.lower * 2 ^ r.quarter < v ∧ v < r.upper * 2 ^ r.quarter

namespace RoundingInterval

theorem Holds.lower_le {r : RoundingInterval} {v : ℚ} (h : r.Holds v) :
    r.lower * 2 ^ r.quarter ≤ v := by
  unfold Holds at h
  split at h
  · exact h.1
  · exact h.1.le

theorem Holds.le_upper {r : RoundingInterval} {v : ℚ} (h : r.Holds v) :
    v ≤ r.upper * 2 ^ r.quarter := by
  unfold Holds at h
  split at h
  · exact h.2
  · exact h.2.le

/-- A number strictly between the ends of an interval is in it. -/
theorem holds_of_lt {r : RoundingInterval} {v : ℚ} (hlow : r.lower * 2 ^ r.quarter < v)
    (hhigh : v < r.upper * 2 ^ r.quarter) : r.Holds v := by
  unfold Holds
  split
  · exact ⟨hlow.le, hhigh.le⟩
  · exact ⟨hlow, hhigh⟩

end RoundingInterval

namespace Double

/-- **A significand and an exponent as a double holds them**: at most
fifty-three bits, and exactly as many unless the exponent is the least. -/
structure Canonical (significand : Nat) (exponent : Int) : Prop where
  /-- Zero is not meant. -/
  pos : 0 < significand
  /-- No more than fifty-three bits. -/
  lt : significand < 2 * leadingBit
  /-- The exponent of the smallest doubles. -/
  least : -1074 ≤ exponent
  /-- The exponent of the greatest. -/
  greatest : exponent ≤ 971
  /-- No fewer than fifty-three bits above the smallest exponent. -/
  normal : exponent = -1074 ∨ leadingBit ≤ significand

/-- The bits of a positive double below its sign. -/
def magnitudeBits (significand : Nat) (exponent : Int) : Nat :=
  (exponent + 1074).toNat * leadingBit + significand

theorem Canonical.magnitudeBits_lt {significand : Nat} {exponent : Int}
    (h : Canonical significand exponent) : magnitudeBits significand exponent < infinityBits := by
  have hlt := h.lt
  have hfield : (exponent + 1074).toNat ≤ 2045 := by have := h.greatest; omega
  have hmul : (exponent + 1074).toNat * leadingBit ≤ 2045 * leadingBit :=
    Nat.mul_le_mul_right _ hfield
  unfold magnitudeBits infinityBits
  omega

section Ends

variable {significand : Nat} {exponent : Int} {v : ℚ}

/-- A quarter unit of the last place. -/
theorem two_zpow_quarter (exponent : Int) : (2 : ℚ) ^ (exponent - 2) = 2 ^ exponent / 4 := by
  rw [zpow_sub₀ (by norm_num)]
  norm_num

/-- The interval of a double reaches half a unit upwards. -/
theorem upper_eq (significand : Nat) (exponent : Int) :
    ((RoundingInterval.ofFinite significand exponent).upper : ℚ) *
      2 ^ (RoundingInterval.ofFinite significand exponent).quarter
      = (significand + 1 / 2) * 2 ^ exponent := by
  simp only [RoundingInterval.ofFinite, two_zpow_quarter]
  push_cast
  ring

/-- It reaches half a unit downwards as well, in general. -/
theorem lower_eq (hpos : 0 < significand)
    (h : ¬ (significand = leadingBit ∧ -1074 < exponent)) :
    ((RoundingInterval.ofFinite significand exponent).lower : ℚ) *
      2 ^ (RoundingInterval.ofFinite significand exponent).quarter
      = (significand - 1 / 2) * 2 ^ exponent := by
  simp only [RoundingInterval.ofFinite, two_zpow_quarter, if_neg h]
  rw [Nat.cast_sub (by omega)]
  push_cast
  ring

/-- Below a power of two it reaches down a quarter of a unit only. -/
theorem lower_eq_leadingBit (h : -1074 < exponent) :
    ((RoundingInterval.ofFinite leadingBit exponent).lower : ℚ) *
      2 ^ (RoundingInterval.ofFinite leadingBit exponent).quarter
      = (leadingBit - 1 / 4) * 2 ^ exponent := by
  simp only [RoundingInterval.ofFinite, two_zpow_quarter, h, and_self, if_true]
  rw [Nat.cast_sub (by simp [leadingBit])]
  push_cast
  ring

/-- A quarter of a unit is the least that it reaches down. -/
theorem lower_le (hpos : 0 < significand) :
    ((RoundingInterval.ofFinite significand exponent).lower : ℚ) *
      2 ^ (RoundingInterval.ofFinite significand exponent).quarter
      ≤ (significand - 1 / 4) * 2 ^ exponent := by
  have hunit : (0 : ℚ) < 2 ^ exponent := by positivity
  by_cases h : significand = leadingBit ∧ -1074 < exponent
  · rw [h.1, lower_eq_leadingBit h.2]
  · rw [lower_eq hpos h]
    gcongr
    norm_num

/-- Half a unit is the most. -/
theorem le_lower (hpos : 0 < significand) :
    ((significand : ℚ) - 1 / 2) * 2 ^ exponent ≤
    (RoundingInterval.ofFinite significand exponent).lower *
      2 ^ (RoundingInterval.ofFinite significand exponent).quarter := by
  have hunit : (0 : ℚ) < 2 ^ exponent := by positivity
  by_cases h : significand = leadingBit ∧ -1074 < exponent
  · rw [h.1, lower_eq_leadingBit h.2]
    gcongr
    norm_num
  · rw [lower_eq hpos h]

end Ends

/-! ## The nearest integer -/

/-- The rounded quotient is the integer that is no more than a half away, an
even one when it is just a half. -/
theorem roundDiv_eq {num den k : Nat} (hden : 0 < den) (hlow : (k : ℚ) - 1 / 2 ≤ num / den)
    (hhigh : (num : ℚ) / den ≤ k + 1 / 2)
    (hodd : k % 2 = 1 → (k : ℚ) - 1 / 2 < num / den ∧ (num : ℚ) / den < k + 1 / 2) :
    roundDiv num den = k := by
  have hden' : (0 : ℚ) < den := by exact_mod_cast hden
  have hlow' : 2 * (k * den) ≤ 2 * num + den := by
    rw [le_div_iff₀ hden'] at hlow
    qify
    linarith
  have hhigh' : 2 * num ≤ 2 * (k * den) + den := by
    rw [div_le_iff₀ hden'] at hhigh
    qify
    linarith
  have hodd' : k % 2 = 1 → 2 * (k * den) < 2 * num + den ∧ 2 * num < 2 * (k * den) + den := by
    intro hk
    obtain ⟨h₁, h₂⟩ := hodd hk
    rw [lt_div_iff₀ hden'] at h₁
    rw [div_lt_iff₀ hden'] at h₂
    qify
    constructor <;> linarith
  have hsplit : den * (num / den) + num % den = num := Nat.div_add_mod num den
  have hrest : num % den < den := Nat.mod_lt _ hden
  simp only [roundDiv]
  generalize num / den = quotient at hsplit ⊢
  generalize num % den = rest at hsplit hrest ⊢
  rw [Nat.mul_comm] at hsplit
  -- only the two neighbours of the quotient come into question
  have hge : quotient ≤ k := by
    by_contra hlt
    have hmul : (k + 1) * den ≤ quotient * den := Nat.mul_le_mul_right _ (by omega)
    rw [Nat.add_mul] at hmul
    omega
  have hle : k ≤ quotient + 1 := by
    by_contra hgt
    have hmul : (quotient + 2) * den ≤ k * den := Nat.mul_le_mul_right _ (by omega)
    rw [Nat.add_mul] at hmul
    omega
  rcases Nat.eq_or_lt_of_le hge with rfl | hlt
  · rw [if_pos (by omega)]
  · obtain rfl : k = quotient + 1 := by omega
    rw [Nat.add_mul] at hlow' hodd'
    rw [if_neg (by omega)]

/-! ## The grid around a quotient

The exponent is estimated from the lengths of numerator and denominator and
then put right by one comparison. Whatever the estimate is, the grid that comes
out is that of the binade in which the quotient lies (`gridExponent_eq`); how
it was found is not needed behind this lemma. -/

/-- The logarithm of a number names its binade. -/
theorem log2_bounds {n : Nat} (h : 0 < n) :
    (2 : ℚ) ^ (Nat.log2 n : Int) ≤ n ∧ (n : ℚ) < 2 ^ ((Nat.log2 n : Int) + 1) := by
  constructor
  · rw [zpow_natCast]
    exact_mod_cast Nat.log2_self_le h.ne'
  · rw [← Nat.cast_add_one, zpow_natCast]
    exact_mod_cast Nat.lt_log2_self

/-- The binade of a quotient, estimated from the logarithms, is off by one at
most. -/
theorem estimate_bounds {num den : Nat} (hnum : 0 < num) (hden : 0 < den) {estimate : Int}
    (hest : (Nat.log2 num : Int) - (Nat.log2 den : Int) = estimate) :
    (2 : ℚ) ^ (estimate - 1) < num / den ∧ (num : ℚ) / den < 2 ^ (estimate + 1) := by
  have hden' : (0 : ℚ) < den := by exact_mod_cast hden
  obtain ⟨hn₁, hn₂⟩ := log2_bounds hnum
  obtain ⟨hd₁, hd₂⟩ := log2_bounds hden
  constructor
  · rw [lt_div_iff₀ hden']
    calc (2 : ℚ) ^ (estimate - 1) * den
        < 2 ^ (estimate - 1) * 2 ^ ((Nat.log2 den : Int) + 1) := by gcongr
      _ = 2 ^ (Nat.log2 num : Int) := by
        rw [← zpow_add₀ (by norm_num)]
        congr 1
        omega
      _ ≤ num := hn₁
  · rw [div_lt_iff₀ hden']
    calc (num : ℚ) < 2 ^ ((Nat.log2 num : Int) + 1) := hn₂
      _ = 2 ^ (estimate + 1) * 2 ^ (Nat.log2 den : Int) := by
        rw [← zpow_add₀ (by norm_num)]
        congr 1
        omega
      _ ≤ 2 ^ (estimate + 1) * den := by gcongr

/-- The grid is the one of the binade that the quotient lies in. -/
theorem gridExponent_eq {num den : Nat} (hnum : 0 < num) (hden : 0 < den) {p : Int}
    (hlow : (2 : ℚ) ^ p ≤ num / den) (hhigh : (num : ℚ) / den < 2 ^ (p + 1)) :
    gridExponent num den = max (p - 52) (-1074) := by
  simp only [gridExponent]
  generalize hest : (Nat.log2 num : Int) - (Nat.log2 den : Int) = estimate
  obtain ⟨hbelow, habove⟩ := estimate_bounds hnum hden hest
  -- the comparison tells which of the two binades it is
  have htest : den <<< estimate.toNat ≤ num <<< (-estimate).toNat ↔
      (2 : ℚ) ^ estimate ≤ num / den := by
    have hshift : (0 : ℚ) < (den <<< estimate.toNat : ℕ) := by
      exact_mod_cast Nat.shiftLeft_eq den _ ▸ Nat.mul_pos hden (Nat.two_pow_pos _)
    rw [← Nat.cast_le (α := ℚ), ← one_le_div hshift, shifted_quotient,
      one_le_div (by positivity)]
  have hpower : (if den <<< estimate.toNat ≤ num <<< (-estimate).toNat then estimate
      else estimate - 1) = p := by
    split
    · next h =>
      have h₁ := exponent_lt_of_two_zpow_lt (hlow.trans_lt habove)
      have h₂ := exponent_lt_of_two_zpow_lt ((htest.mp h).trans_lt hhigh)
      omega
    · next h =>
      rw [htest, not_le] at h
      have h₁ := exponent_lt_of_two_zpow_lt (hlow.trans_lt h)
      have h₂ := exponent_lt_of_two_zpow_lt (hbelow.trans hhigh)
      omega
  rw [hpower]

/-- The bits of a quotient, from its grid and the point nearest on it. -/
theorem nearestBits_of_grid {num den k : Nat} {q : Int} (hnum : 0 < num) (hden : 0 < den)
    (hgrid : gridExponent num den = q) (hlow : ((k : ℚ) - 1 / 2) * 2 ^ q ≤ num / den)
    (hhigh : (num : ℚ) / den ≤ (k + 1 / 2) * 2 ^ q)
    (hodd : k % 2 = 1 → ((k : ℚ) - 1 / 2) * 2 ^ q < num / den ∧
      (num : ℚ) / den < (k + 1 / 2) * 2 ^ q) :
    nearestBits num den = min (magnitudeBits k q) infinityBits := by
  have hunit : (0 : ℚ) < 2 ^ q := by positivity
  have hround : roundDiv (num <<< (-q).toNat) (den <<< q.toNat) = k := by
    refine roundDiv_eq (Nat.shiftLeft_eq den _ ▸ Nat.mul_pos hden (Nat.two_pow_pos _)) ?_ ?_ ?_
    · rwa [shifted_quotient, le_div_iff₀ hunit]
    · rwa [shifted_quotient, div_le_iff₀ hunit]
    · intro hk
      rw [shifted_quotient, lt_div_iff₀ hunit, div_lt_iff₀ hunit]
      exact hodd hk
  simp only [nearestBits, if_neg hnum.ne', hgrid, hround, magnitudeBits]

/-! ## What rounds to a double

A number in the interval of a double lies in the double's own binade, or just
below it if the double is the first one of its binade (`eq_leadingBit_of_lt`).
In the first case the double is the nearest point of the grid. In the second
the grid is that of the binade below, and what is nearest on it is the point
behind its last one, whose bits are those of the power of two by carrying
(`magnitudeBits_carry`). -/

/-- A number in the interval of an odd significand is not one of its ends. -/
theorem strict_of_odd {significand : Nat} {exponent : Int} {v : ℚ} (hpos : 0 < significand)
    (h : (RoundingInterval.ofFinite significand exponent).Holds v) (hodd : significand % 2 = 1) :
    ((significand : ℚ) - 1 / 2) * 2 ^ exponent < v ∧ v < (significand + 1 / 2) * 2 ^ exponent := by
  have hinclusive : (RoundingInterval.ofFinite significand exponent).inclusive = false := by
    simp [RoundingInterval.ofFinite, hodd]
  rw [RoundingInterval.Holds, hinclusive, if_neg Bool.false_ne_true, upper_eq] at h
  exact ⟨(le_lower hpos).trans_lt h.1, h.2⟩

/-- The interval of a double ends before the next power of two. -/
theorem Canonical.lt_of_holds {significand : Nat} {exponent : Int} {v : ℚ}
    (h : Canonical significand exponent)
    (hv : (RoundingInterval.ofFinite significand exponent).Holds v) :
    v < 2 ^ (exponent + 53) := by
  have hunit : (0 : ℚ) < 2 ^ exponent := by positivity
  have hsignificand : (significand : ℚ) + 1 ≤ 2 * leadingBit := by exact_mod_cast h.lt
  calc v ≤ (significand + 1 / 2) * 2 ^ exponent := upper_eq significand exponent ▸ hv.le_upper
    _ < 2 * leadingBit * 2 ^ exponent := by
      gcongr
      linarith
    _ = 2 ^ (exponent + 53) := two_mul_leadingBit_mul_two_zpow exponent

theorem Canonical.pos_of_holds {significand : Nat} {exponent : Int} {v : ℚ}
    (h : Canonical significand exponent)
    (hv : (RoundingInterval.ofFinite significand exponent).Holds v) : 0 < v := by
  have hunit : (0 : ℚ) < 2 ^ exponent := by positivity
  have hsignificand : (1 : ℚ) ≤ significand := by exact_mod_cast h.pos
  calc (0 : ℚ) < (significand - 1 / 2) * 2 ^ exponent := mul_pos (by linarith) hunit
    _ ≤ v := (le_lower h.pos).trans hv.lower_le

/-- No interval comes nearer to zero than half the smallest double. -/
theorem Canonical.two_zpow_le_of_holds {significand : Nat} {exponent : Int} {v : ℚ}
    (h : Canonical significand exponent)
    (hv : (RoundingInterval.ofFinite significand exponent).Holds v) :
    (2 : ℚ) ^ (-1075 : Int) ≤ v := by
  have hleast : (2 : ℚ) ^ (-1074 : Int) ≤ 2 ^ exponent := zpow_le_zpow_right₀ (by norm_num) h.least
  have hhalf : (2 : ℚ) ^ (-1074 : Int) = 2 * 2 ^ (-1075 : Int) := by
    rw [← two_zpow_succ]
    norm_num
  have hsignificand : (1 : ℚ) ≤ significand := by exact_mod_cast h.pos
  calc (2 : ℚ) ^ (-1075 : Int) = 1 / 2 * 2 ^ (-1074 : Int) := by
        rw [hhalf]
        ring
    _ ≤ (significand - 1 / 2) * 2 ^ exponent :=
      mul_le_mul (by linarith) hleast (by positivity) (by linarith)
    _ ≤ v := (le_lower h.pos).trans hv.lower_le

/-- No interval goes beyond the finite range. -/
theorem Canonical.lt_two_zpow_of_holds {significand : Nat} {exponent : Int} {v : ℚ}
    (h : Canonical significand exponent)
    (hv : (RoundingInterval.ofFinite significand exponent).Holds v) :
    v < 2 ^ (1024 : Int) :=
  (h.lt_of_holds hv).trans_le
    (zpow_le_zpow_right₀ (by norm_num) (by have := h.greatest; omega))

/-- A number of the interval that lies below the binade of its double lies
below the least significand of that binade. -/
theorem Canonical.eq_leadingBit_of_lt {significand : Nat} {exponent : Int} {v : ℚ}
    (h : Canonical significand exponent)
    (hv : (RoundingInterval.ofFinite significand exponent).Holds v)
    (hexponent : -1074 < exponent) (hlt : v < 2 ^ (exponent + 52)) :
    significand = leadingBit := by
  have hunit : (0 : ℚ) < 2 ^ exponent := by positivity
  have hbit : leadingBit ≤ significand := h.normal.resolve_left (by omega)
  by_contra hne
  have hsucc : (leadingBit : ℚ) + 1 ≤ significand := by
    exact_mod_cast (show leadingBit + 1 ≤ significand by omega)
  have habove : (2 : ℚ) ^ (exponent + 52) < v := by
    calc (2 : ℚ) ^ (exponent + 52) = leadingBit * 2 ^ exponent :=
          (leadingBit_mul_two_zpow exponent).symm
      _ < (significand - 1 / 2) * 2 ^ exponent := by
        gcongr
        linarith
      _ ≤ v := (le_lower h.pos).trans hv.lower_le
  exact absurd habove hlt.not_gt

/-- A positive number lies in the binade of some power of two. -/
theorem exists_binade {v : ℚ} (h : 0 < v) : ∃ p : Int, (2 : ℚ) ^ p ≤ v ∧ v < 2 ^ (p + 1) :=
  exists_mem_Ico_zpow h (by norm_num)

/-- The bits of a power of two, as the point beyond the end of the grid of the
binade below. -/
theorem magnitudeBits_carry {exponent : Int} (h : -1074 < exponent) :
    magnitudeBits (2 * leadingBit) (exponent - 1) = magnitudeBits leadingBit exponent := by
  unfold magnitudeBits
  have hfield : (exponent + 1074).toNat = (exponent - 1 + 1074).toNat + 1 := by omega
  rw [hfield, Nat.add_mul]
  omega

/-- What lies in the interval of a power of two and below it rounds to it. The
grid there is twice as fine. -/
theorem nearestBits_of_lt_binade {exponent : Int} (h : Canonical leadingBit exponent)
    {num den : Nat} (hnum : 0 < num) (hden : 0 < den)
    (hv : (RoundingInterval.ofFinite leadingBit exponent).Holds (num / den))
    (hexponent : -1074 < exponent) (hlt : (num : ℚ) / den < 2 ^ (exponent + 52)) :
    nearestBits num den = magnitudeBits leadingBit exponent := by
  have hlow := hv.lower_le
  rw [lower_eq_leadingBit hexponent] at hlow
  have hunit : (0 : ℚ) < 2 ^ (exponent - 1) := by positivity
  have hhalf : (2 : ℚ) ^ exponent = 2 * 2 ^ (exponent - 1) := by
    rw [← two_zpow_succ, sub_add_cancel]
  obtain ⟨p, hp₁, hp₂⟩ := exists_binade (h.pos_of_holds hv)
  have hgrid := gridExponent_eq hnum hden hp₁ hp₂
  have hq : max (p - 52) (-1074) = exponent - 1 := by
    have h₁ := exponent_lt_of_two_zpow_lt (hp₁.trans_lt hlt)
    -- the interval does not reach farther down than the binade below
    have h₂ : (2 : ℚ) ^ (exponent + 51) < num / den := by
      calc (2 : ℚ) ^ (exponent + 51) = leadingBit * 2 ^ (exponent - 1) := by
            rw [leadingBit_mul_two_zpow]
            congr 1
            omega
        _ < (leadingBit - 1 / 4) * 2 ^ exponent := by
          rw [hhalf, ← mul_assoc]
          gcongr
          norm_num [cast_leadingBit]
        _ ≤ num / den := hlow
    have h₃ := exponent_lt_of_two_zpow_lt (h₂.trans hp₂)
    omega
  rw [hq] at hgrid
  have hhigh : (num : ℚ) / den < 2 * leadingBit * 2 ^ (exponent - 1) := by
    calc (num : ℚ) / den < 2 ^ (exponent + 52) := hlt
      _ = 2 * leadingBit * 2 ^ (exponent - 1) := by
        rw [← leadingBit_mul_two_zpow, hhalf]
        ring
  rw [nearestBits_of_grid (k := 2 * leadingBit) hnum hden hgrid ?_ ?_ (by omega),
    magnitudeBits_carry hexponent]
  · exact min_eq_left h.magnitudeBits_lt.le
  · refine le_trans (le_of_eq ?_) hlow
    rw [hhalf]
    push_cast
    ring
  · refine hhigh.le.trans ?_
    gcongr
    push_cast
    linarith

/-- **What lies in the interval of a double rounds to it.** -/
theorem nearestBits_eq {significand : Nat} {exponent : Int} (h : Canonical significand exponent)
    {num den : Nat} (hden : 0 < den)
    (hv : (RoundingInterval.ofFinite significand exponent).Holds (num / den)) :
    nearestBits num den = magnitudeBits significand exponent := by
  have hpos := h.pos_of_holds hv
  have hnum : 0 < num := by
    refine Nat.pos_of_ne_zero fun hzero => ?_
    simp [hzero] at hpos
  by_cases hbinade : exponent = -1074 ∨ (2 : ℚ) ^ (exponent + 52) ≤ num / den
  · -- the grid is the double's own
    obtain ⟨p, hp₁, hp₂⟩ := exists_binade hpos
    have hp := exponent_lt_of_two_zpow_lt (hp₁.trans_lt (h.lt_of_holds hv))
    have hq : max (p - 52) (-1074) = exponent := by
      rcases hbinade with rfl | hle
      · omega
      · have hp' := exponent_lt_of_two_zpow_lt (hle.trans_lt hp₂)
        have := h.least
        omega
    have hgrid : gridExponent num den = exponent := hq ▸ gridExponent_eq hnum hden hp₁ hp₂
    rw [nearestBits_of_grid hnum hden hgrid ((le_lower h.pos).trans hv.lower_le)
      (upper_eq significand exponent ▸ hv.le_upper) (strict_of_odd h.pos hv)]
    exact min_eq_left h.magnitudeBits_lt.le
  · rw [not_or, not_le] at hbinade
    have hexponent : -1074 < exponent := by have := h.least; omega
    obtain rfl := h.eq_leadingBit_of_lt hv hexponent hbinade.2
    exact nearestBits_of_lt_binade h hnum hden hv hexponent hbinade.2

end Double

end TypedSql
