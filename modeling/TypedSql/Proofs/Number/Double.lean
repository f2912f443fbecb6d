import TypedSql.Proofs.Number.Numeral
import Mathlib

/-!
# The text of a double is read as the double

`Double.meaning` takes a double apart, and `Double.ofMagnitude` puts it
together again (`Double.ofMagnitude_of_finite`, `Double.ofMagnitude_of_infinite`).
Between the two lies the text: the shortest decimal of a finite double is
read as a numeral whose value lies in the interval of the double, and such a
numeral is rounded back to it. Infinities are written as a numeral beyond all
doubles, and zero keeps its sign. So a column of doubles stores every double
as it was (`Cell.store_encodeReal`), and only what is no number is left out.
-/

namespace TypedSql

namespace Double

/-! ## A double and its parts

What is known of the bits of a double is that they are what was put in, unless
the double is no number, which has one form only (`toBits_ofBits`). Everything
behind this lemma is arithmetic with quotients and remainders by `leadingBit`:
the exponent field is the quotient, the fraction the remainder, and a double
below the first binade has no bit in front of its fraction. -/

/-- The bits of a double are its sign, its exponent field and its
fraction. -/
theorem bits_eq {bits : Nat} (h : bits < 2 ^ 64) :
    (if decide (signBit ≤ bits) = true then
      signBit + (bits / leadingBit % 2048 * leadingBit + bits % leadingBit)
    else bits / leadingBit % 2048 * leadingBit + bits % leadingBit) = bits := by
  simp only [signBit, leadingBit, Nat.shiftLeft_eq, Nat.one_mul, decide_eq_true_eq]
  split <;> omega

theorem ofMagnitude_bits (x : Float) :
    ofMagnitude (decide (signBit ≤ x.toBits.toNat))
      (x.toBits.toNat / leadingBit % 2048 * leadingBit + x.toBits.toNat % leadingBit) = x := by
  rw [ofMagnitude, bits_eq x.toBits.toNat_lt, UInt64.ofNat_toNat, Float.ofBits_toBits]

/-- **An infinity** is the double with the bits of infinity. -/
theorem ofMagnitude_of_infinite {x : Float} {negative : Bool}
    (h : meaning x = .infinite negative) : ofMagnitude negative infinityBits = x := by
  have hx := ofMagnitude_bits x
  simp only [meaning] at h
  split at h
  · next hfield =>
    split at h
    · next hfraction =>
      rw [hfield, hfraction] at hx
      exact Meaning.infinite.inj h ▸ hx
    · cases h
  · split at h <;> cases h

/-- **A finite double** is the double with the bits of its significand and
exponent, which are zero or as a double holds them. -/
theorem ofMagnitude_of_finite {x : Float} {negative : Bool} {significand : Nat} {exponent : Int}
    (h : meaning x = .finite negative significand exponent) :
    ofMagnitude negative (magnitudeBits significand exponent) = x ∧
      (significand = 0 ∧ exponent = -1074 ∨ Canonical significand exponent) := by
  have hx := ofMagnitude_bits x
  have hfraction : x.toBits.toNat % leadingBit < leadingBit := Nat.mod_lt _ (by decide)
  have hfield : x.toBits.toNat / leadingBit % 2048 < 2048 := Nat.mod_lt _ (by omega)
  simp only [meaning] at h
  generalize x.toBits.toNat / leadingBit % 2048 = field at *
  generalize x.toBits.toNat % leadingBit = fraction at *
  split at h
  · split at h <;> cases h
  · split at h
    · next hzero =>
      obtain ⟨rfl, rfl, rfl⟩ := Meaning.finite.inj h
      rw [hzero, Nat.zero_mul, Nat.zero_add] at hx
      refine ⟨by rwa [magnitudeBits, Int.add_left_neg, Int.toNat_zero, Nat.zero_mul, Nat.zero_add],
        ?_⟩
      rcases Nat.eq_zero_or_pos fraction with rfl | hpos
      · exact .inl ⟨rfl, rfl⟩
      · exact .inr ⟨hpos, by omega, by omega, by omega, .inl rfl⟩
    · next hlast hnonzero =>
      obtain ⟨rfl, rfl, rfl⟩ := Meaning.finite.inj h
      have hbits : magnitudeBits (leadingBit + fraction) ((field : Int) - 1075)
          = field * leadingBit + fraction := by
        obtain ⟨k, rfl⟩ := Nat.exists_eq_succ_of_ne_zero hnonzero
        have hk : (((k + 1 : ℕ) : Int) - 1075 + 1074).toNat = k := by omega
        rw [magnitudeBits, Nat.succ_eq_add_one, hk, Nat.add_mul]
        omega
      have hbit : 0 < leadingBit := by decide
      rw [hbits]
      exact ⟨hx, .inr ⟨by omega, by omega, by omega, by omega, .inr (by omega)⟩⟩

open Float.Model Float.Model.UnpackedFloat in
/-- **Bits are those of a double**, unless they stand for no number, which has
one form only. -/
theorem toBits_ofBits {bits : UInt64}
    (h : bits.toNat / leadingBit % 2048 = 2047 → bits.toNat % leadingBit = 0) :
    (Float.ofBits bits).toBits = bits := by
  have hvalid : Format.binary64.Valid bits.toBitVec := by
    refine ⟨fun hfield hfraction => absurd ?_ hfraction⟩
    have hall := congrArg BitVec.toNat hfield
    simp only [unpackExponent, BitVec.toNat_cast, BitVec.extractLsb_toNat, UInt64.toNat_toBitVec,
      Nat.shiftRight_eq_div_pow] at hall
    have hzero := h hall
    apply BitVec.eq_of_toNat_eq
    simp only [unpackMantissa, BitVec.toNat_cast, BitVec.extractLsb_toNat, UInt64.toNat_toBitVec,
      Nat.shiftRight_zero]
    exact hzero
  exact congrArg Float.toBits (Float.ofBits_toBits ⟨⟨bits, hvalid⟩⟩)

/-- **The bits of a double that is put together** are those that it is put
together from. -/
theorem toNat_toBits_ofMagnitude (negative : Bool) {bits : Nat} (h : bits ≤ infinityBits) :
    (ofMagnitude negative bits).toBits.toNat = if negative then signBit + bits else bits := by
  -- the sign is the bit above the exponent field, so it changes neither part
  have hparts : (if negative then signBit + bits else bits) < 2 ^ 64 ∧
      ((if negative then signBit + bits else bits) / leadingBit % 2048 = 2047 →
        (if negative then signBit + bits else bits) % leadingBit = 0) := by
    simp only [infinityBits, signBit, leadingBit, Nat.shiftLeft_eq, Nat.one_mul] at h ⊢
    split <;> omega
  have htoNat := UInt64.toNat_ofNat_of_lt' hparts.1
  rw [ofMagnitude, toBits_ofBits (by rw [htoNat]; exact hparts.2), htoNat]

/-- What a double that is put together stands for. -/
theorem meaning_ofMagnitude (negative : Bool) {bits : Nat} (h : bits ≤ infinityBits) :
    meaning (ofMagnitude negative bits) =
      if bits = infinityBits then .infinite negative
      else if bits < leadingBit then .finite negative bits (-1074)
      else .finite negative (leadingBit + bits % leadingBit) ((bits / leadingBit : ℕ) - 1075) := by
  have hbits := toNat_toBits_ofMagnitude negative h
  have hsign : decide (signBit ≤ (ofMagnitude negative bits).toBits.toNat) = negative := by
    rw [hbits]
    simp only [infinityBits, signBit, leadingBit, Nat.shiftLeft_eq, Nat.one_mul] at h ⊢
    cases negative
    · simp only [Bool.false_eq_true, if_false, decide_eq_false_iff_not]
      omega
    · simp only [if_true, decide_eq_true_eq]
      omega
  have hfield : (ofMagnitude negative bits).toBits.toNat / leadingBit % 2048
      = bits / leadingBit := by
    rw [hbits]
    simp only [infinityBits, signBit, leadingBit, Nat.shiftLeft_eq, Nat.one_mul] at h ⊢
    split <;> omega
  have hfraction : (ofMagnitude negative bits).toBits.toNat % leadingBit = bits % leadingBit := by
    rw [hbits]
    simp only [signBit, leadingBit, Nat.shiftLeft_eq, Nat.one_mul]
    split <;> omega
  simp only [meaning, hsign, hfield, hfraction]
  simp only [infinityBits, leadingBit, Nat.shiftLeft_eq, Nat.one_mul] at h ⊢
  by_cases hinfinite : bits = 2047 * 2 ^ 52
  · subst hinfinite
    rfl
  · rw [if_neg (by omega), if_neg hinfinite]
    by_cases hsmall : bits < 2 ^ 52
    · rw [if_pos (by omega), if_pos hsmall, Nat.mod_eq_of_lt hsmall]
    · rw [if_neg (by omega), if_neg hsmall]

/-- **The double nearest to a number is one**, or an infinity. -/
theorem meaning_nearest_ne_nan (negative : Bool) (num den : Nat) :
    meaning (nearest negative num den) ≠ .nan := by
  have hmagnitude : nearestBits num den ≤ infinityBits := by
    unfold nearestBits
    split
    · exact Nat.zero_le _
    · exact Nat.min_le_right _ _
  rw [nearest, meaning_ofMagnitude negative hmagnitude]
  split
  · simp
  · split <;> simp

/-! ## Writing and reading

The text is read in decimals and the double is known in binary. They meet in
the interval of the double, which is a condition on rational numbers: the
writer returns a decimal inside of it, the reader rounds whatever lies inside
of it to the double, and neither has to know the other. -/

/-- The digits of a finite double are read as a number of its interval. -/
theorem Canonical.readsAs_magnitudeDigits {significand : Nat} {exponent : Int}
    (h : Canonical significand exponent) :
    ∃ v, Numeral.ReadsAs (magnitudeDigits significand exponent) v ∧
      (RoundingInterval.ofFinite significand exponent).Holds v := by
  refine ⟨_, ?_, h.holds_shortest⟩
  rw [magnitudeDigits, if_neg h.pos.ne']
  exact Numeral.readsAs_positional (RoundingInterval.shortest_pos h.pos exponent) _

/-- **The text of a finite double is read as that double.** -/
theorem read?_finiteText {x : Float} {negative : Bool} {significand : Nat} {exponent : Int}
    (h : meaning x = .finite negative significand exponent) :
    ∃ n, Numeral.read? (finiteText negative significand exponent).toList = some n ∧
      n.toDouble = x := by
  rw [finiteText, String.toList_ofList]
  obtain ⟨hx, ⟨rfl, rfl⟩ | hcanonical⟩ := ofMagnitude_of_finite h
  · have hzero : Numeral.ReadsAs (magnitudeDigits 0 (-1074)) (0 : ℕ) :=
      Numeral.readsAs_digits (List.cons_ne_nil '0' []) (by decide)
    obtain ⟨n, hn, rfl, hvalue⟩ := hzero negative
    have hdigits : n.digits = 0 := by
      simpa [Numeral.value, zpow_ne_zero] using hvalue
    exact ⟨n, hn, (Numeral.toDouble_of_digits_eq_zero hdigits).trans hx⟩
  · obtain ⟨v, hread, hv⟩ := hcanonical.readsAs_magnitudeDigits
    obtain ⟨n, hn, rfl, rfl⟩ := hread negative
    exact ⟨n, hn, (Numeral.toDouble_eq hcanonical hv).trans hx⟩

/-- The numeral that stands for infinity is beyond all doubles. -/
theorem read?_infinity (negative : Bool) :
    ∃ n, Numeral.read? (if negative then "-9e999" else "9e999").toList = some n ∧
      n.toDouble = ofMagnitude negative infinityBits := by
  refine ⟨⟨negative, 9, 999⟩, by cases negative <;> decide, ?_⟩
  simp only [Numeral.toDouble]
  rw [if_neg (by decide), if_pos (by decide)]

/-- **A double is read as it was handed over.** -/
theorem read?_encodeReal {x : Float} {s : String} (h : Scalar.encodeReal x = .text s) :
    ∃ n, Numeral.read? s.toList = some n ∧ n.toDouble = x := by
  unfold Scalar.encodeReal at h
  split at h
  · cases h
  · next negative hmeaning =>
    obtain ⟨n, hn, hdouble⟩ := read?_infinity negative
    exact ⟨n, Argument.text.inj h ▸ hn, hdouble.trans (ofMagnitude_of_infinite hmeaning)⟩
  · next hmeaning => exact Argument.text.inj h ▸ read?_finiteText hmeaning

end Double

/-! ## Storing numbers -/

/-- A number without its sign looks like one, with and without it. -/
theorem WrittenMagnitude.looksNumeric {cs : List Char} (h : WrittenMagnitude cs) :
    looksNumeric cs = true ∧ looksNumeric ('-' :: cs) = true := by
  obtain ⟨d, ds, rfl, hd, hds⟩ := h
  have hrest : ∀ c ∈ d :: ds,
      (c.isDigit || c == '+' || c == '-' || c == '.' || c == 'e' || c == 'E') = true := by
    intro c hc
    rcases List.mem_cons.mp hc with rfl | hc
    · rw [hd]
      rfl
    · rcases hds c hc with hdigit | rfl | rfl
      · rw [hdigit]
        rfl
      · rfl
      · rfl
  have hany : (d :: ds).any Char.isDigit = true := List.any_eq_true.mpr ⟨d, by simp, hd⟩
  have hall := List.all_eq_true.mpr hrest
  constructor
  · rw [TypedSql.looksNumeric, hany, hall]
    rfl
  · rw [TypedSql.looksNumeric, List.any_cons, List.all_cons, hany, hall]
    rfl

theorem WrittenNumber.looksNumeric {cs : List Char} (h : WrittenNumber cs) :
    looksNumeric cs = true := by
  cases h with
  | positive h => exact h.looksNumeric.1
  | negative h => exact h.looksNumeric.2

/-- **A column of doubles stores a double as it is.** -/
theorem Cell.store_encodeReal {x : Float} (h : Double.meaning x ≠ .nan) :
    Cell.store .real (Scalar.encodeReal x) = .real x := by
  obtain ⟨s, hs⟩ : ∃ s, Scalar.encodeReal x = .text s := by
    unfold Scalar.encodeReal
    split
    · next hnan => exact absurd hnan h
    · exact ⟨_, rfl⟩
    · exact ⟨_, rfl⟩
  obtain ⟨n, hn, hdouble⟩ := Double.read?_encodeReal hs
  simp only [hs, Cell.store, Cell.ofRealText, (encodeReal_written hs).looksNumeric, hn, hdouble,
    if_true]

/-- **A column of integers stores an integer as it is**, when it has at most
64 bits. -/
theorem Cell.store_integerText {n : Int} {m : Int64} (h : int64? n = some m) :
    Cell.store .integer (.text (integerText n)) = .integer m := by
  simp only [Cell.store, Cell.ofIntegerText, (integerText_written n).looksNumeric,
    readInteger?_integerText, Option.bind_some, h, if_true]

end TypedSql
