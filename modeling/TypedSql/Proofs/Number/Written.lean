import TypedSql.Codec
import Mathlib.Data.List.TakeWhile

/-!
# How numbers are written

An integer and a finite double have one form in common (`WrittenNumber`): a
minus or none, a digit, and then digits, points and the letter that an
exponent begins with. For integers that is what their digits are. For
doubles it needs that positional notation never comes out empty, which it
would for zero – and the shortest decimal of a double other than zero is not
zero, because no interval of numbers that round to it reaches down that far
(`RoundingInterval.shortest_pos`).

`Codec.encode_written` collects it: whatever a codec of a numeric storage
class hands over as text has that form.
-/

namespace TypedSql

/-! ## Characters of a text

What holds of the characters of a text is decided along the text, and not over
all characters that there are. -/

section Decide

variable (p : Char → Prop) [DecidablePred p]

instance (priority := 1100) decidableForallChars (cs : List Char) : Decidable (∀ c ∈ cs, p c) :=
  List.decidableBAll p cs

instance (priority := 1100) decidableExistsChars (cs : List Char) : Decidable (∃ c ∈ cs, p c) :=
  List.decidableBEx p cs

instance (priority := 1100) decidableForallChar? (c? : Option Char) :
    Decidable (∀ c ∈ c?, p c) :=
  Option.decidableForallMem c?

end Decide

/-! ## The form of numbers -/

/-- **A number without its sign, as it is written**: a digit, then digits,
points and exponents. -/
def WrittenMagnitude (cs : List Char) : Prop :=
  ∃ d ds, cs = d :: ds ∧ d.isDigit = true ∧ ∀ c ∈ ds, c.isDigit = true ∨ c = '.' ∨ c = 'e'

/-- **A number as it is written.** -/
inductive WrittenNumber : List Char → Prop where
  /-- Without a sign. -/
  | positive {cs : List Char} : WrittenMagnitude cs → WrittenNumber cs
  /-- With a minus in front. -/
  | negative {cs : List Char} : WrittenMagnitude cs → WrittenNumber ('-' :: cs)

namespace WrittenMagnitude

theorem append {cs ds : List Char} (h : WrittenMagnitude cs)
    (hds : ∀ c ∈ ds, c.isDigit = true ∨ c = '.' ∨ c = 'e') : WrittenMagnitude (cs ++ ds) := by
  obtain ⟨d, rest, rfl, hd, hrest⟩ := h
  refine ⟨d, rest ++ ds, rfl, hd, fun c hc => ?_⟩
  rcases List.mem_append.mp hc with hc | hc
  · exact hrest c hc
  · exact hds c hc

theorem of_digits {cs : List Char} (hne : cs ≠ []) (h : ∀ c ∈ cs, c.isDigit = true) :
    WrittenMagnitude cs := by
  obtain ⟨d, ds, rfl⟩ := List.exists_cons_of_ne_nil hne
  exact ⟨d, ds, rfl, h d List.mem_cons_self, fun c hc => .inl (h c (List.mem_cons_of_mem d hc))⟩

theorem toDigits (n : Nat) : WrittenMagnitude (Nat.toDigits 10 n) :=
  of_digits Nat.toDigits_ne_nil fun _ => Nat.isDigit_of_mem_toDigits (by omega) (by omega)

theorem signed {cs : List Char} (h : WrittenMagnitude cs) (negative : Prop)
    [Decidable negative] : WrittenNumber (if negative then '-' :: cs else cs) := by
  split
  · exact .negative h
  · exact .positive h

end WrittenMagnitude

/-- **An integer is written as a number.** -/
theorem integerText_written (n : Int) : WrittenNumber (integerText n).toList := by
  rw [integerText, String.toList_ofList]
  exact (WrittenMagnitude.toDigits n.natAbs).signed (n < 0)

/-- A count has no sign. -/
theorem integerText_natCast_written (n : Nat) : WrittenMagnitude (integerText n).toList := by
  rw [integerText, String.toList_ofList, if_neg (by omega), Int.natAbs_natCast]
  exact WrittenMagnitude.toDigits n

/-! ## The shortest decimal is not zero -/

namespace RoundingInterval

/-- A point of a grid that rounds to a double is not zero when the interval
of the double lies above zero. -/
theorem pos_of_contains {r : RoundingInterval} {g : DecimalGrid} (hr : 0 < r.lower)
    (hg : 0 < g.numerator) {d : Nat} (h : r.contains g d = true) : 0 < d := by
  rcases Nat.eq_zero_or_pos d with rfl | hd
  · have hlow : 0 < r.lower * g.numerator := Nat.mul_pos hr hg
    simp only [contains, Nat.zero_mul, Nat.le_zero_eq, Nat.not_lt_zero, decide_false,
      Bool.false_and] at h
    split at h
    · rw [Bool.and_eq_true, decide_eq_true_eq] at h
      omega
    · cases h
  · exact hd

/-- The nearest point of a grid is not zero. -/
theorem pos_of_nearestPoint? {r : RoundingInterval} {g : DecimalGrid} (hr : 0 < r.lower)
    (hg : 0 < g.numerator) {d : Nat} (h : r.nearestPoint? g = some d) : 0 < d := by
  have hbelow : r.contains g (r.value * g.numerator / g.denominator) = true →
      0 < r.value * g.numerator / g.denominator := pos_of_contains hr hg
  simp only [nearestPoint?] at h
  split at h
  · split at h
    · next hin _ _ => exact Option.some.inj h ▸ hbelow hin
    · exact Option.some.inj h ▸ Nat.succ_pos _
  · next hin _ => exact Option.some.inj h ▸ hbelow hin
  · exact Option.some.inj h ▸ Nat.succ_pos _
  · cases h

theorem ofPlace_numerator_pos (quarter place : Int) :
    0 < (DecimalGrid.ofPlace quarter place).numerator := by
  rw [DecimalGrid.ofPlace, Nat.shiftLeft_eq]
  exact Nat.mul_pos (Nat.pow_pos (by omega)) (Nat.two_pow_pos _)

theorem search_pos {r : RoundingInterval} (hr : 0 < r.lower) (hv : 0 < r.value) (whole : Int)
    (fuel digits : Nat) : 0 < (r.search whole fuel digits).1 := by
  induction fuel generalizing digits with
  | zero => exact hv
  | succ fuel ih =>
    simp only [search]
    split
    · next d hd => exact pos_of_nearestPoint? hr (ofPlace_numerator_pos _ _) hd
    · exact ih (digits + 1)

/-- **The shortest decimal of a double other than zero is not zero.** -/
theorem shortest_pos {significand : Nat} (h : 0 < significand) (exponent : Int) :
    0 < (ofFinite significand exponent).shortest.1 := by
  refine search_pos ?_ ?_ _ 17 1
  · simp only [ofFinite]
    split <;> omega
  · simp only [ofFinite]
    omega

end RoundingInterval

/-! ## Positional notation

Zeros at the end are left out before the point is set. Of a number other than
zero some digit stays (`kept_ne_nil`), and this is the only thing that keeps
the text from being empty or from beginning with a point. -/

/-- The digits of a positive number are not all zero. -/
theorem exists_mem_toDigits_ne_zero {n : Nat} (h : 0 < n) :
    ∃ c ∈ Nat.toDigits 10 n, c ≠ '0' := by
  by_contra hnone
  have hzero : ∀ c ∈ Nat.toDigits 10 n, c = '0' := fun c hc =>
    by_contra fun hne => hnone ⟨c, hc, hne⟩
  have hreplicate := List.eq_replicate_of_mem hzero
  have hvalue := Nat.ofDigitChars_ten_toDigits (n := n)
  have hnull : ∀ k, Nat.ofDigitChars 10 (List.replicate k '0') 0 = 0 := by
    intro k
    induction k with
    | zero => rfl
    | succ k ih => exact ih
  rw [hreplicate, hnull] at hvalue
  omega

/-- Some digits of a positive number are kept when the zeros at its end are
left out. -/
theorem kept_ne_nil {n : Nat} (h : 0 < n) :
    (Nat.toDigits 10 n).take ((Nat.toDigits 10 n).length -
      ((Nat.toDigits 10 n).reverse.takeWhile (· == '0')).length) ≠ [] := by
  obtain ⟨c, hc, hne⟩ := exists_mem_toDigits_ne_zero h
  have hrev : (Nat.toDigits 10 n).reverse.length = (Nat.toDigits 10 n).length :=
    List.length_reverse
  have hpre := List.takeWhile_prefix (l := (Nat.toDigits 10 n).reverse) (· == '0')
  have hshort : ((Nat.toDigits 10 n).reverse.takeWhile (· == '0')).length
      < (Nat.toDigits 10 n).length := by
    rw [← hrev]
    refine Nat.lt_of_le_of_ne hpre.length_le fun hlen => ?_
    have hall := List.takeWhile_eq_self_iff.mp (hpre.eq_of_length hlen)
    exact hne (by simpa using hall c (List.mem_reverse.mpr hc))
  rw [Ne, List.take_eq_nil_iff]
  have hdigits := Nat.toDigits_ne_nil (n := n) (b := 10)
  rintro (hzero | hnil)
  · omega
  · exact hdigits hnil

/-- **Positional notation of a positive number is a form.** -/
theorem positional_written {digits : Nat} (h : 0 < digits) (place : Int) :
    WrittenMagnitude (positional digits place) := by
  have hkept := kept_ne_nil h
  have hmem : ∀ c ∈ (Nat.toDigits 10 digits).take ((Nat.toDigits 10 digits).length -
      ((Nat.toDigits 10 digits).reverse.takeWhile (· == '0')).length), c.isDigit = true :=
    fun c hc => Nat.isDigit_of_mem_toDigits (by omega) (by omega) (List.mem_of_mem_take hc)
  simp only [positional]
  generalize (Nat.toDigits 10 digits).take _ = kept at *
  generalize ((Nat.toDigits 10 digits).reverse.takeWhile (· == '0')).length = zeros
  split
  · -- zeros behind the digits
    refine (WrittenMagnitude.of_digits hkept hmem).append fun c hc => .inl ?_
    rw [List.eq_of_mem_replicate hc]
    rfl
  · split
    · -- zeros between the point and the digits
      refine ⟨'0', _, by rw [List.cons_append], rfl, fun c hc => ?_⟩
      rw [List.cons_append, List.mem_cons, List.mem_append] at hc
      rcases hc with rfl | hc | hc
      · exact .inr (.inl rfl)
      · rw [List.eq_of_mem_replicate hc]
        exact .inl rfl
      · exact .inl (hmem c hc)
    · -- the point between the digits
      next hwhole =>
      refine (WrittenMagnitude.of_digits ?_ fun c hc => hmem c (List.mem_of_mem_take hc)).append
        fun c hc => ?_
      · rw [Ne, List.take_eq_nil_iff]
        rintro (hzero | hnil)
        · omega
        · exact hkept hnil
      · rcases List.mem_cons.mp hc with rfl | hc
        · exact .inr (.inl rfl)
        · exact .inl (hmem c (List.mem_of_mem_drop hc))

/-- **A finite double is written as a number.** -/
theorem finiteText_written (negative : Bool) (significand : Nat) (exponent : Int) :
    WrittenNumber (Double.finiteText negative significand exponent).toList := by
  have hmagnitude : WrittenMagnitude (Double.magnitudeDigits significand exponent) := by
    unfold Double.magnitudeDigits
    split
    · exact WrittenMagnitude.of_digits (List.cons_ne_nil _ _) (by decide)
    · exact positional_written (RoundingInterval.shortest_pos (by omega) exponent) _
  rw [Double.finiteText, String.toList_ofList]
  exact hmagnitude.signed (negative = true)

/-! ## Numbers as arguments -/

/-- A double is handed over as a number, or as no value at all. -/
theorem encodeReal_written {x : Float} {s : String} (h : Scalar.encodeReal x = .text s) :
    WrittenNumber s.toList := by
  unfold Scalar.encodeReal at h
  split at h
  · cases h
  · next negative _ =>
    have hinfinite : WrittenMagnitude "9e999".toList := ⟨'9', ['e', '9', '9', '9'], by decide,
      rfl, by decide⟩
    rw [← Argument.text.inj h]
    cases negative
    · exact .positive hinfinite
    · exact .negative hinfinite
  · next negative significand exponent _ =>
    rw [← Argument.text.inj h]
    exact finiteText_written negative significand exponent

/-- A scalar of a numeric storage class hands over numbers. -/
theorem Scalar.encode_written {s : Scalar} {v : s.Value} {t : String}
    (hclass : s.storageClass = .integer ∨ s.storageClass = .real) (h : s.encode v = .text t) :
    WrittenNumber t.toList := by
  cases s with
  | long => exact Argument.text.inj h ▸ integerText_written _
  | int => exact Argument.text.inj h ▸ integerText_written _
  | real => exact encodeReal_written h
  | bool =>
    have hdigits : WrittenMagnitude (if v then "1" else "0").toList := by
      cases v
      · exact ⟨'0', [], rfl, rfl, by decide⟩
      · exact ⟨'1', [], rfl, rfl, by decide⟩
    exact Argument.text.inj h ▸ .positive hdigits
  | text | blob | timestamp | date | enumeration => simp [storageClass] at hclass

/-- **A codec of a numeric storage class hands over numbers.** -/
theorem Codec.encode_written {c : Codec} {v : c.Value} {t : String}
    (hclass : c.storageClass = .integer ∨ c.storageClass = .real) (h : c.encode v = .text t) :
    WrittenNumber t.toList := by
  induction c with
  | scalar s => exact Scalar.encode_written hclass h
  | nullable c ih =>
    cases v with
    | none => cases h
    | some v => exact ih hclass h
  | shared c ih => exact ih hclass h

end TypedSql
