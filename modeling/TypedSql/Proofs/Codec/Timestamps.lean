import Mathlib.Order.Monotone.Basic
import TypedSql.Proofs.Codec.Recoverable

/-!
# Dates are kept, moments are kept or refused

A moment is written in any year and read in the years of four digits. In
these it comes back as it was, to the nanosecond and with its leap second; in
any other year the text begins with a sign, which the reader does not know,
so the moment is refused and never changed. What a caller supplies goes the
same way, because it is taken by being read. A date has a reader that knows
the sign and comes back in every year, so no two dates share a text.

What the years of four digits are is said on the count of seconds. The year
of a day is the last one that has begun (`le_year_civil_iff`), so the
calendar that the texts are written by is the one that counts the days
before each first of January.
-/

namespace TypedSql

/-! ## The year of a day

`civil` computes a year by divisions, and nothing about it is monotone by
itself. The first days of the years are: `newYear` is a sum with a closed form,
and a day lies between two of them. So the question in which year a day lies
becomes a comparison of days. -/

/-- **The first day of a year.** -/
def newYear (year : Int) : Int := dayNumber year 1 1

/-- The days before a year: 365 for each year before it, and one more for
every fourth, save the hundredths that are no four-hundredths. -/
theorem newYear_eq (year : Int) :
    newYear year =
      365 * (year - 1) + (year - 1) / 4 - (year - 1) / 100 + (year - 1) / 400 - 719162 := by
  have hJanuary : (1 : Nat) ≤ 2 := by decide
  simp only [newYear, dayNumber, if_pos hJanuary]
  omega

/-- Years begin one after the other. -/
theorem newYear_strictMono : StrictMono newYear := by
  refine strictMono_int_of_lt_succ fun year => ?_
  rw [newYear_eq, newYear_eq]
  omega

/-- **A day lies in its year**, which has begun and of which the next one has
not. -/
theorem newYear_civil (days : Int) :
    newYear (civil days).1 ≤ days ∧ days < newYear ((civil days).1 + 1) := by
  obtain ⟨⟨c, f, y, n, hc, hf, hy, hn, hleap⟩, era, rfl⟩ := exists_eraDay days
  have hmonths := monthFromMarch_range hn
  rw [civil_number, newYear_eq, newYear_eq]
  simp only [EraDay.year, EraDay.number]
  split <;> omega

/-- **The year of a day is the last one that has begun.** -/
theorem le_year_civil_iff (year days : Int) : year ≤ (civil days).1 ↔ newYear year ≤ days := by
  obtain ⟨hbegun, hends⟩ := newYear_civil days
  constructor
  · intro h
    exact (newYear_strictMono.monotone h).trans hbegun
  · intro h
    have hbefore : newYear year < newYear ((civil days).1 + 1) := lt_of_le_of_lt h hends
    exact Int.lt_add_one_iff.mp (newYear_strictMono.lt_iff_lt.mp hbefore)

/-- **The years of four digits**, in seconds: from the first of January of the
year zero to the end of the year 9999. -/
theorem Timestamp.year_range_iff (t : Timestamp) :
    0 ≤ t.year ∧ t.year ≤ 9999 ↔ -62167219200 ≤ t.seconds ∧ t.seconds ≤ 253402300799 := by
  have hzero : newYear 0 = -719528 := by decide
  have hend : newYear 10000 = 2932897 := by decide
  have hfirst := le_year_civil_iff 0 t.day
  have hlast := le_year_civil_iff 10000 t.day
  rw [hzero, day] at hfirst
  rw [hend, day] at hlast
  rw [year, day]
  omega

/-! ## Texts that are refused

The reader checks the length before it looks at a character. The text of a
moment is always long enough (`le_byteLength_text`), whatever the year, so that
it is the sign in front that is refused. -/

namespace Calendar

theorem le_length_padded (width n : Nat) : width ≤ (padded width n).length := by
  simp only [padded, List.length_append, List.length_replicate]
  omega

/-- The text of a moment is long enough to be one. -/
theorem le_byteLength_text (t : Timestamp) : 19 ≤ byteLength t.text.toList := by
  refine Nat.le_trans ?_ (length_le_byteLength _)
  rcases hcivil : civil t.day with ⟨year, month, day⟩
  have hyear : 4 ≤ (yearText year).length := by
    unfold yearText
    split
    · exact le_length_padded 4 _
    · exact Nat.le_succ_of_le (le_length_padded 4 _)
  have htwo := le_length_padded 2
  have hmonth := htwo month
  have hday := htwo day
  have hhour := htwo (t.secondOfDay / 3600)
  have hminute := htwo (t.secondOfDay / 60 % 60)
  have hsecond := htwo (t.secondOfDay % 60 + if decide (nanosPerSecond ≤ t.nanos) then 1 else 0)
  rw [Timestamp.text, hcivil]
  simp only [String.toList_ofList, dateText, timeText, List.length_append, List.length_cons]
  omega

theorem fixedDigits_of_not_isDigit {c : Char} (h : c.isDigit = false) (n : Nat) (cs : List Char) :
    fixedDigits (n + 1) (c :: cs) = .error .invalid := by
  rw [fixedDigits, List.take_succ_cons, List.all_cons, h, Bool.false_and,
    if_neg fun hread => Bool.false_ne_true hread.2]

/-- **A moment is refused** if its year does not have four digits: the text
begins with a sign. -/
theorem readTimestamp_text_of_not {t : Timestamp} (h : ¬(0 ≤ t.year ∧ t.year ≤ 9999)) :
    readTimestamp t.text = .error .invalid := by
  have hlong := le_byteLength_text t
  obtain ⟨sign, rest, htext, hsign⟩ :
      ∃ sign rest, t.text.toList = sign :: rest ∧ sign.isDigit = false := by
    rw [Timestamp.year] at h
    rw [Timestamp.text, String.toList_ofList, dateText, yearText, if_neg h]
    refine ⟨_, _, rfl, ?_⟩
    split <;> rfl
  rw [htext] at hlong
  rw [readTimestamp, htext]
  simp only [bind, Except.bind, require, hlong, decide_true, if_true,
    fixedDigits_of_not_isDigit hsign]

end Calendar

/-! ## Moments -/

/-- **A moment is kept or refused**, by the column that reads the text handed
over and by the placeholder that is supplied with it. It is kept if its year
has four digits. -/
theorem Timestamp.kept_or_refused (t : Timestamp) :
    let c : Codec := .scalar .timestamp
    let refusal : ValueError := .invalidValue (.notTimestamp t.text .invalid)
    c.encode t = .text t.text ∧
      c.decode (.text t.text) =
        (if 0 ≤ t.year ∧ t.year ≤ 9999 then .ok t else .error refusal) ∧
      c.bind (.ofTimestamp t) =
        (if 0 ≤ t.year ∧ t.year ≤ 9999 then .ok (c.encode t) else .error refusal) ∧
      (0 ≤ t.year ∧ t.year ≤ 9999 ↔ -62167219200 ≤ t.seconds ∧ t.seconds ≤ 253402300799) := by
  intro c refusal
  have hread : Scalar.timestampOfText t.text =
      if 0 ≤ t.year ∧ t.year ≤ 9999 then .ok t else .error refusal := by
    rw [Scalar.timestampOfText]
    split
    · next h =>
      rw [Calendar.readTimestamp_text h]
      rfl
    · next h =>
      rw [Calendar.readTimestamp_text_of_not h]
      rfl
  refine ⟨rfl, hread, ?_, t.year_range_iff⟩
  show (Scalar.timestampOfText t.text).map c.encode = _
  rw [hread]
  split <;> rfl

/-! ## Dates -/

/-- **Different dates have different texts.** -/
theorem Date.text_injective : Function.Injective Date.text := by
  intro d e h
  have hread := Calendar.readDate_text d
  rw [h, Calendar.readDate_text] at hread
  exact (Except.ok.inj hread).symm

/-- **A date is kept** in every year, by the column that reads the text handed
over and by the placeholder that is supplied with it, and no other date is
handed over as that text. -/
theorem Date.kept_apart (d : Date) :
    let c : Codec := .scalar .date
    c.encode d = .text d.text ∧ c.decode (.text d.text) = .ok d ∧
      c.bind (.ofDate d) = .ok (c.encode d) ∧ ∀ e : Date, c.encode e = c.encode d → e = d := by
  intro c
  have hkept : c.Recoverable d := trivial
  refine ⟨rfl, Codec.decode_store_of_recoverable hkept, Codec.bind_supply hkept, fun e h => ?_⟩
  exact Date.text_injective (Argument.text.inj h)

end TypedSql
