import Mathlib.Data.List.Induction
import TypedSql.Proofs.Codec.Timestamps
import TypedSql.Proofs.Steps

/-!
# Texts that are accepted as moments

A placeholder for a moment takes more texts than are ever written: with any
offset, with any number of digits behind the point, with small letters. What is
stored is the text of the moment in universal time, and the question is whether
that is a text of a moment again.

The date at the beginning of the text has a year of four digits, and an offset
leads less than a day away from it (`Calendar.readTimestamp_sound`). So the
moment lies in a year of four digits too, unless the date is the first of all
that have one or the last (`Timestamp.year_of_read`): only the first and the
last day of these years lie less than a day away from their ends
(`dayNumber_range`). There the stored text has a sign and is not read again.
-/

namespace TypedSql

theorem Timestamp.seconds_of_of? {seconds : Int} {nanos : Nat} {t : Timestamp}
    (h : of? seconds nanos = some t) : t.seconds = seconds := by
  unfold of? at h
  split at h
  · exact Option.some.inj h ▸ rfl
  · cases h

namespace Calendar

/-! ## What the readers have read

The readers are taken apart from behind: from what was returned to what the
text was. Nothing is said of the fraction,
and of the offset only how large it is, which the reader checks. What has to be
kept of the text are the ten characters of the date. -/

/-- **Digits that stand for a number.** -/
structure Digits (width : Nat) (ds : List Char) (n : Nat) : Prop where
  /-- So many of them. -/
  length_eq : ds.length = width
  /-- Nothing else. -/
  isDigit : ∀ c ∈ ds, c.isDigit = true
  /-- The number. -/
  value_eq : Nat.ofDigitChars 10 ds 0 = n

variable {cs rest : List Char}

theorem fixedDigits_eq_ok {width n : Nat} (h : fixedDigits width cs = .ok (n, rest)) :
    ∃ ds, cs = ds ++ rest ∧ Digits width ds n := by
  rw [fixedDigits] at h
  split at h
  · next hdigits =>
    obtain ⟨rfl, rfl⟩ := Prod.mk.inj (Except.ok.inj h)
    exact ⟨cs.take width, (List.take_append_drop width cs).symm, hdigits.1,
      List.all_eq_true.mp hdigits.2, rfl⟩
  · cases h

theorem oneOf_eq_ok {p : Char → Bool} (h : oneOf p cs = .ok ((), rest)) :
    ∃ c, cs = c :: rest ∧ p c = true := by
  cases cs with
  | nil => cases h
  | cons c cs =>
    rw [oneOf] at h
    split at h
    · next hp =>
      obtain rfl := (Prod.mk.inj (Except.ok.inj h)).2
      exact ⟨c, rfl, hp⟩
    · cases h

theorem require_eq_ok {condition : Bool} {fault : Fault} (h : require condition fault = .ok ()) :
    condition = true := by
  cases condition with
  | true => rfl
  | false => cases h

theorem hyphen_eq_ok (h : oneOf (· == '-') cs = .ok ((), rest)) : cs = '-' :: rest := by
  obtain ⟨c, rfl, hc⟩ := oneOf_eq_ok h
  rw [beq_iff_eq.mp hc]

/-- The seconds of a clock, a leap second taken for the one before it. -/
def clockSeconds (hour minute second : Nat) : Int :=
  hour * 3600 + minute * 60 + if decide (second = 60) then 59 else (second : Int)

theorem clockSeconds_range {hour minute second : Nat}
    (h : (decide (hour < 24) && decide (minute < 60) && decide (second ≤ 60)) = true) :
    0 ≤ clockSeconds hour minute second ∧ clockSeconds hour minute second < 86400 := by
  simp only [Bool.and_eq_true, decide_eq_true_eq] at h
  simp only [clockSeconds, decide_eq_true_eq]
  split <;> omega

/-- **What is read as a moment** begins with a date, and the moment is less than
a day and an offset of less than a day away from the beginning of that day. -/
theorem readTimestamp_sound {s : String} {t : Timestamp} (h : readTimestamp s = .ok t) :
    ∃ (y m d rest : List Char) (year month day : Nat),
      s.toList = y ++ '-' :: (m ++ '-' :: (d ++ rest)) ∧
      Digits 4 y year ∧ Digits 2 m month ∧ Digits 2 d day ∧
      (Date.of? year month day).isSome = true ∧
      ∃ second minutes : Int, (0 ≤ second ∧ second < 86400) ∧ minutes.natAbs < 24 * 60 ∧
        t.seconds = dayNumber year month day * 86400 + second - minutes * 60 := by
  rw [readTimestamp] at h
  obtain ⟨⟨⟩, -, h⟩ := exists_of_bind_eq_ok h
  obtain ⟨⟨year, cs1⟩, hyear, h⟩ := exists_of_bind_eq_ok h
  obtain ⟨⟨⟨⟩, cs2⟩, hhyphen, h⟩ := exists_of_bind_eq_ok h
  obtain ⟨⟨month, cs3⟩, hmonth, h⟩ := exists_of_bind_eq_ok h
  obtain ⟨⟨⟨⟩, cs4⟩, hhyphen', h⟩ := exists_of_bind_eq_ok h
  obtain ⟨⟨day, cs5⟩, hday, h⟩ := exists_of_bind_eq_ok h
  obtain ⟨⟨⟩, hdate, h⟩ := exists_of_bind_eq_ok h
  obtain ⟨⟨⟨⟩, cs6⟩, hletter, h⟩ := exists_of_bind_eq_ok h
  obtain ⟨⟨hour, cs7⟩, hhour, h⟩ := exists_of_bind_eq_ok h
  obtain ⟨⟨⟨⟩, cs8⟩, -, h⟩ := exists_of_bind_eq_ok h
  obtain ⟨⟨minute, cs9⟩, hminute, h⟩ := exists_of_bind_eq_ok h
  obtain ⟨⟨⟨⟩, cs10⟩, -, h⟩ := exists_of_bind_eq_ok h
  obtain ⟨⟨second, cs11⟩, hsecond, h⟩ := exists_of_bind_eq_ok h
  obtain ⟨⟨nanos, cs12⟩, -, h⟩ := exists_of_bind_eq_ok h
  obtain ⟨⟨⟩, hclock, h⟩ := exists_of_bind_eq_ok h
  obtain ⟨⟨minutes, cs13⟩, -, h⟩ := exists_of_bind_eq_ok h
  obtain ⟨⟨⟩, -, h⟩ := exists_of_bind_eq_ok h
  obtain ⟨⟨⟩, hinside, h⟩ := exists_of_bind_eq_ok h
  -- only the date is needed as text, the rest as numbers
  obtain ⟨y, hy, hydigits⟩ := fixedDigits_eq_ok hyear
  obtain ⟨m, hm, hmdigits⟩ := fixedDigits_eq_ok hmonth
  obtain ⟨d, hd, hddigits⟩ := fixedDigits_eq_ok hday
  dsimp only at h
  split at h
  · next t' ht =>
    obtain rfl := Except.ok.inj h
    refine ⟨y, m, d, cs5, year, month, day, ?_, hydigits, hmdigits, hddigits, require_eq_ok hdate,
      clockSeconds hour minute second, minutes, clockSeconds_range (require_eq_ok hclock),
      decide_eq_true_eq.mp (require_eq_ok hinside), ?_⟩
    · rw [hy, hyphen_eq_ok hhyphen, hm, hyphen_eq_ok hhyphen', hd]
    · rw [Timestamp.seconds_of_of? ht, clockSeconds, ← Int.add_assoc, ← Int.add_assoc]
  · cases h

theorem ofDigitChars_concat (ds : List Char) (c : Char) :
    Nat.ofDigitChars 10 (ds ++ [c]) 0 = 10 * Nat.ofDigitChars 10 ds 0 + (c.toNat - 48) :=
  Nat.ofDigitChars_append 0

/-- As many digits are not enough for a larger number. -/
theorem Digits.lt {width n : Nat} {ds : List Char} (h : Digits width ds n) : n < 10 ^ width := by
  obtain ⟨rfl, hdigits, rfl⟩ := h
  induction ds using List.reverseRecOn with
  | nil => exact Nat.one_pos
  | append_singleton ds c ih =>
    rw [List.forall_mem_append, List.forall_mem_singleton] at hdigits
    have hc : 48 ≤ c.toNat ∧ c.toNat ≤ 57 := Char.isDigit_iff_toNat.mp hdigits.2
    have hds := ih hdigits.1
    rw [ofDigitChars_concat, List.length_append, List.length_singleton, Nat.pow_succ]
    omega

/-- **Digits are told by the number**, if they are as many. -/
theorem Digits.eq {width n : Nat} {ds es : List Char} (hd : Digits width ds n)
    (he : Digits width es n) : ds = es := by
  induction ds using List.reverseRecOn generalizing width n es with
  | nil => exact (List.eq_nil_of_length_eq_zero (he.length_eq.trans hd.length_eq.symm)).symm
  | append_singleton ds c ih =>
    obtain ⟨rfl, hdigits, hvalue⟩ := hd
    obtain ⟨hlength, hdigits', hvalue'⟩ := he
    obtain rfl | ⟨es, e, rfl⟩ := es.eq_nil_or_concat
    · rw [List.length_append, List.length_singleton] at hlength
      cases hlength
    · rw [List.concat_eq_append] at *
      rw [List.forall_mem_append, List.forall_mem_singleton] at hdigits hdigits'
      rw [ofDigitChars_concat] at hvalue hvalue'
      have hc : 48 ≤ c.toNat ∧ c.toNat ≤ 57 := Char.isDigit_iff_toNat.mp hdigits.2
      have he : 48 ≤ e.toNat ∧ e.toNat ≤ 57 := Char.isDigit_iff_toNat.mp hdigits'.2
      have hlast : c = e := Char.toNat_inj.mp (by omega)
      have hlengths : es.length = ds.length := by simpa using hlength
      rw [hlast, ih ⟨rfl, hdigits.1, rfl⟩ ⟨hlengths, hdigits'.1, by omega⟩]

end Calendar

/-! ## The days of a year -/

/-- **January and February** are counted from the beginning of their year. -/
theorem dayNumber_of_le_two {year : Int} {month day : Nat} (h : month ≤ 2) :
    dayNumber year month day = newYear year + (153 * (month + 9) + 2) / 5 - 306 + day - 1 := by
  simp only [dayNumber, if_pos h, newYear_eq]
  omega

/-- **The other months** are counted back from its end. -/
theorem dayNumber_of_two_lt {year : Int} {month day : Nat} (h : 2 < month) :
    dayNumber year month day =
      newYear (year + 1) + (153 * (month - 3) + 2) / 5 - 306 + day - 1 := by
  simp only [dayNumber, if_neg (Nat.not_le.mpr h), newYear_eq, Int.add_sub_cancel]
  omega

/-- A year has 365 days or one more. -/
theorem newYear_succ (year : Int) :
    newYear year + 365 ≤ newYear (year + 1) ∧ newYear (year + 1) ≤ newYear year + 366 := by
  rw [newYear_eq, newYear_eq]
  omega

/-- **A date lies in its year**, and only the first of January and the last of
December lie at its ends. -/
theorem dayNumber_range {year : Int} {month day : Nat} (hmonth : 1 ≤ month ∧ month ≤ 12)
    (hday : 1 ≤ day ∧ day ≤ daysInMonth year month) :
    (newYear year ≤ dayNumber year month day ∧ dayNumber year month day < newYear (year + 1)) ∧
      (dayNumber year month day = newYear year → month = 1 ∧ day = 1) ∧
      (dayNumber year month day + 1 = newYear (year + 1) → month = 12 ∧ day = 31) := by
  have hlong := hday.2.trans (daysInMonth_le year month)
  have hyear := newYear_succ year
  by_cases hearly : month ≤ 2
  · rw [dayNumber_of_le_two hearly]
    omega
  · rw [dayNumber_of_two_lt (Nat.not_le.mp hearly)]
    have hNovember : month = 11 → day ≤ 30 := by
      rintro rfl
      exact hday.2
    omega

/-! ## Beyond the years of four digits

A day and an offset of less than a day: the moment lies on the day of the text,
on the one before or on the one behind. Were it on another side of a new year
of the year zero or of the year 10000, the day of the text would be the one
next to it, and this day has one text only (`Calendar.Digits.eq`). -/

/-- A date that exists has a month and a day of it. -/
theorem Date.valid_of_isSome {year : Int} {month day : Nat}
    (h : (Date.of? year month day).isSome = true) :
    (1 ≤ month ∧ month ≤ 12) ∧ 1 ≤ day ∧ day ≤ daysInMonth year month := by
  unfold Date.of? at h
  split at h
  · next hvalid => exact hvalid.2
  · cases h

/-- **A moment that is read lies in a year of four digits**, or the text gives
the first day of all these years or the last one, and the offset leads out of
them. -/
theorem Timestamp.year_of_read {s : String} {t : Timestamp}
    (h : Calendar.readTimestamp s = .ok t) :
    (0 ≤ t.year ∧ t.year ≤ 9999) ∨
      (t.year = -1 ∧ ∃ rest, s.toList = "0000-01-01".toList ++ rest) ∨
      (t.year = 10000 ∧ ∃ rest, s.toList = "9999-12-31".toList ++ rest) := by
  obtain ⟨y, m, d, rest, year, month, day, htext, hy, hm, hd, hdate, second, minutes, hsecond,
    hminutes, hseconds⟩ := Calendar.readTimestamp_sound h
  obtain ⟨hmonth, hday⟩ := Date.valid_of_isSome hdate
  obtain ⟨⟨hbegins, hends⟩, hfirst, hlast⟩ := dayNumber_range hmonth hday
  have hfour : year < 10 ^ 4 := hy.lt
  have hzero : newYear 0 = -719528 := by decide
  have hend : newYear 10000 = 2932897 := by decide
  have hstart : newYear 0 ≤ newYear year := newYear_strictMono.monotone (by omega)
  have hstop : newYear (year + 1) ≤ newYear 10000 := newYear_strictMono.monotone (by omega)
  -- the moment is less than two days away from the beginning of the day of the text
  have hnear : dayNumber year month day - 1 ≤ t.day ∧ t.day ≤ dayNumber year month day + 1 := by
    rw [Timestamp.day]
    omega
  have hyear : ∀ n : Int, n ≤ t.year ↔ newYear n ≤ t.day := fun n => le_year_civil_iff n t.day
  by_cases hbefore : t.day < newYear 0
  · -- the day of the text is the first of its year, and this year is the year zero
    obtain ⟨rfl, rfl⟩ := hfirst (by omega)
    have hsame : newYear year = newYear 0 := by omega
    obtain rfl : year = 0 := by exact_mod_cast newYear_strictMono.injective hsame
    have hlow : newYear (-1) = -719893 := by decide
    refine .inr (.inl ⟨?_, rest, ?_⟩)
    · have := hyear (-1)
      have := hyear 0
      omega
    · have hyears : Calendar.Digits 4 "0000".toList 0 := ⟨rfl, by decide, rfl⟩
      have hones : Calendar.Digits 2 "01".toList 1 := ⟨rfl, by decide, rfl⟩
      rw [htext, hy.eq hyears, hm.eq hones, hd.eq hones]
      rfl
  · by_cases hbehind : newYear 10000 ≤ t.day
    · -- the day of the text is the last of its year, and this year is 9999
      obtain ⟨rfl, rfl⟩ := hlast (by omega)
      have hsame : newYear (year + 1) = newYear 10000 := by omega
      have hyear' : (year : Int) + 1 = 10000 := newYear_strictMono.injective hsame
      obtain rfl : year = 9999 := by omega
      have hhigh : newYear 10001 = 2933263 := by decide
      refine .inr (.inr ⟨?_, rest, ?_⟩)
      · have := hyear 10000
        have := hyear 10001
        omega
      · have hyears : Calendar.Digits 4 "9999".toList 9999 := ⟨rfl, by decide, rfl⟩
        have htwelve : Calendar.Digits 2 "12".toList 12 := ⟨rfl, by decide, rfl⟩
        have hlastday : Calendar.Digits 2 "31".toList 31 := ⟨rfl, by decide, rfl⟩
        rw [htext, hy.eq hyears, hm.eq htwelve, hd.eq hlastday]
        rfl
    · have := hyear 0
      have := hyear 10000
      exact .inl (by omega)

/-! ## Accepted texts -/

/-- What a column reads of a text is what the calendar reads. -/
theorem Scalar.timestampOfText_eq_ok {s : String} {t : Timestamp} :
    timestampOfText s = .ok t ↔ Calendar.readTimestamp s = .ok t := by
  rw [timestampOfText]
  cases Calendar.readTimestamp s with
  | error fault => constructor <;> intro h <;> cases h
  | ok t' => exact ⟨fun h => congrArg _ (Except.ok.inj h), fun h => congrArg _ (Except.ok.inj h)⟩

namespace Timestamp

/-- **What a text that is accepted comes to.** It may give any offset, any
number of digits behind the point, a leap second and letters of either case.
What is stored for it is the moment in universal time, and this is read back
as the moment of the text, and is stored as it is when it is supplied again –
unless the offset leads out of the years of four digits. Then the text that is
stored is refused by both. -/
theorem stored_of_accept {s : String} {t : Timestamp}
    (h : (Codec.scalar .timestamp).accept (.text s) = .ok t) :
    let c : Codec := .scalar .timestamp
    let refusal : ValueError := .invalidValue (.notTimestamp t.text .invalid)
    c.bind (.text s) = .ok (.text t.text) ∧ c.decode (.text s) = .ok t ∧
      ((0 ≤ t.year ∧ t.year ≤ 9999) ∧ c.decode (.text t.text) = .ok t ∧
          c.bind (.text t.text) = .ok (.text t.text) ∨
        ((t.year = -1 ∧ ∃ rest, s.toList = "0000-01-01".toList ++ rest) ∨
            (t.year = 10000 ∧ ∃ rest, s.toList = "9999-12-31".toList ++ rest)) ∧
          c.decode (.text t.text) = .error refusal ∧
          c.bind (.text t.text) = .error refusal) := by
  intro c refusal
  have hread : Calendar.readTimestamp s = .ok t := Scalar.timestampOfText_eq_ok.mp h
  have hbind : ∀ text, c.bind (.text text) = (Scalar.timestampOfText text).map c.encode :=
    fun _ => rfl
  have hdecode : ∀ text, c.decode (.text text) = Scalar.timestampOfText text := fun _ => rfl
  have hs : Scalar.timestampOfText s = .ok t := h
  refine ⟨by rw [hbind, hs]; rfl, hs, ?_⟩
  obtain hyear | hbeyond := year_of_read hread
  · have hback := Scalar.timestampOfText_eq_ok.mpr (Calendar.readTimestamp_text hyear)
    exact .inl ⟨hyear, hback, by rw [hbind, hback]; rfl⟩
  · have hrefused : Scalar.timestampOfText t.text = .error refusal := by
      rw [Scalar.timestampOfText, Calendar.readTimestamp_text_of_not (by omega)]
      rfl
    exact .inr ⟨hbeyond, hrefused, by rw [hbind, hrefused]; rfl⟩

/-- A leap second in small letters, with an offset and with more digits than
count. -/
theorem stored_of_accept_leap_second :
    let c : Codec := .scalar .timestamp
    let s := "2016-12-31t21:59:60.1234567891-02:00"
    ∃ t : Timestamp, c.accept (.text s) = .ok t ∧ t.text = "2016-12-31T23:59:60.123456789Z" ∧
      c.bind (.text s) = .ok (.text t.text) ∧ c.decode (.text s) = .ok t ∧
      c.decode (.text t.text) = .ok t ∧ c.bind (.text t.text) = .ok (.text t.text) := by
  intro c s
  let t : Timestamp := ⟨1483228799, 1123456789, by decide, by decide, by decide⟩
  have hread : Calendar.readTimestamp s = .ok t := by decide +kernel
  have haccept : c.accept (.text s) = .ok t := Scalar.timestampOfText_eq_ok.mpr hread
  have htext : t.text = "2016-12-31T23:59:60.123456789Z" := by decide +kernel
  have hyear : t.year = 2016 := by decide +kernel
  obtain ⟨hbind, hdecode, ⟨-, hback, hagain⟩ | ⟨⟨hbeyond, -⟩ | ⟨hbeyond, -⟩, -⟩⟩ :=
    stored_of_accept haccept
  · exact ⟨t, haccept, htext, hbind, hdecode, hback, hagain⟩
  · exact absurd (hyear.symm.trans hbeyond) (by decide)
  · exact absurd (hyear.symm.trans hbeyond) (by decide)

/-- **The first hour of the year zero** is accepted with an offset of one hour,
and what is stored for it is refused, when it is read and when it is supplied
again. -/
theorem stored_unreadable :
    let c : Codec := .scalar .timestamp
    let s := "0000-01-01T00:00:00+01:00"
    let stored := "-0001-12-31T23:00:00Z"
    (∃ t, c.accept (.text s) = .ok t ∧ c.decode (.text s) = .ok t) ∧
      c.bind (.text s) = .ok (.text stored) ∧
      c.decode (.text stored) = .error (.invalidValue (.notTimestamp stored .invalid)) ∧
      c.bind (.text stored) = .error (.invalidValue (.notTimestamp stored .invalid)) :=
  ⟨⟨_, rfl, rfl⟩, rfl, rfl, rfl⟩

end Timestamp

end TypedSql
