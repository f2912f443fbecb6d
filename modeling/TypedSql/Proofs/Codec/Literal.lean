import TypedSql.Proofs.Number.Double
import TypedSql.Proofs.Sql.Piece

/-!
# A literal says what an argument says

A value can reach the engine in two ways: as an argument beside the statement
or as a literal inside it. The two are written by different means – an
argument needs no quotes – and `Codec.literal_says_encode` says that they never
part. Read by the rules of the language, a literal gives back the argument:
the same text, the same bytes, no value where there is none.

The rules are those of `Literal.read?`. Between single quotes stands a text,
with every quote in it written twice; behind an `X` stand bytes, two digits
for each; `NULL` is no value; and anything else has to be a number. What a
number is, is kept strict on purpose, because a literal without quotes would
otherwise say something else than one value, or nothing.
-/

namespace TypedSql

/-! ## Bytes from their digits -/

namespace Text

/-- The value of a hexadecimal digit of either case. -/
def hexValue? (c : Char) : Option Nat :=
  if '0' ≤ c ∧ c ≤ '9' then some (c.toNat - 48)
  else if 'A' ≤ c ∧ c ≤ 'F' then some (c.toNat - 55)
  else if 'a' ≤ c ∧ c ≤ 'f' then some (c.toNat - 87)
  else none

/-- **The bytes of their digits**, two for each. -/
def unhex? : List Char → Option (List UInt8)
  | [] => some []
  | [_] => none
  | high :: low :: cs =>
    match hexValue? high, hexValue? low with
    | some h, some l => (unhex? cs).map (UInt8.ofNat (16 * h + l) :: ·)
    | _, _ => none

theorem hexValue?_hexDigit {n : Nat} (h : n < 16) : hexValue? (hexDigit n) = some n := by
  revert n
  decide

/-- **Bytes are read back from their digits.** -/
theorem unhex?_hex (bytes : List UInt8) : unhex? (hex bytes) = some bytes := by
  induction bytes with
  | nil => rfl
  | cons b bytes ih =>
    have hb : b.toNat < 256 := b.toNat_lt
    have hhigh : hexValue? (hexDigit (b.toNat / 16)) = some (b.toNat / 16) :=
      hexValue?_hexDigit (by omega)
    have hlow : hexValue? (hexDigit (b.toNat % 16)) = some (b.toNat % 16) :=
      hexValue?_hexDigit (by omega)
    have hbyte : UInt8.ofNat (16 * (b.toNat / 16) + b.toNat % 16) = b := by
      rw [Nat.div_add_mod, UInt8.ofNat_toNat]
    show unhex? (hexDigit (b.toNat / 16) :: hexDigit (b.toNat % 16) :: hex bytes) = _
    rw [unhex?, hhigh, hlow]
    simp only [ih, hbyte, Option.map_some]

end Text

/-! ## Reading a literal -/

namespace Literal

/-- **Whether a token is a number**: a digit comes first, and the whole of it
is a decimal numeral. -/
def isNumber (cs : List Char) : Bool := cs.head?.any Char.isDigit && (Numeral.read? cs).isSome

/-- The argument that tokens stand for, if they are one literal. -/
def argument? : List Token → Option Argument
  | [.null] => some .null
  | [.text cs] => some (.text (String.ofList cs))
  | [.blob digits] => (Text.unhex? digits).map .blob
  | [.number cs] => if isNumber cs then some (.text (String.ofList cs)) else none
  | [.op .sub, .number cs] =>
    if isNumber cs then some (.text (String.ofList ('-' :: cs))) else none
  | _ => none

/-- **Reads a literal.** -/
def read? (s : String) : Option Argument := argument? (Token.lex s.toList)

/-- **A literal between quotes**: a text, or bytes with the letter in front. -/
def Quoted (s : String) : Prop :=
  ∃ cs, s.toList = '\'' :: cs ∨ s.toList = 'X' :: '\'' :: cs

/-- **A literal that is a number**: digits, signs, a point and the letter of
an exponent are all that it has, and it is one number, perhaps with a minus in
front. -/
def Numeric (s : String) : Prop :=
  (∀ c ∈ s.toList, c.isDigit = true ∨ c ∈ ['+', '-', '.', 'e', 'E']) ∧
    ∃ cs, isNumber cs = true ∧ (s.toList = cs ∨ s.toList = '-' :: cs)

theorem read?_textLiteral (s : String) : read? (textLiteral s) = some (.text s) := by
  have htokens : Token.lex (textLiteral s).toList = [.text s.toList] := by
    rw [Token.lex, Token.scan_textLiteral]
    rfl
  rw [read?, htokens, argument?, String.ofList_toList]

/-- Digits behind an `X` are read as the bytes that they were written for. -/
theorem read?_blobLiteral (bytes : List UInt8) :
    read? (blobLiteral bytes) = some (.blob bytes) := by
  have htokens : Token.lex (blobLiteral bytes).toList = [.blob (Text.hex bytes)] := by
    rw [Token.lex, Token.scan_blobLiteral]
    rfl
  rw [read?, htokens, argument?, Text.unhex?_hex]
  rfl

theorem read?_null : read? "NULL" = some .null := by
  have htokens : Token.lex "NULL".toList = [.null] := by decide
  rw [read?, htokens, argument?]

end Literal

/-! ## Numbers

A number has no quotes to keep it together. It is one token because all of its
characters may go on a number, and it is a literal of its own because a digit
comes first. Both are read off the form in which numbers are written
(`WrittenMagnitude`), whichever algorithm wrote it. -/

/-- The characters of a number. -/
theorem WrittenMagnitude.isDigit_or {cs : List Char} (h : WrittenMagnitude cs) :
    ∀ c ∈ cs, c.isDigit = true ∨ c ∈ ['+', '-', '.', 'e', 'E'] := by
  obtain ⟨d, ds, rfl, hd, hds⟩ := h
  intro c hc
  rcases List.mem_cons.mp hc with rfl | hc
  · exact .inl hd
  · rcases hds c hc with hdigit | rfl | rfl
    · exact .inl hdigit
    · exact .inr (by decide)
    · exact .inr (by decide)

/-- A numeral is one with a minus in front of it and without. -/
theorem WrittenMagnitude.isSome_read?_minus {cs : List Char} (h : WrittenMagnitude cs) :
    (Numeral.read? ('-' :: cs)).isSome = (Numeral.read? cs).isSome := by
  have hsign : splitSign ('-' :: cs) = (true, cs) := rfl
  unfold Numeral.read?
  rw [hsign, splitSign_magnitude h]
  simp only [apply_ite Option.isSome, Option.isSome_map]

/-- A numeral in the form in which numbers are written begins with a digit. -/
theorem WrittenMagnitude.isNumber {cs : List Char} (h : WrittenMagnitude cs)
    (hread : (Numeral.read? cs).isSome = true) : Literal.isNumber cs = true := by
  obtain ⟨d, ds, rfl, hd, -⟩ := h
  rw [Literal.isNumber, hread, List.head?_cons, Option.any_some, hd]
  rfl

namespace Literal

/-- **A number is read as it was written**, and it is one token. -/
theorem read?_number {s : String} (h : WrittenNumber s.toList)
    (hread : (Numeral.read? s.toList).isSome = true) :
    read? s = some (.text s) ∧ Numeric s := by
  have hself : String.ofList s.toList = s := String.ofList_toList
  unfold Numeric read?
  generalize s.toList = cs at h hread hself ⊢
  subst hself
  cases h with
  | positive hcs =>
    have hnumber := hcs.isNumber hread
    have htokens : Token.lex cs = [.number cs] := by
      rw [Token.lex, Lexeme.scan_magnitude hcs]
      rfl
    rw [htokens, argument?, if_pos hnumber]
    exact ⟨rfl, hcs.isDigit_or, cs, hnumber, .inl rfl⟩
  | @negative cs hcs =>
    have hnumber := hcs.isNumber (hcs.isSome_read?_minus ▸ hread)
    have htokens : Token.lex ('-' :: cs) = [.op .sub, .number cs] := by
      rw [Token.lex, Lexeme.scan_negative hcs]
      rfl
    rw [htokens, argument?, if_pos hnumber]
    refine ⟨rfl, fun c hc => ?_, cs, hnumber, .inr rfl⟩
    rcases List.mem_cons.mp hc with rfl | hc
    · exact .inr (by decide)
    · exact hcs.isDigit_or c hc

end Literal

theorem isSome_read?_integerText (n : Int) :
    (Numeral.read? (integerText n).toList).isSome = true := by
  have hdigits : ∀ c ∈ Nat.toDigits 10 n.natAbs, c.isDigit = true := fun _ =>
    Nat.isDigit_of_mem_toDigits (by omega) (by omega)
  obtain ⟨m, hm, -⟩ := Numeral.readsAs_digits Nat.toDigits_ne_nil hdigits (decide (n < 0))
  simp only [decide_eq_true_eq] at hm
  rw [integerText, String.toList_ofList, hm]
  rfl

/-- A scalar of a numeric storage class hands over numerals. -/
theorem Scalar.isSome_read?_encode {s : Scalar} {v : s.Value} {t : String}
    (hclass : s.storageClass = .integer ∨ s.storageClass = .real) (h : s.encode v = .text t) :
    (Numeral.read? t.toList).isSome = true := by
  cases s with
  | long => exact Argument.text.inj h ▸ isSome_read?_integerText _
  | int => exact Argument.text.inj h ▸ isSome_read?_integerText _
  | real =>
    obtain ⟨n, hn, -⟩ := Double.read?_encodeReal h
    rw [hn]
    rfl
  | bool =>
    rw [← Argument.text.inj h]
    cases v <;> decide
  | text | blob | timestamp | date | enumeration => simp [storageClass] at hclass

/-! ## Literals and arguments -/

/-- What is asked of a literal: it is read as the argument, and if it is
neither `NULL` nor between quotes it is a number. -/
def Literal.Says (s : String) (a : Argument) : Prop :=
  Literal.read? s = some a ∧ (s = "NULL" ∨ Literal.Quoted s ∨ Literal.Numeric s)

/-- **A scalar says the same** as a literal and as an argument. -/
theorem Scalar.literal_says (s : Scalar) (v : s.Value) :
    Literal.Says (literalText s.storageClass (s.encode v)) (s.encode v) := by
  cases hencode : s.encode v with
  | null => exact ⟨Literal.read?_null, .inl rfl⟩
  | blob bytes =>
    have hquoted : Literal.Quoted (blobLiteral bytes) :=
      ⟨_, .inr (by rw [blobLiteral, String.toList_ofList, List.cons_append, List.cons_append])⟩
    exact ⟨Literal.read?_blobLiteral bytes, .inr (.inl hquoted)⟩
  | text t =>
    rw [literalText]
    split
    · next hclass =>
      obtain ⟨hread, hnumeric⟩ := Literal.read?_number (Scalar.encode_written hclass hencode)
        (Scalar.isSome_read?_encode hclass hencode)
      exact ⟨hread, .inr (.inr hnumeric)⟩
    · have hquoted : Literal.Quoted (textLiteral t) :=
        ⟨_, .inl (by rw [textLiteral, Text.toList_quoted, List.cons_append])⟩
      exact ⟨Literal.read?_textLiteral t, .inr (.inl hquoted)⟩

namespace Codec

theorem literal_some (c : Codec) (v : c.Value) : (nullable c).literal (some v) = c.literal v := rfl

theorem literal_shared (c : Codec) (v : c.Value) : (shared c).literal v = c.literal v := rfl

/-- **The literal of a value** is `NULL`, or that of a scalar inside the codec,
and the argument goes with it. -/
theorem literal_cases (c : Codec) (v : c.Value) :
    c.literal v = "NULL" ∧ c.encode v = .null ∨
      ∃ (s : Scalar) (w : s.Value), c.literal v = literalText s.storageClass (s.encode w) ∧
        c.encode v = s.encode w := by
  induction c with
  | scalar s => exact .inr ⟨s, v, rfl, rfl⟩
  | nullable c ih =>
    cases v with
    | none => exact .inl ⟨rfl, rfl⟩
    | some v => exact ih v
  | shared c ih => exact ih v

/-- **A literal says the same as an argument.** Read by the rules of the
language it is the argument of the value, whatever the value and however the
codec is wrapped; and one that is neither `NULL` nor between quotes is a
single number. -/
theorem literal_says_encode (c : Codec) (v : c.Value) :
    Literal.read? (c.literal v) = some (c.encode v) ∧
      (c.literal v = "NULL" ∨ Literal.Quoted (c.literal v) ∨ Literal.Numeric (c.literal v)) := by
  obtain ⟨hnull, hargument⟩ | ⟨s, w, hliteral, hargument⟩ := c.literal_cases v
  · rw [hnull, hargument]
    exact ⟨Literal.read?_null, .inl rfl⟩
  · rw [hliteral, hargument]
    exact s.literal_says w

/-- A quote in a text, and a text that looks like no value. -/
example : Codec.text.literal "it's" = "'it''s'" ∧
    Literal.read? (Codec.text.literal "NULL") = some (.text "NULL") := by decide

end Codec

end TypedSql
