/-!
# Hexadecimal text

Bytes as pairs of capital hexadecimal digits.
-/

namespace TypedSql.Text

/-- The hexadecimal digit of a number below sixteen, a capital letter from
ten on. -/
def hexDigit (n : Nat) : Char :=
  if n < 10 then Char.ofNat (48 + n) else Char.ofNat (55 + n)

/-- Two digits for every byte, the higher one first. -/
def hex (bytes : List UInt8) : List Char :=
  bytes.flatMap fun b => [hexDigit (b.toNat / 16), hexDigit (b.toNat % 16)]

/-- Two digits for every byte. -/
@[simp] theorem length_hex (bytes : List UInt8) : (hex bytes).length = 2 * bytes.length := by
  induction bytes with
  | nil => rfl
  | cons b bs ih =>
    simp only [hex, List.flatMap_cons, List.length_append, List.length_cons,
      List.length_nil] at *
    omega

end TypedSql.Text
