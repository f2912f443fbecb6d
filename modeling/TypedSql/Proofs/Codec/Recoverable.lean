import TypedSql.Proofs.Calendar.Text
import TypedSql.Proofs.Codec.RoundTrip

/-!
# Values that a column keeps

What a caller supplies for a value is an argument of the engine
(`Codec.bind_supply`), and what a column makes of the argument is read as the
value again (`Codec.decode_store_of_recoverable`), for every codec and for
every value that is `Codec.Recoverable`: all but what is no number, moments
of a year that does not have four digits, and a missing value inside a value
that is there, for which the engine has no way of its own.

Enumerations are supplied by name. The missing value is why the inductions
over codecs go through `Codec.Present`: a codec that adds the missing value
tells `none` from `some v` by what stands in the cell, so the step needs that
the cell of `v` is not `NULL`, and this is so only if `v` is there itself
(`Codec.encode_ne_null`, `Cell.store_ne_null`). A codec that adds the missing
value once asks nothing by that.
-/

namespace TypedSql

/-! ## Supplied values -/

/-- **What a caller supplies for a scalar.** -/
def Scalar.supply : (s : Scalar) → s.Value → HostValue
  | .long => .int
  | .int => fun n => .int n.toInt64
  | .real => .float
  | .text => .text
  | .blob => .blob
  | .bool => .bool
  | .timestamp => .ofTimestamp
  | .date => .ofDate
  | .enumeration e => fun v => .text (e.nameOf v)

/-- **What a caller supplies for a value.** -/
def Codec.supply : (c : Codec) → c.Value → HostValue
  | .scalar s => s.supply
  | .nullable c => .ofOption c.supply
  | .shared c => c.supply

/-! ## Values that can be recovered

What is excluded is what the engine has no cell for. A double that is no number
is stored as nothing; a moment outside of the years of four digits has a text
that is not read; and of two missing values one inside the other both are the
same empty cell. -/

/-- **A scalar that can be recovered.** -/
def Scalar.Recoverable : (s : Scalar) → s.Value → Prop
  | .real, x => Double.meaning x ≠ .nan
  | .timestamp, t => 0 ≤ t.year ∧ t.year ≤ 9999
  | _, _ => True

/-- Whether a value is there. -/
def Codec.Present : (c : Codec) → c.Value → Prop
  | .scalar _, _ => True
  | .nullable _, v => v ≠ none
  | .shared c, v => c.Present v

/-- **A value that can be recovered.** The missing value can. -/
def Codec.Recoverable : (c : Codec) → c.Value → Prop
  | .scalar s, v => s.Recoverable v
  | .nullable _, none => True
  | .nullable c, some v => c.Recoverable v ∧ c.Present v
  | .shared c, v => c.Recoverable v

/-! ## Scalars -/

namespace Scalar

variable {s : Scalar} {v : s.Value}

/-- What can be recovered has a form in which it is stored. -/
theorem Recoverable.storable (h : s.Recoverable v) : s.Storable v := by
  cases s with
  | real => exact h
  | _ => trivial

/-- A scalar is handed over as something. -/
theorem encode_ne_null (h : s.Recoverable v) : s.encode v ≠ .null := by
  intro hnull
  cases s with
  | real =>
    have hmeaning : Double.meaning v ≠ .nan := h
    rw [encode, encodeReal] at hnull
    split at hnull
    · next hnan => exact absurd hnan hmeaning
    · cases hnull
    · cases hnull
  | _ => cases hnull

theorem supply_ne_null (s : Scalar) (v : s.Value) : s.supply v ≠ .null := by
  cases s <;> nofun

/-- **A scalar is read as it was handed over.** -/
theorem decode_store_of_recoverable (h : s.Recoverable v) :
    s.decode (Cell.store s.storageClass (s.encode v)) = .ok v := by
  cases s with
  | timestamp =>
    show timestampOfText v.text = .ok v
    rw [timestampOfText, Calendar.readTimestamp_text h]
    rfl
  | date =>
    show dateOfText v.text = .ok v
    rw [dateOfText, Calendar.readDate_text]
    rfl
  | _ => exact decode_store rfl h.storable

/-- **A scalar that is supplied is accepted.** -/
theorem accept_supply (h : s.Recoverable v) : s.accept (s.supply v) = .ok v := by
  cases s with
  | timestamp =>
    show timestampOfText v.text = .ok v
    rw [timestampOfText, Calendar.readTimestamp_text h]
    rfl
  | date =>
    show dateOfText v.text = .ok v
    rw [dateOfText, Calendar.readDate_text]
    rfl
  | enumeration e =>
    show variantOfText e (e.nameOf v) = .ok v
    rw [variantOfText, Enumeration.ofName?_nameOf]
  | _ => exact accept_toHost rfl rfl v

end Scalar

/-! ## Codecs -/

/-- A column makes something of what is something. -/
theorem Cell.store_ne_null {a : Argument} (h : a ≠ .null) (affinity : StorageClass) :
    Cell.store affinity a ≠ .null := by
  have hnumeral : ∀ n, Cell.ofNumeral n ≠ .null := by
    intro n
    unfold Cell.ofNumeral
    extract_lets x
    split
    · split <;> nofun
    · nofun
  have hinteger : ∀ s, Cell.ofIntegerText s ≠ .null := by
    intro s
    unfold Cell.ofIntegerText
    extract_lets cs
    split
    · split
      · nofun
      · split
        · exact hnumeral _
        · nofun
    · nofun
  have hreal : ∀ s, Cell.ofRealText s ≠ .null := by
    intro s
    unfold Cell.ofRealText
    extract_lets cs
    split
    · split <;> nofun
    · nofun
  cases a with
  | null => exact absurd rfl h
  | blob bytes => nofun
  | text s =>
    cases affinity with
    | integer => exact hinteger s
    | real => exact hreal s
    | null | text | blob => nofun

namespace Codec

variable {c : Codec} {v : c.Value}

theorem encode_ne_null (h : c.Recoverable v) (hv : c.Present v) : c.encode v ≠ .null := by
  induction c with
  | scalar s => exact Scalar.encode_ne_null h
  | nullable c ih =>
    cases v with
    | none => exact absurd rfl hv
    | some v => exact ih h.1 h.2
  | shared c ih => exact ih h hv

theorem supply_ne_null (h : c.Recoverable v) (hv : c.Present v) : c.supply v ≠ .null := by
  induction c with
  | scalar s => exact s.supply_ne_null v
  | nullable c ih =>
    cases v with
    | none => exact absurd rfl hv
    | some v => exact ih h.1 h.2
  | shared c ih => exact ih h hv

/-- **A value is read as it was handed over.** -/
theorem decode_store_of_recoverable (h : c.Recoverable v) :
    c.decode (Cell.store c.storageClass (c.encode v)) = .ok v := by
  induction c with
  | scalar s => exact Scalar.decode_store_of_recoverable h
  | nullable c ih =>
    cases v with
    | none => rfl
    | some v =>
      have hinner := ih h.1
      have hcell := Cell.store_ne_null (encode_ne_null h.1 h.2) c.storageClass
      show (nullable c).decode (Cell.store c.storageClass (c.encode v)) = .ok (some v)
      -- the wrapper looks at the cell only to see whether it is empty
      generalize Cell.store c.storageClass (c.encode v) = cell at hinner hcell
      cases cell with
      | null => exact absurd rfl hcell
      | integer | real | text | blob => exact congrArg (Except.map some) hinner
  | shared c ih => exact ih h

/-- A value that is supplied is accepted. -/
theorem accept_supply (h : c.Recoverable v) : c.accept (c.supply v) = .ok v := by
  induction c with
  | scalar s => exact Scalar.accept_supply h
  | nullable c ih =>
    cases v with
    | none => rfl
    | some v =>
      have hinner := ih h.1
      have hsupplied := supply_ne_null h.1 h.2
      show (nullable c).accept (c.supply v) = .ok (some v)
      generalize c.supply v = supplied at hinner hsupplied
      cases supplied with
      | null => exact absurd rfl hsupplied
      | bool | int | float | text | blob => exact congrArg (Except.map some) hinner
  | shared c ih => exact ih h

/-- **A value that is supplied is bound** as it is handed over. -/
theorem bind_supply (h : c.Recoverable v) : c.bind (c.supply v) = .ok (c.encode v) := by
  rw [bind, accept_supply h]
  rfl

end Codec

end TypedSql
