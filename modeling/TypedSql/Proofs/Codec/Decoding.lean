import TypedSql.Proofs.Codec.RoundTrip
import TypedSql.Query

/-!
# Cells are read as they are, or not at all

What becomes of a cell is decided by its class. A codec reads the cells of its
own class, and a codec of doubles reads integers too (`StorageClass.Reads`). A
cell of any other class is refused for its class, a cell of one of these
classes at most for what is in it, and an empty cell is the missing value or
is refused as such (`Codec.DecodesFast`).

Layers around a scalar type do not matter to a cell that is not empty: they
only put the value into as many wrappers (`Codec.decode_of_ne_null`). So it is
enough to look at scalar types. Most of them read a cell in one way only, and
write what they have read as they found it (`Scalar.isExact`). The others have
several written forms for a value: a truth value is any number, a moment may
be told with any offset.
-/

namespace TypedSql

/-- **Whether a codec reads a cell**, by their classes: the cell is of the
codec's own class, or an integer where doubles are stored. -/
def StorageClass.Reads (own found : StorageClass) : Prop :=
  found = own ∨ own = .real ∧ found = .integer

/-! ## Scalar types -/

namespace Scalar

variable {s : Scalar} {cell : Cell}

/-- Whether a scalar type has one form for each of its values, so that nothing
is lost when a cell is read. -/
def isExact : Scalar → Bool
  | .long | .int | .text | .blob | .enumeration _ => true
  | .real | .bool | .timestamp | .date => false

/-- **A cell of a class that is not read** is refused for it. -/
theorem decode_of_not_reads (hcell : cell ≠ .null)
    (h : ¬ s.storageClass.Reads cell.storageClass) :
    s.decode cell = .error (.typeMismatch s.storageClass cell.storageClass) := by
  cases cell with
  | null => exact absurd rfl hcell
  | integer n =>
    cases s with
    | long | int | bool => exact absurd (.inl rfl) h
    | real => exact absurd (.inr ⟨rfl, rfl⟩) h
    | text | blob | timestamp | date | enumeration => rfl
  | real x =>
    cases s with
    | real => exact absurd (.inl rfl) h
    | _ => rfl
  | text t =>
    cases s with
    | text | timestamp | date | enumeration => exact absurd (.inl rfl) h
    | long | int | real | blob | bool => rfl
  | blob bytes =>
    cases s with
    | blob => exact absurd (.inl rfl) h
    | _ => rfl

/-- An integer is read where integers or doubles are stored, unless it is too
wide. -/
theorem ofInteger_of_reads (h : s.storageClass.Reads .integer) (n : Int64) :
    (∃ v, s.ofInteger n = .ok v) ∨ ∃ cause, s.ofInteger n = .error (.invalidValue cause) := by
  cases s with
  | long | bool | real => exact .inl ⟨_, rfl⟩
  | int =>
    rw [ofInteger, narrow]
    split
    · exact .inl ⟨_, rfl⟩
    · exact .inr ⟨_, rfl⟩
  | text | blob | timestamp | date | enumeration => rcases h with h | ⟨h, -⟩ <;> cases h

/-- A text is read where text is stored, unless it is none of the texts of the
type. -/
theorem ofText_of_reads (h : s.storageClass.Reads .text) (t : String) :
    (∃ v, s.ofText t = .ok v) ∨ ∃ cause, s.ofText t = .error (.invalidValue cause) := by
  cases s with
  | text => exact .inl ⟨_, rfl⟩
  | timestamp =>
    rw [ofText, timestampOfText]
    cases Calendar.readTimestamp t with
    | ok moment => exact .inl ⟨_, rfl⟩
    | error fault => exact .inr ⟨_, rfl⟩
  | date =>
    rw [ofText, dateOfText]
    cases Calendar.readDate t with
    | ok day => exact .inl ⟨_, rfl⟩
    | error fault => exact .inr ⟨_, rfl⟩
  | enumeration e =>
    rw [ofText, variantOfText]
    split
    · exact .inl ⟨_, rfl⟩
    · exact .inr ⟨_, rfl⟩
  | long | int | real | blob | bool => rcases h with h | ⟨-, h⟩ <;> cases h

/-- **A cell of a class that is read** is refused at most for what is in
it. -/
theorem decode_of_reads (h : s.storageClass.Reads cell.storageClass) :
    (∃ v, s.decode cell = .ok v) ∨ ∃ cause, s.decode cell = .error (.invalidValue cause) := by
  cases cell with
  | null =>
    rcases h with h | ⟨-, h⟩
    · cases s <;> cases h
    · cases h
  | integer n => exact ofInteger_of_reads h n
  | real x =>
    cases s with
    | real => exact .inl ⟨_, rfl⟩
    | _ => rcases h with h | ⟨-, h⟩ <;> cases h
  | text t => exact ofText_of_reads h t
  | blob bytes =>
    cases s with
    | blob => exact .inl ⟨_, rfl⟩
    | _ => rcases h with h | ⟨-, h⟩ <;> cases h

/-- An integer that was narrowed is the same number. -/
theorem toInt_of_narrow {n : Int64} {m : Int32} (h : narrow n = .ok m) : m.toInt = n.toInt := by
  rw [narrow, int32?] at h
  split at h
  · next hfits =>
    split at hfits
    · next hrange =>
      rw [← Except.ok.inj h, ← Option.some.inj hfits]
      exact Int32.toInt_ofInt_of_le hrange.1 (Int.lt_add_one_of_le hrange.2)
    · cases hfits
  · cases h

theorem nameOf_of_variantOfText {e : Enumeration} {t : String} {v : e.Value}
    (h : variantOfText e t = .ok v) : e.nameOf v = t := by
  rw [variantOfText] at h
  split at h
  · next hname =>
    obtain rfl := Except.ok.inj h
    exact (List.finIdxOf?_eq_some_iff.mp hname).1
  · cases h

/-- **What is read exactly is stored as it was.** -/
theorem store_encode_of_decode (hexact : s.isExact = true) {v : s.Value}
    (h : s.decode cell = .ok v) : Cell.store s.storageClass (s.encode v) = cell := by
  cases s with
  | long =>
    cases cell with
    | integer n =>
      obtain rfl := Except.ok.inj h
      exact Cell.store_integerText (int64?_toInt n)
    | _ => cases h
  | int =>
    cases cell with
    | integer n =>
      refine Cell.store_integerText ?_
      rw [toInt_of_narrow h, int64?_toInt]
    | _ => cases h
  | text =>
    cases cell with
    | text t => exact congrArg Cell.text (Except.ok.inj h).symm
    | _ => cases h
  | blob =>
    cases cell with
    | blob bytes => exact congrArg Cell.blob (Except.ok.inj h).symm
    | _ => cases h
  | enumeration e =>
    cases cell with
    | text t => exact congrArg Cell.text (nameOf_of_variantOfText h)
    | _ => cases h
  | real | bool | timestamp | date => cases hexact

end Scalar

/-! ## Layers

A codec is a scalar type in wrappers, and a wrapper looks at the cell only to
see whether it is empty. So the empty cell is treated apart, with the outermost
layer that can carry the missing value (`missing?`), and every other cell goes
to the scalar type, whose value is put into all the wrappers at once (`wrap`).
Both are one induction over the codec; what is said behind them needs none. -/

namespace Codec

/-- **The missing value** of a codec that carries one, by its outermost
layer. -/
def missing? : (c : Codec) → Option c.Value
  | .scalar _ => none
  | .nullable _ => some none
  | .shared c => c.missing?

/-- A value of the scalar type in all wrappers of a codec. -/
def wrap : (c : Codec) → c.scalarType.Value → c.Value
  | .scalar _, v => v
  | .nullable c, v => some (c.wrap v)
  | .shared c, v => c.wrap v

theorem isSome_missing?_iff {c : Codec} : c.missing?.isSome = true ↔ 0 < c.layers := by
  induction c with
  | scalar s => exact iff_of_false Bool.false_ne_true (Nat.lt_irrefl 0)
  | nullable c _ => exact iff_of_true rfl (Nat.succ_pos _)
  | shared c ih => exact ih

/-- **An empty cell** is the missing value, if there is one. -/
theorem decode_null_eq (c : Codec) :
    c.decode .null = c.missing?.elim (.error .unexpectedNull) .ok := by
  induction c with
  | scalar s => rfl
  | nullable c _ => rfl
  | shared c ih => exact ih

/-- **A cell that is not empty** is read by the scalar type, whatever is around
it. -/
theorem decode_of_ne_null (c : Codec) {cell : Cell} (h : cell ≠ .null) :
    c.decode cell = (c.scalarType.decode cell).map c.wrap := by
  induction c with
  | scalar s =>
    show s.decode cell = (s.decode cell).map fun v => v
    cases s.decode cell <;> rfl
  | nullable c ih =>
    have hlayer : (nullable c).decode cell = (c.decode cell).map some := by
      cases cell with
      | null => exact absurd rfl h
      | integer | real | text | blob => rfl
    rw [hlayer, ih]
    show _ = (c.scalarType.decode cell).map fun v => some (c.wrap v)
    cases c.scalarType.decode cell <;> rfl
  | shared c ih => exact ih

theorem encode_wrap (c : Codec) (v : c.scalarType.Value) :
    c.encode (c.wrap v) = c.scalarType.encode v := by
  induction c with
  | scalar s => rfl
  | nullable c ih => exact ih v
  | shared c ih => exact ih v

theorem storageClass_scalarType (c : Codec) : c.scalarType.storageClass = c.storageClass := by
  induction c with
  | scalar s => rfl
  | nullable c ih => exact ih
  | shared c ih => exact ih

/-- **A codec that reads a cell as it is, or refuses it.** -/
structure DecodesFast (c : Codec) : Prop where
  /-- An empty cell is the missing value, or there is nothing to read. -/
  null : c.decode .null = c.missing?.elim (.error .unexpectedNull) .ok
  /-- There is a missing value exactly where there is a layer for it. -/
  missing : c.missing?.isSome = true ↔ 0 < c.layers
  /-- Any other cell whose class is not read is refused for its class. -/
  otherClass : ∀ cell, cell ≠ .null → ¬ c.storageClass.Reads cell.storageClass →
    c.decode cell = .error (.typeMismatch c.storageClass cell.storageClass)
  /-- A cell whose class is read is read, or refused for what is in it. -/
  ownClass : ∀ cell, cell ≠ .null → c.storageClass.Reads cell.storageClass →
    (∃ v, c.decode cell = .ok v) ∨ ∃ cause, c.decode cell = .error (.invalidValue cause)
  /-- What a codec reads that is exact is stored as the very same cell. -/
  exact : c.scalarType.isExact = true → ∀ cell v, cell ≠ .null → c.decode cell = .ok v →
    Cell.store c.storageClass (c.encode v) = cell

/-- **Every codec** reads a cell as it is, or refuses it. -/
theorem decodesFast (c : Codec) : c.DecodesFast where
  null := c.decode_null_eq
  missing := isSome_missing?_iff
  otherClass cell hcell h := by
    rw [← c.storageClass_scalarType] at h ⊢
    rw [c.decode_of_ne_null hcell, Scalar.decode_of_not_reads hcell h]
    rfl
  ownClass cell hcell h := by
    rw [← c.storageClass_scalarType] at h
    rw [c.decode_of_ne_null hcell]
    obtain ⟨v, hv⟩ | ⟨cause, hcause⟩ := Scalar.decode_of_reads h
    · exact .inl ⟨c.wrap v, by rw [hv]; rfl⟩
    · exact .inr ⟨cause, by rw [hcause]; rfl⟩
  exact hexact cell v hcell h := by
    rw [c.decode_of_ne_null hcell] at h
    cases hinner : c.scalarType.decode cell with
    | error cause =>
      rw [hinner] at h
      cases h
    | ok inner =>
      rw [hinner] at h
      obtain rfl := Except.ok.inj h
      rw [encode_wrap, ← c.storageClass_scalarType]
      exact Scalar.store_encode_of_decode hexact hinner

end Codec

/-! ## Rows

A cursor finds the cell by the place of the expression in the select list, and
that can fail by itself. Where it does, neither way of reading is tried. -/

/-- **The two ways to read an expression off a row**, of which one reads an
empty cell as none. -/
structure Cursor.ReadsOptionally (c : Cursor) (e : Expr) : Prop where
  /-- Where there is no cell, both say why. -/
  noCell : ∀ cause, c.cell e = .error cause →
    c.get e = .error cause ∧ c.getOptional e = .error cause
  /-- An empty cell is read as none, whatever the codec is. -/
  null : c.cell e = .ok .null → c.getOptional e = .ok none
  /-- On any other cell they agree, and it is the codec that reads it. -/
  agree : ∀ cell, c.cell e = .ok cell → cell ≠ .null →
    c.get e = e.codec.decode cell ∧ c.getOptional e = (c.get e).map some

/-- **Every expression** is read in these two ways. -/
theorem Cursor.readsOptionally (c : Cursor) (e : Expr) : c.ReadsOptionally e where
  noCell cause h := by
    rw [get, getOptional, h]
    exact ⟨rfl, rfl⟩
  null h := by
    rw [getOptional, h]
    rfl
  agree cell h hcell := by
    have hget : c.get e = e.codec.decode cell := by
      rw [get, h]
      rfl
    have hsome : ∀ read : Except ValueError e.codec.Value,
        (do return some (← read)) = read.map some := fun read => by cases read <;> rfl
    refine ⟨hget, ?_⟩
    rw [hget, getOptional, h]
    cases cell with
    | null => exact absurd rfl hcell
    | integer | real | text | blob => exact hsome _

/-- **Reading fails at once, for the right reason, or alters nothing**: a codec
refuses a cell for its class or for what is in it, an exact one gives back the
cell that it has read, and reading a value that may be missing is reading it,
but for the empty cell. -/
theorem Codec.decode_failsFast :
    (∀ c : Codec, c.DecodesFast) ∧ ∀ (c : Cursor) (e : Expr), c.ReadsOptionally e :=
  ⟨Codec.decodesFast, Cursor.readsOptionally⟩

end TypedSql
