import TypedSql.Proofs.Number.Double

/-!
# Values come back as they were handed over

A value is handed to the engine as an argument, the column makes a cell of
it, and the codec reads the cell. `Codec.decode_store_encode` says that the
value comes out again, the missing value included, and that a caller who
supplies the value instead of handing it over typed gets the same argument.

Two kinds of codecs are not covered. Moments and dates have their own text
and their own limits. And with two layers of missing values around a scalar,
the engine has only one way to store either of them. What is no number is
not covered among the doubles; a column stores nothing for it.
-/

namespace TypedSql

/-! ## What is covered -/

/-- Whether a scalar type is one of moments or dates. -/
def Scalar.isTemporal : Scalar → Bool
  | .timestamp | .date => true
  | _ => false

/-- How often a codec adds the missing value. -/
def Codec.layers : Codec → Nat
  | .scalar _ => 0
  | .nullable c => c.layers + 1
  | .shared c => c.layers

/-- Whether a scalar has a form in which it is stored: every value but what
is no number. -/
def Scalar.Storable : (s : Scalar) → s.Value → Prop
  | .real, x => Double.meaning x ≠ .nan
  | _, _ => True

/-- Whether a value has a form in which it is stored. The missing value has
one. -/
def Codec.Storable : (c : Codec) → c.Value → Prop
  | .scalar s, v => s.Storable v
  | .nullable _, none => True
  | .nullable c, some v => c.Storable v
  | .shared c, v => c.Storable v

/-! ## Integers of a fixed width -/

theorem int64?_toInt (n : Int64) : int64? n.toInt = some n := by
  rw [int64?, if_pos ⟨n.minValue_le_toInt, n.toInt_le⟩, Int64.ofInt_toInt]

theorem int32?_toInt (n : Int32) : int32? n.toInt = some n := by
  rw [int32?, if_pos ⟨n.minValue_le_toInt, n.toInt_le⟩, Int32.ofInt_toInt]

theorem narrow_toInt64 (n : Int32) : Scalar.narrow n.toInt64 = .ok n := by
  rw [Scalar.narrow, Int32.toInt_toInt64, int32?_toInt]

/-! ## Scalars -/

namespace Scalar

/-- **A scalar comes back as it was handed over.** -/
theorem decode_store {s : Scalar} (htemporal : s.isTemporal = false) {v : s.Value}
    (hv : s.Storable v) : s.decode (Cell.store s.storageClass (s.encode v)) = .ok v := by
  cases s with
  | long =>
    rw [encode, storageClass, Cell.store_integerText (int64?_toInt v)]
    rfl
  | int =>
    have hwide : int64? v.toInt = some v.toInt64 := by
      rw [← Int32.toInt_toInt64, int64?_toInt]
    rw [encode, storageClass, Cell.store_integerText hwide]
    exact narrow_toInt64 v
  | real =>
    rw [encode, storageClass, Cell.store_encodeReal hv]
    rfl
  | text => rfl
  | blob => rfl
  | bool =>
    have hone : Cell.store .integer (.text "1") = .integer 1 := by decide
    have hzero : Cell.store .integer (.text "0") = .integer 0 := by decide
    cases v
    · rw [encode, storageClass, if_neg Bool.false_ne_true, hzero]
      rfl
    · rw [encode, storageClass, if_pos rfl, hone]
      rfl
  | timestamp => cases htemporal
  | date => cases htemporal
  | enumeration e =>
    show variantOfText e (e.nameOf v) = .ok v
    rw [variantOfText, Enumeration.ofName?_nameOf]

/-- **A scalar that a caller supplies is accepted as it is.** -/
theorem accept_toHost {s : Scalar} (htemporal : s.isTemporal = false)
    {toHost : s.Value → HostValue} (h : s.toHost? = some toHost) (v : s.Value) :
    s.accept (toHost v) = .ok v := by
  cases s with
  | int =>
    obtain rfl := Option.some.inj h
    exact narrow_toInt64 v
  | long | real | text | blob | bool =>
    obtain rfl := Option.some.inj h
    rfl
  | timestamp => cases htemporal
  | date => cases htemporal
  | enumeration e => cases h

end Scalar

/-! ## Codecs

A layer of missing values changes nothing for a value that is there, but to
know that it is there the cell must not be empty, and a codec without such a
layer reads nothing off an empty cell (`decode_null`). This is why one layer
can be added and a second one cannot, and why the induction asks for
`layers ≤ 1`. -/

namespace Codec

/-- A codec without the missing value reads it off no cell. -/
theorem decode_null {c : Codec} (h : c.layers = 0) : c.decode .null = .error .unexpectedNull := by
  induction c with
  | scalar s => rfl
  | nullable c _ => cases h
  | shared c ih => exact ih h

theorem accept_null {c : Codec} (h : c.layers = 0) : c.accept .null = .error .unexpectedNull := by
  induction c with
  | scalar s => rfl
  | nullable c _ => cases h
  | shared c ih => exact ih h

/-- A layer of missing values reads a cell as the codec inside does, if that
finds a value. -/
theorem decode_nullable {c : Codec} (h : c.layers = 0) {cell : Cell} {v : c.Value}
    (hv : c.decode cell = .ok v) : (nullable c).decode cell = .ok (some v) := by
  cases cell with
  | null =>
    rw [decode_null h] at hv
    cases hv
  | integer | real | text | blob => exact congrArg (Except.map some) hv

/-- A layer of missing values accepts what the codec inside does. -/
theorem accept_nullable {c : Codec} (h : c.layers = 0) {supplied : HostValue} {v : c.Value}
    (hv : c.accept supplied = .ok v) : (nullable c).accept supplied = .ok (some v) := by
  cases supplied with
  | null =>
    rw [accept_null h] at hv
    cases hv
  | bool | int | float | text | blob => exact congrArg (Except.map some) hv

/-- What is supplied is accepted as the value that it was made from. -/
theorem accept_toHost {c : Codec} (htemporal : c.scalarType.isTemporal = false)
    (hlayers : c.layers ≤ 1) {toHost : c.Value → HostValue} (h : c.toHost? = some toHost)
    (v : c.Value) : c.accept (toHost v) = .ok v := by
  induction c with
  | scalar s => exact Scalar.accept_toHost htemporal h v
  | nullable c ih =>
    obtain ⟨inner, hinner, rfl⟩ := Option.map_eq_some_iff.mp h
    have hzero : c.layers = 0 := Nat.le_zero.mp (Nat.le_of_succ_le_succ hlayers)
    cases v with
    | none => rfl
    | some v => exact accept_nullable hzero (ih htemporal (by omega) hinner v)
  | shared c ih => exact ih htemporal hlayers h v

/-- What is handed over is read as the value that it was made from. -/
theorem decode_store {c : Codec} (htemporal : c.scalarType.isTemporal = false)
    (hlayers : c.layers ≤ 1) {v : c.Value} (hv : c.Storable v) :
    c.decode (Cell.store c.storageClass (c.encode v)) = .ok v := by
  induction c with
  | scalar s => exact Scalar.decode_store htemporal hv
  | nullable c ih =>
    have hzero : c.layers = 0 := Nat.le_zero.mp (Nat.le_of_succ_le_succ hlayers)
    cases v with
    | none => rfl
    | some v => exact decode_nullable hzero (ih htemporal (by omega) hv)
  | shared c ih => exact ih htemporal hlayers hv

/-- **A value comes back as it was handed over**, and it is handed over in
the same way whether it is typed or supplied. -/
theorem decode_store_encode {c : Codec} (htemporal : c.scalarType.isTemporal = false)
    (hlayers : c.layers ≤ 1) {v : c.Value} (hv : c.Storable v) :
    c.decode (Cell.store c.storageClass (c.encode v)) = .ok v ∧
      ∀ toHost, c.toHost? = some toHost → c.bind (toHost v) = .ok (c.encode v) := by
  refine ⟨decode_store htemporal hlayers hv, fun toHost h => ?_⟩
  rw [bind, accept_toHost htemporal hlayers h]
  rfl

/-- The negative zero is a double that its text could lose. -/
theorem decode_store_encode_negative_zero :
    (nullable (shared real)).scalarType.isTemporal = false ∧
      (nullable (shared real)).layers ≤ 1 ∧
      (nullable (shared real)).Storable (some (Float.ofBits 0x8000000000000000)) ∧
      (nullable (shared real)).decode (Cell.store .real
        ((nullable (shared real)).encode (some (Float.ofBits 0x8000000000000000))))
        = .ok (some (Float.ofBits 0x8000000000000000)) ∧
      (nullable (shared real)).bind (.float (Float.ofBits 0x8000000000000000))
        = .ok ((nullable (shared real)).encode (some (Float.ofBits 0x8000000000000000))) := by
  have hstorable : Double.meaning (Float.ofBits 0x8000000000000000) ≠ .nan := by decide
  have h := decode_store_encode (c := nullable (shared real)) (v := some _) rfl (by decide)
    hstorable
  exact ⟨rfl, by decide, hstorable, h.1, h.2 _ rfl⟩

end Codec

end TypedSql
