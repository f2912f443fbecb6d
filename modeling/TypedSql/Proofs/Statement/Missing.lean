import TypedSql.Proofs.Codec.Literal
import TypedSql.Proofs.Codec.RoundTrip
import TypedSql.Proofs.Statement.Assignments
import TypedSql.Proofs.Statement.Binding

/-!
# Where no value comes from

A statement says that there is no value in two ways, by an argument and by the
literal `NULL`, and a codec that is not nullable keeps both away from its
column – but for one value. What is no number is a double that has no stored
form, so a codec of doubles hands it over as no value, nullable or not. It is
the only one: `Codec.bind_eq_null_iff` says for which supplied values nothing
is handed over, and `Codec.encode_eq_null_iff` for which values of a codec that
is not nullable.

From there it goes to a run. A place holds no value exactly if the last value
that its codec took is one of those, and a literal for a column that is not
nullable reads `NULL` exactly if it is what is no number
(`Codec.null_comes_from`).
-/

namespace TypedSql

/-- A supplied double that is no number. -/
def HostValue.NotNumber (v : HostValue) : Prop := ∃ x, v = .float x ∧ Double.meaning x = .nan

/-- **A supplied value for which a codec hands over nothing**: the missing
value, if the codec has it, and what is no number, if the codec is one of
doubles. -/
def Codec.Drops (c : Codec) (v : HostValue) : Prop :=
  v = .null ∧ c.isNullable = true ∨ c.scalarType = .real ∧ v.NotNumber

/-- A value is bound if it is accepted, to what it is handed over as. -/
theorem Codec.bind_eq_ok_iff {c : Codec} {v : HostValue} {a : Argument} :
    c.bind v = .ok a ↔ ∃ x, c.accept v = .ok x ∧ a = c.encode x := by
  rw [bind]
  cases c.accept v with
  | error e => simp [Except.map]
  | ok x => simp [Except.map, eq_comm]

/-! ## Scalars

A stored form is missing for a double that is no number, and for nothing else.
A value of this kind can only be supplied as a double: an integer that
is supplied for a double is rounded, and that gives a number. -/

namespace Scalar

variable {s : Scalar}

/-- **A scalar is handed over as nothing** if it has no stored form. -/
theorem encode_eq_null_iff {v : s.Value} : s.encode v = .null ↔ ¬ s.Storable v := by
  cases s with
  | real =>
    show encodeReal v = .null ↔ ¬ Double.meaning v ≠ .nan
    rw [not_ne_iff, encodeReal]
    cases hmeaning : Double.meaning v with
    | nan => exact iff_of_true rfl rfl
    | infinite negative => exact iff_of_false nofun nofun
    | finite negative significand exponent => exact iff_of_false nofun nofun
  | _ => exact iff_of_false nofun (not_not_intro trivial)

/-- Only a double can lack a stored form. -/
theorem eq_real_of_not_storable {v : s.Value} (h : ¬ s.Storable v) : s = .real := by
  cases s with
  | real => rfl
  | _ => exact absurd trivial h

/-- A double that a caller supplies lacks a stored form only if the supplied
value is no number; an integer is rounded to one that is. -/
theorem accept_real_eq_nan {v : HostValue} {x : Float} (haccept : real.accept v = .ok x)
    (hx : Double.meaning x = .nan) : v.NotNumber := by
  cases v with
  | float y => exact ⟨y, rfl, Except.ok.inj haccept ▸ hx⟩
  | int n =>
    have hround : Double.ofInt n.toInt = x := Except.ok.inj haccept
    rw [← hround, Double.ofInt] at hx
    exact absurd hx (Double.meaning_nearest_ne_nan _ _ _)
  | null | bool | text | blob => cases haccept

/-- **What is bound to nothing among scalars** is what is no number. -/
theorem bind_eq_null_iff {v : HostValue} :
    (Codec.scalar s).bind v = .ok .null ↔ s = .real ∧ v.NotNumber := by
  rw [Codec.bind_eq_ok_iff]
  constructor
  · rintro ⟨x, haccept, hnull⟩
    have hx := encode_eq_null_iff.mp hnull.symm
    obtain rfl := eq_real_of_not_storable hx
    exact ⟨rfl, accept_real_eq_nan haccept (not_not.mp hx)⟩
  · rintro ⟨rfl, x, rfl, hx⟩
    have hnull : real.encode x = .null := encode_eq_null_iff.mpr (not_not_intro hx)
    exact ⟨x, rfl, hnull.symm⟩

end Scalar

/-! ## Codecs

A layer for missing values keeps them from the scalar inside. What is there
goes through all layers unchanged, so the question is that of the scalar again.
-/

namespace Codec

variable {c : Codec}

/-- Around a value that is there, a layer of missing values changes nothing. -/
theorem bind_nullable {v : HostValue} (h : v ≠ .null) : (nullable c).bind v = c.bind v := by
  have haccept : (nullable c).accept v = (c.accept v).map some := by
    cases v with
    | null => exact absurd rfl h
    | bool | int | float | text | blob => rfl
  rw [bind, bind, haccept]
  cases c.accept v <;> rfl

/-- **A supplied value is bound to nothing** exactly if the codec drops it. -/
theorem bind_eq_null_iff {v : HostValue} : c.bind v = .ok .null ↔ c.Drops v := by
  induction c with
  | scalar s =>
    rw [Scalar.bind_eq_null_iff]
    exact (or_iff_right fun h => Bool.false_ne_true h.2).symm
  | nullable c ih =>
    by_cases hv : v = .null
    · subst hv
      exact iff_of_true rfl (.inl ⟨rfl, rfl⟩)
    · rw [bind_nullable hv, ih]
      exact or_congr_left (iff_of_false (fun h => hv h.1) fun h => hv h.1)
  | shared c ih => exact ih

/-- **A value is handed over as nothing**, where there is no missing value,
exactly if it has no stored form. -/
theorem encode_eq_null_iff (h : c.isNullable = false) {v : c.Value} :
    c.encode v = .null ↔ ¬ c.Storable v := by
  induction c with
  | scalar s => exact Scalar.encode_eq_null_iff
  | nullable c _ => cases h
  | shared c ih => exact ih h

/-- A literal is read as the argument, so `NULL` is the literal of nothing
else. -/
theorem literal_eq_null_iff {v : c.Value} : c.literal v = "NULL" ↔ c.encode v = .null := by
  induction c with
  | scalar s =>
    constructor
    · intro h
      have hread : Literal.read? ((scalar s).literal v) = some (s.encode v) := (s.literal_says v).1
      rw [h, Literal.read?_null] at hread
      exact (Option.some.inj hread).symm
    · intro h
      rw [literal, h]
      rfl
  | nullable c ih =>
    cases v with
    | none => exact iff_of_true rfl rfl
    | some v =>
      rw [literal_some]
      exact ih
  | shared c ih =>
    rw [literal_shared]
    exact ih

end Codec

/-! ## Runs

An argument of a statement was put in its place by some operation, and the
place holds what the last one left. -/

namespace BindOperation

variable {c : Codec} {index : Nat}

theorem fills_iff_bind {op : BindOperation} {a : Argument} :
    op.Fills c index a ↔ ∃ v, op.supply? = some (index, v) ∧ c.bind v = .ok a := by
  simp only [Fills, Codec.bind_eq_ok_iff, exists_and_left]

/-- **Operations leave no value in a place**: the last value that the codec of
the place took is one that it drops, and the places are not emptied after
that. -/
def LeavesNull (c : Codec) (index : Nat) (ops : List BindOperation) : Prop :=
  ∃ earlier op later v, ops = earlier ++ op :: later ∧ op.supply? = some (index, v) ∧ c.Drops v ∧
    .clear ∉ later ∧ ∀ op' ∈ later, ∀ a, ¬ Fills c index op' a

theorem leftBy_null_iff {ops : List BindOperation} :
    LeftBy c index ops .null ↔ LeavesNull c index ops := by
  simp only [LeftBy, LeavesNull, fills_iff_bind (a := .null), Codec.bind_eq_null_iff]
  constructor
  · rintro ⟨earlier, op, later, heq, ⟨v, hsupply, hv⟩, hlater⟩
    exact ⟨earlier, op, later, v, heq, hsupply, hv, hlater⟩
  · rintro ⟨earlier, op, later, v, heq, hsupply, hv, hlater⟩
    exact ⟨earlier, op, later, heq, ⟨v, hsupply, hv⟩, hlater⟩

/-- **An argument is no value** exactly if the operations left none in its
place. -/
theorem arguments_eq_null_iff {codecs : List Codec} (hc : codecs[index]? = some c)
    {ops : List BindOperation} {arguments : List Argument}
    (h : (runAll ops (.ofCodecs codecs)).arguments? = .ok arguments) :
    arguments[index]? = some .null ↔ LeavesNull c index ops := by
  have hcollects := (runAll ops (.ofCodecs codecs)).collects
  rw [h] at hcollects
  cases hcollects with
  | all _ hheld => rw [hheld, held?_runAll hc, leftBy_null_iff]

end BindOperation

/-- **Where no value comes from.** A codec binds a supplied value to nothing
exactly if the missing value is supplied and the codec is nullable, or what is
no number is supplied and the codec is one of doubles. So after any operations
on the places of a statement an argument is no value exactly if such a value is
the last one that was taken for its place; and a literal that a statement
assigns to a column that is not nullable reads `NULL` exactly if it is what is
no number. -/
theorem Codec.null_comes_from :
    (∀ (c : Codec) (v : HostValue), c.bind v = .ok .null ↔ c.Drops v) ∧
    (∀ (codecs : List Codec) (ops : List BindOperation) (arguments : List Argument),
      (BindOperation.runAll ops (.ofCodecs codecs)).arguments? = .ok arguments →
      ∀ (index : Nat) (c : Codec), codecs[index]? = some c →
        (arguments[index]? = some .null ↔ BindOperation.LeavesNull c index ops)) ∧
    ∀ (table : Identifier) (values : List Assignment) (entries : List (Identifier × Term)),
      (Assignments.setAll { table } values).finish? = .ok entries →
      ∀ e ∈ entries, ∃ x ∈ values, x.entry = e ∧
        ∀ v, x.value = .value v → x.column.codec.isNullable = false →
          (e.2.sql.text = "NULL" ↔ ¬ x.column.codec.Storable v) := by
  refine ⟨fun c v => bind_eq_null_iff, fun codecs ops arguments h index c hc =>
    BindOperation.arguments_eq_null_iff hc h, fun table values entries h e he => ?_⟩
  -- an entry has the last value for its column, so the literal is of that value
  have hmade := Assignments.made table values
  rw [Assignments.finish?] at h
  split at h
  · cases h
  · obtain rfl := Except.ok.inj h
    obtain ⟨earlier, x, later, rfl, -, rfl, -⟩ := (hmade.mem_entries e).mp he
    refine ⟨x, List.mem_append_right earlier List.mem_cons_self, rfl, fun v hv hnullable => ?_⟩
    have htext : x.entry.2.sql.text = x.column.codec.literal v := by
      rw [Assignment.entry, hv, Operand.term, Term.sql]
      simp [Sql.text, String.join, Piece.text]
    rw [htext, literal_eq_null_iff, encode_eq_null_iff hnullable]

/-- What is no number is bound to nothing, is left in the place of an argument
and is written as `NULL`, all for doubles without the missing value. -/
theorem Codec.bind_not_number :
    real.isNullable = false ∧
      real.bind (.float (Float.ofBits 0x7ff8000000000000)) = .ok .null ∧
      (BindOperation.runAll [.set 0 (.float (Float.ofBits 0x7ff8000000000000))]
        (.ofCodecs [real])).arguments? = .ok [.null] ∧
      real.literal (Float.ofBits 0x7ff8000000000000) = "NULL" := by
  have hnan : Double.meaning (Float.ofBits 0x7ff8000000000000) = .nan := by decide
  have hencode : real.encode (Float.ofBits 0x7ff8000000000000) = .null :=
    Scalar.encode_eq_null_iff.mpr (not_not_intro hnan)
  have hbind : real.bind (.float (Float.ofBits 0x7ff8000000000000)) = .ok .null :=
    congrArg Except.ok hencode
  refine ⟨rfl, hbind, ?_, literal_eq_null_iff.mpr hencode⟩
  decide

end TypedSql
