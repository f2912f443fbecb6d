import TypedSql.Sql

/-!
# Binding arguments

A statement is run with one argument for every placeholder. `Bindings` are
the places for them, each with the codec of its placeholder: a value is
taken by that codec or refused, and `Bindings.arguments?` gives the
arguments in order as soon as every place is filled.
-/

namespace TypedSql

/-- **The places for the arguments of a statement.** -/
structure Bindings where
  /-- The codec of every placeholder with the argument bound to it, if there
  is one. -/
  slots : List (Codec × Option Argument)
deriving DecidableEq

namespace Bindings

/-- Nothing is bound yet. -/
def ofCodecs (codecs : List Codec) : Bindings := ⟨codecs.map fun c => (c, none)⟩

/-- How many places there are. -/
def size (b : Bindings) : Nat := b.slots.length

/-- The codecs of the places. -/
def codecs (b : Bindings) : List Codec := b.slots.map Prod.fst

/-- **Binds a value** to a place, as the codec of the place takes it. -/
def set (b : Bindings) (index : Nat) (v : HostValue) : Except BindingError Bindings :=
  match b.slots[index]? with
  | none => .error (.indexOutOfRange index b.size)
  | some (c, _) =>
    match c.bind v with
    | .ok a => .ok ⟨b.slots.set index (c, some a)⟩
    | .error source => .error (.invalidValue index source)

/-- Binds the missing value. -/
def setNull (b : Bindings) (index : Nat) : Except BindingError Bindings := b.set index .null

/-- Whether a place is filled. -/
def isBound (b : Bindings) (index : Nat) : Bool :=
  (b.slots[index]?).any fun slot => slot.2.isSome

/-- Empties all places. -/
def clear (b : Bindings) : Bindings := ⟨b.slots.map fun slot => (slot.1, none)⟩

/-- Reads places from the one with the number `index` on. -/
def argumentsFrom (index : Nat) :
    List (Codec × Option Argument) → Except BindingError (List Argument)
  | [] => .ok []
  | (_, none) :: _ => .error (.unboundArgument index)
  | (_, some a) :: slots => (argumentsFrom (index + 1) slots).map (a :: ·)

/-- **All arguments in order**, or the first place that is empty. -/
def arguments? (b : Bindings) : Except BindingError (List Argument) :=
  argumentsFrom 0 b.slots

@[simp] theorem size_ofCodecs (cs : List Codec) : (ofCodecs cs).size = cs.length := by
  simp [ofCodecs, size]

@[simp] theorem codecs_ofCodecs (cs : List Codec) : (ofCodecs cs).codecs = cs := by
  simp [ofCodecs, codecs, Function.comp_def]

@[simp] theorem codecs_clear (b : Bindings) : b.clear.codecs = b.codecs := by
  simp [clear, codecs]

end Bindings

/-- **How a caller binds arguments**: a change of the empty places that may be
refused. -/
abbrev Binder := Bindings → Except BindingError Bindings

/-- Binds nothing. -/
def Binder.none : Binder := .ok

/-- The arguments that a binder gives a statement. -/
def Sql.bind (s : Sql) (binder : Binder) : Except BindingError (List Argument) := do
  (← binder (.ofCodecs s.slots)).arguments?

end TypedSql
