import TypedSql.Statement.Bindings

/-!
# Binding in place

`Bindings` are a value, and binding gives other ones or a refusal. A program
has one set of places in its hands instead. To bind a value it finds the
place, has the value taken by the codec of the place and writes the argument
last; either of the first two steps may be refused. After a refusal the
program goes on with the places as they are then.
-/

namespace TypedSql

/-- **A computation that changes places** and may be refused at any point. -/
abbrev Binding := ExceptT BindingError (StateM Bindings)

namespace Binding

/-- The codec of a place, which has to be there. -/
def codecAt (index : Nat) : Binding Codec := do
  let b ← get
  match b.slots[index]? with
  | some slot => pure slot.1
  | none => throw (.indexOutOfRange index b.size)

/-- The argument for a place, as far as a codec made one. -/
def accept (index : Nat) : Except ValueError Argument → Binding Argument
  | .ok a => pure a
  | .error source => throw (.invalidValue index source)

/-- Writes an argument to a place. -/
def write (index : Nat) (a : Argument) : Binding Unit :=
  modify fun b => ⟨b.slots.modify index fun slot => (slot.1, some a)⟩

/-- **Binds a value** to a place, as the codec of the place takes it. -/
def set (index : Nat) (v : HostValue) : Binding Unit := do
  let c ← codecAt index
  let a ← accept index (c.bind v)
  write index a

/-- Binds the missing value. -/
def setNull (index : Nat) : Binding Unit := set index .null

/-- Empties all places. -/
def clear : Binding Unit := modify Bindings.clear

end Binding

end TypedSql
