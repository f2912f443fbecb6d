import Mathlib.Data.List.Induction
import TypedSql.Proofs.Query.Sending
import TypedSql.Statement.Binding

/-!
# Places through every run

What a set of places holds after any operations on it, whichever of them were
refused. The answer is said of the list of operations alone: a place holds
the argument of the last operation that fills it, unless all places were
emptied after that (`BindOperation.LeftBy`).

That binding in place comes to what the operations on values say is
`BindOperation.call_eq`. One operation more is `held?_call`, and the run is an
induction from the back.
-/

namespace TypedSql

namespace Bindings

variable {b : Bindings} {index : Nat}

/-- What a place holds. -/
def held? (b : Bindings) (index : Nat) : Option Argument := (b.slots[index]?).bind Prod.snd

theorem set_of_none (h : b.slots[index]? = none) (v : HostValue) :
    b.set index v = .error (.indexOutOfRange index b.size) := by
  rw [set, h]

/-- A place that is there is filled if its codec takes the value. -/
theorem set_of_some {c : Codec} {a? : Option Argument} (h : b.slots[index]? = some (c, a?))
    (v : HostValue) :
    b.set index v =
      match c.bind v with
      | .ok a => .ok ⟨b.slots.set index (c, some a)⟩
      | .error source => .error (.invalidValue index source) := by
  cases hbind : c.bind v with
  | ok a => simp only [set, h, hbind]
  | error source => simp only [set, h, hbind]

theorem held?_clear : b.clear.held? index = none := by
  rw [held?, clear, List.getElem?_map]
  cases b.slots[index]? <;> rfl

theorem held?_ofCodecs (codecs : List Codec) : (ofCodecs codecs).held? index = none := by
  rw [held?, ofCodecs, List.getElem?_map]
  cases codecs[index]? <;> rfl

theorem held?_set_ne {place : Nat} (h : place ≠ index) (slot : Codec × Option Argument) :
    (Bindings.mk (b.slots.set place slot)).held? index = b.held? index := by
  rw [held?, List.getElem?_set_ne h]
  rfl

theorem codecs_eq_some {c : Codec} :
    b.codecs[index]? = some c ↔ ∃ a?, b.slots[index]? = some (c, a?) := by
  rw [codecs, List.getElem?_map, Option.map_eq_some_iff]
  constructor
  · rintro ⟨slot, hslot, rfl⟩
    exact ⟨slot.2, hslot⟩
  · rintro ⟨a?, hslot⟩
    exact ⟨_, hslot, rfl⟩

theorem lt_size {c : Codec} (h : b.codecs[index]? = some c) : index < b.size := by
  obtain ⟨a?, hslot⟩ := codecs_eq_some.mp h
  exact (List.getElem?_eq_some_iff.mp hslot).1

theorem held?_set_self {c : Codec} (h : b.codecs[index]? = some c)
    (slot : Codec × Option Argument) :
    (Bindings.mk (b.slots.set index slot)).held? index = slot.2 := by
  rw [held?, List.getElem?_set_self (lt_size h)]
  rfl

end Bindings

namespace BindOperation

/-! ## Operations in place

The operations as a caller has them: they are carried out on places that are
there for a whole run, and one that is refused leaves the places for the next
one. -/

/-- Carries an operation out in place. -/
def perform : BindOperation → Binding Unit
  | .set index v => Binding.set index v
  | .setNull index => Binding.setNull index
  | .clear => Binding.clear

/-- **An operation on places**: what it gives, and the places afterwards. -/
def call (b : Bindings) (op : BindOperation) : Except BindingError Unit × Bindings :=
  op.perform.run.run b

/-- **What a program comes to** that carries operations out one after the
other, whether they are refused or not. -/
def runAll (ops : List BindOperation) (b : Bindings) : Bindings :=
  ops.foldl (fun b op => (call b op).2) b

/-! ## What operations mean

The same said without places. An operation fills a place with an argument or it
does not, which depends on its value and on the codec of the place and on
nothing that was done before. -/

/-- The value that an operation supplies and the place it is for. -/
def supply? : BindOperation → Option (Nat × HostValue)
  | .set index v => some (index, v)
  | .setNull index => some (index, .null)
  | .clear => none

/-- **An operation fills a place** of a codec with an argument: the codec takes
the value that is supplied for the place and encodes it. -/
def Fills (c : Codec) (index : Nat) (op : BindOperation) (a : Argument) : Prop :=
  ∃ v x, op.supply? = some (index, v) ∧ c.accept v = .ok x ∧ a = c.encode x

/-- **What operations leave in a place**: the argument of the last one that
fills it, if the places are not emptied after that. -/
def LeftBy (c : Codec) (index : Nat) (ops : List BindOperation) (a : Argument) : Prop :=
  ∃ earlier op later, ops = earlier ++ op :: later ∧ Fills c index op a ∧
    .clear ∉ later ∧ ∀ op' ∈ later, ∀ a', ¬ Fills c index op' a'

/-- **What an operation does** to places. -/
inductive Performs (b : Bindings) : BindOperation → Except BindingError Unit × Bindings → Prop
  /-- All places are emptied. -/
  | cleared : Performs b .clear (.ok (), b.clear)
  /-- The place is filled, and no other is touched. -/
  | filled {op : BindOperation} {index : Nat} {c : Codec} {a : Argument} :
      b.codecs[index]? = some c → op.Fills c index a →
      Performs b op (.ok (), ⟨b.slots.set index (c, some a)⟩)
  /-- There is no such place; nothing changes. -/
  | outOfRange {op : BindOperation} {index : Nat} {v : HostValue} :
      op.supply? = some (index, v) → b.size ≤ index →
      Performs b op (.error (.indexOutOfRange index b.size), b)
  /-- The codec of the place refuses the value; nothing changes. -/
  | invalid {op : BindOperation} {index : Nat} {v : HostValue} {c : Codec} {source : ValueError} :
      op.supply? = some (index, v) → b.codecs[index]? = some c → c.accept v = .error source →
      Performs b op (.error (.invalidValue index source), b)

end BindOperation

/-! ## In place and on values

Both descriptions agree, and from here on only the second is used. -/

namespace Binding

variable {b : Bindings} {index : Nat}

theorem run_get (b : Bindings) : (get : Binding Bindings).run.run b = (.ok b, b) := rfl

theorem run_codecAt_of_none (h : b.slots[index]? = none) :
    (codecAt index).run.run b = (.error (.indexOutOfRange index b.size), b) := by
  rw [codecAt, run_bind_of_ok (run_get b), h]
  rfl

theorem run_codecAt_of_some {c : Codec} {a? : Option Argument}
    (h : b.slots[index]? = some (c, a?)) : (codecAt index).run.run b = (.ok c, b) := by
  rw [codecAt, run_bind_of_ok (run_get b), h]
  rfl

theorem run_accept_ok (a : Argument) : (accept index (.ok a)).run.run b = (.ok a, b) := rfl

theorem run_accept_error (source : ValueError) :
    (accept index (.error source)).run.run b = (.error (.invalidValue index source), b) := rfl

/-- **Binding a value in place** comes to what binding it on values says, and
leaves the places alone if that is a refusal. -/
theorem run_set (b : Bindings) (index : Nat) (v : HostValue) :
    (set index v).run.run b =
      match b.set index v with
      | .ok changed => (.ok (), changed)
      | .error cause => (.error cause, b) := by
  cases hslot : b.slots[index]? with
  | none =>
    rw [Bindings.set_of_none hslot]
    exact run_bind_of_error (run_codecAt_of_none hslot)
  | some slot =>
    obtain ⟨c, a?⟩ := slot
    rw [Bindings.set_of_some hslot, set, run_bind_of_ok (run_codecAt_of_some hslot)]
    cases c.bind v with
    | error source => exact run_bind_of_error (run_accept_error source)
    | ok a =>
      -- in place the codec stays where it is, on values it is written again
      have hwrite : b.slots.modify index (fun slot => (slot.1, some a)) =
          b.slots.set index (c, some a) := by
        obtain ⟨hlt, -⟩ := List.getElem?_eq_some_iff.mp hslot
        refine List.ext_getElem? fun j => ?_
        by_cases hj : index = j
        · rw [← hj, List.getElem?_modify_eq, hslot, List.getElem?_set_self hlt]
          rfl
        · rw [List.getElem?_modify_ne _ _ hj, List.getElem?_set_ne hj]
      refine (run_bind_of_ok (run_accept_ok a)).trans ?_
      show (_, (⟨b.slots.modify index fun slot => (slot.1, some a)⟩ : Bindings)) = _
      rw [hwrite]

end Binding

namespace BindOperation

/-- **An operation in place** comes to what it comes to on values, and leaves
the places alone if that is a refusal. -/
theorem call_eq (b : Bindings) (op : BindOperation) :
    call b op =
      match op.apply b with
      | .ok changed => (.ok (), changed)
      | .error cause => (.error cause, b) := by
  cases op with
  | set index v => exact Binding.run_set b index v
  | setNull index => exact Binding.run_set b index .null
  | clear => rfl

variable {c : Codec} {index : Nat} {ops : List BindOperation} {op : BindOperation}

/-! ## One operation more

An operation empties all places or fills one of them, or it is refused, since
there is no such place or since the codec of the place refuses the value.
`BindOperation.performs` is the only case distinction of this kind. -/

theorem apply_of_supply? {v : HostValue} (h : op.supply? = some (index, v)) (b : Bindings) :
    op.apply b = b.set index v := by
  cases op <;> cases h <;> rfl

/-- An operation that supplies no value empties all places. -/
theorem eq_clear_of_supply? (h : op.supply? = none) : op = .clear := by
  cases op <;> first | rfl | cases h

theorem ne_clear_of_supply? {supplied : Nat × HostValue} (h : op.supply? = some supplied) :
    op ≠ .clear := by
  rintro rfl
  cases h

theorem not_fills_clear {a : Argument} : ¬ Fills c index .clear a := by
  rintro ⟨v, x, hsupply, -⟩
  cases hsupply

theorem not_fills_of_ne {place : Nat} {v : HostValue} (h : op.supply? = some (place, v))
    (hne : place ≠ index) (a : Argument) : ¬ Fills c index op a := by
  rintro ⟨v', x, hsupply, -⟩
  exact hne (Prod.mk.inj (Option.some.inj (h.symm.trans hsupply))).1

/-- A value that the codec refuses fills no place. -/
theorem not_fills_of_refused {place : Nat} {v : HostValue} {source : ValueError}
    (h : op.supply? = some (place, v)) (haccept : c.accept v = .error source) (a : Argument) :
    ¬ Fills c index op a := by
  rintro ⟨v', x, hsupply, haccept', -⟩
  obtain ⟨-, rfl⟩ := Prod.mk.inj (Option.some.inj (h.symm.trans hsupply))
  rw [haccept] at haccept'
  cases haccept'

theorem Fills.eq {a a' : Argument} (h : Fills c index op a) (h' : Fills c index op a') :
    a = a' := by
  obtain ⟨v, x, hsupply, haccept, rfl⟩ := h
  obtain ⟨v', x', hsupply', haccept', rfl⟩ := h'
  obtain ⟨-, rfl⟩ := Prod.mk.inj (Option.some.inj (hsupply.symm.trans hsupply'))
  rw [haccept] at haccept'
  rw [Except.ok.inj haccept']

/-- **Every operation does one of these things.** -/
theorem performs (b : Bindings) (op : BindOperation) : Performs b op (call b op) := by
  rw [call_eq]
  cases hsupply : op.supply? with
  | none =>
    obtain rfl := eq_clear_of_supply? hsupply
    exact .cleared
  | some supplied =>
    obtain ⟨index, v⟩ := supplied
    rw [apply_of_supply? hsupply]
    cases hslot : b.slots[index]? with
    | none =>
      rw [Bindings.set_of_none hslot]
      exact .outOfRange hsupply (List.getElem?_eq_none_iff.mp hslot)
    | some slot =>
      obtain ⟨c, a?⟩ := slot
      have hc := Bindings.codecs_eq_some.mpr ⟨a?, hslot⟩
      rw [Bindings.set_of_some hslot, Codec.bind]
      cases haccept : c.accept v with
      | error source => exact .invalid hsupply hc haccept
      | ok x => exact .filled hc ⟨v, x, hsupply, haccept, rfl⟩

/-- **What a place holds after an operation**: its argument if it fills the
place, nothing if it empties all of them, and otherwise what it held. -/
theorem held?_call {b : Bindings} (hc : b.codecs[index]? = some c) {a : Argument} :
    (call b op).2.held? index = some a ↔
      Fills c index op a ∨
        op ≠ .clear ∧ (∀ a', ¬ Fills c index op a') ∧ b.held? index = some a := by
  have hperforms := performs b op
  generalize call b op = result at hperforms
  -- three of the four cases leave this place alone
  have huntouched : op ≠ .clear → (∀ a', ¬ Fills c index op a') →
      (b.held? index = some a ↔ Fills c index op a ∨
        op ≠ .clear ∧ (∀ a', ¬ Fills c index op a') ∧ b.held? index = some a) :=
    fun hclear hfills => ⟨fun h => .inr ⟨hclear, hfills, h⟩,
      fun h => h.elim (fun h => absurd h (hfills a)) fun h => h.2.2⟩
  cases hperforms with
  | cleared =>
    rw [Bindings.held?_clear]
    exact ⟨fun h => absurd h.symm (Option.some_ne_none a),
      fun h => h.elim (fun h => absurd h not_fills_clear) fun h => absurd rfl h.1⟩
  | @filled _ place c' a' hplace hfills =>
    by_cases hindex : place = index
    · subst hindex
      obtain rfl := Option.some.inj (hplace.symm.trans hc)
      rw [Bindings.held?_set_self hc]
      exact ⟨fun h => .inl (Option.some.inj h ▸ hfills),
        fun h => h.elim (fun h => congrArg some (hfills.eq h)) fun h => absurd hfills (h.2.1 a')⟩
    · obtain ⟨v, x, hsupply, -⟩ := hfills
      rw [Bindings.held?_set_ne hindex]
      exact huntouched (ne_clear_of_supply? hsupply) (not_fills_of_ne hsupply hindex)
  | @outOfRange _ place v hsupply hsize =>
    have hindex : place ≠ index := Nat.ne_of_gt (Nat.lt_of_lt_of_le (Bindings.lt_size hc) hsize)
    exact huntouched (ne_clear_of_supply? hsupply) (not_fills_of_ne hsupply hindex)
  | @invalid _ place v c' source hsupply hplace haccept =>
    refine huntouched (ne_clear_of_supply? hsupply) fun a' => ?_
    by_cases hindex : place = index
    · subst hindex
      obtain rfl := Option.some.inj (hplace.symm.trans hc)
      exact not_fills_of_refused hsupply haccept a'
    · exact not_fills_of_ne hsupply hindex a'

theorem codecs_call (b : Bindings) (op : BindOperation) : (call b op).2.codecs = b.codecs := by
  rw [call_eq]
  cases h : op.apply b with
  | error cause => rfl
  | ok changed => exact Bindings.codecs_apply h

/-! ## Runs

Since only the last operation that counts decides, the run is taken from the
back. -/

theorem runAll_concat (ops : List BindOperation) (op : BindOperation) (b : Bindings) :
    runAll (ops ++ [op]) b = (call (runAll ops b) op).2 := by
  rw [runAll, List.foldl_append]
  rfl

/-- A run does not change which places there are. -/
theorem codecs_runAll (ops : List BindOperation) (b : Bindings) :
    (runAll ops b).codecs = b.codecs := by
  induction ops generalizing b with
  | nil => rfl
  | cons op ops ih => exact (ih (call b op).2).trans (codecs_call b op)

/-- What is left in a place is what the last operation left that fills it or
empties all places. -/
theorem leftBy_iff_lastIn {a : Argument} : LeftBy c index ops a ↔
    LastIn (Fills c index · a) (fun op => op ≠ .clear ∧ ∀ a', ¬ Fills c index op a') ops := by
  refine exists_congr fun earlier => exists_congr fun op => exists_congr fun later =>
    and_congr_right fun _ => and_congr_right fun _ => ?_
  rw [← List.forall_mem_ne', ← forall₂_and]

/-- **What is left in a place by one operation more.** -/
theorem leftBy_concat {a : Argument} : LeftBy c index (ops ++ [op]) a ↔
    Fills c index op a ∨
      op ≠ .clear ∧ (∀ a', ¬ Fills c index op a') ∧ LeftBy c index ops a := by
  rw [leftBy_iff_lastIn, lastIn_concat, ← leftBy_iff_lastIn, and_assoc]

/-- **A place holds what the operations left in it.** -/
theorem held?_runAll {codecs : List Codec} (hc : codecs[index]? = some c)
    (ops : List BindOperation) {a : Argument} :
    (runAll ops (.ofCodecs codecs)).held? index = some a ↔ LeftBy c index ops a := by
  -- from the back: the last operation decides, or the place holds what it held
  induction ops using List.reverseRecOn generalizing a with
  | nil =>
    rw [runAll, List.foldl_nil, Bindings.held?_ofCodecs]
    exact ⟨fun h => absurd h.symm (Option.some_ne_none a),
      fun h => absurd (leftBy_iff_lastIn.mp h) not_lastIn_nil⟩
  | append_singleton ops op ih =>
    have hplace : (runAll ops (.ofCodecs codecs)).codecs[index]? = some c := by
      rw [codecs_runAll, Bindings.codecs_ofCodecs, hc]
    rw [runAll_concat, held?_call hplace, leftBy_concat, ih]

end BindOperation

/-! ## All arguments

Reading all arguments goes through the places from the first to the last and
stops at one that is empty, so that the place it names is the first of them. -/

namespace Bindings

/-- **What reading all arguments gives.** -/
inductive Collects (b : Bindings) : Except BindingError (List Argument) → Prop
  /-- Every place is filled; the arguments are in the order of the places. -/
  | all {arguments : List Argument} : arguments.length = b.size →
      (∀ index, arguments[index]? = b.held? index) → Collects b (.ok arguments)
  /-- The first place that is empty. -/
  | unbound {index : Nat} : index < b.size → b.held? index = none →
      (∀ before < index, ∃ a, b.held? before = some a) →
      Collects b (.error (.unboundArgument index))

/-- All arguments are there, or the first that is missing is named. -/
theorem collects (b : Bindings) : b.Collects b.arguments? := by
  have hheld : ∀ index, (b.slots.map Prod.snd)[index]? = (b.slots[index]?).map Prod.snd :=
    fun index => List.getElem?_map
  -- all places were passed, or the reading stopped at one of them
  obtain ⟨arguments, h, held⟩ | ⟨index, h, empty, full⟩ := argumentsFrom_cases b.slots 0
  · rw [arguments?, h]
    refine .all ?_ fun index => ?_
    · rw [size, ← List.length_map (f := some), ← held, List.length_map]
    · have hplace := hheld index
      rw [held, List.getElem?_map] at hplace
      rw [held?]
      cases hslot : b.slots[index]? with
      | none =>
        rw [hslot] at hplace
        exact Option.map_eq_none_iff.mp hplace
      | some slot =>
        rw [hslot] at hplace
        obtain ⟨a, ha, hsome⟩ := Option.map_eq_some_iff.mp hplace
        rw [ha, hsome]
        rfl
  · rw [arguments?, h, Nat.zero_add]
    rw [hheld, Option.map_eq_some_iff] at empty
    obtain ⟨slot, hslot, hempty⟩ := empty
    refine .unbound (List.getElem?_eq_some_iff.mp hslot).1 ?_ fun before hbefore => ?_
    · rw [held?, hslot]
      exact hempty
    · obtain ⟨a, ha⟩ := full before hbefore
      rw [hheld, Option.map_eq_some_iff] at ha
      obtain ⟨slot, hslot, hfull⟩ := ha
      exact ⟨a, by rw [held?, hslot]; exact hfull⟩

/-- **Places after operations**, as far as a program can tell. -/
structure After (codecs : List Codec) (ops : List BindOperation) (b : Bindings) : Prop where
  /-- The places are those that there were, with their codecs. -/
  codecs_eq : b.codecs = codecs
  /-- There are as many as there were. -/
  size_eq : b.size = codecs.length
  /-- A place holds what the operations left in it, and is empty if they left
  nothing. -/
  held : ∀ index c a, codecs[index]? = some c →
    (b.held? index = some a ↔ BindOperation.LeftBy c index ops a)
  /-- What the next operation does; a refusal changes nothing. -/
  next : ∀ op, BindOperation.Performs b op (BindOperation.call b op)
  /-- What reading all arguments gives. -/
  collects : b.Collects b.arguments?

end Bindings

/-- **Places are kept through every run**, whichever operations were refused:
each of them holds the argument of the last operation that filled it since
all were emptied. -/
theorem BindOperation.after_runAll (codecs : List Codec) (ops : List BindOperation) :
    (runAll ops (.ofCodecs codecs)).After codecs ops where
  codecs_eq := by rw [codecs_runAll, Bindings.codecs_ofCodecs]
  size_eq := by
    rw [← Bindings.size_ofCodecs codecs, Bindings.size, Bindings.size,
      ← List.length_map (f := Prod.fst), ← List.length_map (f := Prod.fst)]
    exact congrArg List.length (codecs_runAll ops _)
  held index c a hc := held?_runAll hc ops
  next op := performs _ op
  collects := Bindings.collects _

/-- A refusal keeps what was bound before it. -/
example : BindOperation.runAll [.set 0 (.int 7), .set 0 (.text "seven"), .setNull 0, .set 2 .null]
    (.ofCodecs [.long, .nullable .long]) = ⟨[(.long, some (.text "7")), (.nullable .long, none)]⟩ :=
  rfl

end TypedSql
