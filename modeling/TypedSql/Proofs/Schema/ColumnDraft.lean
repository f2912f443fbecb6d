import TypedSql.Proofs.Schema.ColumnClauses

/-!
# The draft of a column follows its clauses

A clause is carried out on a list of constraints: it changes the first element
of a kind, puts a new one at the end, takes one out or changes the last one
that can have a choice. `ColumnDraft.Lists` says what the list is after all
that: the parts that the clauses call for, each as they say it.

The list has one element for each part, so the list operations are what they
do to one part. `updateFirst_map` and `changeFirst?_map` say this once, for any
list without repetitions and with a frame for the other elements; what is left
is a case for each kind of clause. With the default, the reference and the
first misuse beside it this is `ColumnDraft.Follows`, and any list of clauses is
an induction from its end (`ColumnDraft.follows_foldl`).
-/

namespace TypedSql

/-! ## Lists with one element of a kind

The operations on the list of constraints look for an element by a test and
change the first one that they find. On a list that is the image of one without
repetitions, with a test that only one element passes, that is a change of the
function at one argument. -/

namespace ColumnDraft

/-- A change to the only element that admits it, or a new one at the end. -/
theorem updateFirst_map {α β : Type} [DecidableEq α] {as : List α} (has : as.Nodup)
    {f g : α → β} {change : β → Option β} {new : β} {a : α}
    (hat : change (f a) = some (g a)) (hother : ∀ b ∈ as, b ≠ a → change (f b) = none)
    (hframe : ∀ b ∈ as, b ≠ a → g b = f b) (hnew : a ∉ as → new = g a) :
    updateFirst change new (as.map f) = (if a ∈ as then as else as ++ [a]).map g := by
  induction as with
  | nil => simp [updateFirst, hnew]
  | cons b as ih =>
    obtain ⟨hb, has⟩ := List.nodup_cons.mp has
    rw [List.map_cons, updateFirst]
    by_cases hba : b = a
    · subst hba
      have hrest : as.map f = as.map g := List.map_congr_left fun d hd =>
        (hframe d (List.mem_cons_of_mem _ hd) fun heq => hb (heq ▸ hd)).symm
      rw [hat, if_pos List.mem_cons_self, List.map_cons, hrest]
    · have hmem : a ∈ b :: as ↔ a ∈ as := by simp [Ne.symm hba]
      have hih := ih has (fun d hd => hother d (List.mem_cons_of_mem _ hd))
        (fun d hd => hframe d (List.mem_cons_of_mem _ hd)) fun h => hnew (mt hmem.mp h)
      rw [hother b List.mem_cons_self hba]
      simp only [hih, hmem]
      split <;> simp [hframe b List.mem_cons_self hba]

/-- A change to the first element that admits it. -/
theorem changeFirst?_map {α β : Type} {as : List α} (has : as.Nodup) {f g : α → β}
    {change : β → Option β} {p : α → Bool} {a : α} (hfirst : (as.filter p).head? = some a)
    (hat : change (f a) = some (g a)) (hother : ∀ b ∈ as, ¬ p b = true → change (f b) = none)
    (hframe : ∀ b ∈ as, b ≠ a → g b = f b) :
    changeFirst? change (as.map f) = some (as.map g) := by
  induction as with
  | nil => cases hfirst
  | cons b as ih =>
    obtain ⟨hb, has⟩ := List.nodup_cons.mp has
    rw [List.map_cons, List.map_cons, changeFirst?]
    cases hp : p b with
    | true =>
      rw [List.filter_cons_of_pos hp, List.head?_cons] at hfirst
      obtain rfl := Option.some.inj hfirst
      have hrest : as.map f = as.map g := List.map_congr_left fun d hd =>
        (hframe d (List.mem_cons_of_mem _ hd) fun heq => hb (heq ▸ hd)).symm
      rw [hat, hrest]
    | false =>
      have hnot : ¬ p b = true := Bool.eq_false_iff.mp hp
      rw [List.filter_cons_of_neg hnot] at hfirst
      have hba : b ≠ a := fun heq =>
        hb (heq ▸ (List.mem_filter.mp (List.mem_of_mem_head? hfirst)).1)
      have hih := ih has hfirst (fun d hd => hother d (List.mem_cons_of_mem _ hd))
        fun d hd => hframe d (List.mem_cons_of_mem _ hd)
      rw [hother b List.mem_cons_self hnot, hframe b List.mem_cons_self hba]
      simp only [hih, Option.map_some]

/-- There is an element that admits a change if one is made. -/
theorem changeFirst?_eq_none_iff {α : Type} {change : α → Option α} {as : List α} :
    changeFirst? change as = none ↔ ∀ a ∈ as, change a = none := by
  induction as with
  | nil => exact iff_of_true rfl (List.forall_mem_nil _)
  | cons a as ih =>
    rw [changeFirst?, List.forall_mem_cons]
    cases hchange : change a with
    | some b => exact iff_of_false (Option.some_ne_none _) fun h => Option.some_ne_none b h.1
    | none => simp only [Option.map_eq_none_iff, ih, true_and]

/-! ## What one clause does -/

variable {c : Codec}

section ChangeReference

variable (d : ColumnDraft c) (fault : ConstraintFault) (change : Reference → Reference)

theorem constraints_changeReference : (d.changeReference fault change).constraints =
    d.constraints := by
  unfold changeReference
  split <;> rfl

theorem default?_changeReference : (d.changeReference fault change).default? = d.default? := by
  unfold changeReference
  split <;> rfl

theorem isSome_changeReference :
    (d.changeReference fault change).reference?.isSome = d.reference?.isSome := by
  unfold changeReference
  split
  · rfl
  · next r h =>
    rw [h]
    rfl

/-- A change to a reference that is not there is noted. -/
theorem error?_changeReference : (d.changeReference fault change).error? =
    d.error?.or (if d.reference?.isSome then none
      else some (.invalidConstraint d.name.name fault)) := by
  unfold changeReference
  split
  · next h =>
    rw [h]
    rfl
  · next r h =>
    rw [h, Option.isSome_some, if_pos rfl, Option.or_none]

end ChangeReference

/-- **A draft whose constraints are the parts** that clauses call for, each as
they say it. -/
def Lists (d : ColumnDraft c) (clauses : List (ColumnClause c)) : Prop :=
  d.constraints = (ColumnClause.parts clauses).map (ColumnClause.said clauses)

namespace Lists

variable {d : ColumnDraft c} {clauses : List (ColumnClause c)} {clause : ColumnClause c}

/-- A clause that says nothing of the parts. -/
theorem of_apart (h : d.Lists clauses) (hpart : clause.part? = none)
    (hconflict : clause.conflict? = none) {d' : ColumnDraft c}
    (hsame : d'.constraints = d.constraints) : d'.Lists (clauses ++ [clause]) := by
  rw [Lists, hsame, h, ColumnClause.parts_concat, hpart]
  refine List.map_congr_left fun p _ => (ColumnClause.said_concat ?_ hconflict).symm
  rw [hpart]
  exact (Option.some_ne_none p).symm

/-- **The key is changed** where it stands, or put at the end. -/
theorem changeKey (h : d.Lists clauses) (hpart : clause.part? = some .key)
    (hconflict : clause.conflict? = none) {change : KeyClause → KeyClause}
    (hchange : ∀ key, change key =
      { key with
        descending? := clause.direction?.or key.descending?
        autoIncrement := key.autoIncrement || clause.countsUp }) :
    (d.changeKey change).Lists (clauses ++ [clause]) := by
  have hsaid : change (ColumnClause.saidKey clauses) =
      ColumnClause.saidKey (clauses ++ [clause]) :=
    (hchange _).trans (ColumnClause.saidKey_concat hconflict).symm
  have hother : ∀ p ∈ ColumnClause.parts clauses, p ≠ .key →
      ((ColumnClause.said clauses p).key?.map (.primaryKey ∘ change) :
        Option ColumnConstraint) = none := by
    intro p _ hp
    cases p with
    | key => exact absurd rfl hp
    | unique | collation => rfl
  -- the other parts are said as before
  have hframe : ∀ p ∈ ColumnClause.parts clauses, p ≠ .key →
      ColumnClause.said (clauses ++ [clause]) p = ColumnClause.said clauses p :=
    fun p _ hp => ColumnClause.said_concat (hpart ▸ fun heq => hp (Option.some.inj heq).symm)
      hconflict
  rw [Lists, ColumnClause.parts_concat, hpart, ColumnDraft.changeKey, h]
  refine updateFirst_map (ColumnClause.nodup_parts clauses) ?_ hother hframe fun hnew => ?_
  · exact congrArg (some ∘ ColumnConstraint.primaryKey) hsaid
  · rw [ColumnClause.said, ← hsaid, ColumnClause.saidKey_of_notMem hnew]

/-- UNIQUE stays where it is, or comes to the end. -/
theorem unique (h : d.Lists clauses) : (d.apply .unique).Lists (clauses ++ [.unique]) := by
  have hsaid : ∀ p, ColumnClause.said (clauses ++ [.unique]) p = ColumnClause.said clauses p := by
    intro p
    by_cases hp : p = .unique
    · rw [hp, ColumnClause.said, ColumnClause.choice_concat rfl, ColumnClause.said]
    · exact ColumnClause.said_concat (fun heq => hp (Option.some.inj heq).symm) rfl
  have hany : d.constraints.any ColumnConstraint.isUnique = true ↔
      .unique ∈ ColumnClause.parts clauses := by
    rw [h, List.any_map, List.any_eq_true]
    constructor
    · rintro ⟨p, hp, hunique⟩
      cases p with
      | unique => exact hp
      | key | collation => cases hunique
    · exact fun hp => ⟨.unique, hp, rfl⟩
  have hnot : ColumnPart.unique ≠ .collation := by decide
  rw [Lists, ColumnClause.parts_concat, funext hsaid, ColumnDraft.apply]
  show _ = (ColumnPart.place (ColumnClause.parts clauses) .unique).map _
  rw [ColumnPart.place, if_neg hnot]
  by_cases hmem : ColumnPart.unique ∈ ColumnClause.parts clauses
  · rw [if_pos (hany.mpr hmem), if_pos hmem]
    exact h
  · rw [if_neg (mt hany.mp hmem), if_neg hmem, List.map_append, ← h]
    show _ = d.constraints ++ [.unique (ColumnClause.choice .unique clauses)]
    rw [ColumnClause.choice_of_notMem hmem]

/-- **A collation** leaves its place and comes to the end. -/
theorem collate (h : d.Lists clauses) (collation : Collation) :
    (d.apply (.collate collation)).Lists (clauses ++ [.collate collation]) := by
  have hframe : ∀ p, p ≠ .collation →
      ColumnClause.said (clauses ++ [.collate collation]) p = ColumnClause.said clauses p :=
    fun p hp => ColumnClause.said_concat (fun heq => hp (Option.some.inj heq).symm) rfl
  have hlast : ColumnClause.said (clauses ++ [.collate collation]) .collation =
      .collate collation := by
    rw [ColumnClause.said, ColumnClause.last?_concat]
    rfl
  have hkinds : ∀ p, (ColumnClause.said clauses p).collation?.isNone =
      decide (p ≠ .collation) := by
    intro p
    cases p <;> rfl
  rw [Lists, ColumnClause.parts_concat, ColumnDraft.apply, h, List.filter_map]
  show _ = (ColumnPart.place (ColumnClause.parts clauses) .collation).map _
  rw [ColumnPart.place, if_pos rfl, List.map_append, List.map_singleton, hlast]
  simp only [Function.comp_def, hkinds]
  refine congrArg (· ++ [_]) (List.map_congr_left fun p hp => (hframe p ?_).symm)
  exact of_decide_eq_true (List.mem_filter.mp hp).2

/-- **A choice for conflicts** goes to the holder, if there is one. -/
theorem changeFirst?_withConflict (h : d.Lists clauses) (choice : OnConflict) :
    changeFirst? (withConflict choice) d.constraints.reverse =
      (ColumnClause.holder? clauses).map fun _ =>
        ((ColumnClause.parts clauses).map
          (ColumnClause.said (clauses ++ [.onConflict choice]))).reverse := by
  have hcollation : ∀ p ∈ (ColumnClause.parts clauses).reverse, ¬ decide (p ≠ .collation) = true →
      withConflict choice (ColumnClause.said clauses p) = none := by
    intro p _ hp
    obtain rfl : p = .collation := by simpa using hp
    rfl
  have hhead : ColumnClause.holder? clauses =
      ((ColumnClause.parts clauses).reverse.filter (· ≠ .collation)).head? := by
    rw [List.filter_reverse, List.head?_reverse, ColumnClause.holder?]
  rw [h, ← List.map_reverse, ← List.map_reverse]
  cases hholder : ColumnClause.holder? clauses with
  | none =>
    refine changeFirst?_eq_none_iff.mpr fun k hk => ?_
    obtain ⟨p, hp, rfl⟩ := List.mem_map.mp hk
    refine hcollation p hp fun hne => ?_
    rw [hhead, List.head?_eq_none_iff, List.filter_eq_nil_iff] at hholder
    exact hholder p hp hne
  | some p =>
    refine changeFirst?_map (List.nodup_reverse.mpr (ColumnClause.nodup_parts clauses))
      (hhead ▸ hholder) (ColumnClause.withConflict_said hholder choice) hcollation fun q _ hq => ?_
    refine ColumnClause.said_concat_onConflict (fun heq => hq ?_) choice
    exact Option.some.inj (heq.symm.trans hholder)

/-- **A clause keeps the parts listed.** -/
theorem apply (h : d.Lists clauses) (clause : ColumnClause c) :
    (d.apply clause).Lists (clauses ++ [clause]) := by
  cases clause with
  | primaryKey =>
    refine h.changeKey rfl rfl fun key => ?_
    simp only [ColumnClause.direction?, ColumnClause.countsUp, Option.none_or, Bool.or_false]
  | asc =>
    refine h.changeKey rfl rfl fun key => ?_
    simp only [ColumnClause.direction?, ColumnClause.countsUp, Option.some_or, Bool.or_false]
  | desc =>
    refine h.changeKey rfl rfl fun key => ?_
    simp only [ColumnClause.direction?, ColumnClause.countsUp, Option.some_or, Bool.or_false]
  | autoIncrement =>
    rw [ColumnDraft.apply]
    split
    · next hinteger =>
      have hpart : (.autoIncrement : ColumnClause c).part? = some .key := if_pos hinteger
      refine h.changeKey hpart rfl fun key => ?_
      simp only [ColumnClause.direction?, ColumnClause.countsUp, hinteger, Option.none_or, Bool.or_true]
    · next hinteger =>
      have hpart : (.autoIncrement : ColumnClause c).part? = none := if_neg hinteger
      exact h.of_apart hpart rfl rfl
  | unique => exact h.unique
  | onConflict choice =>
    rw [ColumnDraft.apply, h.changeFirst?_withConflict choice]
    cases hholder : ColumnClause.holder? clauses with
    | none =>
      -- the choice belongs to nothing, and nothing is said of it
      have hsaid : ColumnClause.said (clauses ++ [.onConflict choice]) =
          ColumnClause.said clauses :=
        funext fun p => ColumnClause.said_concat_onConflict
          (hholder ▸ (Option.some_ne_none p).symm) choice
      rw [Lists, ColumnClause.parts_concat, hsaid]
      exact h
    | some p =>
      rw [Lists, ColumnClause.parts_concat]
      exact List.reverse_reverse _
  | collate collation => exact h.collate collation
  | onDelete | onUpdate | foreignKeyName =>
    exact h.of_apart rfl rfl (d.constraints_changeReference _ _)
  | check label condition =>
    refine h.of_apart rfl rfl ?_
    rw [ColumnDraft.apply]
    split <;> rfl
  | defaultValue | defaultText | references | index | uniqueIndex => exact h.of_apart rfl rfl rfl

end Lists

section Rest

variable (d : ColumnDraft c)

/-- **A default** takes the place of the one before it. -/
theorem default?_apply (clause : ColumnClause c) :
    (d.apply clause).default? = clause.default?.or d.default? := by
  cases clause with
  | onDelete | onUpdate | foreignKeyName =>
    rw [apply, default?_changeReference]
    rfl
  | autoIncrement | unique | onConflict | check =>
    rw [apply]
    split <;> rfl
  | _ => rfl

/-- **A reference** stays one. -/
theorem isSome_reference?_apply (clause : ColumnClause c) :
    (d.apply clause).reference?.isSome = (d.reference?.isSome || clause.isReference) := by
  cases clause with
  | references column => exact (Bool.or_true _).symm
  | onDelete | onUpdate | foreignKeyName =>
    rw [apply, isSome_changeReference]
    exact (Bool.or_false _).symm
  | autoIncrement | unique | onConflict | check =>
    rw [apply]
    split <;> exact (Bool.or_false _).symm
  | _ => exact (Bool.or_false _).symm

end Rest

/-! ## The draft

What is noted of a misuse is the first fault, and later clauses are carried out
all the same. So the fields of `Follows` that speak of constraints, default and
reference hold of every draft, and what was noted is a field beside them. -/

/-- **A draft that follows its clauses**: what they say last on each matter,
and what is wrong with the first one that is misused. -/
structure Follows (d : ColumnDraft c) (clauses : List (ColumnClause c)) : Prop where
  /-- The constraints are the parts that they call for. -/
  lists : d.Lists clauses
  /-- The default is the last one. -/
  default? : d.default? = ColumnClause.last? ColumnClause.default? clauses
  /-- There is a reference if one was given. -/
  reference : d.reference?.isSome = clauses.any ColumnClause.isReference
  /-- If nothing was noted, they make sense. -/
  sensible : d.error? = none → ColumnClause.Sensible d.name.name clauses
  /-- What was noted is what is wrong with the first one that does not. -/
  misused : ∀ e, d.error? = some e → ColumnClause.FirstMisuse d.name.name clauses e

namespace Follows

variable {d : ColumnDraft c} {clauses : List (ColumnClause c)}

/-- **What a clause notes** is what is wrong with it, unless something was
noted before. -/
theorem error?_apply (h : d.Follows clauses) (clause : ColumnClause c) :
    (d.apply clause).error? = d.error?.or (clause.misuse? d.name.name clauses) := by
  have hnothing : ∀ {e : Option ConstructionError}, e = e.or none := Option.or_none.symm
  cases clause with
  | autoIncrement =>
    rw [ColumnDraft.apply, ColumnClause.misuse?]
    split
    · exact hnothing
    · rfl
  | onConflict choice =>
    rw [ColumnDraft.apply, ColumnClause.misuse?]
    rw [h.lists.changeFirst?_withConflict choice]
    cases hholder : ColumnClause.holder? clauses with
    | none =>
      rw [if_neg (Bool.eq_false_iff.mp (ColumnClause.holder?_eq_none_iff.mp hholder))]
      rfl
    | some p =>
      rw [if_pos]
      · exact hnothing
      · rw [← Bool.not_eq_false, ← ColumnClause.holder?_eq_none_iff, hholder]
        exact Option.some_ne_none p
  | onDelete | onUpdate | foreignKeyName =>
    rw [ColumnDraft.apply, error?_changeReference, h.reference]
    rfl
  | unique =>
    rw [ColumnDraft.apply]
    split <;> exact hnothing
  | check label condition =>
    rw [ColumnDraft.apply, ColumnClause.misuse?, Check.of?]
    by_cases hslots : condition.sql.slots = []
    · rw [dif_pos hslots, if_neg (by simp [Sql.hasSlots, hslots])]
      exact hnothing
    · rw [dif_neg hslots, if_pos (by simp [Sql.hasSlots, hslots])]
      rfl
  | _ => exact hnothing

/-- **A clause keeps a draft following.** -/
theorem apply (h : d.Follows clauses) (clause : ColumnClause c) :
    (d.apply clause).Follows (clauses ++ [clause]) := by
  constructor
  · exact h.lists.apply clause
  · rw [default?_apply, ColumnClause.last?_concat, h.default?]
  · rw [isSome_reference?_apply, ColumnClause.any_concat, h.reference]
  · intro hnone
    rw [h.error?_apply, Option.or_eq_none_iff] at hnone
    rw [apply_name]
    exact (h.sensible hnone.1).concat hnone.2
  · intro e he
    rw [h.error?_apply] at he
    rw [apply_name]
    cases herror : d.error? with
    | some first =>
      rw [herror, Option.some_or] at he
      obtain rfl := Option.some.inj he
      exact (h.misused first herror).concat clause
    | none =>
      rw [herror, Option.none_or] at he
      exact (h.sensible herror).firstMisuse_concat he

end Follows

/-- **Whatever the clauses are**, the draft follows them. -/
theorem follows_foldl (id : ExprId) (table name : Identifier) (clauses : List (ColumnClause c)) :
    (clauses.foldl ColumnDraft.apply { id, table, name }).Follows clauses := by
  induction clauses using List.reverseRecOn with
  | nil =>
    refine ⟨rfl, rfl, rfl, fun _ before clause hprefix => ?_, nofun⟩
    exact absurd (List.prefix_nil.mp hprefix) (List.concat_ne_nil clause before)
  | append_singleton clauses clause ih =>
    rw [List.foldl_append]
    exact ih.apply clause

end ColumnDraft

end TypedSql
