import TypedSql.Proofs.Schema.Refused

/-!
# What the clauses of a column say

A column is declared by clauses in any order, and any of them may come more
than once. Some change a constraint where it stands, some add one at the end,
and a collation leaves its place for a new one.

What they say can be put without any of that. `ColumnClause.last?` is what
they say last on a matter, and `ColumnClause.misuse?` what is wrong with one of
them behind others. `ColumnClause.parts` lists the parts of the definition that
they call for: a key and UNIQUE stand in the order in which they are called for
first, and a collation where it is called for last. A choice for conflicts
belongs to the key or UNIQUE that was called for last before it
(`ColumnClause.choice`); it is the only clause whose meaning hangs on its
place.

Nothing here looks at a column. One clause more at the end changes what is said
of one part at most, and a lemma for each matter says so: those that end in
`_concat`, and for all the other parts `ColumnClause.said_concat`.
-/

namespace TypedSql

/-! ## Reading the clauses -/

namespace ColumnClause

variable {c : Codec}

/-- Whether a clause makes the column the key. A key that counts up is refused
where there are no integers. -/
def declaresKey : ColumnClause c → Bool
  | primaryKey | asc | desc => true
  | autoIncrement => c.isInteger
  | _ => false

/-- The direction of a clause that gives one; `true` is descending. -/
def direction? : ColumnClause c → Option Bool
  | asc => some false
  | desc => some true
  | _ => none

/-- Whether a clause makes the key count up. -/
def countsUp : ColumnClause c → Bool
  | autoIncrement => c.isInteger
  | _ => false

/-- Whether a clause declares that no value comes twice. -/
def isUnique : ColumnClause c → Bool
  | unique => true
  | _ => false

/-- The collation of a clause that gives one. -/
def collation? : ColumnClause c → Option Collation
  | collate collation => some collation
  | _ => none

/-- The default of a clause that gives one, as it is written. -/
def default? : ColumnClause c → Option Sql
  | defaultValue v => some [.literal c v]
  | defaultText sql => some (rawDefault sql)
  | _ => none

/-- Whether a clause refers to another column. -/
def isReference : ColumnClause c → Bool
  | references _ => true
  | _ => false

/-- **What clauses say last** on a matter. -/
def last? {α : Type} (said? : ColumnClause c → Option α) (clauses : List (ColumnClause c)) :
    Option α :=
  (clauses.filterMap said?).getLast?

/-- **What is wrong with a clause** behind others, for a column of a name. -/
def misuse? (name : String) (before : List (ColumnClause c)) :
    ColumnClause c → Option ConstructionError
  | autoIncrement =>
    if c.isInteger then none else some (.invalidConstraint name .autoIncrementClass)
  | onConflict _ =>
    if before.any declaresKey || before.any isUnique then none
    else some (.invalidConstraint name .conflictWithoutKey)
  | onDelete _ =>
    if before.any isReference then none
    else some (.invalidConstraint name .deleteWithoutReference)
  | onUpdate _ =>
    if before.any isReference then none
    else some (.invalidConstraint name .updateWithoutReference)
  | foreignKeyName _ =>
    if before.any isReference then none
    else some (.invalidConstraint name .nameWithoutReference)
  | check label condition =>
    if condition.sql.hasSlots then
      some (.unexpectedBindArgument .check label condition.sql.text)
    else none
  | _ => none

/-- **Clauses none of which is misused.** -/
def Sensible (name : String) (clauses : List (ColumnClause c)) : Prop :=
  ∀ before clause, before ++ [clause] <+: clauses → clause.misuse? name before = none

/-- **The first clause that is misused**, by what is wrong with it. -/
def FirstMisuse (name : String) (clauses : List (ColumnClause c)) (e : ConstructionError) : Prop :=
  ∃ before clause, before ++ [clause] <+: clauses ∧ Sensible name before ∧
    clause.misuse? name before = some e

/-! ### One clause more -/

variable {name : String} {clauses : List (ColumnClause c)} {clause : ColumnClause c}
  {e : ConstructionError}

theorem last?_concat {α : Type} (said? : ColumnClause c → Option α)
    (clauses : List (ColumnClause c)) (clause : ColumnClause c) :
    last? said? (clauses ++ [clause]) = (said? clause).or (last? said? clauses) := by
  rw [last?, List.filterMap_append, List.getLast?_append]
  congr 1
  cases h : said? clause with
  | none => rw [List.filterMap_cons_none h]; rfl
  | some a => rw [List.filterMap_cons_some h]; rfl

theorem any_concat (p : ColumnClause c → Bool) (clauses : List (ColumnClause c))
    (clause : ColumnClause c) : (clauses ++ [clause]).any p = (clauses.any p || p clause) := by
  rw [List.any_append, List.any_cons, List.any_nil, Bool.or_false]

theorem Sensible.concat (h : Sensible name clauses) (hclause : clause.misuse? name clauses = none) :
    Sensible name (clauses ++ [clause]) := by
  intro before other hprefix
  obtain heq | hearlier := List.prefix_concat_iff.mp hprefix
  · obtain ⟨rfl, hother⟩ := List.append_inj' heq rfl
    obtain rfl := List.singleton_inj.mp hother
    exact hclause
  · exact h before other hearlier

theorem FirstMisuse.concat (h : FirstMisuse name clauses e) (clause : ColumnClause c) :
    FirstMisuse name (clauses ++ [clause]) e := by
  obtain ⟨before, first, hprefix, hbefore, hmisuse⟩ := h
  exact ⟨before, first, hprefix.trans (List.prefix_append clauses [clause]), hbefore, hmisuse⟩

/-- A clause that is misused is the first one behind clauses that are not. -/
theorem Sensible.firstMisuse_concat (h : Sensible name clauses)
    (hclause : clause.misuse? name clauses = some e) : FirstMisuse name (clauses ++ [clause]) e :=
  ⟨clauses, clause, List.prefix_refl _, h, hclause⟩

/-- Without a clause that makes the column the key, none gives a direction. -/
theorem last?_direction?_of_no_key (h : clauses.any declaresKey = false) :
    last? direction? clauses = none := by
  have hnone : clauses.filterMap direction? = [] := by
    refine List.filterMap_eq_nil_iff.mpr fun clause hclause => ?_
    have hkey := List.any_eq_false.mp h clause hclause
    cases clause <;> first | rfl | exact absurd rfl hkey
  rw [last?, hnone, List.getLast?_nil]

theorem any_countsUp_of_no_key (h : clauses.any declaresKey = false) :
    clauses.any countsUp = false := by
  refine List.any_eq_false.mpr fun clause hclause => ?_
  have hkey := List.any_eq_false.mp h clause hclause
  cases clause <;> first | exact hkey | exact Bool.false_ne_true

/-- A key counts up only over integers. -/
theorem isInteger_of_countsUp (h : clauses.any countsUp = true) : c.isInteger = true := by
  obtain ⟨clause, -, hclause⟩ := List.any_eq_true.mp h
  cases clause with
  | autoIncrement => exact hclause
  | _ => cases hclause

/-- **Clauses that contradict each other**: the key is to count up, and to be
sorted downwards. -/
def CountsDownwards (clauses : List (ColumnClause c)) : Prop :=
  clauses.any countsUp = true ∧ last? direction? clauses = some true

end ColumnClause

/-! ## The parts of a definition

The order of the parts is an order of calls, and it is the one thing that can
not be read off the last clauses on each matter. `ColumnClause.place` is how
one part changes it. A choice for conflicts does not call for a part: it goes
to the key or UNIQUE that was called for last, in the list as it then was, so
it is read from the last clause back to where its part was the holder. -/

/-- **A part of the definition of a column**, behind its class. -/
inductive ColumnPart where
  /-- The key. -/
  | key
  /-- That no value comes twice. -/
  | unique
  /-- The collation. -/
  | collation
deriving DecidableEq, Repr

namespace ColumnPart

variable {parts : List ColumnPart} {p q : ColumnPart}

/-- **Puts a part in its place.** A key and UNIQUE stay where they are, and a
collation goes to the end. -/
def place (parts : List ColumnPart) (p : ColumnPart) : List ColumnPart :=
  if p = collation then parts.filter (· ≠ collation) ++ [collation]
  else if p ∈ parts then parts
  else parts ++ [p]

theorem mem_place : q ∈ place parts p ↔ q ∈ parts ∨ q = p := by
  unfold place
  split
  · next hp =>
    subst hp
    by_cases hq : q = collation <;> simp [hq]
  · split
    · next hmem => exact ⟨.inl, fun h => h.elim id fun heq => heq ▸ hmem⟩
    · simp

theorem nodup_place (h : parts.Nodup) : (place parts p).Nodup := by
  unfold place
  split
  · refine List.nodup_append.mpr ⟨h.filter _, List.nodup_singleton _, ?_⟩
    intro a ha b hb heq
    rw [heq, List.mem_singleton.mp hb] at ha
    simp at ha
  · split
    · exact h
    · next hmem => exact List.nodup_append.mpr ⟨h, List.nodup_singleton _, fun a ha b hb heq =>
        hmem (List.mem_singleton.mp hb ▸ heq ▸ ha)⟩

end ColumnPart

namespace ColumnClause

variable {c : Codec} {clauses : List (ColumnClause c)} {clause : ColumnClause c} {p : ColumnPart}

/-- The part that a clause calls for. -/
def part? : ColumnClause c → Option ColumnPart
  | primaryKey | asc | desc => some .key
  | autoIncrement => if c.isInteger then some .key else none
  | unique => some .unique
  | collate _ => some .collation
  | _ => none

/-- The choice for conflicts of a clause that makes one. -/
def conflict? : ColumnClause c → Option OnConflict
  | onConflict choice => some choice
  | _ => none

/-- **The parts that clauses call for**, in the order of the definition. -/
def parts (clauses : List (ColumnClause c)) : List ColumnPart :=
  (clauses.filterMap part?).foldl ColumnPart.place []

/-- The key or UNIQUE that was called for last, if there is one. -/
def holder? (clauses : List (ColumnClause c)) : Option ColumnPart :=
  ((parts clauses).filter (· ≠ .collation)).getLast?

/-- The choice for a part, read from the last clause on: the first that was
made while the part was the holder. -/
def choiceBack (p : ColumnPart) : List (ColumnClause c) → OnConflict
  | [] => .unspecified
  | clause :: earlier =>
    match clause.conflict? with
    | some choice => if holder? earlier.reverse = some p then choice else choiceBack p earlier
    | none => choiceBack p earlier

/-- **The choice for conflicts** that clauses make for a part. -/
def choice (p : ColumnPart) (clauses : List (ColumnClause c)) : OnConflict :=
  choiceBack p clauses.reverse

/-- **What clauses say of the key.** -/
def saidKey (clauses : List (ColumnClause c)) : KeyClause where
  descending? := last? direction? clauses
  onConflict := choice .key clauses
  autoIncrement := clauses.any countsUp

/-- **What clauses say of a part.** A collation is said where it is called
for. -/
def said (clauses : List (ColumnClause c)) : ColumnPart → ColumnConstraint
  | .key => .primaryKey (saidKey clauses)
  | .unique => .unique (choice .unique clauses)
  | .collation => .collate ((last? collation? clauses).getD .binary)

theorem declaresKey_iff : clause.declaresKey = true ↔ clause.part? = some .key := by
  cases clause with
  | autoIncrement => cases h : c.isInteger <;> simp [declaresKey, part?, h]
  | _ => simp [declaresKey, part?]

theorem isUnique_iff : clause.isUnique = true ↔ clause.part? = some .unique := by
  cases clause with
  | autoIncrement => cases h : c.isInteger <;> simp [isUnique, part?, h]
  | _ => simp [isUnique, part?]

theorem collation?_isSome_iff : clause.collation?.isSome = true ↔
    clause.part? = some .collation := by
  cases clause with
  | autoIncrement => cases h : c.isInteger <;> simp [collation?, part?, h]
  | _ => simp [collation?, part?]

/-! ### One clause more -/

theorem parts_concat : parts (clauses ++ [clause]) =
    clause.part?.elim (parts clauses) (ColumnPart.place (parts clauses)) := by
  rw [parts, List.filterMap_append, List.foldl_append]
  cases h : clause.part? <;> simp [parts, h]

/-- **The parts are those that are called for.** -/
theorem mem_parts : p ∈ parts clauses ↔ ∃ clause ∈ clauses, clause.part? = some p := by
  induction clauses using List.reverseRecOn with
  | nil => exact iff_of_false List.not_mem_nil nofun
  | append_singleton clauses clause ih =>
    simp only [List.mem_append, List.mem_singleton, or_and_right, exists_or, exists_eq_left]
    rw [parts_concat, ← ih]
    cases clause.part? with
    | none => simp
    | some q => simp [ColumnPart.mem_place, eq_comm]

/-- **No part comes twice.** -/
theorem nodup_parts (clauses : List (ColumnClause c)) : (parts clauses).Nodup := by
  induction clauses using List.reverseRecOn with
  | nil => exact List.nodup_nil
  | append_singleton clauses clause ih =>
    rw [parts_concat]
    cases clause.part? with
    | none => exact ih
    | some q => exact ColumnPart.nodup_place ih

theorem key_mem_parts : .key ∈ parts clauses ↔ clauses.any declaresKey = true := by
  simp only [mem_parts, List.any_eq_true, declaresKey_iff]

theorem unique_mem_parts : .unique ∈ parts clauses ↔ clauses.any isUnique = true := by
  simp only [mem_parts, List.any_eq_true, isUnique_iff]

theorem collation_mem_parts : .collation ∈ parts clauses ↔
    (last? collation? clauses).isSome = true := by
  rw [mem_parts, last?, List.getLast?_isSome, Ne, List.filterMap_eq_nil_iff]
  simp only [← collation?_isSome_iff, ← Option.ne_none_iff_isSome, not_forall, exists_prop]

/-- A choice belongs to nothing as long as no key and no UNIQUE is called
for. -/
theorem holder?_eq_none_iff :
    holder? clauses = none ↔ (clauses.any declaresKey || clauses.any isUnique) = false := by
  rw [holder?, List.getLast?_eq_none_iff, List.filter_eq_nil_iff, Bool.or_eq_false_iff,
    ← Bool.not_eq_true, ← Bool.not_eq_true, ← key_mem_parts, ← unique_mem_parts]
  refine ⟨fun h => ⟨fun hkey => h _ hkey rfl, fun hunique => h _ hunique rfl⟩, fun h p hp => ?_⟩
  cases p with
  | key => exact absurd hp h.1
  | unique => exact absurd hp h.2
  | collation => simp

theorem choice_concat (h : clause.conflict? = none) :
    choice p (clauses ++ [clause]) = choice p clauses := by
  rw [choice, List.reverse_append, List.reverse_singleton, List.singleton_append, choiceBack, h]
  rfl

theorem choice_concat_onConflict (choice' : OnConflict) :
    choice p (clauses ++ [.onConflict choice']) =
      if holder? clauses = some p then choice' else choice p clauses := by
  rw [choice, List.reverse_append, List.reverse_singleton, List.singleton_append, choiceBack,
    List.reverse_reverse]
  rfl

/-- Nothing is chosen for a part that is not called for. -/
theorem choice_of_notMem (h : p ∉ parts clauses) : choice p clauses = .unspecified := by
  induction clauses using List.reverseRecOn with
  | nil => rfl
  | append_singleton clauses clause ih =>
    have hearlier : p ∉ parts clauses := fun hmem => by
      obtain ⟨first, hfirst, hpart⟩ := mem_parts.mp hmem
      exact h (mem_parts.mpr ⟨first, List.mem_append_left _ hfirst, hpart⟩)
    cases hconflict : clause.conflict? with
    | none => rw [choice_concat hconflict, ih hearlier]
    | some choice' =>
      obtain rfl : clause = .onConflict choice' := by
        cases clause <;> cases hconflict
        rfl
      have hholder : holder? clauses ≠ some p := fun heq =>
        hearlier (List.mem_filter.mp (List.mem_of_getLast? heq)).1
      rw [choice_concat_onConflict, if_neg hholder, ih hearlier]

theorem saidKey_of_notMem (h : .key ∉ parts clauses) : saidKey clauses = {} := by
  have hkey : clauses.any declaresKey = false := Bool.eq_false_iff.mpr (mt key_mem_parts.mpr h)
  rw [saidKey, choice_of_notMem h, last?_direction?_of_no_key hkey, any_countsUp_of_no_key hkey]

/-- **What is said of the key**: a direction that a clause gives counts, and a
key that counts up goes on doing so. -/
theorem saidKey_concat (hconflict : clause.conflict? = none) :
    saidKey (clauses ++ [clause]) =
      { saidKey clauses with
        descending? := clause.direction?.or (saidKey clauses).descending?
        autoIncrement := (saidKey clauses).autoIncrement || clause.countsUp } := by
  simp only [saidKey, last?_concat, any_concat, choice_concat hconflict]

/-- **What is said of a part** stays with a clause that calls for another and
makes no choice. -/
theorem said_concat (hpart : clause.part? ≠ some p) (hconflict : clause.conflict? = none) :
    said (clauses ++ [clause]) p = said clauses p := by
  cases p with
  | key =>
    have hkey : clause.declaresKey = false := Bool.eq_false_iff.mpr (mt declaresKey_iff.mp hpart)
    have hdirection : clause.direction? = none := by
      cases clause <;> first | rfl | cases hkey
    have hcounts : clause.countsUp = false := by
      cases clause <;> first | rfl | exact hkey
    simp only [said, saidKey_concat hconflict, hdirection, hcounts, Option.none_or, Bool.or_false]
  | unique => simp only [said, choice_concat hconflict]
  | collation =>
    have hcollation : clause.collation? = none :=
      Option.not_isSome_iff_eq_none.mp (mt collation?_isSome_iff.mp hpart)
    simp only [said, last?_concat, hcollation, Option.none_or]

/-- A choice that belongs to another part. -/
theorem said_concat_onConflict (h : holder? clauses ≠ some p) (choice' : OnConflict) :
    said (clauses ++ [.onConflict choice']) p = said clauses p := by
  have hchoice : choice p (clauses ++ [.onConflict choice']) = choice p clauses := by
    rw [choice_concat_onConflict, if_neg h]
  cases p with
  | key =>
    simp only [said, saidKey, hchoice, last?_concat, any_concat, direction?, countsUp,
      Option.none_or, Bool.or_false]
  | unique => simp only [said, hchoice]
  | collation => simp only [said, last?_concat, collation?, Option.none_or]

/-- **A choice is said of its holder.** -/
theorem withConflict_said (h : holder? clauses = some p) (choice' : OnConflict) :
    ColumnDraft.withConflict choice' (said clauses p) =
      some (said (clauses ++ [.onConflict choice']) p) := by
  have hchoice : choice p (clauses ++ [.onConflict choice']) = choice' := by
    rw [choice_concat_onConflict, if_pos h]
  cases p with
  | key =>
    simp only [said, saidKey, ColumnDraft.withConflict, hchoice, last?_concat, any_concat,
      direction?, countsUp, Option.none_or, Bool.or_false]
  | unique => simp only [said, ColumnDraft.withConflict, hchoice]
  | collation =>
    have hmem := (List.mem_filter.mp (List.mem_of_getLast? h)).2
    exact absurd rfl (of_decide_eq_true hmem)

end ColumnClause

end TypedSql
