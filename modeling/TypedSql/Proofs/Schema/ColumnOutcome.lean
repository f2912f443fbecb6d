import TypedSql.Proofs.Schema.ColumnDraft
import TypedSql.Proofs.Sql.Text

/-!
# What the declaration of a column comes to

The draft of a column follows its clauses (`ColumnDraft.Follows`), and this
module says what the declaration answers. It is refused for the first clause
that is misused, if there is one, and only then for a key that is to count up
and to be sorted downwards. Otherwise there is a column with one key, one
UNIQUE, one collation and one default at most, each of them the one that the
clauses say last (`Column.Combines`).

That is said of the column's constraints, and once more of its text. The
definition is the name, the class, NOT NULL unless the codec has a NULL, the
parts that the clauses call for, each of them once and in its place, and the
default. `ColumnClause.partText` is a part as it is written, put in terms of the
clauses alone: a direction and AUTOINCREMENT stand inside the key, and behind
COLLATE stands the name of the last collation.

`ColumnOutcome` lists the answers. They exclude each other, so that each of
them also says when it is given.
-/

namespace TypedSql

/-! ## The text of a definition

`partText` is written down without a look at the constraints: each line of it
is a part of the definition with the words in the order in which they are
printed, and what stands in them is what the clauses say last. That the printer
prints these lines is `text_said`, one case for each part; the rest of the
definition is the same for all columns. -/

namespace ColumnClause

variable {c : Codec} (clauses : List (ColumnClause c))

/-- **A part of a definition as it is written**, with what the clauses say of
it. -/
def partText : ColumnPart → String
  | .key =>
    " PRIMARY KEY" ++
      (match last? direction? clauses with
        | none => ""
        | some true => " DESC"
        | some false => " ASC") ++
      (choice .key clauses).clause ++
      (if clauses.any countsUp then " AUTOINCREMENT" else "")
  | .unique => " UNIQUE" ++ (choice .unique clauses).clause
  | .collation =>
    match last? collation? clauses with
    | none => ""
    | some .binary => " COLLATE BINARY"
    | some .noCase => " COLLATE NOCASE"
    | some .rtrim => " COLLATE RTRIM"
    | some (.custom name) => " COLLATE " ++ name

/-- The default as it is written. -/
def defaultPart : String :=
  match last? default? clauses with
  | none => ""
  | some value => " DEFAULT " ++ value.text

variable {clauses}

/-- **A part that is called for** is written as the clauses say it. -/
theorem text_said {p : ColumnPart} (hp : p ∈ parts clauses) :
    (said clauses p).sql.text = partText clauses p := by
  cases p with
  | key =>
    rw [said, saidKey, partText]
    rcases last? direction? clauses with _ | _ | _ <;>
      simp only [ColumnConstraint.sql, Sql.text_append, Sql.text_words]
  | unique => simp only [said, ColumnConstraint.sql, Sql.text_append, Sql.text_words, partText]
  | collation =>
    obtain ⟨collation, hlast⟩ := Option.isSome_iff_exists.mp (collation_mem_parts.mp hp)
    rw [said, partText, hlast]
    cases collation with
    | custom name =>
      simp only [Option.getD_some, ColumnConstraint.sql, Sql.text_append, Sql.text_words,
        Sql.text_verbatim]
    | binary | noCase | rtrim =>
      simp only [Option.getD_some, ColumnConstraint.sql, Sql.text_append, Sql.text_words]
      rfl

end ColumnClause

/-! ## The column

That one kind of constraint is there once is counted in the list of the parts,
which has no repetitions, and so is what is said of it: the one value that is
found among the constraints is the one that the clauses say. -/

/-- **A column that is what its clauses say.** -/
structure Column.Combines (column : Column) {c : Codec} (clauses : List (ColumnClause c)) :
    Prop where
  /-- It is the key once, if a clause says so. -/
  key : column.constraints.countP ColumnConstraint.isPrimaryKey =
    if clauses.any ColumnClause.declaresKey then 1 else 0
  /-- It is UNIQUE once, if a clause says so. -/
  unique : column.constraints.countP ColumnConstraint.isUnique =
    if clauses.any ColumnClause.isUnique then 1 else 0
  /-- Its only collation is the last one. -/
  collate : column.constraints.filterMap ColumnConstraint.collation? =
    (ColumnClause.last? ColumnClause.collation? clauses).toList
  /-- Its default is the last one. -/
  default? : column.default? = ColumnClause.last? ColumnClause.default? clauses
  /-- The direction of the key is the last one. -/
  direction : ∀ key, .primaryKey key ∈ column.constraints →
    key.descending? = ColumnClause.last? ColumnClause.direction? clauses
  /-- The key counts up if a clause says so. -/
  autoIncrement : ∀ key, .primaryKey key ∈ column.constraints →
    key.autoIncrement = clauses.any ColumnClause.countsUp
  /-- It does so only over integers, and not downwards. -/
  counted : ∀ key, .primaryKey key ∈ column.constraints → key.autoIncrement = true →
    column.codec.isInteger = true ∧ key.descending? ≠ some true
  /-- Its definition has every part that is called for, once. -/
  once : (ColumnClause.parts clauses).Nodup ∧
    ∀ p, p ∈ ColumnClause.parts clauses ↔ ∃ clause ∈ clauses, clause.part? = some p
  /-- The definition is the name, the class, NOT NULL unless the codec has a
  NULL, these parts and the default. -/
  text : column.sql.text =
    column.name.quoted ++ " " ++ column.codec.storageClass.sql ++
      (if column.codec.isNullable then "" else " NOT NULL") ++
      String.join ((ColumnClause.parts clauses).map (ColumnClause.partText clauses)) ++
      ColumnClause.defaultPart clauses

/-- It is the key if a clause says so. -/
theorem Column.Combines.isPrimaryKey {column : Column} {c : Codec}
    {clauses : List (ColumnClause c)} (h : column.Combines clauses) :
    column.isPrimaryKey = clauses.any ColumnClause.declaresKey := by
  rw [Bool.eq_iff_iff, Column.isPrimaryKey, List.any_eq_true, ← List.countP_pos_iff, h.key]
  split <;> simp [*]

namespace ColumnDraft.Follows

variable {c : Codec} {d : ColumnDraft c} {clauses : List (ColumnClause c)}

/-- What clauses say of the key, if the column is one. -/
theorem mem_constraints_iff (h : d.Follows clauses) {key : KeyClause} :
    .primaryKey key ∈ d.constraints ↔
      clauses.any ColumnClause.declaresKey = true ∧ key = ColumnClause.saidKey clauses := by
  rw [h.lists, List.mem_map, ← ColumnClause.key_mem_parts]
  constructor
  · rintro ⟨p, hp, hkey⟩
    cases p with
    | key => exact ⟨hp, (ColumnConstraint.primaryKey.inj hkey).symm⟩
    | unique | collation => cases hkey
  · rintro ⟨hp, rfl⟩
    exact ⟨.key, hp, rfl⟩

/-- **A kind of constraint** is there once if its part is called for. -/
theorem countP_eq (h : d.Follows clauses) {kind : ColumnConstraint → Bool} {p : ColumnPart}
    (hkind : ∀ q, kind (ColumnClause.said clauses q) = decide (q = p)) :
    d.constraints.countP kind = if p ∈ ColumnClause.parts clauses then 1 else 0 := by
  rw [h.lists, List.countP_map, Function.comp_def]
  simp only [hkind]
  exact List.Nodup.count (ColumnClause.nodup_parts clauses)

/-- What only one part has to say is said once, if the part is called for. -/
theorem filterMap_eq (h : d.Follows clauses) {β : Type} {f : ColumnConstraint → Option β}
    {p : ColumnPart} (hother : ∀ q, q ≠ p → f (ColumnClause.said clauses q) = none) :
    d.constraints.filterMap f =
      if p ∈ ColumnClause.parts clauses then (f (ColumnClause.said clauses p)).toList else [] := by
  have hnodup := ColumnClause.nodup_parts clauses
  rw [h.lists, List.filterMap_map]
  generalize ColumnClause.parts clauses = parts at hnodup
  induction parts with
  | nil => rfl
  | cons q parts ih =>
    obtain ⟨hq, hparts⟩ := List.nodup_cons.mp hnodup
    rw [List.filterMap_cons, ih hparts, Function.comp_apply]
    by_cases hqp : q = p
    · subst hqp
      rw [if_neg hq, if_pos List.mem_cons_self]
      cases f (ColumnClause.said clauses q) <;> rfl
    · simp [hother q hqp, Ne.symm hqp]

theorem filterMap_collation? (h : d.Follows clauses) :
    d.constraints.filterMap ColumnConstraint.collation? =
      (ColumnClause.last? ColumnClause.collation? clauses).toList := by
  rw [h.filterMap_eq (p := .collation) fun q hq => ?_]
  · simp only [ColumnClause.collation_mem_parts, ColumnClause.said, ColumnConstraint.collation?]
    cases ColumnClause.last? ColumnClause.collation? clauses <;> rfl
  · cases q with
    | collation => exact absurd rfl hq
    | key | unique => rfl

/-- **The text of the definition** that a draft has become. -/
theorem text_sql (h : d.Follows clauses) : d.column.sql.text =
    d.name.quoted ++ " " ++ c.storageClass.sql ++ (if c.isNullable then "" else " NOT NULL") ++
      String.join ((ColumnClause.parts clauses).map (ColumnClause.partText clauses)) ++
      ColumnClause.defaultPart clauses := by
  have hparts : d.constraints.map (fun k => k.sql.text) =
      (ColumnClause.parts clauses).map (ColumnClause.partText clauses) := by
    rw [h.lists, List.map_map]
    exact List.map_congr_left fun p hp => ColumnClause.text_said hp
  simp only [Column.sql, ColumnDraft.column, Sql.text_append, Sql.text_name, Sql.text_words,
    Sql.text_flatMap, hparts, h.default?, ColumnClause.defaultPart, String.append_assoc]
  cases ColumnClause.last? ColumnClause.default? clauses with
  | none => rfl
  | some value => simp only [Sql.text_append, Sql.text_words]

/-- **The column of a draft** is what its clauses say, unless they contradict
each other. -/
theorem combines (h : d.Follows clauses) (hup : ¬ ColumnClause.CountsDownwards clauses) :
    d.column.Combines clauses where
  key := by
    simp only [← ColumnClause.key_mem_parts]
    exact h.countP_eq fun q => by cases q <;> rfl
  unique := by
    simp only [← ColumnClause.unique_mem_parts]
    exact h.countP_eq fun q => by cases q <;> rfl
  collate := h.filterMap_collation?
  default? := h.default?
  direction := fun key hkey => by rw [(h.mem_constraints_iff.mp hkey).2, ColumnClause.saidKey]
  autoIncrement := fun key hkey => by rw [(h.mem_constraints_iff.mp hkey).2, ColumnClause.saidKey]
  counted := fun key hkey hauto => by
    rw [(h.mem_constraints_iff.mp hkey).2] at hauto ⊢
    exact ⟨ColumnClause.isInteger_of_countsUp hauto, fun hdown => hup ⟨hauto, hdown⟩⟩
  once := ⟨ColumnClause.nodup_parts clauses, fun _ => ColumnClause.mem_parts⟩
  text := h.text_sql

/-- **The key of the column** is the one that the clauses declare. -/
theorem key?_column (h : d.Follows clauses) :
    d.column.key? =
      if clauses.any ColumnClause.declaresKey then some (ColumnClause.saidKey clauses) else none := by
  show d.constraints.findSome? ColumnConstraint.key? = _
  rw [← List.head?_filterMap, h.filterMap_eq (p := .key) fun q hq => ?_]
  · simp only [ColumnClause.key_mem_parts]
    split <;> rfl
  · cases q with
    | key => exact absurd rfl hq
    | unique | collation => rfl

/-- The key is found to contradict itself if the clauses do. -/
theorem any_key?_iff (h : d.Follows clauses) :
    (d.column.key?.any fun key => key.autoIncrement && key.descending? == some true) = true ↔
      ColumnClause.CountsDownwards clauses := by
  rw [h.key?_column, ColumnClause.CountsDownwards]
  split
  · rw [Option.any_some, Bool.and_eq_true, beq_iff_eq]
    rfl
  · next hkey =>
    rw [ColumnClause.any_countsUp_of_no_key (Bool.eq_false_iff.mpr hkey)]
    exact iff_of_false Bool.false_ne_true fun hdown => Bool.false_ne_true hdown.1

/-- **A draft that is finished**: what was noted decides, and then whether the
clauses contradict each other. -/
theorem finish?_cases (h : d.Follows clauses) :
    (∃ e, d.finish? = .error e ∧ ColumnClause.FirstMisuse d.name.name clauses e) ∨
      ColumnClause.Sensible d.name.name clauses ∧
        (d.finish? = .error (.invalidConstraint d.name.name .autoIncrementDescending) ∧
            ColumnClause.CountsDownwards clauses ∨
          d.finish? = .ok d.column ∧ ¬ ColumnClause.CountsDownwards clauses) := by
  cases herror : d.error? with
  | some e => exact .inl ⟨e, finish?_of_error? herror, h.misused e herror⟩
  | none =>
    refine .inr ⟨h.sensible herror, ?_⟩
    simp only [ColumnDraft.finish?, herror]
    by_cases hcontradict : ColumnClause.CountsDownwards clauses
    · exact .inl ⟨if_pos (h.any_key?_iff.mpr hcontradict), hcontradict⟩
    · exact .inr ⟨if_neg (mt h.any_key?_iff.mp hcontradict), hcontradict⟩

end ColumnDraft.Follows

/-- **What the declaration of a column comes to.** -/
inductive ColumnOutcome (b : TableBuilder) (name : String) {c : Codec}
    (clauses : List (ColumnClause c)) : Except ConstructionError Column → Prop where
  /-- The name is taken, and nobody looks at the clauses. -/
  | taken : (∃ other ∈ b.columns, other.name = ⟨name⟩) →
    ColumnOutcome b name clauses (.error (.duplicateColumn b.name.name name))
  /-- A clause is misused, and the first one that is decides. -/
  | misused {e : ConstructionError} : (∀ other ∈ b.columns, other.name ≠ ⟨name⟩) →
    ColumnClause.FirstMisuse name clauses e → ColumnOutcome b name clauses (.error e)
  /-- None is misused, but the key would count up and be sorted downwards. -/
  | descending : (∀ other ∈ b.columns, other.name ≠ ⟨name⟩) →
    ColumnClause.Sensible name clauses → ColumnClause.CountsDownwards clauses →
    ColumnOutcome b name clauses (.error (.invalidConstraint name .autoIncrementDescending))
  /-- The column makes sense, but it would be a second key. -/
  | secondKey : (∀ other ∈ b.columns, other.name ≠ ⟨name⟩) →
    ColumnClause.Sensible name clauses → ¬ ColumnClause.CountsDownwards clauses →
    clauses.any ColumnClause.declaresKey = true → b.hasKey = true →
    ColumnOutcome b name clauses (.error (.duplicatePrimaryKey b.name.name))
  /-- There is a column, and it is what the clauses say. -/
  | accepted {column : Column} : (∀ other ∈ b.columns, other.name ≠ ⟨name⟩) →
    ColumnClause.Sensible name clauses → ¬ ColumnClause.CountsDownwards clauses →
    (clauses.any ColumnClause.declaresKey = true → b.hasKey = false) →
    column.table = b.name → column.name = ⟨name⟩ → column.codec = c → column.Combines clauses →
    ColumnOutcome b name clauses (.ok column)

/-- **Declaring a column**, on the builder of a draft. -/
theorem TableDraft.column_outcome (d : TableDraft) (n : ExprId) (name : String) (c : Codec)
    (clauses : List (ColumnClause c)) :
    ColumnOutcome d.builder name clauses
      ((Building.column name c clauses).run.run (d.builder, n)).1 := by
  rw [Building.run_column]
  cases htaken : d.hasColumn ⟨name⟩ with
  | true =>
    obtain ⟨other, hother, hname⟩ := List.any_eq_true.mp htaken
    rw [run_declareColumn_of_taken htaken]
    exact .taken ⟨other, hother, beq_iff_eq.mp hname⟩
  | false =>
    have hnew : ∀ other ∈ d.builder.columns, other.name ≠ ⟨name⟩ := fun other hother heq =>
      List.any_eq_false.mp htaken other hother (beq_iff_eq.mpr heq)
    have hfollows := ColumnDraft.follows_foldl n d.name ⟨name⟩ clauses
    obtain ⟨-, htable, hname⟩ := ColumnDraft.worded_foldl clauses
      (d := { id := n, table := d.name, name := ⟨name⟩ }) ⟨Nat.zero_le 1, nofun, nofun⟩
    rw [run_declareColumn htaken]
    generalize clauses.foldl ColumnDraft.apply
      { id := n, table := d.name, name := ⟨name⟩ } = draft at hfollows htable hname
    have hfinish := hfollows.finish?_cases
    rw [hname] at hfinish
    obtain ⟨e, hrefused, hmisuse⟩ | ⟨hsensible, ⟨hrefused, hdown⟩ | ⟨haccepted, hup⟩⟩ := hfinish
    · rw [closeColumn_of_error hrefused]
      exact .misused hnew hmisuse
    · rw [closeColumn_of_error hrefused]
      exact .descending hnew hsensible hdown
    · have hcombines := hfollows.combines hup
      rw [closeColumn_eq haccepted, hcombines.isPrimaryKey]
      by_cases hsecond : (clauses.any ColumnClause.declaresKey && d.hasKey) = true
      · rw [if_pos hsecond]
        obtain ⟨hdeclared, htakenKey⟩ := Bool.and_eq_true_iff.mp hsecond
        exact .secondKey hnew hsensible hup hdeclared htakenKey
      · rw [if_neg hsecond]
        refine .accepted hnew hsensible hup (fun hdeclared => ?_) htable hname rfl hcombines
        rw [hdeclared, Bool.true_and] at hsecond
        exact Bool.eq_false_iff.mpr hsecond

/-- **Column clauses combine**, whatever a program did before: the declaration
of a column is refused for a name that is taken, for the first clause that is
misused, for a key that is to count up downwards or for a second key, in this
order, and otherwise there is a column that is what its clauses say. -/
theorem TableCall.column_combines (table : Identifier) (n : ExprId) (calls : List TableCall)
    (name : String) (c : Codec) (clauses : List (ColumnClause c)) :
    let s := runAll calls ({ name := table }, n)
    ColumnOutcome s.1 name clauses ((Building.column name c clauses).run.run s).1 := by
  intro s
  obtain ⟨d, hb, -, -⟩ := runAll_spec table n calls
  have hstate : s = (d.builder, s.2) := Prod.ext hb rfl
  rw [hstate]
  exact d.column_outcome s.2 name c clauses

/-- The key stands behind UNIQUE, which was called for first, and has the choice;
the second collation has the place of the first. -/
example : ((Building.column "a" (.scalar .text)
    [.collate .noCase, .unique, .asc, .onConflict .ignore, .desc, .collate .rtrim]).run.run
      ({ name := ⟨"t"⟩ }, 0)).1.map (fun column => column.sql.text) =
    .ok "\"a\" TEXT NOT NULL UNIQUE PRIMARY KEY DESC ON CONFLICT IGNORE COLLATE RTRIM" := by
  decide +kernel

/-- A key that is to count up downwards is not what is reported where a clause
is misused, even behind it. -/
example : ((Building.column "id" .long [.autoIncrement, .desc, .onDelete .cascade]).run.run
    ({ name := ⟨"t"⟩ }, 0)).1 = .error (.invalidConstraint "id" .deleteWithoutReference) := rfl

end TypedSql
