import TypedSql.Proofs.Schema.Creation

/-!
# Indices without names of their own

An index that is given no name is called after its table and its columns, with
underscores between them and a word behind them if it is unique. A table and
its columns may have underscores in their names as well, and a column may be
called like the word. So a name does not tell where one of its parts ends. It
tells its words, which is what stands between underscores wherever they come
from, and two such indices have one name exactly if they have the same words
(`Index.name_eq_iff`).

The statement that makes an index does nothing if there is an index of its
name. What is left of the indices of some tables are those whose name is new
(`Index.made`), and that is all of them exactly if no two have the same words
(`Dependencies.createAll_makes_iff`).
-/

namespace TypedSql

/-! ## Words

A name is a text with underscores in it, and splitting at underscores undoes
joining with them. Splitting a text that was joined from parts with underscores
of their own gives the words of all parts (`splitOn_append_flatMap`), and
nothing of where a part ended. Everything that can be said of such names is
said of this list. -/

/-- **The words of a name**: what stands between its underscores. -/
def Identifier.words (i : Identifier) : List (List Char) := i.name.toList.splitOn '_'

namespace Identifier

/-- A name is known by its words. -/
theorem words_inj {i j : Identifier} : i.words = j.words ↔ i = j := by
  refine ⟨fun h => ?_, fun h => congrArg words h⟩
  have hjoin : ∀ k : Identifier, ['_'].intercalate k.words = k.name.toList :=
    fun k => List.intercalate_splitOn '_'
  have hname : i.name = j.name := String.toList_inj.mp (by rw [← hjoin i, ← hjoin j, h])
  cases i
  cases j
  exact congrArg Identifier.mk hname

theorem words_of_notMem {i : Identifier} (h : '_' ∉ i.name.toList) : i.words = [i.name.toList] := by
  have hnone : ∀ word ∈ [i.name.toList], '_' ∉ word := List.forall_mem_singleton.mpr h
  have hsplit := List.splitOn_intercalate '_' hnone (List.cons_ne_nil _ _)
  rwa [List.intercalate_singleton] at hsplit

end Identifier

/-- Texts that are put together with a separator are split into what each of
them is split into. -/
theorem splitOn_append_flatMap {α : Type} [DecidableEq α] (x : α) (text : List α)
    (texts : List (List α)) :
    (text ++ texts.flatMap (x :: ·)).splitOn x =
      text.splitOn x ++ texts.flatMap (List.splitOn x) := by
  induction texts generalizing text with
  | nil => rw [List.flatMap_nil, List.flatMap_nil, List.append_nil, List.append_nil]
  | cons next texts ih =>
    rw [List.flatMap_cons, List.flatMap_cons, List.cons_append, List.splitOn_append_cons_self, ih]

namespace Index

/-- **An index that goes by the name that it is given when it has none.** -/
def Unnamed (i : Index) : Prop := i.name = defaultName i.table i.columns i.unique

instance (i : Index) : Decidable i.Unnamed := inferInstanceAs (Decidable (_ = _))

/-- The word behind the columns of a unique index, as a name. -/
def uniqueWord (unique : Bool) : List Identifier := if unique then [⟨"unique"⟩] else []

/-- The names that the name of an index is made of, the word for a unique one
among them. -/
def parts (i : Index) : List Identifier := i.table :: i.columns ++ uniqueWord i.unique

/-- **The words of an index**, which are all that its name tells. -/
def words (i : Index) : List (List Char) := i.parts.flatMap Identifier.words

variable {i j : Index}

/-- The name is made of the parts with underscores in front of all but the
first. -/
theorem toList_defaultName (table : Identifier) (columns : List Identifier) (unique : Bool) :
    (defaultName table columns unique).name.toList = table.name.toList ++
      (columns ++ uniqueWord unique).flatMap fun c => '_' :: c.name.toList := by
  have hjoin : (String.join (columns.map fun c => "_" ++ c.name)).toList =
      columns.flatMap fun c => '_' :: c.name.toList := by
    rw [String.toList_join, List.flatMap_map]
    exact List.flatMap_congr fun c _ => String.toList_append
  rw [defaultName, String.toList_append, String.toList_append, hjoin, List.flatMap_append,
    List.append_assoc]
  cases unique <;> rfl

/-- **The words of the name are the words of the index.** -/
theorem Unnamed.words_name (h : i.Unnamed) : i.name.words = i.words := by
  rw [h, Identifier.words, toList_defaultName, ← List.flatMap_map, splitOn_append_flatMap,
    List.flatMap_map]
  rfl

/-- **Two indices have one name** exactly if they have the same words. -/
theorem name_eq_iff (hi : i.Unnamed) (hj : j.Unnamed) : i.name = j.name ↔ i.words = j.words := by
  rw [← hi.words_name, ← hj.words_name, Identifier.words_inj]

/-- **An index whose words are its parts**: there are no underscores in its
names, and its last column is not called like the word for a unique index. -/
structure Plain (i : Index) : Prop where
  /-- There is no underscore in the name of the table. -/
  table : '_' ∉ i.table.name.toList
  /-- There is none in the name of a column. -/
  columns : ∀ c ∈ i.columns, '_' ∉ c.name.toList
  /-- The last column is not called like the word. -/
  last : i.columns.getLast? ≠ some ⟨"unique"⟩

theorem Plain.words_eq (h : i.Plain) : i.words = i.parts.map fun part => part.name.toList := by
  have hparts : ∀ part ∈ i.parts, '_' ∉ part.name.toList := by
    refine List.forall_mem_append.mpr ⟨List.forall_mem_cons.mpr ⟨h.table, h.columns⟩, ?_⟩
    cases i.unique with
    | true => exact List.forall_mem_singleton.mpr (by decide)
    | false => exact nofun
  rw [words, List.flatMap_congr fun part hpart => Identifier.words_of_notMem (hparts part hpart),
    List.map_eq_flatMap]

/-- **The parts of a plain index** tell what it is on, and whether it is
unique. -/
theorem Plain.eq_of_parts (hi : i.Plain) (hj : j.Plain) (h : i.parts = j.parts) :
    i.table = j.table ∧ i.columns = j.columns ∧ i.unique = j.unique := by
  obtain ⟨htable, hrest⟩ := List.cons.inj h
  have hcolumns : i.columns ++ uniqueWord i.unique = j.columns ++ uniqueWord j.unique := hrest
  have hfalse : ∀ columns : List Identifier, columns ++ uniqueWord false = columns :=
    List.append_nil
  refine ⟨htable, ?_⟩
  -- the word behind the columns of one of them alone would be a column of the other
  cases hiu : i.unique <;> cases hju : j.unique <;> rw [hiu, hju] at hcolumns
  · exact ⟨List.append_cancel_right hcolumns, rfl⟩
  · rw [hfalse] at hcolumns
    exact absurd (hcolumns ▸ List.getLast?_concat) hi.last
  · rw [hfalse] at hcolumns
    exact absurd (hcolumns ▸ List.getLast?_concat) hj.last
  · exact ⟨List.append_cancel_right hcolumns, rfl⟩

/-- **Plain indices have different names** if they differ at all. -/
theorem Plain.eq_of_name_eq (hi : i.Plain) (hj : j.Plain) (hiu : i.Unnamed) (hju : j.Unnamed)
    (h : i.name = j.name) : i = j := by
  have hwords := (name_eq_iff hiu hju).mp h
  rw [hi.words_eq, hj.words_eq] at hwords
  have hinj : Function.Injective fun part : Identifier => part.name.toList := by
    rintro ⟨a⟩ ⟨b⟩ hab
    exact congrArg Identifier.mk (String.toList_inj.mp hab)
  obtain ⟨htable, hcolumns, hunique⟩ := hi.eq_of_parts hj (hinj.list_map hwords)
  cases i
  cases j
  subst h htable hcolumns hunique
  rfl

/-! ## Which of them are made

An engine that skips an index whose name is taken does not report it. So which
indices there are in the end is a function of the names that came before. -/

/-- **The indices that are made** of those that an engine is told to make one
after the other. It makes none whose name is taken. Names are compared letter
by letter here. SQLite tells no capital letter from a small one (in ASCII), so
that it can find a name taken where this does not, and make fewer. -/
def made (taken : List Identifier) : List Index → List Index
  | [] => []
  | i :: is => if i.name ∈ taken then made taken is else i :: made (i.name :: taken) is

/-- No more indices are made than the engine is told to make. -/
theorem made_sublist (taken : List Identifier) (is : List Index) : (made taken is).Sublist is := by
  induction is generalizing taken with
  | nil => exact .slnil
  | cons i is ih =>
    rw [made]
    split
    · exact (ih taken).cons i
    · exact (ih _).cons_cons i

/-- **All of them are made** exactly if no name is taken and none comes
twice. -/
theorem made_eq_self_iff (taken : List Identifier) (is : List Index) :
    made taken is = is ↔ (∀ i ∈ is, i.name ∉ taken) ∧ (is.map Index.name).Nodup := by
  induction is generalizing taken with
  | nil => exact iff_of_true rfl ⟨nofun, List.nodup_nil⟩
  | cons i is ih =>
    rw [made, List.forall_mem_cons, List.map_cons, List.nodup_cons, List.mem_map]
    split
    · next htaken =>
      -- one that is skipped is missing from the list
      refine iff_of_false (fun h => ?_) fun h => h.1.1 htaken
      have hlength := (made_sublist taken is).length_le
      rw [h] at hlength
      exact absurd hlength (Nat.not_succ_le_self _)
    · next hfree =>
      rw [List.cons_inj_right, ih]
      constructor
      · rintro ⟨hnames, hnodup⟩
        refine ⟨⟨hfree, fun j hj hmem => hnames j hj (List.mem_cons_of_mem _ hmem)⟩, ?_, hnodup⟩
        rintro ⟨j, hj, hname⟩
        exact hnames j hj (hname ▸ List.mem_cons_self)
      · rintro ⟨⟨-, hnames⟩, hnew, hnodup⟩
        refine ⟨fun j hj hmem => ?_, hnodup⟩
        rcases List.mem_cons.mp hmem with hname | hmem
        · exact hnew ⟨j, hj, hname⟩
        · exact hnames j hj hmem

/-- **All indices without names of their own are made** exactly if no two have
the same words. -/
theorem made_eq_self_iff_words {is : List Index} (h : ∀ i ∈ is, i.Unnamed) :
    made [] is = is ↔ (is.map words).Nodup := by
  have hwords : is.map words = (is.map Index.name).map Identifier.words := by
    rw [List.map_map]
    exact List.map_congr_left fun i hi => (h i hi).words_name.symm
  have hinj : Function.Injective Identifier.words := fun _ _ => Identifier.words_inj.mp
  rw [made_eq_self_iff, hwords, List.nodup_map_iff hinj]
  exact and_iff_right fun _ _ => List.not_mem_nil

end Index

/-- An index that is declared without a name gets that name. -/
theorem IndexSpec.unnamed_index {s : IndexSpec} (h : s.name? = none) (table : Identifier) :
    (s.index table).Unnamed := by
  rw [Index.Unnamed, index, h]
  rfl

/-! ## The indices of tables -/

namespace Dependencies

variable {tables order : List Table}

/-- **Which indices are made with their tables.** The statements of all indices
are sent. An index that is declared without a name has none of its own, and of
two of these the second one is in vain exactly if both have the same words. So
all of them are made if no two have the same words, and otherwise one is missing. Without underscores in the names that
takes two that are the same, or a column called `unique`. -/
theorem createAll_makes_iff (hbuilt : ∀ t ∈ tables, t.Built)
    (horder : (of tables).creationOrder = .ok order) :
    (∀ (e : Engine) (calls : List Call),
      e.RunsInOrder calls (order.flatMap fun t => t.sql false :: t.indices.map Index.sql)
        (((of tables).createAll e).run.run calls)) ∧
    (∀ (s : IndexSpec) (table : Identifier), s.name? = none → (s.index table).Unnamed) ∧
    (∀ i j : Index, i.Unnamed → j.Unnamed → (i.name = j.name ↔ i.words = j.words)) ∧
    (∀ i j : Index, i.Unnamed → j.Unnamed → i.Plain → j.Plain → i.name = j.name → i = j) ∧
    ((∀ i ∈ order.flatMap Table.indices, i.Unnamed) →
      (Index.made [] (order.flatMap Table.indices) = order.flatMap Table.indices ↔
        ((order.flatMap Table.indices).map Index.words).Nodup)) :=
  ⟨runsInOrder_createAll hbuilt horder, fun _ table hname => IndexSpec.unnamed_index hname table,
    fun _ _ => Index.name_eq_iff,
    fun _ _ hi hj hplaini hplainj => hplaini.eq_of_name_eq hplainj hi hj,
    Index.made_eq_self_iff_words⟩

/-- A table with an index on a column with an underscore, and a unique one on a
list of columns that begins with it. -/
theorem createAll_makes_underscore :
    let a : Column := ⟨0, ⟨"t"⟩, ⟨"a_b"⟩, .scalar .long, [], none⟩
    let c : Column := ⟨1, ⟨"t"⟩, ⟨"c"⟩, .scalar .text, [], none⟩
    let i : Index := ⟨⟨"t_a_b"⟩, ⟨"t"⟩, [⟨"a_b"⟩], false⟩
    let j : Index := ⟨⟨"t_a_b_c_unique"⟩, ⟨"t"⟩, [⟨"a_b"⟩, ⟨"c"⟩], true⟩
    let t : Table := ⟨⟨"t"⟩, [a, c], [], [], [i, j], [], false⟩
    (∀ u ∈ [t], u.Built) ∧ (of [t]).creationOrder = .ok [t] ∧
      (∀ k ∈ [t].flatMap Table.indices, k.Unnamed) ∧
      Index.made [] ([t].flatMap Table.indices) = [i, j] := by
  intro a c i j t
  have hbuilt : ∀ u ∈ [t], u.Built := List.forall_mem_singleton.mpr
    ⟨_, _, (TableBuilder.Reached.start ⟨"t"⟩ 0).runAll
      [.column "a_b" (.scalar .long) [.index], .column "c" (.scalar .text) [],
        .index none [a, c] true], rfl⟩
  have hunnamed : ∀ k ∈ [t].flatMap Table.indices, k.Unnamed := by decide
  obtain ⟨-, -, -, -, hmade⟩ := createAll_makes_iff hbuilt rfl
  exact ⟨hbuilt, rfl, hunnamed, (hmade hunnamed).mpr (by decide)⟩

/-- **A unique index can be missing.** It is on the column `x`, and the table
has an index on the column `x_unique` already. -/
theorem made_misses_unique :
    let calls : List TableCall := [
      .column "x_unique" (.scalar .long) [.index], .column "x" (.scalar .long) [.uniqueIndex]]
    ∃ t, (TableCall.runAll calls ({ name := ⟨"t"⟩ }, 0)).1.build = .ok t ∧
      ∃ i j, t.indices = [i, j] ∧ i.Unnamed ∧ j.Unnamed ∧ i.columns = [⟨"x_unique"⟩] ∧
        j.columns = [⟨"x"⟩] ∧ i.unique = false ∧ j.unique = true ∧ i.name = j.name ∧
        Index.made [] t.indices = [i] :=
  ⟨_, rfl, _, _, rfl, rfl, rfl, rfl, rfl, rfl, rfl, rfl, rfl⟩

end Dependencies

end TypedSql
