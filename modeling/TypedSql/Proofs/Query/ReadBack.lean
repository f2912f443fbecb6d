import TypedSql.Proofs.Query.Columns
import TypedSql.Proofs.Statement.Assigned

/-!
# What is inserted through a column is read through it

A row goes through five lists on its way, each with an order of its own: the
assignments, the placeholders, the columns of the table, the select list
without repetitions, and the places in which a row is read by identity.
`TableBuilder.Reached.get_inserted` says that no two of them disagree. For
every table, every order in which its columns are assigned and their values
supplied, and every list of columns that is selected, reading a column gives
the value that was supplied for it.

The engine has one part in this. It is what a column makes of an argument
(`Insert.cell`), and that it puts the cells of a row in the order of the
select list.

The engine is not modelled beyond that. A row is any row whose cells are those
of the columns that are shown, so nothing is assumed about how rows are stored,
and the theorem holds for each row that a query returns.
-/

namespace TypedSql

/-- A column as it is selected. -/
def Column.item (c : Column) : Item := .plain c.expr

/-- **What a column holds** of a row that was added: what it makes of the
argument in its place. -/
def Insert.cell (s : Insert) (arguments : List Argument) (c : Column) : Cell :=
  Cell.store c.codec.storageClass (arguments.getD (s.place c) .null)

/-- **What is left of columns** that are selected: some of them, and one for
each identity that has not been seen. -/
theorem distinctItems_columns {t : Table} (columns : List t.OwnColumn) (seen : List ExprId) :
    ∃ shown : List t.OwnColumn,
      distinctItems seen (columns.map fun c => c.val.item) = shown.map (fun c => c.val.item) ∧
      ∀ c ∈ columns, c.val.id ∈ seen ∨ ∃ d ∈ shown, d.val.id = c.val.id := by
  induction columns generalizing seen with
  | nil => exact ⟨[], rfl, nofun⟩
  | cons c columns ih =>
    have hkey : c.val.item.key.id = c.val.id := rfl
    rw [List.map_cons, distinctItems, hkey]
    cases hcontains : seen.contains c.val.id with
    | true =>
      obtain ⟨shown, hshown, hrest⟩ := ih seen
      have hc : c.val.id ∈ seen := List.contains_iff_mem.mp hcontains
      exact ⟨shown, hshown, List.forall_mem_cons.mpr ⟨.inl hc, hrest⟩⟩
    | false =>
      obtain ⟨shown, hshown, hrest⟩ := ih (c.val.id :: seen)
      refine ⟨c :: shown, ?_, List.forall_mem_cons.mpr ⟨.inr ⟨c, List.mem_cons_self, rfl⟩, ?_⟩⟩
      · rw [List.map_cons, ← hshown]
        rfl
      · intro d hd
        obtain hseen | ⟨e, he, hid⟩ := hrest d hd
        · obtain heq | hseen := List.mem_cons.mp hseen
          · exact .inr ⟨c, List.mem_cons_self, heq.symm⟩
          · exact .inl hseen
        · exact .inr ⟨e, List.mem_cons_of_mem c he, hid⟩

/-- **A query of columns of a table**: its text shows some of the columns, and
each column that was asked for is read from where it is shown. -/
theorem Table.Distinct.reads_shown {t : Table} (ht : t.Distinct) (columns : List t.OwnColumn)
    (clauses : List SelectClause) :
    let q := clauses.foldl Select.refine (Select.of t.source (columns.map fun c => c.val.item))
    ∃ shown : List t.OwnColumn,
      (∃ head rest, (head = "SELECT " ∨ head = "SELECT DISTINCT ") ∧
        q.sql = Sql.words head ++ Sql.commaList (shown.map fun c => c.val.expr.sql) ++
          Sql.words " FROM " ++ rest) ∧
      ∀ (row : Row) (cell : t.OwnColumn → Cell), row.cells = shown.map cell →
        ∀ c : t.OwnColumn, c ∈ columns ∨ columns = [] →
          (Cursor.mk q.toQuery row).get c.val.expr = c.val.codec.decode (cell c) := by
  intro q
  -- nothing asked for is everything asked for
  obtain ⟨listed, hlisted, hall⟩ : ∃ listed : List t.OwnColumn,
      (if (columns.map fun c => c.val.item).isEmpty then t.source.items
        else columns.map fun c => c.val.item) = listed.map (fun c => c.val.item) ∧
      ∀ c, c ∈ columns ∨ columns = [] → c ∈ listed := by
    cases columns with
    | nil =>
      refine ⟨t.columns.attach, ?_, fun c _ => List.mem_attach _ c⟩
      have hsource : t.source.items = t.columns.map Column.item := rfl
      rw [List.map_nil, List.isEmpty_nil, if_pos rfl, hsource]
      conv_lhs => rw [← List.attach_map_subtype_val t.columns, List.map_map]
      rfl
    | cons c cs => exact ⟨c :: cs, rfl, fun d hd => hd.resolve_right (List.cons_ne_nil c cs)⟩
  obtain ⟨shown, hshown, hcovers⟩ := distinctItems_columns listed []
  have hitems : q.items = shown.map fun c => c.val.item := by
    rw [(Select.foldl_refine clauses _).1, Select.of, hlisted, hshown]
  have hreads : q.ReadsColumns (shown.map fun c => c.val.item) := by
    have hnodup := (nodup_distinctItems [] (listed.map fun c => c.val.item)).1
    rw [hshown, ← hitems] at hnodup
    exact hitems ▸ Select.readsColumns_of_nodup hnodup
  refine ⟨shown, ?_, fun row cell hcells c hc => ?_⟩
  · obtain ⟨head, rest, hhead, htext⟩ := hreads.text
    refine ⟨head, rest, hhead, ?_⟩
    have hitem : ∀ c : t.OwnColumn, c.val.item.sql = c.val.expr.sql := fun c =>
      List.append_nil c.val.expr.sql
    rw [htext, List.map_map]
    simp only [Function.comp_def, hitem]
  · obtain hnone | ⟨d, hd, hid⟩ := hcovers c (hall c hc)
    · cases hnone
    · obtain rfl := ht.eq_of_id_eq hid
      obtain ⟨i, hi⟩ := List.mem_iff_getElem?.mp hd
      have hplace : q.toQuery.ordinalOf? d.val.expr = some i :=
        hreads.key _ i d.val.item (by rw [List.getElem?_map, hi]; rfl) rfl
      exact hreads.get_cell row d.val.expr i (cell d) hplace
        (by rw [hcells, List.getElem?_map, hi]; rfl)

/-- **What is inserted through a column is read back through it**, for every
table that is built, whatever the program does in between. -/
theorem TableBuilder.Reached.get_inserted {b : TableBuilder} {n : ExprId} (hb : b.Reached n)
    {t : Table} (ht : b.build = .ok t) {value : (c : t.OwnColumn) → c.val.codec.Value}
    (hvalue : ∀ c : t.OwnColumn, c.val.codec.Recoverable (value c))
    {assigned supplied : List t.OwnColumn} (hassigned : ∀ c, c ∈ assigned)
    (hsupplied : ∀ c, c ∈ supplied) (onConflict : OnConflict) :
    ∃ insert arguments,
      Insert.of? onConflict (t.assign assigned { table := t.name }) = .ok insert ∧
      insert.sql.bind (insert.supply value supplied) = .ok arguments ∧
      (∀ c : t.OwnColumn, arguments[insert.place c.val]? = some (c.val.codec.encode (value c))) ∧
      ∀ (columns : List t.OwnColumn) (clauses : List SelectClause),
        let q := clauses.foldl Select.refine
          (Select.of t.source (columns.map fun c => c.val.item))
        ∃ shown : List t.OwnColumn,
          (∃ head rest, (head = "SELECT " ∨ head = "SELECT DISTINCT ") ∧
            q.sql = Sql.words head ++ Sql.commaList (shown.map fun c => c.val.expr.sql) ++
              Sql.words " FROM " ++ rest) ∧
          ∀ row : Row, row.cells = shown.map (fun c => insert.cell arguments c.val) →
            ∀ c : t.OwnColumn, c ∈ columns ∨ columns = [] →
              (Cursor.mk q.toQuery row).get c.val.expr = .ok (value c) := by
  have hdistinct := hb.distinct ht
  obtain ⟨order, horder, hmem, hassign⟩ := hdistinct.assigned assigned
  have hall : ∀ c, c ∈ order := fun c => (hmem c).mpr (hassigned c)
  let insert : Insert := { table := t.name, onConflict, entries := Table.entries order }
  have hplace : ∀ c : t.OwnColumn,
      (order.map fun c => c.val.codec.encode (value c))[insert.place c.val]?
        = some (c.val.codec.encode (value c)) := by
    intro c
    obtain ⟨i, hi⟩ := List.mem_iff_getElem?.mp (hall c)
    rw [hdistinct.place_eq horder rfl hi, List.getElem?_map, hi]
    rfl
  refine ⟨insert, _, by rw [hassign]; rfl, ?_, hplace, fun columns clauses => ?_⟩
  · exact hdistinct.bound horder rfl hvalue fun c => ⟨fun _ => hall c, fun _ => hsupplied c⟩
  · obtain ⟨shown, htext, hget⟩ := hdistinct.reads_shown columns clauses
    refine ⟨shown, htext, fun row hcells c hc => ?_⟩
    rw [hget row _ hcells c hc, Insert.cell, List.getD_eq_getElem?_getD, hplace c]
    exact Codec.decode_store_of_recoverable (hvalue c)

/-- A leap second and a missing moment are assigned twice, supplied in another
order and selected in the reverse one. -/
theorem get_inserted_leap_second :
    let moments : Codec := .nullable (.scalar .timestamp)
    let b := (TableCall.runAll [.column "begin" moments [], .column "end" moments []]
      ({ name := ⟨"t"⟩ }, 0)).1
    ∃ (t : Table) (value : (c : t.OwnColumn) → c.val.codec.Value) (insert : Insert)
      (arguments : List Argument), b.build = .ok t ∧
      (∀ c : t.OwnColumn, c.val.codec.Recoverable (value c)) ∧
      Insert.of? .unspecified (t.assign (t.columns.attach.reverse ++ t.columns.attach)
        { table := t.name }) = .ok insert ∧
      insert.sql.bind (insert.supply value t.columns.attach) = .ok arguments ∧
      (∀ c : t.OwnColumn, arguments[insert.place c.val]? =
        some (if c.val.id = 0 then .text "2016-12-31T23:59:60Z" else .null)) ∧
      let q := Select.of t.source (t.columns.attach.reverse.map fun c => c.val.item)
      ∃ shown : List t.OwnColumn, ∀ c : t.OwnColumn,
        (Cursor.mk q.toQuery ⟨[], shown.map fun c => insert.cell arguments c.val⟩).get c.val.expr
          = .ok (value c) := by
  intro moments b
  have hb : b.Reached _ := (TableBuilder.Reached.start ⟨"t"⟩ 0).runAll _
  obtain ⟨t, ht, hcodecs⟩ : ∃ t, b.build = .ok t ∧
      t.columns.map Column.codec = [moments, moments] := ⟨_, rfl, rfl⟩
  have hcodec : ∀ c : t.OwnColumn, moments = c.val.codec := by
    intro c
    have hmem : c.val.codec ∈ [moments, moments] := hcodecs ▸ List.mem_map_of_mem c.property
    simpa [eq_comm] using hmem
  let moment (c : t.OwnColumn) : moments.Value :=
    if c.val.id = 0 then some ⟨1483228799, 1000000000, by decide, by decide, by decide⟩ else none
  let value (c : t.OwnColumn) : c.val.codec.Value := hcodec c ▸ moment c
  have hcast : ∀ (codec : Codec) (h : moments = codec) (v : moments.Value),
      (codec.Recoverable (h ▸ v) ↔ moments.Recoverable v) ∧
        codec.encode (h ▸ v) = moments.encode v := by
    rintro _ rfl v
    exact ⟨Iff.rfl, rfl⟩
  have hvalue : ∀ c : t.OwnColumn, c.val.codec.Recoverable (value c) := by
    intro c
    refine (hcast _ (hcodec c) _).1.mpr ?_
    unfold moment
    split
    · exact ⟨⟨by decide, by decide⟩, trivial⟩
    · trivial
  have hencode : ∀ c : t.OwnColumn, c.val.codec.encode (value c) =
      if c.val.id = 0 then .text "2016-12-31T23:59:60Z" else .null := by
    intro c
    rw [(hcast _ (hcodec c) _).2]
    unfold moment
    split
    · decide +kernel
    · rfl
  have hlist : ∀ c : t.OwnColumn, c ∈ t.columns.attach := fun c => List.mem_attach _ c
  obtain ⟨insert, arguments, hinsert, hbind, hplace, hget⟩ := hb.get_inserted ht hvalue
    (fun c => List.mem_append_right _ (hlist c)) hlist .unspecified
  obtain ⟨shown, -, hread⟩ := hget t.columns.attach.reverse []
  refine ⟨t, value, insert, arguments, ht, hvalue, hinsert, hbind, fun c => ?_, shown, fun c => ?_⟩
  · rw [hplace, hencode]
  · exact hread _ rfl c (.inl (List.mem_reverse.mpr (hlist c)))

end TypedSql
