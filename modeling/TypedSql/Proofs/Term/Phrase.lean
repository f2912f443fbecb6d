import TypedSql.Proofs.Sql.Phrase
import TypedSql.Statement.Change

/-!
# What is printed is a phrase

Every term and every query is printed as a phrase, and so is every statement
that selects or changes rows. There is one case for every kind of tree and
nothing to it but to look at the words between the parts: each of them keeps
the values on its two sides apart.
-/

namespace TypedSql

/-! ## Keywords

Each of them is looked at once, alone. The words that have a lemma here are
those that several trees use. -/

theorem separator_comma : Separator ", " := by decide

theorem separator_as : Separator " AS " := by decide

theorem separator_where : Separator " WHERE " := by decide

theorem separator_having : Separator " HAVING " := by decide

theorem BinaryOp.separator (op : BinaryOp) : Separator (" " ++ op.sql ++ " ") := by
  cases op <;> decide

theorem ScalarFunction.phrase (f : ScalarFunction) : Phrase (Sql.words f.sql) :=
  .words (by cases f <;> decide) (by cases f <;> decide)

theorem AggregateFunction.phrase (f : AggregateFunction) : Phrase (Sql.words f.sql) :=
  .words (by cases f <;> decide) (by cases f <;> decide)

theorem SortOrder.closer (order : SortOrder) : Closer (" " ++ order.sql) := by
  cases order <;> decide

theorem JoinType.separator (type : JoinType) : Separator (" " ++ type.sql ++ " ") := by
  cases type <;> decide

/-! ## Parts put together

The four ways in which a printer puts parts together: words between two parts,
words behind one, parentheses around one, and commas between several. -/

namespace Phrase

theorem between {s t : Sql} {w : String} (hs : Phrase s) (hw : Separator w) (ht : Phrase t) :
    Phrase (s ++ Sql.words w ++ t) := by
  rw [List.append_assoc]
  exact hs.append (.lead hw.toOpener ht) hw.first

theorem behind {s : Sql} {w : String} (hs : Phrase s) (hw : Closer w) :
    Phrase (s ++ Sql.words w) :=
  hs.append (.words hw.toWording hw.last) hw.first

theorem parenthesized {s : Sql} (hs : Phrase s) : Phrase (Sql.parenthesized s) :=
  .within (by decide) hs

theorem parenthesizedIf {s : Sql} (hs : Phrase s) (condition : Bool) :
    Phrase (Sql.parenthesizedIf condition s) := by
  cases condition
  · exact hs
  · exact hs.parenthesized

/-- **Phrases with commas between them.** -/
theorem commaList {ss : List Sql} (h : ∀ s ∈ ss, Phrase s) : Phrase (Sql.commaList ss) := by
  induction ss using Sql.commaList.induct with
  | case1 => exact .nil
  | case2 s => exact h s List.mem_cons_self
  | case3 s t rest ih =>
    exact (h s List.mem_cons_self).between separator_comma
      (ih fun u hu => h u (List.mem_cons_of_mem s hu))

theorem names (is : List Identifier) : Phrase (Sql.names is) := by
  refine commaList fun s hs => ?_
  obtain ⟨i, -, rfl⟩ := List.mem_map.mp hs
  exact .value trivial

theorem grouped {s t : Sql} (hs : Phrase s) (ht : Phrase t) :
    Phrase (s ++ Sql.parenthesized t) :=
  hs.append ht.parenthesized ⟨'(', by decide, rfl⟩

theorem clause {s : Sql} (hs : Phrase s) {w : String} (hw : Separator w)
    {t? : Option Term} (ht : Phrase (Term.sqlClause w t?)) :
    Phrase (s ++ Term.sqlClause w t?) := by
  refine hs.append ht ?_
  cases t? with
  | none => trivial
  | some t => exact hw.first

/-- A clause of a list behind a phrase, left out when the list is empty. -/
theorem listClause {s : Sql} (hs : Phrase s) {w : String} (hw : Separator w)
    (missing : Bool) {ss : List Sql} (hss : ∀ s ∈ ss, Phrase s) :
    Phrase (s ++ if missing then [] else Sql.words w ++ Sql.commaList ss) := by
  cases missing
  · exact hs.append (.lead hw.toOpener (commaList hss)) hw.first
  · exact hs.append .nil trivial

end Phrase

/-! ## Terms and queries

The induction has one case for each constructor, and the cases read like the
printer itself: the words are named again, with the reason why they may stand
where they do. -/

mutual

/-- **A term is printed as a phrase.** -/
theorem Term.phrase : ∀ t : Term, Phrase t.sql
  | .literal c v => .value trivial
  | .slot c => .value trivial
  | .column source name => .dotted source name
  | .rowColumn row name => .value trivial
  | .reference name => .value trivial
  | .not t => .lead (by decide) (t.phrase.parenthesizedIf _)
  | .isNull t negated => (t.phrase.parenthesizedIf _).behind (by cases negated <;> decide)
  | .binary op l r =>
    (l.phrase.parenthesizedIf _).between op.separator (r.phrase.parenthesizedIf _)
  | .between t low high =>
    ((t.phrase.parenthesizedIf _).between (by decide) (low.phrase.parenthesizedIf _)).between
      (by decide) (high.phrase.parenthesizedIf _)
  | .inList t items negated =>
    (t.phrase.parenthesizedIf _).between (by cases negated <;> decide)
      (Phrase.commaList (Term.phrase_list items)).parenthesized
  | .inQuery t query negated =>
    (t.phrase.parenthesizedIf _).between (by cases negated <;> decide)
      query.phrase.parenthesized
  | .exists query negated => .lead (by cases negated <;> decide) query.phrase.parenthesized
  | .call f arguments => f.phrase.grouped (Phrase.commaList (Term.phrase_list arguments))
  | .aggregate f t => f.phrase.grouped t.phrase
  | .countStar => .words (by decide) (by decide)
  | .countDistinct t => .within (by decide) t.phrase
  | .groupConcat t none => by
    rw [Term.sql, List.append_nil]
    exact .within (by decide) t.phrase
  | .groupConcat t (some s) => by
    rw [Term.sql, List.append_assoc (Sql.words "GROUP_CONCAT("), ← List.append_assoc t.sql]
    exact .within (by decide) (t.phrase.between separator_comma (.value trivial))
  | .scalar query => query.phrase.parenthesized

theorem Term.phrase_list : ∀ ts : List Term, ∀ s ∈ Term.sqlList ts, Phrase s
  | [], _, h => absurd h List.not_mem_nil
  | t :: ts, s, h => (List.mem_cons.mp h).elim (fun heq => heq ▸ t.phrase)
    (Term.phrase_list ts s)

theorem Term.phrase_clause {keyword : String} (hk : Separator keyword) :
    ∀ t? : Option Term, Phrase (Term.sqlClause keyword t?)
  | none => .nil
  | some t => .lead hk.toOpener t.phrase

/-- The items of a select list are printed as phrases. -/
theorem Term.phrase_items :
    ∀ items : List (Term × Option Identifier), ∀ s ∈ Term.sqlItems items, Phrase s
  | [], _, h => absurd h List.not_mem_nil
  | (t, none) :: items, s, h => (List.mem_cons.mp h).elim
    (fun heq => heq ▸ t.phrase.append .nil trivial) (Term.phrase_items items s)
  | (t, some name) :: items, s, h => (List.mem_cons.mp h).elim
    (fun heq => by
      rw [heq, ← List.append_assoc]
      exact t.phrase.between separator_as (.value trivial))
    (Term.phrase_items items s)

theorem Term.phrase_order :
    ∀ terms : List (Term × SortOrder), ∀ s ∈ Term.sqlOrder terms, Phrase s
  | [], _, h => absurd h List.not_mem_nil
  | (t, order) :: terms, s, h => (List.mem_cons.mp h).elim
    (fun heq => heq ▸ t.phrase.behind order.closer) (Term.phrase_order terms s)

/-- **A query is printed as a phrase.** -/
theorem SelectTerm.phrase : ∀ q : SelectTerm, Phrase q.sql
  | .mk distinct items source filter groupBy having orderBy limit offset => by
    -- clause by clause in the order of the text, each behind all that came before
    have hhead : Phrase (Sql.words (if distinct then "SELECT DISTINCT " else "SELECT ") ++
        Sql.commaList (Term.sqlItems items)) :=
      .lead (by cases distinct <;> decide) (Phrase.commaList (Term.phrase_items items))
    have hfrom := hhead.between (w := " FROM ") (by decide) source.phrase
    have hwhere := hfrom.clause separator_where (Term.phrase_clause separator_where filter)
    have hgroup := hwhere.listClause (w := " GROUP BY ") (by decide) groupBy.isEmpty
      (Term.phrase_list groupBy)
    have hhaving := hgroup.clause separator_having (Term.phrase_clause separator_having having)
    have horder := hhaving.listClause (w := " ORDER BY ") (by decide) orderBy.isEmpty
      (Term.phrase_order orderBy)
    have hbound : ∀ {w : String} {n : UInt64}, Separator w →
        Phrase (Sql.words w ++ [.number n]) := fun hw => .lead hw.toOpener (.value trivial)
    have hlimit : Separator " LIMIT " := by decide
    have hoffset : Separator " LIMIT -1 OFFSET " := by decide
    cases limit with
    | none =>
      cases offset with
      | none => exact horder.append .nil trivial
      | some o => exact horder.append (hbound hoffset) hoffset.first
    | some l =>
      cases offset with
      | none => exact horder.append (hbound hlimit) hlimit.first
      | some o =>
        exact horder.append ((hbound hlimit).between (by decide) (.value trivial)) hlimit.first

/-- **A source is printed as a phrase.** -/
theorem FromTerm.phrase : ∀ f : FromTerm, Phrase f.sql
  | .named _ => .value trivial
  | .aliased _ _ => Phrase.between (.value trivial) separator_as (.value trivial)
  | .query query _ => query.phrase.parenthesized.between separator_as (.value trivial)
  | .join first parts => first.phrase.append (JoinTerm.phrase_list parts).1
    (JoinTerm.phrase_list parts).2

theorem JoinTerm.phrase : ∀ p : JoinTerm, Phrase p.sql ∧ p.sql.Follows
  | .mk type source condition =>
    ⟨(Phrase.lead type.separator.toOpener source.phrase).clause (by decide)
      (Term.phrase_clause (by decide) condition), type.separator.first⟩

theorem JoinTerm.phrase_list :
    ∀ ps : List JoinTerm, Phrase (JoinTerm.sqlList ps) ∧ (JoinTerm.sqlList ps).Follows
  | [] => ⟨.nil, trivial⟩
  | p :: ps => ⟨p.phrase.1.append (JoinTerm.phrase_list ps).1 (JoinTerm.phrase_list ps).2,
    p.phrase.2.append (JoinTerm.phrase_list ps).2⟩

end

/-! ## Statements

A statement is a query, or it begins with words and names and has terms behind
them. -/

/-- **A query with its clauses.** -/
theorem Select.phrase (s : Select) : Phrase s.sql := s.tree.phrase

/-- **A statement that adds a row.** -/
theorem Insert.phrase (s : Insert) : Phrase s.sql := by
  have hhead : Phrase (Sql.words (s.onConflict.insertKeyword ++ " INTO ") ++ Sql.name s.table) :=
    .lead (by cases s.onConflict <;> decide) (.value trivial)
  have hvalues : ∀ v ∈ s.entries.map fun e => e.2.sql, Phrase v := by
    intro v hv
    obtain ⟨e, -, rfl⟩ := List.mem_map.mp hv
    exact e.2.phrase
  rw [Insert.sql]
  split
  · exact hhead.behind (by decide)
  · have hcolumns := (Phrase.names (s.entries.map Prod.fst)).parenthesized
    have hrest := (Phrase.lead (w := " ") (by decide) hcolumns).between (w := " VALUES ")
      (by decide) (Phrase.commaList hvalues).parenthesized
    exact hhead.append hrest ⟨' ', by decide, rfl⟩

/-- **A statement that changes rows.** -/
theorem Update.phrase (s : Update) : Phrase s.sql := by
  have hhead : Phrase (Sql.words (s.onConflict.updateKeyword ++ " ") ++ Sql.name s.table) :=
    .lead (by cases s.onConflict <;> decide) (.value trivial)
  have hentries : ∀ v ∈ s.entries.map fun e => Sql.name e.1 ++ Sql.words " = " ++ e.2.sql,
      Phrase v := by
    intro v hv
    obtain ⟨e, -, rfl⟩ := List.mem_map.mp hv
    exact Phrase.between (.value trivial) (by decide) e.2.phrase
  have hset := hhead.between (w := " SET ") (by decide) (Phrase.commaList hentries)
  rw [Update.sql]
  refine Phrase.clause ?_ separator_where (Term.phrase_clause separator_where s.filter?)
  cases s.source? with
  | none => exact hset.append .nil trivial
  | some source =>
    exact hset.append (.lead (by decide) source.phrase) ⟨' ', by decide, rfl⟩

/-- **A statement that deletes rows.** -/
theorem Delete.phrase (s : Delete) : Phrase s.sql :=
  (Phrase.lead (by decide) (.value (p := .name s.table) trivial)).clause separator_where
    (Term.phrase_clause separator_where s.filter?)

end TypedSql
