import TypedSql.Proofs.Sql.Piece
import TypedSql.Term.Printer

/-!
# The words of terms

Terms and queries are printed with a fixed stock of words. What stands
between them are values: names, literals, counts, quoted texts and
placeholders. So a property of what is printed for any term is one of values
and of the words of a list, which can be looked through.
-/

namespace TypedSql

/-- **The words that terms and queries are printed with.** -/
def vocabulary : List String :=
  [".", "(", ")", ", ", "NOT ", " IS NOT NULL", " IS NULL", " BETWEEN ", " NOT IN ", " IN ",
    "NOT EXISTS ", "EXISTS ", "COUNT(*)", "COUNT(DISTINCT ", "GROUP_CONCAT(", " AS ",
    " OR ", " AND ", " = ", " != ", " < ", " <= ", " > ", " >= ", " LIKE ", " GLOB ",
    " + ", " - ", " * ", " / ", " % ", " || ",
    "LOWER", "UPPER", "LENGTH", "ABS", "COALESCE", "COUNT", "MAX", "MIN", "SUM", "AVG",
    "SELECT DISTINCT ", "SELECT ", " FROM ", " WHERE ", " GROUP BY ", " HAVING ", " ORDER BY ",
    " LIMIT ", " OFFSET ", " LIMIT -1 OFFSET ", " ASC", " DESC",
    " INNER JOIN ", " LEFT JOIN ", " CROSS JOIN ", " ON "]

namespace Sql

/-- **A text of values and words of the vocabulary.** -/
def Spoken (s : Sql) : Prop := ∀ p ∈ s, p.IsValue ∨ ∃ w ∈ vocabulary, p = .words w

namespace Spoken

theorem nil : Spoken [] := nofun

theorem value {p : Piece} (h : p.IsValue) : Spoken [p] := List.forall_mem_singleton.mpr (.inl h)

theorem words {w : String} (h : w ∈ vocabulary) : Spoken (Sql.words w) :=
  List.forall_mem_singleton.mpr (.inr ⟨w, h, rfl⟩)

theorem append {s t : Sql} (hs : Spoken s) (ht : Spoken t) : Spoken (s ++ t) :=
  List.forall_mem_append.mpr ⟨hs, ht⟩

theorem parenthesized {s : Sql} (hs : Spoken s) : Spoken (Sql.parenthesized s) :=
  ((words (by decide)).append hs).append (words (by decide))

theorem parenthesizedIf {s : Sql} (hs : Spoken s) (condition : Bool) :
    Spoken (Sql.parenthesizedIf condition s) := by
  cases condition
  · exact hs
  · exact hs.parenthesized

theorem commaList {ss : List Sql} (h : ∀ s ∈ ss, Spoken s) : Spoken (Sql.commaList ss) := by
  induction ss using Sql.commaList.induct with
  | case1 => exact nil
  | case2 s => exact h s List.mem_cons_self
  | case3 s t rest ih =>
    exact ((h s List.mem_cons_self).append (words (by decide))).append
      (ih fun u hu => h u (List.mem_cons_of_mem s hu))

theorem listClause {w : String} (hw : w ∈ vocabulary) (missing : Bool) {ss : List Sql}
    (hss : ∀ s ∈ ss, Spoken s) :
    Spoken (if missing then [] else Sql.words w ++ Sql.commaList ss) := by
  cases missing
  · exact (words hw).append (commaList hss)
  · exact nil

end Spoken

end Sql

open Sql

mutual

/-- **A term is printed with values and words of the vocabulary.** -/
theorem Term.spoken : ∀ t : Term, t.sql.Spoken
  | .literal c v => .value trivial
  | .slot c => .value trivial
  | .column source name =>
    ((Spoken.value (p := .name source) trivial).append (.words (by decide))).append
      (.value (p := .name name) trivial)
  | .rowColumn row name => .value trivial
  | .reference name => .value trivial
  | .not t => (Spoken.words (by decide)).append (t.spoken.parenthesizedIf _)
  | .isNull t negated =>
    (t.spoken.parenthesizedIf _).append (.words (by cases negated <;> decide))
  | .binary op l r =>
    ((l.spoken.parenthesizedIf _).append (.words (by cases op <;> decide))).append
      (r.spoken.parenthesizedIf _)
  | .between t low high =>
    ((((t.spoken.parenthesizedIf _).append (.words (by decide))).append
      (low.spoken.parenthesizedIf _)).append (.words (by decide))).append
      (high.spoken.parenthesizedIf _)
  | .inList t items negated =>
    ((t.spoken.parenthesizedIf _).append (.words (by cases negated <;> decide))).append
      (Spoken.commaList (Term.spoken_list items)).parenthesized
  | .inQuery t query negated =>
    ((t.spoken.parenthesizedIf _).append (.words (by cases negated <;> decide))).append
      query.spoken.parenthesized
  | .exists query negated =>
    (Spoken.words (by cases negated <;> decide)).append query.spoken.parenthesized
  | .call f arguments =>
    (Spoken.words (by cases f <;> decide)).append
      (Spoken.commaList (Term.spoken_list arguments)).parenthesized
  | .aggregate f t => (Spoken.words (by cases f <;> decide)).append t.spoken.parenthesized
  | .countStar => .words (by decide)
  | .countDistinct t => ((Spoken.words (by decide)).append t.spoken).append (.words (by decide))
  | .groupConcat t none =>
    (((Spoken.words (by decide)).append t.spoken).append .nil).append (.words (by decide))
  | .groupConcat t (some s) =>
    (((Spoken.words (by decide)).append t.spoken).append
      ((Spoken.words (by decide)).append (.value (p := .quotedText s) trivial))).append
      (.words (by decide))
  | .scalar query => query.spoken.parenthesized

theorem Term.spoken_list : ∀ ts : List Term, ∀ s ∈ Term.sqlList ts, s.Spoken
  | [], _, h => absurd h List.not_mem_nil
  | t :: ts, s, h => (List.mem_cons.mp h).elim (fun heq => heq ▸ t.spoken)
    (Term.spoken_list ts s)

theorem Term.spoken_clause {k : String} (hk : k ∈ vocabulary) :
    ∀ t? : Option Term, (Term.sqlClause k t?).Spoken
  | none => .nil
  | some t => (Spoken.words hk).append t.spoken

theorem Term.spoken_items :
    ∀ items : List (Term × Option Identifier), ∀ s ∈ Term.sqlItems items, s.Spoken
  | [], _, h => absurd h List.not_mem_nil
  | (t, none) :: items, s, h => (List.mem_cons.mp h).elim
    (fun heq => heq ▸ t.spoken.append .nil) (Term.spoken_items items s)
  | (t, some name) :: items, s, h => (List.mem_cons.mp h).elim
    (fun heq => heq ▸ t.spoken.append
      ((Spoken.words (by decide)).append (.value (p := .name name) trivial)))
    (Term.spoken_items items s)

theorem Term.spoken_order :
    ∀ terms : List (Term × SortOrder), ∀ s ∈ Term.sqlOrder terms, s.Spoken
  | [], _, h => absurd h List.not_mem_nil
  | (t, order) :: terms, s, h => (List.mem_cons.mp h).elim
    (fun heq => heq ▸ t.spoken.append (.words (by cases order <;> decide)))
    (Term.spoken_order terms s)

/-- **A query.** -/
theorem SelectTerm.spoken : ∀ q : SelectTerm, q.sql.Spoken
  | .mk distinct items source filter groupBy having orderBy limit offset => by
    have hbound : ∀ {w : String} {n : UInt64}, w ∈ vocabulary →
        Spoken (Sql.words w ++ [.number n]) := fun hw => (Spoken.words hw).append (.value trivial)
    have hlimit : " LIMIT " ∈ vocabulary := by decide
    have hoffset : " LIMIT -1 OFFSET " ∈ vocabulary := by decide
    have hhead := (Spoken.words (w := if distinct then "SELECT DISTINCT " else "SELECT ")
      (by cases distinct <;> decide)).append (Spoken.commaList (Term.spoken_items items))
    have hfrom := (hhead.append (.words (w := " FROM ") (by decide))).append source.spoken
    have hwhere := hfrom.append (Term.spoken_clause (k := " WHERE ") (by decide) filter)
    have hgroup := hwhere.append (Spoken.listClause (w := " GROUP BY ") (by decide)
      groupBy.isEmpty (Term.spoken_list groupBy))
    have hhaving := hgroup.append (Term.spoken_clause (k := " HAVING ") (by decide) having)
    have horder := hhaving.append (Spoken.listClause (w := " ORDER BY ") (by decide)
      orderBy.isEmpty (Term.spoken_order orderBy))
    refine horder.append ?_
    cases limit with
    | none =>
      cases offset with
      | none => exact .nil
      | some o => exact hbound hoffset
    | some l =>
      cases offset with
      | none => exact hbound hlimit
      | some o => exact ((hbound hlimit).append (.words (by decide))).append (.value trivial)

/-- **A source.** -/
theorem FromTerm.spoken : ∀ f : FromTerm, f.sql.Spoken
  | .named _ => .value trivial
  | .aliased table name =>
    ((Spoken.value (p := .name table) trivial).append (.words (by decide))).append
      (.value (p := .name name) trivial)
  | .query query name =>
    (query.spoken.parenthesized.append (.words (by decide))).append
      (.value (p := .name name) trivial)
  | .join first parts => first.spoken.append (JoinTerm.spoken_list parts)

theorem JoinTerm.spoken : ∀ p : JoinTerm, p.sql.Spoken
  | .mk type source condition =>
    ((Spoken.words (by cases type <;> decide)).append source.spoken).append
      (Term.spoken_clause (by decide) condition)

theorem JoinTerm.spoken_list : ∀ ps : List JoinTerm, (JoinTerm.sqlList ps).Spoken
  | [] => .nil
  | p :: ps => p.spoken.append (JoinTerm.spoken_list ps)

end

end TypedSql
