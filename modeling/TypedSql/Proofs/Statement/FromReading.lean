import TypedSql.Proofs.Statement.FromReader
import TypedSql.Statement.Join

/-!
# What the text of a join says

A source is written as it is, also where it is a chain of joins itself. So the
links of a chain that is joined to something come one after the other with the
links around it, and the text does not show where the chain ended
(`FromTerm.splice`). A condition behind such a chain belongs to the last source
of it, and where that one has a condition already the text cannot be read at
all.

The text says what was built exactly when nothing that is joined is a chain
with links (`Join.read?_text`). A chain that stands first is no problem: links
group to the left.
-/

namespace TypedSql

open FromReader

/-! ## What is read

What the reader comes to is computed here by a recursion over the tree, which
spells out what the printer left out. Source, link and list of links call each
other, and so do the proofs about them. -/

mutual

/-- **The clause that a source completes** at a place where one is due, with
the links of a chain among the others. -/
def FromTerm.splice : FromTerm → Gap → Option FromClause
  | .named name, gap => some (gap.fill (.named name))
  | .aliased table name, gap => some (gap.fill (.aliased table name))
  | .query query name, gap => some (gap.fill (.query query.sql.tokens name))
  | .join first parts, gap => (first.splice gap).bind (JoinTerm.spliceAll parts)

/-- The clause behind a link. The condition goes to the last source in the
text, or nowhere. -/
def JoinTerm.splice : JoinTerm → FromClause → Option FromClause
  | .mk type source none, c => source.splice (.link c type)
  | .mk type source (some t), c => (source.splice (.link c type)).bind (·.on? t.sql.tokens)

/-- The clause behind several links. -/
def JoinTerm.spliceAll : List JoinTerm → FromClause → Option FromClause
  | [], c => some c
  | p :: ps, c => (p.splice c).bind (JoinTerm.spliceAll ps)

end

namespace FromReader

/-- The tokens of a kind of join. -/
theorem run_type (type : JoinType) (outer : List Gap) (c : FromClause) (ts : List Token) :
    run (.behind outer c) (Sql.tokens (Sql.words (" " ++ type.sql ++ " ")) ++ ts)
      = run (.due outer (.link c type)) ts := by
  obtain ⟨w, htokens, hword⟩ : ∃ w : List Char,
      Sql.tokens (Sql.words (" " ++ type.sql ++ " ")) = [.word w, .word ['J', 'O', 'I', 'N']] ∧
        Token.fromWord? (.word w) = some (.type type) := by
    cases type
    · exact ⟨['I', 'N', 'N', 'E', 'R'], by decide, by decide⟩
    · exact ⟨['L', 'E', 'F', 'T'], by decide, by decide⟩
    · exact ⟨['C', 'R', 'O', 'S', 'S'], by decide, by decide⟩
  have hfollow : follow outer c (.word w) = some (.keyword outer c type) := by
    rw [follow, hword]
    exact nofun
  rw [htokens, List.cons_append, List.singleton_append, run_behind_cons hfollow]
  exact run_cons rfl ts

theorem ends_type (type : JoinType) (ts : List Token) :
    Ends (Sql.tokens (Sql.words (" " ++ type.sql ++ " ")) ++ ts) := by
  cases type
  · exact ends_cons (w := .type .inner) (by decide) nofun _
  · exact ends_cons (w := .type .left) (by decide) nofun _
  · exact ends_cons (w := .type .cross) (by decide) nofun _

end FromReader

theorem JoinTerm.tokens_eq (type : JoinType) (source : FromTerm) (condition? : Option Term) :
    (JoinTerm.mk type source condition?).sql.tokens
      = Sql.tokens (Sql.words (" " ++ type.sql ++ " ")) ++
          (source.sql.tokens ++ (Term.sqlClause " ON " condition?).tokens) := by
  rw [JoinTerm.sql, Sql.tokens_append, Sql.tokens_append, List.append_assoc]

/-- What is written behind links ends a source, also where there are none. -/
theorem JoinTerm.ends_all (ps : List JoinTerm) {rest : List Token} (h : Ends rest) :
    Ends ((JoinTerm.sqlList ps).tokens ++ rest) := by
  match ps with
  | [] => exact h
  | .mk type source condition? :: ps =>
    rw [JoinTerm.sqlList, Sql.tokens_append, JoinTerm.tokens_eq, List.append_assoc,
      List.append_assoc]
    exact ends_type type _

mutual

/-- **A source is read with the links of chains spliced in.** -/
theorem FromTerm.run_tokens : ∀ (f : FromTerm) (outer : List Gap) (gap : Gap)
    {rest : List Token}, Ends rest →
    run (.due outer gap) (f.sql.tokens ++ rest)
      = (f.splice gap).bind fun c => run (.behind outer c) rest
  | .named name, outer, gap, rest, h => by
    rw [FromTerm.sql, Sql.name, Sql.tokens_singleton, Piece.tokens_name, List.singleton_append,
      run_cons rfl, run_named h]
    rfl
  | .aliased table name, outer, gap, rest, _ => by
    rw [FromTerm.sql, Sql.tokens_alias, Sql.name, Sql.tokens_singleton, Piece.tokens_name,
      List.append_assoc, List.singleton_append, List.cons_append, List.singleton_append,
      run_cons rfl, run_cons rfl, run_cons rfl]
    rfl
  | .query query name, outer, gap, rest, _ => run_select query name outer gap rest
  | .join first parts, outer, gap, rest, h => by
    rw [FromTerm.sql, Sql.tokens_append, List.append_assoc,
      first.run_tokens outer gap (JoinTerm.ends_all parts h), FromTerm.splice,
      Option.bind_assoc]
    congr 1
    funext c
    exact JoinTerm.run_tokens_all parts outer c h

/-- A link is read behind a clause. -/
theorem JoinTerm.run_tokens : ∀ (p : JoinTerm) (outer : List Gap) (c : FromClause)
    {rest : List Token}, Ends rest →
    run (.behind outer c) (p.sql.tokens ++ rest)
      = (p.splice c).bind fun d => run (.behind outer d) rest
  | .mk type source none, outer, c, rest, h => by
    rw [JoinTerm.tokens_eq, List.append_assoc, run_type, Term.sqlClause, List.append_assoc]
    exact source.run_tokens outer (.link c type) h
  | .mk type source (some t), outer, c, rest, h => by
    have hon : (Term.sqlClause " ON " (some t)).tokens ++ rest
        = .word ['O', 'N'] :: (t.sql.tokens ++ rest) := by
      rw [Term.sqlClause, Sql.tokens_append, List.append_assoc]
      rfl
    have hends : Ends (.word ['O', 'N'] :: (t.sql.tokens ++ rest)) :=
      ends_cons (w := .on) rfl nofun _
    rw [JoinTerm.tokens_eq, List.append_assoc, run_type, List.append_assoc, hon,
      source.run_tokens outer (.link c type) hends, JoinTerm.splice, Option.bind_assoc]
    congr 1
    funext d
    exact run_on t h outer d

/-- Links are read one after the other. -/
theorem JoinTerm.run_tokens_all : ∀ (ps : List JoinTerm) (outer : List Gap) (c : FromClause)
    {rest : List Token}, Ends rest →
    run (.behind outer c) ((JoinTerm.sqlList ps).tokens ++ rest)
      = (JoinTerm.spliceAll ps c).bind fun d => run (.behind outer d) rest
  | [], _, _, _, _ => rfl
  | p :: ps, outer, c, rest, h => by
    rw [JoinTerm.sqlList, Sql.tokens_append, List.append_assoc,
      p.run_tokens outer c (JoinTerm.ends_all ps h), JoinTerm.spliceAll, Option.bind_assoc]
    congr 1
    funext d
    exact JoinTerm.run_tokens_all ps outer d h

end

/-- **The text of a source is read with the links of chains spliced in.** -/
theorem FromTerm.read?_text (f : FromTerm) :
    FromClause.read? f.sql.text.toList = f.splice .first := by
  have hread := f.run_tokens [] .first ends_nil
  rw [List.append_nil] at hread
  rw [FromClause.read?, f.phrase.lex_text, hread]
  cases f.splice .first <;> rfl

/-! ## What was built

The clause that a reader ought to find. A chain that stands first is taken
apart into its links, since that is how the language groups; a chain that is
joined stays one source. -/

mutual

/-- **The clause of a source as it was built.** Links group to the left, so
the links of a chain that stands first come before the others; a chain that is
joined is one source. -/
def FromTerm.clause : FromTerm → FromClause
  | .named name => { first := .named name }
  | .aliased table name => { first := .aliased table name }
  | .query query name => { first := .query query.sql.tokens name }
  | .join first parts =>
    { first.clause with links := first.clause.links ++ JoinTerm.links parts }

/-- A link as it was built. -/
def JoinTerm.link : JoinTerm → LinkTree
  | .mk type source condition? =>
    .mk type source.clause.source (condition?.map fun t => t.sql.tokens)

/-- Links as they were built. -/
def JoinTerm.links : List JoinTerm → List LinkTree
  | [] => []
  | p :: ps => p.link :: JoinTerm.links ps

end

/-- What a link joins. -/
def JoinTerm.source : JoinTerm → FromTerm
  | .mk _ source _ => source

/-- **What is joined to something in a source**, by its own links or by those
of a chain that stands first in it. -/
def FromTerm.joined : FromTerm → List FromTerm
  | .join first parts => first.joined ++ parts.map JoinTerm.source
  | _ => []

theorem JoinTerm.map_source_links (ps : List JoinTerm) :
    (JoinTerm.links ps).map LinkTree.source
      = (ps.map JoinTerm.source).map fun s => s.clause.source := by
  induction ps with
  | nil => rfl
  | cons p ps ih =>
    obtain ⟨type, source, condition?⟩ := p
    rw [JoinTerm.links, List.map_cons, List.map_cons, List.map_cons, ih]
    rfl

theorem FromTerm.map_source_links (f : FromTerm) :
    f.clause.links.map LinkTree.source = f.joined.map fun s => s.clause.source := by
  cases f with
  | named _ | aliased _ _ | query _ _ => rfl
  | join first parts =>
    rw [FromTerm.clause, FromTerm.joined, List.map_append, List.map_append,
      first.map_source_links, JoinTerm.map_source_links]

/-- A clause that was built begins with a source that is none itself. -/
theorem FromTerm.isClause_first (f : FromTerm) : f.clause.first.isClause = false := by
  cases f with
  | named _ | aliased _ _ | query _ _ => rfl
  | join first _ => exact first.isClause_first

/-- **A source is a clause if something is joined in it.** -/
theorem FromTerm.isClause_source (f : FromTerm) :
    f.clause.source.isClause = false ↔ f.joined = [] := by
  have hlinks := f.map_source_links
  have hfirst := f.isClause_first
  generalize f.clause = c at hlinks hfirst
  obtain ⟨first, _ | ⟨l, ls⟩⟩ := c
  · have hjoined : f.joined = [] := List.map_eq_nil_iff.mp hlinks.symm
    exact ⟨fun _ => hjoined, fun _ => hfirst⟩
  · refine ⟨nofun, fun hjoined => ?_⟩
    rw [hjoined] at hlinks
    exact absurd hlinks (List.cons_ne_nil _ _)

/-! ## When the text says what was built

One direction is a recursion over the tree. For the other a clause as a source
is looked for in what was read: there is none, since none is written, so there
may be none in what was built. -/

/-- A condition goes to the last link if it has none. -/
theorem FromClause.on?_concat {condition : List Token} (h : condition ≠ []) (first : SourceTree)
    (links : List LinkTree) (type : JoinType) (source : SourceTree) :
    (FromClause.mk first (links ++ [.mk type source none])).on? condition
      = some ⟨first, links ++ [.mk type source (some condition)]⟩ := by
  obtain ⟨t, ts, rfl⟩ := List.exists_cons_of_ne_nil h
  unfold FromClause.on?
  rw [List.getLast?_concat, List.dropLast_concat]

/-- A source in which nothing is joined is read as one source. -/
theorem FromTerm.splice_of_joined_eq_nil : ∀ {f : FromTerm}, f.joined = [] → ∀ gap : Gap,
    f.splice gap = some (gap.fill f.clause.source)
  | .named _, _, _ | .aliased _ _, _, _ | .query _ _, _, _ => rfl
  | .join first parts, h, gap => by
    obtain ⟨hfirst, hparts⟩ := List.append_eq_nil_iff.mp h
    obtain rfl := List.map_eq_nil_iff.mp hparts
    rw [FromTerm.splice, first.splice_of_joined_eq_nil hfirst, FromTerm.clause,
      JoinTerm.links, List.append_nil]
    rfl

/-- Links are read as they were built if nothing they join is a clause. -/
theorem JoinTerm.spliceAll_eq {ps : List JoinTerm}
    (h : ∀ s ∈ ps.map JoinTerm.source, s.joined = []) (c : FromClause) :
    JoinTerm.spliceAll ps c = some { c with links := c.links ++ JoinTerm.links ps } := by
  induction ps generalizing c with
  | nil => rw [JoinTerm.spliceAll, JoinTerm.links, List.append_nil]
  | cons p ps ih =>
    obtain ⟨type, source, condition?⟩ := p
    rw [List.map_cons, List.forall_mem_cons] at h
    obtain ⟨hsource, hrest⟩ := h
    have hlink : (JoinTerm.mk type source condition?).splice c
        = some { c with links := c.links ++ [JoinTerm.link (.mk type source condition?)] } := by
      have hsplice := source.splice_of_joined_eq_nil hsource (.link c type)
      cases condition? with
      | none => exact hsplice
      | some t =>
        rw [JoinTerm.splice, hsplice]
        exact FromClause.on?_concat t.tokens_ne_nil _ _ _ _
    rw [JoinTerm.spliceAll, hlink, Option.bind_some, ih hrest, JoinTerm.links,
      List.append_assoc]
    rfl

/-- **A chain is read as it was built** if nothing that is joined in it is a
clause. -/
theorem FromTerm.splice_first_eq : ∀ {f : FromTerm}, (∀ s ∈ f.joined, s.joined = []) →
    f.splice .first = some f.clause
  | .named _, _ | .aliased _ _, _ | .query _ _, _ => rfl
  | .join first parts, h => by
    rw [FromTerm.joined, List.forall_mem_append] at h
    rw [FromTerm.splice, first.splice_first_eq h.1, Option.bind_some,
      JoinTerm.spliceAll_eq h.2]
    rfl

/-! ### Without parentheses there are no clauses -/

/-- **A clause that has no clauses in it.** -/
def FromClause.Flat (c : FromClause) : Prop := ∀ x ∈ c.sources, x.isClause = false

/-- A place in a clause that has no clauses in it. -/
def FromReader.Gap.Flat : Gap → Prop
  | .first => True
  | .link c _ => c.Flat

theorem FromReader.Gap.Flat.fill {gap : Gap} (h : gap.Flat) {x : SourceTree}
    (hx : x.isClause = false) : (gap.fill x).Flat := by
  cases gap with
  | first =>
    intro y hy
    rwa [List.mem_singleton.mp hy]
  | link c type =>
    intro y hy
    rw [FromClause.sources, Gap.fill, List.map_append, ← List.cons_append] at hy
    rcases List.mem_append.mp hy with hold | hnew
    · exact h y hold
    · rwa [List.mem_singleton.mp hnew]

/-- A condition changes no source. -/
theorem FromClause.sources_of_on? {c d : FromClause} {condition : List Token}
    (h : c.on? condition = some d) : d.sources = c.sources := by
  unfold FromClause.on? at h
  split at h
  · next type source t ts hlast =>
    obtain ⟨links, hlinks⟩ := List.getLast?_eq_some_iff.mp hlast
    cases h
    rw [FromClause.sources, FromClause.sources, hlinks, List.dropLast_concat, List.map_append,
      List.map_append]
    rfl
  · cases h

mutual

/-- **No clause is read as a source**, since none is written in parentheses. -/
theorem FromTerm.flat_of_splice : ∀ (f : FromTerm) (gap : Gap) {c : FromClause}, gap.Flat →
    f.splice gap = some c → c.Flat
  | .named _, _, _, hgap, h | .aliased _ _, _, _, hgap, h | .query _ _, _, _, hgap, h =>
    Option.some.inj h ▸ hgap.fill rfl
  | .join first _, gap, _, hgap, h => by
    rw [FromTerm.splice] at h
    obtain ⟨d, hd, hparts⟩ := Option.bind_eq_some_iff.mp h
    exact JoinTerm.flat_of_spliceAll (first.flat_of_splice gap hgap hd) hparts

theorem JoinTerm.flat_of_splice : ∀ {p : JoinTerm} {c d : FromClause}, c.Flat →
    p.splice c = some d → d.Flat
  | .mk type source none, c, _, hc, h => source.flat_of_splice (.link c type) hc h
  | .mk type source (some _), c, d, hc, h => by
    rw [JoinTerm.splice] at h
    obtain ⟨e, he, hon⟩ := Option.bind_eq_some_iff.mp h
    rw [FromClause.Flat, FromClause.sources_of_on? hon]
    exact source.flat_of_splice (.link c type) hc he

theorem JoinTerm.flat_of_spliceAll : ∀ {ps : List JoinTerm} {c d : FromClause}, c.Flat →
    JoinTerm.spliceAll ps c = some d → d.Flat
  | [], _, _, hc, h => Option.some.inj h ▸ hc
  | p :: ps, c, d, hc, h => by
    rw [JoinTerm.spliceAll] at h
    obtain ⟨e, he, hrest⟩ := Option.bind_eq_some_iff.mp h
    exact JoinTerm.flat_of_spliceAll (JoinTerm.flat_of_splice hc he) hrest

end

/-- **The text of a source says what was built** exactly when nothing that is
joined in it is a clause. -/
theorem FromTerm.splice_first_eq_iff (f : FromTerm) :
    f.splice .first = some f.clause ↔ ∀ s ∈ f.joined, s.joined = [] := by
  refine ⟨fun h s hs => ?_, FromTerm.splice_first_eq⟩
  have hflat : f.clause.Flat := f.flat_of_splice .first trivial h
  have hmem : s.clause.source ∈ f.clause.links.map LinkTree.source := by
    rw [f.map_source_links]
    exact List.mem_map_of_mem hs
  exact s.isClause_source.mp (hflat _ (List.mem_cons_of_mem _ hmem))

/-! ## Joins

A join is a list of links in the library and a tree in a statement. The tree of
a join has a clause for its first source where that is a join, and the result
is carried over for both cases. -/

namespace Join

/-- The sources of a join in order. -/
def sources (j : Join) : List Source := j.first :: j.parts.map JoinPart.source

/-- **The clause of a join as it was put together**: its first source and its
links, where each source is one, also if it is a chain that stands first. -/
def clause (j : Join) : FromClause where
  first := j.first.tree.clause.source
  links := JoinTerm.links (j.parts.map JoinPart.tree)

theorem map_source_tree (j : Join) :
    (j.parts.map JoinPart.tree).map JoinTerm.source
      = (j.parts.map JoinPart.source).map Source.tree := by
  rw [List.map_map, List.map_map]
  rfl

/-- A chain that stands first makes no difference if it has no links. -/
theorem tree_clause_of_joined_eq_nil {j : Join} (h : j.first.tree.joined = []) :
    j.tree.clause = j.clause := by
  have hlinks := j.first.tree.map_source_links
  rw [h, List.map_nil, List.map_eq_nil_iff] at hlinks
  rw [clause, tree, FromTerm.clause, hlinks]
  generalize j.first.tree.clause = c at hlinks
  obtain ⟨first, links⟩ := c
  cases hlinks
  rfl

/-- **What the text of a join says.** It says what the sources say with the
links of chains spliced in. This is the join that was built, where links group
to the left, exactly when nothing that is joined to something is a chain with
links, and it has the first source and the parts of the join one by one exactly
when no source of the join is a chain with links. -/
theorem read?_eq_clause_iff (j : Join) :
    FromClause.read? j.tree.sql.text.toList = j.tree.splice .first ∧
      (FromClause.read? j.tree.sql.text.toList = some j.tree.clause ↔
        ∀ s ∈ j.tree.joined, s.joined = []) ∧
      (FromClause.read? j.tree.sql.text.toList = some j.clause ↔
        ∀ s ∈ j.sources, s.tree.joined = []) := by
  rw [j.tree.read?_text]
  refine ⟨rfl, j.tree.splice_first_eq_iff, fun h => ?_, fun h => ?_⟩
  · have hflat : j.clause.Flat := j.tree.flat_of_splice .first trivial h
    rw [sources, List.forall_mem_cons]
    refine ⟨j.first.tree.isClause_source.mp (hflat _ List.mem_cons_self), fun s hs => ?_⟩
    have hmem : s.tree.clause.source ∈ j.clause.links.map LinkTree.source := by
      rw [clause, JoinTerm.map_source_links, map_source_tree]
      exact List.mem_map_of_mem (List.mem_map_of_mem hs)
    exact s.tree.isClause_source.mp (hflat _ (List.mem_cons_of_mem _ hmem))
  · rw [sources, List.forall_mem_cons] at h
    rw [← tree_clause_of_joined_eq_nil h.1]
    refine FromTerm.splice_first_eq fun s hs => ?_
    rw [tree, FromTerm.joined, h.1, List.nil_append, map_source_tree] at hs
    obtain ⟨source, hsource, rfl⟩ := List.mem_map.mp hs
    exact h.2 source hsource

/-- A table, and two others joined to it that are joined with each other. -/
def leftOfInner : Join :=
  let a : Source := { tree := .named ⟨"a"⟩, items := [] }
  let b : Source := { tree := .named ⟨"b"⟩, items := [] }
  let c : Source := { tree := .named ⟨"c"⟩, items := [] }
  let sameId (i j : Identifier) : Term := .binary .eq (.column i ⟨"_id"⟩) (.column j ⟨"_id"⟩)
  let inner := (of b).on c .inner (sameId ⟨"b"⟩ ⟨"c"⟩)
  (of a).on inner.source .left (sameId ⟨"a"⟩ ⟨"b"⟩)

/-- A join on the right of another one is written in a way that cannot be read:
two conditions stand behind one source. With parentheses it would be the join
that was built. -/
theorem read?_leftOfInner_eq_none :
    FromClause.read? leftOfInner.tree.sql.text.toList = none ∧
      FromClause.read? ("\"a\" LEFT JOIN (\"b\" INNER JOIN \"c\"" ++
        " ON \"b\".\"_id\" = \"c\".\"_id\") ON \"a\".\"_id\" = \"b\".\"_id\"").toList
          = some leftOfInner.clause :=
  ⟨rfl, rfl⟩

end Join

end TypedSql
