import TypedSql.Proofs.Statement.Conditions
import TypedSql.Proofs.Statement.FromReading

/-!
# Conditions that joins keep

A condition that is passed to a join goes to the link that is made with it, or
to the last one that there is. So the calls on a join fall apart into blocks: a
call that makes a link, and the conditions that are given while that link is
the last (`LinkCalls`). Each block makes one link, and the link has the
conditions of its block and no others (`Join.links_of_run`).

Only what comes before the first link is in no block. A condition that is
given there has no link to go to, and nothing is kept of it: the join is the
one that the blocks alone make (`Join.foldlM_andOn_of`).

What the links have is in the text, each condition written out in the clause of
its link (`Join.linksSql_of_groups`), and it is what a reader of the text finds
(`FromTerm.conditions_of_read?`). A condition that is read has the conjuncts of
all conditions that were given for its link, in order (`Term.conjuncts_read`).
-/

namespace TypedSql

open FromReader

/-! ## Conjuncts

A reader may group the ANDs of a condition in either way, so conditions are
compared by what has to hold: the parts between the ANDs, in order. -/

namespace Tree

/-- **What has to hold** if a condition does. -/
def conjuncts : Tree → List Tree
  | .binary .and l r => l.conjuncts ++ r.conjuncts
  | t => [t]

/-- A condition in front of another one, however they are grouped. -/
theorem conjuncts_graft (left x : Tree) :
    (graft .and left x).conjuncts = left.conjuncts ++ x.conjuncts := by
  rcases eq_binary_or_forall_ne .and x with ⟨p, l, r, rfl, hp⟩ | hne
  · obtain rfl : p = .and := BinaryOp.eq_of_level_eq (by decide) (by decide) (by decide) hp
    rw [graft_of_level_eq hp, conjuncts, conjuncts_graft left l, conjuncts, List.append_assoc]
  · rw [graft_of_forall_ne hne, conjuncts]
termination_by x

theorem conjuncts_extend (l r : Tree) :
    (extend .and l r).conjuncts = l.conjuncts ++ r.conjuncts := by
  rw [extend]
  split
  · exact conjuncts_graft l r
  · rw [conjuncts]

end Tree

namespace Term

/-- Conditions next to each other take no negation from each other. -/
theorem keepsNegations_chain {p : Term} {ps : List Term} (h : ∀ q ∈ p :: ps, q.KeepsNegations) :
    (p.chain ps).KeepsNegations := by
  induction ps using List.reverseRecOn with
  | nil => exact h p List.mem_cons_self
  | append_singleton ps q ih =>
    rw [← List.cons_append, List.forall_mem_append, List.forall_mem_singleton] at h
    rw [chain_concat, keepsNegations_binary]
    exact ⟨fun hopen => absurd hopen.1 (by decide), ih h.1, h.2⟩

/-- **The conjuncts of conditions** that hold together are those of each. -/
theorem conjuncts_grouped_chain (p : Term) (ps : List Term) :
    (p.chain ps).tree.grouped.conjuncts
      = (p :: ps).flatMap fun q => q.tree.grouped.conjuncts := by
  induction ps using List.reverseRecOn with
  | nil => rw [chain, List.foldl_nil, List.flatMap_singleton]
  | append_singleton ps q ih =>
    rw [chain_concat, tree, Tree.grouped, Tree.conjuncts_extend, ih, ← List.cons_append,
      List.flatMap_append, List.flatMap_singleton]

theorem operand_tokens {t : Term} (h : t.KeepsNegations) :
    Reader.operand [] t.sql.tokens = some t.tree.grouped := by
  obtain ⟨tree, hread, htells⟩ := t.tells_read?
  rw [Tree.read?, t.phrase.lex_text] at hread
  rw [hread, htells.kept h]

/-- **A reader finds all conjuncts** of the conditions that were given, in
order. -/
theorem conjuncts_read {ps : List Term} {t : Term} (ht : gathered ps = some t)
    (h : ∀ q ∈ ps, q.KeepsNegations) :
    ∃ (tree : Tree) (trees : List Tree), Reader.operand [] t.sql.tokens = some tree ∧
      ps.map (fun q => Reader.operand [] q.sql.tokens) = trees.map some ∧
      tree.conjuncts = trees.flatMap Tree.conjuncts := by
  cases ps with
  | nil => cases ht
  | cons p ps =>
    rw [gathered_cons] at ht
    obtain rfl := Option.some.inj ht
    refine ⟨_, (p :: ps).map fun q => q.tree.grouped,
      operand_tokens (keepsNegations_chain h), ?_, ?_⟩
    · rw [List.map_map]
      exact List.map_congr_left fun q hq => operand_tokens (h q hq)
    · rw [conjuncts_grouped_chain, List.flatMap_map]

end Term

/-! ## The conditions in a clause

Where a condition is read at all it goes to the last link, and this link had
none before. So a clause that is read has its conditions in the order in which
they are written, and none of them is lost on the way. -/

/-- The condition of a link that was read, if it has one. -/
def LinkTree.condition? : LinkTree → Option (List Token)
  | .mk _ _ condition? => condition?

/-- **The conditions of a clause** that was read, in order. -/
def FromClause.conditions (c : FromClause) : List (List Token) :=
  c.links.filterMap LinkTree.condition?

mutual

/-- **The conditions in a source**, in the order in which they are written. -/
def FromTerm.conditions : FromTerm → List (List Token)
  | .join first parts => first.conditions ++ JoinTerm.conditionsAll parts
  | _ => []

/-- The conditions in a link; its own is the last. -/
def JoinTerm.conditions : JoinTerm → List (List Token)
  | .mk _ source condition? =>
    source.conditions ++ (condition?.map fun t => t.sql.tokens).toList

/-- The conditions in several links. -/
def JoinTerm.conditionsAll : List JoinTerm → List (List Token)
  | [] => []
  | p :: ps => p.conditions ++ JoinTerm.conditionsAll ps

end

theorem JoinTerm.conditionsAll_eq (ps : List JoinTerm) :
    JoinTerm.conditionsAll ps = ps.flatMap JoinTerm.conditions := by
  induction ps with
  | nil => rfl
  | cons p ps ih => rw [JoinTerm.conditionsAll, ih, List.flatMap_cons]

/-- The conditions in front of a place where a source is due. -/
def FromReader.Gap.conditions : Gap → List (List Token)
  | .first => []
  | .link c _ => c.conditions

theorem FromReader.Gap.conditions_fill (gap : Gap) (x : SourceTree) :
    (gap.fill x).conditions = gap.conditions := by
  cases gap with
  | first => rfl
  | link c type =>
    rw [fill, FromClause.conditions, List.filterMap_append]
    exact List.append_nil _

/-- **A condition that finds a link** is the last one: it goes to the last link,
and that had none. -/
theorem FromClause.conditions_of_on? {c d : FromClause} {condition : List Token}
    (h : c.on? condition = some d) : d.conditions = c.conditions ++ [condition] := by
  unfold FromClause.on? at h
  split at h
  · next type source t ts hlast =>
    obtain ⟨links, hlinks⟩ := List.getLast?_eq_some_iff.mp hlast
    cases h
    rw [conditions, conditions, hlinks, List.dropLast_concat, List.filterMap_append,
      List.filterMap_append]
    exact (congrArg (· ++ [t :: ts]) (List.append_nil _)).symm
  · cases h

mutual

/-- What is spliced in has its conditions behind those that are there. -/
theorem FromTerm.conditions_of_splice : ∀ (f : FromTerm) (gap : Gap) {c : FromClause},
    f.splice gap = some c → c.conditions = gap.conditions ++ f.conditions
  | .named _, gap, _, h | .aliased _ _, gap, _, h | .query _ _, gap, _, h => by
    rw [← Option.some.inj h, gap.conditions_fill]
    exact (List.append_nil _).symm
  | .join first parts, gap, c, h => by
    rw [FromTerm.splice] at h
    obtain ⟨d, hd, hparts⟩ := Option.bind_eq_some_iff.mp h
    rw [JoinTerm.conditions_of_spliceAll hparts, first.conditions_of_splice gap hd,
      FromTerm.conditions, List.append_assoc]

/-- A link has its conditions behind those of the clause. -/
theorem JoinTerm.conditions_of_splice : ∀ {p : JoinTerm} {c d : FromClause},
    p.splice c = some d → d.conditions = c.conditions ++ p.conditions
  | .mk type source none, c, _, h => by
    rw [JoinTerm.conditions, source.conditions_of_splice (.link c type) h]
    exact congrArg (c.conditions ++ ·) (List.append_nil _).symm
  | .mk type source (some _), c, d, h => by
    rw [JoinTerm.splice] at h
    obtain ⟨e, he, hon⟩ := Option.bind_eq_some_iff.mp h
    rw [FromClause.conditions_of_on? hon, source.conditions_of_splice (.link c type) he,
      JoinTerm.conditions, List.append_assoc]
    rfl

/-- So do several links. -/
theorem JoinTerm.conditions_of_spliceAll : ∀ {ps : List JoinTerm} {c d : FromClause},
    JoinTerm.spliceAll ps c = some d → d.conditions = c.conditions ++ JoinTerm.conditionsAll ps
  | [], _, _, h => by
    rw [← Option.some.inj h]
    exact (List.append_nil _).symm
  | p :: ps, c, d, h => by
    rw [JoinTerm.spliceAll] at h
    obtain ⟨e, he, hrest⟩ := Option.bind_eq_some_iff.mp h
    rw [JoinTerm.conditions_of_spliceAll hrest, JoinTerm.conditions_of_splice he,
      JoinTerm.conditionsAll, List.append_assoc]

end

/-- **A reader finds the conditions of a clause**, if it can read the clause at
all. -/
theorem FromTerm.conditions_of_read? (f : FromTerm) {c : FromClause}
    (h : FromClause.read? f.sql.text.toList = some c) : c.conditions = f.conditions := by
  rw [f.read?_text] at h
  exact f.conditions_of_splice .first h

/-! ## Calls

The calls are grouped before anything is said about the join. A block begins
with a call that makes a link, and what stands before the first block are
conditions alone, since every other call begins one. -/

namespace JoinCall

/-- The condition that is passed with a call. -/
def condition? : JoinCall → Option Term
  | on _ _ condition => some condition
  | onEqual _ _ left right => some (.binary .eq left.term right.term)
  | cross _ => none
  | byForeignKey _ _ => none
  | onQuery _ _ condition => some condition
  | andOn condition => some condition

/-- **What a call adds to the conditions**: what is passed with it, or what is
found for a table that is joined by its foreign key. -/
def Adds : JoinCall → List Term → Prop
  | byForeignKey _ _, ps => ∃ condition, ps = [condition]
  | c, ps => ps = c.condition?.toList

theorem Adds.sublist {c : JoinCall} {ps : List Term} (h : c.Adds ps) :
    c.condition?.toList.Sublist ps := by
  cases c with
  | byForeignKey => exact List.nil_sublist ps
  | _ => exact h ▸ List.Sublist.refl _

end JoinCall

/-- **A call that makes a link**, and the conditions that are given while that
link is the last. -/
structure LinkCalls where
  /-- The call. -/
  link : JoinCall
  /-- It makes a link. -/
  isLink : link.isLink = true
  /-- The conditions behind it. -/
  more : List Term

namespace LinkCalls

/-- The calls of a block. -/
def calls (b : LinkCalls) : List JoinCall := b.link :: b.more.map .andOn

/-- **The conditions of a block.** -/
def Gives (b : LinkCalls) (group : List Term) : Prop :=
  ∃ opening, b.link.Adds opening ∧ group = opening ++ b.more

/-- What is passed in a block is among its conditions, in order. -/
theorem Gives.sublist {b : LinkCalls} {group : List Term} (h : b.Gives group) :
    (b.calls.filterMap JoinCall.condition?).Sublist group := by
  obtain ⟨opening, hadds, rfl⟩ := h
  have hmore : (b.more.map JoinCall.andOn).filterMap JoinCall.condition? = b.more := by
    rw [List.filterMap_map]
    exact List.filterMap_some
  have hcalls : b.calls.filterMap JoinCall.condition?
      = b.link.condition?.toList ++ b.more := by
    rw [calls, List.filterMap_cons, hmore]
    cases b.link.condition? <;> rfl
  rw [hcalls]
  exact hadds.sublist.append_right b.more

theorem sublist_of_gives {blocks : List LinkCalls} {groups : List (List Term)}
    (h : List.Forall₂ Gives blocks groups) :
    ((blocks.flatMap calls).filterMap JoinCall.condition?).Sublist groups.flatten := by
  induction h with
  | nil => exact List.Sublist.refl []
  | cons hgives _ ih =>
    rw [List.flatMap_cons, List.filterMap_append, List.flatten_cons]
    exact hgives.sublist.append ih

/-- **Calls fall apart into blocks**, behind the conditions that come before the
first link. -/
theorem exists_blocks (calls : List JoinCall) :
    ∃ (early : List Term) (blocks : List LinkCalls),
      calls = early.map .andOn ++ blocks.flatMap LinkCalls.calls := by
  induction calls with
  | nil => exact ⟨[], [], rfl⟩
  | cons c calls ih =>
    obtain ⟨early, blocks, rfl⟩ := ih
    by_cases hc : c.isLink = true
    · exact ⟨[], ⟨c, hc, early⟩ :: blocks, rfl⟩
    · cases c with
      | andOn condition => exact ⟨condition :: early, blocks, rfl⟩
      | _ => exact absurd rfl hc

end LinkCalls

/-! ## Links

A link takes conditions as long as it is the last, and each block is over
before the next one begins; the conditions of a block meet the same link. -/

namespace Join

/-- Before there is a link, conditions are lost. -/
theorem foldlM_andOn_of (source : Source) (ps : List Term) :
    (ps.map JoinCall.andOn).foldlM call (of source) = .ok (of source) := by
  induction ps with
  | nil => rfl
  | cons p ps ih => exact ih

/-- **A call that makes a link** gives it what the call adds. -/
theorem of_call_link {j j' : Join} {c : JoinCall} (hc : c.isLink = true) (h : j.call c = .ok j') :
    ∃ part opening, c.Adds opening ∧ part.condition? = Term.gathered opening ∧
      j'.first = j.first ∧ j'.parts = j.parts ++ [part] := by
  cases c with
  | byForeignKey type table =>
    obtain ⟨condition, rfl⟩ := of_byForeignKey h
    exact ⟨⟨type, table.source, some condition⟩, [condition], ⟨condition, rfl⟩, rfl, rfl, rfl⟩
  | andOn condition => cases hc
  | _ => exact Except.ok.inj h ▸ ⟨_, _, rfl, rfl, rfl, rfl⟩

/-- **What a block makes**: one link, with the conditions of the block. -/
theorem of_block {j j' : Join} {b : LinkCalls} (h : b.calls.foldlM call j = .ok j') :
    ∃ part group, b.Gives group ∧ part.condition? = Term.gathered group ∧
      j'.first = j.first ∧ j'.parts = j.parts ++ [part] := by
  rw [LinkCalls.calls, List.foldlM_cons] at h
  obtain ⟨i, hlink, hmore⟩ := exists_of_bind_eq_ok h
  obtain ⟨part, opening, hadds, hpart, hfirst, hparts⟩ := of_call_link b.isLink hlink
  rw [foldlM_andOn hparts] at hmore
  obtain rfl := Except.ok.inj hmore
  refine ⟨_, opening ++ b.more, ⟨opening, hadds, rfl⟩, ?_, hfirst, rfl⟩
  rw [hpart, Term.gathered, Term.gathered, List.foldl_append]

/-- **What blocks make**: a link each, in order. -/
theorem links_of_run {j j' : Join} {blocks : List LinkCalls}
    (h : (blocks.flatMap LinkCalls.calls).foldlM call j = .ok j') :
    ∃ parts groups, List.Forall₂ LinkCalls.Gives blocks groups ∧
      parts.map JoinPart.condition? = groups.map Term.gathered ∧
      j'.first = j.first ∧ j'.parts = j.parts ++ parts := by
  induction blocks generalizing j with
  | nil => exact Except.ok.inj h ▸ ⟨[], [], .nil, rfl, rfl, (List.append_nil _).symm⟩
  | cons b blocks ih =>
    rw [List.flatMap_cons, List.foldlM_append] at h
    obtain ⟨i, hblock, hrest⟩ := exists_of_bind_eq_ok h
    obtain ⟨part, group, hgives, hpart, hfirst, hparts⟩ := of_block hblock
    obtain ⟨parts, groups, hall, hconditions, hfirst', hparts'⟩ := ih hrest
    refine ⟨part :: parts, group :: groups, .cons hgives hall, ?_, hfirst'.trans hfirst, ?_⟩
    · rw [List.map_cons, List.map_cons, hpart, hconditions]
    · rw [hparts', hparts, List.append_assoc, List.singleton_append]

/-! ## What is written

The text of a link ends with its conditions, so the placeholders of a join come
link by link: those of what is joined, and then those of its conditions. -/

/-- A link with the text of its condition. -/
def linkSql (part : JoinPart) (condition : Sql) : Sql :=
  Sql.words (" " ++ part.type.sql ++ " ") ++ part.source.tree.sql ++ condition

/-- The placeholders of a link with these conditions. -/
def linkSlots (part : JoinPart) (group : List Term) : List Codec :=
  part.source.tree.sql.slots ++ group.flatMap fun p => p.sql.slots

/-- **Links are written with their conditions**: behind each source all
conditions of one group, and their placeholders at the same place. -/
theorem linksSql_of_groups {parts : List JoinPart} {groups : List (List Term)}
    (h : parts.map JoinPart.condition? = groups.map Term.gathered) :
    (∃ conditions, List.Forall₂ (Sql.Conjoins " ON ") groups conditions ∧
      linksSql parts = (List.zipWith linkSql parts conditions).flatten) ∧
    (linksSql parts).slots = (List.zipWith linkSlots parts groups).flatten := by
  induction parts generalizing groups with
  | nil =>
    obtain rfl : groups = [] := List.map_eq_nil_iff.mp h.symm
    exact ⟨⟨[], .nil, rfl⟩, rfl⟩
  | cons part parts ih =>
    obtain ⟨group, groups, rfl⟩ := List.exists_cons_of_ne_nil (l := groups)
      (fun hnil => by rw [hnil] at h; cases h)
    rw [List.map_cons, List.map_cons, List.cons.injEq] at h
    obtain ⟨⟨conditions, hall, hlinks⟩, hslots⟩ := ih h.2
    have hgroup := Sql.conjoins_gathered " ON " group
    rw [linksSql_cons, h.1]
    refine ⟨⟨_, .cons hgroup hall, ?_⟩, ?_⟩
    · rw [hlinks]
      rfl
    · rw [Sql.slots_append, Sql.slots_append, Sql.slots_append, Sql.slots_words, List.nil_append,
        hgroup.slots, hslots]
      rfl

/-- **The conditions of links** are among those in the clause. -/
theorem mem_conditions_of_groups {parts : List JoinPart} {groups : List (List Term)}
    (h : parts.map JoinPart.condition? = groups.map Term.gathered) {group : List Term}
    (hgroup : group ∈ groups) {t : Term} (ht : Term.gathered group = some t) :
    t.sql.tokens ∈ JoinTerm.conditionsAll (parts.map JoinPart.tree) := by
  obtain ⟨part, hpart, hcondition⟩ : ∃ part ∈ parts, part.condition? = some t := by
    rw [← ht]
    exact List.mem_map.mp (h ▸ List.mem_map_of_mem hgroup)
  rw [JoinTerm.conditionsAll_eq]
  refine List.mem_flatMap.mpr ⟨part.tree, List.mem_map_of_mem hpart, ?_⟩
  rw [JoinPart.tree, JoinTerm.conditions, hcondition]
  exact List.mem_append_right _ List.mem_cons_self

end Join

theorem Select.exists_sql_eq_source (s : Select) :
    ∃ before behind, s.sql = before ++ s.source.sql ++ behind := by
  obtain ⟨behind, hsql⟩ := s.exists_sql_eq
  exact ⟨_, behind, hsql⟩

/-! ## All together -/

namespace Join

/-- **A join that keeps conditions**, one group of them for each of its links,
behind the source that it starts with. -/
structure Keeps (source : Source) (groups : List (List Term)) (j : Join) : Prop where
  /-- The source stays the first. -/
  first : j.first = source
  /-- The condition of a link is made of its group. -/
  gathered : j.parts.map JoinPart.condition? = groups.map Term.gathered
  /-- The text has a clause with all conditions of its group behind each link. -/
  text : ∃ conditions, List.Forall₂ (Sql.Conjoins " ON ") groups conditions ∧
    j.tree.sql = source.tree.sql ++ (List.zipWith linkSql j.parts conditions).flatten
  /-- The placeholders of the conditions stand where the conditions do. -/
  slots : j.tree.sql.slots
    = source.tree.sql.slots ++ (List.zipWith linkSlots j.parts groups).flatten
  /-- A query over the join has all of this in its text. -/
  query : ∀ (items : List Item) (clauses : List SelectClause), ∃ before behind,
    (clauses.foldl Select.refine (Select.of j.source items)).sql
      = before ++ j.tree.sql ++ behind
  /-- Who can read the clause finds a condition for each link with conditions,
  and in it the conjuncts of them all. -/
  read : ∀ c, FromClause.read? j.tree.sql.text.toList = some c →
    ∀ group ∈ groups, group ≠ [] → ∃ condition ∈ c.conditions,
      (∀ p ∈ group, p.KeepsNegations) →
        ∃ (tree : Tree) (trees : List Tree), Reader.operand [] condition = some tree ∧
          group.map (fun p => Reader.operand [] p.sql.tokens) = trees.map some ∧
          tree.conjuncts = trees.flatMap Tree.conjuncts

/-- What is made of groups is kept. -/
theorem keeps_of_groups {source : Source} {groups : List (List Term)} {j : Join}
    (hfirst : j.first = source)
    (hgroups : j.parts.map JoinPart.condition? = groups.map Term.gathered) :
    j.Keeps source groups := by
  have htree : j.tree.sql = source.tree.sql ++ linksSql j.parts := by
    rw [tree, FromTerm.sql, hfirst, linksSql]
  obtain ⟨⟨conditions, hall, hlinks⟩, hslots⟩ := linksSql_of_groups hgroups
  refine ⟨hfirst, hgroups, ⟨conditions, hall, by rw [htree, hlinks]⟩, ?_, ?_, ?_⟩
  · rw [htree, Sql.slots_append, hslots]
  · -- a query over the join writes it as its source, whatever clauses follow
    intro items clauses
    have hsource := (Select.foldl_refine clauses (Select.of j.source items)).2
    exact (congrArg FromTerm.sql hsource) ▸ Select.exists_sql_eq_source _
  · -- what is read is told by its tokens, and these are the tokens of the gathered condition
    intro c hc group hgroup hne
    obtain ⟨t, ht⟩ : ∃ t, Term.gathered group = some t := by
      obtain ⟨p, ps, rfl⟩ := List.exists_cons_of_ne_nil hne
      exact ⟨_, Term.gathered_cons p ps⟩
    refine ⟨t.sql.tokens, ?_, fun hkeeps => Term.conjuncts_read ht hkeeps⟩
    rw [j.tree.conditions_of_read? hc, tree, FromTerm.conditions]
    exact List.mem_append_right _ (mem_conditions_of_groups hgroups hgroup ht)

/-- **What a join keeps of its conditions.** In every run of calls that goes
through, the conditions that are given before the first link have no effect at
all: the join is the one that the other calls make. The others fall apart into
blocks, one for each link, and the join keeps the conditions of every block –
in its links, in its text with their placeholders, in every query over it and
for every reader. Nothing that was passed is missing among them, and they are
in the order of the calls. -/
theorem keepsConditions_of_run {source : Source} {calls : List JoinCall} {j : Join}
    (h : calls.foldlM call (of source) = .ok j) :
    ∃ (early : List Term) (blocks : List LinkCalls) (groups : List (List Term)),
      calls = early.map .andOn ++ blocks.flatMap LinkCalls.calls ∧
      (blocks.flatMap LinkCalls.calls).foldlM call (of source) = .ok j ∧
      List.Forall₂ LinkCalls.Gives blocks groups ∧
      ((blocks.flatMap LinkCalls.calls).filterMap JoinCall.condition?).Sublist groups.flatten ∧
      j.Keeps source groups := by
  obtain ⟨early, blocks, rfl⟩ := LinkCalls.exists_blocks calls
  rw [List.foldlM_append, foldlM_andOn_of] at h
  obtain ⟨parts, groups, hall, hgroups, hfirst, hparts⟩ := links_of_run h
  obtain rfl : j.parts = parts := hparts
  exact ⟨early, blocks, groups, rfl, h, hall, LinkCalls.sublist_of_gives hall,
    keeps_of_groups hfirst hgroups⟩

/-- A join that is given conditions before, on and behind a link, and one more
behind a link without any. -/
theorem keepsConditions_of_two :
    let p : Term := .binary .or (.slot .bool) (.slot .long)
    let q : Term := .not (.slot .bool)
    let t : Source := { tree := .named ⟨"t"⟩, items := [] }
    let calls : List JoinCall := [.andOn q, .on t .inner p, .andOn q, .cross t, .andOn p]
    let j : Join := (((((of t).andOn q).on t .inner p).andOn q).cross t).andOn p
    calls.foldlM call (of t) = .ok j ∧
      ∃ (early : List Term) (blocks : List LinkCalls) (groups : List (List Term)),
        calls = early.map .andOn ++ blocks.flatMap LinkCalls.calls ∧
        (blocks.flatMap LinkCalls.calls).foldlM call (of t) = .ok j ∧
        List.Forall₂ LinkCalls.Gives blocks groups ∧
        ((blocks.flatMap LinkCalls.calls).filterMap JoinCall.condition?).Sublist groups.flatten ∧
        j.Keeps t groups := by
  intro p q t calls j
  have hrun : calls.foldlM call (of t) = .ok j := rfl
  exact ⟨hrun, keepsConditions_of_run hrun⟩

/-- **A condition that is given too early is lost**, and with it its
placeholder: nothing of it is in the join, in its text or in a query over
it. -/
theorem not_keepsConditions_early :
    let a : Source := { tree := .named ⟨"a"⟩, items := [] }
    let b : Source := { tree := .named ⟨"b"⟩, items := [] }
    let p : Term := .binary .eq (.column ⟨"a"⟩ ⟨"_id"⟩) (.slot .long)
    let calls : List JoinCall := [.andOn p, .cross b]
    ∃ j, calls.foldlM call (of a) = .ok j ∧
      calls.filterMap JoinCall.condition? = [p] ∧
      j.tree.sql.text = "\"a\" CROSS JOIN \"b\"" ∧
      j.tree.conditions = [] ∧ j.parts.map JoinPart.condition? = [none] ∧
      p.sql.slots.length = 1 ∧ j.tree.sql.slots = [] :=
  ⟨_, rfl, rfl, by decide, rfl, rfl, rfl, rfl⟩

end Join

end TypedSql
