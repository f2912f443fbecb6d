import TypedSql.Proofs.Term.OpenFrames
import TypedSql.Proofs.Term.Parentheses
import TypedSql.Proofs.Term.Phrase

/-!
# Reading what was printed

The text of a term, read by the order of the operators, gives the tree of the
term back, up to the grouping of chains, if every negated `EXISTS` in it keeps
its negation to itself. There is one thing to prove for a term, `Reads`: on a
stack whose innermost frame binds looser than the term, and before a token that
does not bind tighter, the tokens of the term become one operand, or one that
ends in an open negation. A term on the right of its own operator is printed
without parentheses, and then the frame of that operator is on top and binds
just as tightly; there the second half of `Reads` says that the operand that
waits is grafted in.

Every rule of the printer for parentheses has its place in the induction. An
operand that is set off is read behind an open parenthesis, which binds
nothing; one that is not has the precedence that its frame asks for.

`Term.read?_text` is what comes out of it for all terms. A negation that takes
in more than its question is never made good again: the tree that is read has
fewer negated questions than the tree of the term.
-/

namespace TypedSql

open Reader

/-! ## The tokens of the words

What the reader gets to see of the words the printer writes. -/

namespace Sql

theorem tokens_binary (op : BinaryOp) : tokens (words (" " ++ op.sql ++ " ")) = [.op op] := by
  cases op <;> decide

theorem tokens_comma : tokens (words ", ") = [.comma] := by decide

theorem tokens_closing : tokens (words ")") = [.closing] := by decide

theorem tokens_scalarFunction (f : ScalarFunction) :
    tokens (words f.sql) = [.word f.sql.toList] := by
  cases f <;> decide

theorem tokens_aggregateFunction (f : AggregateFunction) :
    tokens (words f.sql) = [.word f.sql.toList] := by
  cases f <;> decide

theorem tokens_parenthesized (s : Sql) :
    tokens (parenthesized s) = .opening :: (s.tokens ++ [.closing]) := by
  rw [parenthesized, tokens_append, tokens_append]
  rfl

end Sql

/-! ## One operand

A term that is set off by parentheses is one operand on any stack. Otherwise it
is one where its precedence fits, which is what `Term.Fits` asks of the stack;
and `Reads` has, besides, the case of a term that repeats the operator it
stands on the right of. -/

/-- **A stack on which a term is one operand**: a negation begins with its
operator, everything else has to bind tighter than what has been begun. -/
def Term.Fits (t : Term) (stack : List Frame) : Prop :=
  t.precedence = Term.negation ∨ floor stack < t.precedence

theorem Term.Fits.floor_lt_test {t : Term} {stack : List Frame} (h : t.Fits stack)
    (ht : t.precedence = Term.equality) : floor stack < test := by
  unfold Term.Fits at h
  rw [ht] at h
  exact h.resolve_left (by decide)

/-- **A term is read as it was meant**, as long as the negations in it are
kept. -/
structure Reads (t : Term) : Prop where
  /-- Its tokens are one operand. -/
  alone : ∀ stack, t.Fits stack →
    Becomes (fun rest => operand stack (t.sql.tokens ++ rest)) t.precedence stack
      t.KeepsNegations t.EndsOpen t.tree.grouped
  /-- Behind an operator that binds as tightly they take the operand that
  waits. -/
  behind : ∀ op left stack, op.level = t.precedence → op.level ≠ test →
    floor stack < t.precedence →
    Becomes (fun rest => operand (.left op left :: stack) (t.sql.tokens ++ rest)) t.precedence
      stack t.KeepsNegations t.EndsOpen (Tree.graft op left t.tree.grouped)

namespace Reads

/-- Only a binary operator binds as tightly as one that stands alone with its
like. -/
theorem of_alone {t : Term} (hop : t.op? = none)
    (alone : ∀ stack, t.Fits stack →
      Becomes (fun rest => operand stack (t.sql.tokens ++ rest)) t.precedence stack
        t.KeepsNegations t.EndsOpen t.tree.grouped) : Reads t where
  alone := alone
  behind op left stack hlevel htest _ := by
    exfalso
    have hnegation := op.level_ne_negation
    have hprimary := op.level_lt_primary
    cases t
    case binary => cases hop
    case not => exact hnegation hlevel
    case isNull => exact htest hlevel
    case between => exact htest hlevel
    case inList => exact htest hlevel
    case inQuery => exact htest hlevel
    all_goals
      rw [hlevel] at hprimary
      exact hprimary.false

/-- A term that leaves nothing open wherever it stands. -/
theorem of_closed {t : Term} (hop : t.op? = none) (hclosed : ¬t.EndsOpen)
    (h : ∀ stack, t.Fits stack → ∃ x, Tells t.KeepsNegations t.tree.grouped x ∧
      ∀ rest, Follows t.precedence rest →
        operand stack (t.sql.tokens ++ rest) = operator stack x rest) : Reads t :=
  .of_alone hop fun stack hfits => by
    obtain ⟨x, htells, hread⟩ := h stack hfits
    exact (Becomes.of_tells htells hread).congr (fun _ _ => rfl) .rfl (iff_of_false id hclosed)

theorem of_leaf {t : Term} (hop : t.op? = none) (hclosed : ¬t.EndsOpen)
    (hsubterms : t.subterms = [t]) (hkeeps : t.KeepsNegation)
    (h : ∀ stack rest, Follows t.precedence rest →
      operand stack (t.sql.tokens ++ rest) = operator stack t.tree.grouped rest) : Reads t :=
  .of_closed hop hclosed fun stack _ => by
    have hall : t.KeepsNegations := by
      rw [Term.KeepsNegations, hsubterms]
      exact List.forall_mem_singleton.mpr hkeeps
    exact ⟨_, ⟨fun _ => rfl, fun hbad => absurd hall hbad⟩, h stack⟩

variable {t : Term} (h : Reads t)

include h

/-- Before what binds no tighter than a negation a term is one operand. -/
theorem tells {stack : List Frame} (hfits : t.Fits stack) :
    ∃ x, Tells t.KeepsNegations t.tree.grouped x ∧
      ∀ rest, Follows t.precedence rest → Follows negation rest →
        operand stack (t.sql.tokens ++ rest) = operator stack x rest :=
  (h.alone stack hfits).tells

/-- A term that is set off is one operand everywhere. -/
theorem parenthesized (stack : List Frame) :
    ∃ x, Tells t.KeepsNegations t.tree.grouped x ∧ ∀ rest,
      operand stack (Sql.tokens (Sql.parenthesized t.sql) ++ rest) = operator stack x rest := by
  have hfits : t.Fits (.group :: stack) := .inr t.precedence_pos
  obtain ⟨x, htells, hread⟩ := h.tells hfits
  refine ⟨x, htells, fun rest => ?_⟩
  rw [Sql.tokens_parenthesized, List.cons_append, List.append_assoc, List.singleton_append,
    operand_opening, hread _ (follows_cons rfl (Nat.zero_le _) _)
      (follows_cons rfl (Nat.zero_le _) _)]
  exact operator_group_closing x stack rest

/-- **An operand that may be set off** is one operand where it is, and where its
precedence is not below what may come behind. Its negation is open in the second
case alone. -/
theorem parenthesizedIf {setOff : Bool} {hold : Nat} {stack : List Frame}
    (hbare : setOff = false → hold ≤ t.precedence ∧ t.Fits stack) :
    Becomes (fun rest => operand stack (Sql.tokens (Sql.parenthesizedIf setOff t.sql) ++ rest))
      hold stack t.KeepsNegations (negation < hold ∧ setOff = false ∧ t.EndsOpen)
      t.tree.grouped := by
  cases setOff with
  | true =>
    obtain ⟨x, htells, hread⟩ := h.parenthesized stack
    have hclosed : ¬(negation < hold ∧ true = false ∧ t.EndsOpen) := fun hopen =>
      Bool.noConfusion hopen.2.1
    exact (Becomes.of_tells htells fun rest _ => hread rest).congr (fun _ _ => rfl) .rfl
      (iff_of_false id hclosed)
  | false =>
    obtain ⟨hle, hfits⟩ := hbare rfl
    exact ((h.alone stack hfits).lower hle).congr (fun _ _ => rfl) .rfl
      (and_congr_right fun _ => (and_iff_right rfl).symm)

/-- **What is tested and what it is tested by** is one operand, on top of a
test as well. -/
theorem tested {stack : List Frame} (hstack : floor stack ≤ test) :
    Becomes (fun rest => operand stack
        (Sql.tokens (Sql.parenthesizedIf (bindsLooser t (Term.equality + 1)) t.sql) ++ rest))
      (test + 1) stack t.KeepsNegations
      (bindsLooser t (Term.equality + 1) = false ∧ t.EndsOpen) t.tree.grouped := by
  refine (h.parenthesizedIf fun hbare => ?_).congr (fun _ _ => rfl) .rfl
    (and_iff_right (by decide : negation < test + 1))
  have hle : Term.equality + 1 ≤ t.precedence := Nat.not_lt.mp (of_decide_eq_false hbare)
  exact ⟨hle, .inr (Nat.lt_of_lt_of_le (Nat.lt_succ_of_le hstack) hle)⟩

end Reads

/-! ## Operands of the kinds of terms

What the reader makes of the tokens of a value, of a query in parentheses and
of the items of a list. Behind each of them it is back on the stack on which
that began. -/

/-- The tokens of an argument are one operand. -/
theorem operand_ofArgument (c : StorageClass) (a : Argument) (stack : List Frame)
    (rest : List Token) :
    operand stack (Token.ofArgument c a ++ rest)
      = operator stack (Tree.ofArgument c a).grouped rest := by
  cases a with
  | null => rfl
  | blob bytes => rfl
  | text s =>
    rw [Token.ofArgument, Tree.ofArgument]
    split
    · generalize s.toList = cs
      unfold Token.ofNumber
      split <;> rfl
    · rfl

/-- A name is one operand unless a point follows. -/
theorem operand_name {level : Nat} {rest : List Token} (h : Follows level rest) (i : Identifier)
    (stack : List Frame) : operand stack (.name i :: rest) = operator stack (.name i) rest := by
  rw [operand]
  rintro j ts rfl
  obtain ⟨g, hg, -⟩ := h .dot rfl
  cases hg

/-- A query begins with its keyword, and its parentheses match. -/
theorem SelectTerm.exists_tokens_eq (q : SelectTerm) :
    ∃ body, q.tokens = .select :: body ∧ q.sql.tokens = .select :: body ∧
      Token.nest 0 body = some 0 := by
  have hlex : q.tokens = q.sql.tokens := q.phrase.lex_text
  obtain ⟨body, hbody⟩ : ∃ body, q.sql.tokens = .select :: body := by
    obtain ⟨distinct, s, hsql⟩ : ∃ (distinct : Bool) (s : Sql),
        q.sql = Sql.words (if distinct then "SELECT DISTINCT " else "SELECT ") ++ s := by
      obtain ⟨distinct, items, source, filter, groupBy, having, orderBy, limit, offset⟩ := q
      cases limit <;> cases offset <;> simp only [SelectTerm.sql, List.append_assoc] <;>
        exact ⟨distinct, _, rfl⟩
    rw [hsql, Sql.tokens_append]
    cases distinct
    · exact ⟨s.tokens, rfl⟩
    · exact ⟨.distinct :: s.tokens, rfl⟩
  have hnest := q.phrase.nest_tokens 0
  rw [hbody] at hnest
  exact ⟨body, hlex.trans hbody, hbody, hnest⟩

/-- **A query in parentheses** is read as one operand of what stands in
front. -/
theorem query_closing (q : SelectTerm) (head : QueryHead) (stack : List Frame)
    (rest : List Token) :
    ∃ body, q.sql.tokens = .select :: body ∧
      query head stack [.select] 0 (body ++ .closing :: rest)
        = operator stack (head.tree q.tokens) rest := by
  obtain ⟨body, htokens, hsql, hnest⟩ := q.exists_tokens_eq
  refine ⟨body, hsql, ?_⟩
  rw [query_append hnest, htokens]
  rfl

/-- The last item of a list. -/
theorem operand_last {t : Term} (h : Reads t) (head : ListHead) (done : List Tree)
    (stack : List Frame) :
    ∃ x, Tells t.KeepsNegations t.tree.grouped x ∧ ∀ rest,
      operand (.list head done :: stack) (t.sql.tokens ++ .closing :: rest)
        = operator stack (head.tree (done ++ [x])) rest := by
  have hfits : t.Fits (.list head done :: stack) := .inr t.precedence_pos
  have hclosing : ∀ level rest, Follows level (.closing :: rest) := fun level rest =>
    follows_cons rfl (Nat.zero_le level) rest
  obtain ⟨x, htells, hread⟩ := h.tells hfits
  refine ⟨x, htells, fun rest => ?_⟩
  rw [hread _ (hclosing _ _) (hclosing _ _), operator_list_closing]

/-- An item of a list that is not the last. -/
theorem operand_item {t : Term} (h : Reads t) (head : ListHead) (done : List Tree)
    (stack : List Frame) :
    ∃ x, Tells t.KeepsNegations t.tree.grouped x ∧ ∀ rest,
      operand (.list head done :: stack) (t.sql.tokens ++ .comma :: rest)
        = operand (.list head (done ++ [x]) :: stack) rest := by
  have hfits : t.Fits (.list head done :: stack) := .inr t.precedence_pos
  have hcomma : ∀ level rest, Follows level (.comma :: rest) := fun level rest =>
    follows_cons rfl (Nat.zero_le level) rest
  obtain ⟨x, htells, hread⟩ := h.tells hfits
  refine ⟨x, htells, fun rest => ?_⟩
  rw [hread _ (hcomma _ _) (hcomma _ _), operator_list_comma]

/-- **The items of a list** are read up to the parenthesis that closes it. -/
theorem operand_list {t : Term} {ts : List Term} (h : ∀ u ∈ t :: ts, Reads u) (head : ListHead)
    (done : List Tree) (stack : List Frame) :
    ∃ xs, TellsAll (∀ u ∈ Term.subtermsAll (t :: ts), u.KeepsNegation)
        (Tree.groupedAll (Term.trees (t :: ts))) xs ∧ ∀ rest,
      operand (.list head done :: stack)
          (Sql.tokens (Sql.commaList (Term.sqlList (t :: ts))) ++ .closing :: rest)
        = operator stack (head.tree (done ++ xs)) rest := by
  induction ts generalizing t done with
  | nil =>
    obtain ⟨x, htells, hread⟩ := operand_last (h t List.mem_cons_self) head done stack
    rw [Term.subtermsAll, Term.subtermsAll, List.append_nil]
    exact ⟨[x], htells.single, hread⟩
  -- the first item is handed on to the list, which holds it while the others are read
  | cons u ts ih =>
    rw [List.forall_mem_cons] at h
    obtain ⟨x, htells, hread⟩ := operand_item h.1 head done stack
    obtain ⟨xs, htellsAll, hreadAll⟩ := ih h.2 (done ++ [x])
    rw [Term.subtermsAll, propext List.forall_mem_append]
    refine ⟨x :: xs, .cons htells htellsAll, fun rest => ?_⟩
    rw [Term.sqlList, Term.sqlList, Sql.commaList, Sql.tokens_append, Sql.tokens_append,
      Sql.tokens_comma, List.append_assoc, List.append_assoc, List.singleton_append, hread]
    refine (hreadAll rest).trans ?_
    rw [List.append_assoc]
    rfl

/-- The items of a list that may be empty. -/
theorem operand_items {ts : List Term} (h : ∀ u ∈ ts, Reads u) (head : ListHead)
    (stack : List Frame) :
    ∃ xs, TellsAll (∀ u ∈ Term.subtermsAll ts, u.KeepsNegation)
        (Tree.groupedAll (Term.trees ts)) xs ∧ ∀ rest,
      operand (.list head [] :: stack)
          (Sql.tokens (Sql.commaList (Term.sqlList ts)) ++ .closing :: rest)
        = operator stack (head.tree xs) rest := by
  cases ts with
  | nil =>
    refine ⟨[], ⟨fun _ => rfl, fun hbad => absurd nofun hbad⟩, fun rest => ?_⟩
    cases head <;> rfl
  | cons t ts => exact operand_list h head [] stack

/-! ## The kinds of terms

A lemma for each kind, all of the same form: if the parts are read as they were
meant, so is the whole. Kinds that consist of tokens alone are leaves. -/

namespace Reads

theorem literal (c : Codec) (v : c.Value) : Reads (.literal c v) :=
  .of_leaf rfl id rfl trivial fun stack rest _ => by
    rw [Term.sql, Sql.tokens_singleton, Piece.tokens_literal]
    exact operand_ofArgument c.storageClass (c.encode v) stack rest

theorem slot (c : Codec) : Reads (.slot c) :=
  .of_leaf rfl id rfl trivial fun stack rest _ => by
    rw [Term.sql, Sql.tokens_singleton, Piece.tokens_slot]
    rfl

theorem column (source name : Identifier) : Reads (.column source name) :=
  .of_leaf rfl id rfl trivial fun stack rest _ => by
    rw [Term.sql, Sql.tokens_append, Sql.tokens_append, Sql.name, Sql.name, Sql.tokens_singleton,
      Sql.tokens_singleton, Piece.tokens_name, Piece.tokens_name]
    rfl

theorem rowColumn (row : RowScope) (name : Identifier) : Reads (.rowColumn row name) :=
  .of_leaf rfl id rfl trivial fun stack rest _ => by
    rw [Term.sql, Sql.tokens_singleton, Piece.tokens_rowColumn]
    rfl

theorem reference (name : Identifier) : Reads (.reference name) :=
  .of_leaf rfl id rfl trivial fun stack rest hrest => by
    rw [Term.sql, Sql.name, Sql.tokens_singleton, Piece.tokens_name]
    exact operand_name hrest name stack

theorem not {t : Term} (h : Reads t) : Reads (.not t) :=
  .of_closed rfl id fun stack _ => by
    have hnot : Sql.tokens (Sql.words "NOT ") = [.not] := by decide
    have hbare : bindsLooser t Term.negation = false →
        negation ≤ t.precedence ∧ t.Fits (.not :: stack) := fun hbare =>
      have hle : Term.negation ≤ t.precedence := Nat.not_lt.mp (of_decide_eq_false hbare)
      ⟨hle, (Nat.eq_or_lt_of_le hle).imp Eq.symm id⟩
    obtain ⟨x, htells, hread⟩ := (h.parenthesizedIf hbare).tells
    refine ⟨.not x, ?_, fun rest hrest => ?_⟩
    · rw [propext Term.keepsNegations_not]
      exact htells.not
    · rw [Term.sql, Sql.tokens_append, hnot, List.append_assoc, List.singleton_append, operand]
      refine (hread rest hrest hrest).trans ?_
      have hfollows : Follows Frame.not.level rest := hrest
      exact operator_fill rfl hfollows stack

/-- **A test** of an operand `u` by what the text says behind it, which makes `w`
of the operand. It is kept that no open negation takes in the test, and that
nothing is lost in the operand and in what it is tested by. -/
theorem of_test {t u : Term} (h : Reads u) (hop : t.op? = none) (hlevel : t.precedence = test)
    {tail : Sql}
    (hsql : t.sql = Sql.parenthesizedIf (bindsLooser u (Term.equality + 1)) u.sql ++ tail)
    (htail : ∀ rest, Follows (test + 1) (tail.tokens ++ rest)) {w : Tree → Tree} {c : Nat}
    (hw : ∀ z, (w z).negations = z.negations + c ∧ (w z).isExists = false)
    (htree : t.tree.grouped = w u.tree.grouped) {good : Prop}
    (hkeeps : t.KeepsNegations ↔
      ¬(bindsLooser u (Term.equality + 1) = false ∧ u.EndsOpen) ∧ u.KeepsNegations ∧ good)
    (htest : ∀ base x, floor base < test →
      Becomes (fun rest => operator base x (tail.tokens ++ rest)) test base good t.EndsOpen (w x)) :
    Reads t :=
  .of_alone hop fun stack hfits => by
    have hfloor : floor stack < test := hfits.floor_lt_test hlevel
    have hread := (h.tested hfloor.le).after hfloor (fun _ => by decide) (fun _ => by decide) htail
      hw htest
    rw [hlevel, htree]
    refine hread.congr (fun rest _ => ?_) (and_left_comm.trans hkeeps.symm) .rfl
    rw [hsql, Sql.tokens_append, List.append_assoc]

theorem isNull {t : Term} (h : Reads t) (negated : Bool) : Reads (.isNull t negated) := by
  have hnull : Sql.tokens (Sql.words " IS NULL") = [.is, .null] := by decide
  have hnotNull : Sql.tokens (Sql.words " IS NOT NULL") = [.is, .not, .null] := by decide
  have hkeeps := @Term.keepsNegations_isNull t negated
  rw [← and_true (Term.KeepsNegations t)] at hkeeps
  refine h.of_test (w := fun z => .isNull z negated) (c := 0) rfl rfl rfl (fun rest => ?_)
    (fun z => ⟨rfl, rfl⟩) rfl hkeeps fun base x hbase => .of_tells (.of_eq rfl) fun rest _ => ?_
  · cases negated <;> exact follows_cons (t := .is) rfl (Nat.le_succ test) _
  · cases negated
    · rw [negatable, if_neg Bool.false_ne_true, hnull]
      exact operator_is_null hbase x rest
    · rw [negatable, if_pos rfl, hnotNull]
      exact operator_is_not_null hbase x rest

/-- The bounds of a range, behind the word. -/
theorem bounds {low high : Term} (hlow : Reads low) (hhigh : Reads high) {base : List Frame}
    (hbase : floor base < test) (x : Tree) :
    Becomes (fun rest => operator base x (Sql.tokens (Sql.words " BETWEEN " ++
        (Sql.parenthesizedIf (bindsLooser low (Term.equality + 1)) low.sql ++
          (Sql.words " AND " ++
            Sql.parenthesizedIf (bindsLooser high (Term.equality + 1)) high.sql))) ++ rest))
      test base (low.KeepsNegations ∧ high.KeepsNegations)
      (bindsLooser high (Term.equality + 1) = false ∧ high.EndsOpen)
      (.between x low.tree.grouped high.tree.grouped) := by
  have hbetween : Sql.tokens (Sql.words " BETWEEN ") = [.between] := by decide
  have hand : Sql.tokens (Sql.words " AND ") = [.op .and] := by decide
  -- the bounds stand on frames that bind as tightly as the test
  have hlowFloor : floor (.low x :: base) ≤ test := Nat.le_refl test
  obtain ⟨y, htells, hread⟩ := (hlow.tested hlowFloor).tells
  have hhighFloor : floor (.high x y :: base) ≤ test := Nat.le_refl test
  have hfill := Becomes.fill (f := .high x y) ((hhigh.tested hhighFloor).lower (Nat.le_succ test))
    (fun _ => rfl) nofun
  have hwithin := Becomes.within (w := fun z => .between x z high.tree.grouped) hfill
    (fun z => ⟨by rw [Tree.negations, Nat.add_assoc, Nat.add_left_comm], rfl⟩) htells
  refine hwithin.congr (fun rest _ => ?_) .rfl (and_iff_right (by decide : negation < test))
  rw [Sql.tokens_append, Sql.tokens_append, Sql.tokens_append, hbetween, hand, List.append_assoc,
    List.append_assoc, List.append_assoc, List.singleton_append, List.singleton_append,
    operator_between hbase]
  refine (hread _ (follows_cons (t := .op .and) rfl (by decide) _)
    (follows_cons (t := .op .and) rfl (by decide) _)).trans ?_
  exact operator_low_and x y base _

theorem between {t low high : Term} (h : Reads t) (hlow : Reads low) (hhigh : Reads high) :
    Reads (.between t low high) := by
  refine h.of_test (w := fun z => .between z low.tree.grouped high.tree.grouped)
    (c := low.tree.grouped.negations + high.tree.grouped.negations)
    rfl rfl ?_ (fun rest => ?_) (fun z => ⟨Nat.add_assoc _ _ _, rfl⟩) rfl
    Term.keepsNegations_between fun base x hbase => hlow.bounds hhigh hbase x
  · simp only [Term.sql, List.append_assoc]
  · have hbetween : Sql.tokens (Sql.words " BETWEEN ") = [.between] := by decide
    rw [Sql.tokens_append, hbetween]
    exact follows_cons (t := .between) rfl (Nat.le_succ test) _

/-- Behind the value that may be in a list or a query comes the word and a
parenthesis. -/
theorem operator_negatable (negated : Bool) {base : List Frame} (hbase : floor base < test)
    (x : Tree) (ts : List Token) :
    operator base x (Sql.tokens (negatable negated " NOT IN " " IN ") ++ .opening :: ts)
      = operand (.list (.inList x negated) [] :: base) ts := by
  have hin : Sql.tokens (Sql.words " IN ") = [.member] := by decide
  have hnotIn : Sql.tokens (Sql.words " NOT IN ") = [.not, .member] := by decide
  cases negated
  · rw [negatable, if_neg Bool.false_ne_true, hin]
    exact operator_member hbase x ts
  · rw [negatable, if_pos rfl, hnotIn]
    exact operator_not_member hbase x ts

theorem follows_negatable (negated : Bool) (s : Sql) (rest : List Token) :
    Follows (test + 1) (Sql.tokens (negatable negated " NOT IN " " IN " ++ s) ++ rest) := by
  have hin : Sql.tokens (Sql.words " IN ") = [.member] := by decide
  have hnotIn : Sql.tokens (Sql.words " NOT IN ") = [.not, .member] := by decide
  rw [Sql.tokens_append, List.append_assoc]
  cases negated
  · rw [negatable, if_neg Bool.false_ne_true, hin]
    exact follows_cons (t := .member) rfl (Nat.le_succ test) _
  · rw [negatable, if_pos rfl, hnotIn]
    exact follows_cons (t := .not) rfl (Nat.le_succ test) _

theorem inList {t : Term} (h : Reads t) {items : List Term} (hitems : ∀ u ∈ items, Reads u)
    (negated : Bool) : Reads (.inList t items negated) := by
  refine h.of_test (w := fun z => .inList z (Tree.groupedAll (Term.trees items)) negated)
    (c := Tree.negationsAll (Tree.groupedAll (Term.trees items))) rfl rfl ?_
    (follows_negatable negated (Sql.parenthesized (Sql.commaList (Term.sqlList items))))
    (fun z => ⟨rfl, rfl⟩) rfl Term.keepsNegations_inList fun base x hbase => ?_
  · rw [Term.sql, List.append_assoc]
  · obtain ⟨xs, htells, hread⟩ := operand_items hitems (.inList x negated) base
    refine .of_tells (htells.tells (w := fun ts => .inList x ts negated) (c := x.negations)
      fun ts => ⟨rfl, rfl⟩) fun rest _ => ?_
    rw [Sql.tokens_append, Sql.tokens_parenthesized, List.append_assoc, List.cons_append,
      List.append_assoc, List.singleton_append, operator_negatable negated hbase]
    exact hread rest

theorem inQuery {t : Term} (h : Reads t) (q : SelectTerm) (negated : Bool) :
    Reads (.inQuery t q negated) := by
  have hkeeps := @Term.keepsNegations_inQuery t q negated
  rw [← and_true (Term.KeepsNegations t)] at hkeeps
  refine h.of_test (w := fun z => .inQuery z q.tokens negated) (c := 0) rfl rfl ?_
    (follows_negatable negated (Sql.parenthesized q.sql)) (fun z => ⟨rfl, rfl⟩) rfl hkeeps
    fun base x hbase => .of_tells (.of_eq rfl) fun rest _ => ?_
  · rw [Term.sql, List.append_assoc]
  · obtain ⟨body, hbody, hquery⟩ := query_closing q (.inQuery x negated) base rest
    rw [Sql.tokens_append, Sql.tokens_parenthesized, List.append_assoc, List.cons_append,
      List.append_assoc, List.singleton_append, operator_negatable negated hbase, hbody]
    exact hquery

theorem operand_exists (q : SelectTerm) (stack : List Frame) (rest : List Token) :
    operand stack (.exists :: (Sql.tokens (Sql.parenthesized q.sql) ++ rest))
      = operator stack (.exists q.tokens) rest := by
  obtain ⟨body, hbody, hquery⟩ := query_closing q .exists stack rest
  rw [Sql.tokens_parenthesized, hbody, List.cons_append, List.append_assoc]
  exact hquery

/-- **A negated question for rows** leaves its negation open. -/
theorem «exists» (q : SelectTerm) (negated : Bool) : Reads (.exists q negated) := by
  have hexists : Sql.tokens (Sql.words "EXISTS ") = [.exists] := by decide
  have hnotExists : Sql.tokens (Sql.words "NOT EXISTS ") = [.not, .exists] := by decide
  cases negated with
  | false =>
    refine .of_leaf rfl Bool.false_ne_true rfl trivial fun stack rest _ => ?_
    rw [Term.sql, negatable, if_neg Bool.false_ne_true, Sql.tokens_append, hexists,
      List.append_assoc, List.singleton_append]
    exact operand_exists q stack rest
  | true =>
    refine .of_alone rfl fun stack _ => ⟨[.not], .exists q.tokens, ?_,
      fun _ => (by decide : negation < Term.primary), fun rest _ => ?_⟩
    · exact ⟨.inr ⟨rfl, List.forall_mem_singleton.mpr Frame.closes_not⟩,
        ⟨fun _ => rfl, fun hbad => absurd Term.keepsNegations_exists hbad⟩,
        fun _ => iff_of_true (List.cons_ne_nil _ _) rfl, fun _ _ => rfl⟩
    · show operand stack ((Term.exists q true).sql.tokens ++ rest) = _
      rw [Term.sql, negatable, if_pos rfl, Sql.tokens_append, hnotExists, List.append_assoc,
        List.cons_append, List.singleton_append, operand]
      exact operand_exists q (.not :: stack) rest

theorem scalar (q : SelectTerm) : Reads (.scalar q) :=
  .of_leaf rfl id rfl trivial fun stack rest _ => by
    obtain ⟨body, hbody, hquery⟩ := query_closing q .scalar stack rest
    rw [Term.sql, Sql.tokens_parenthesized, hbody, List.cons_append, List.append_assoc]
    exact hquery

/-! ### Functions

A function is a word with a list in parentheses behind it, so functions share
one lemma and bring along their words and arguments. -/

/-- **A function** keeps what its arguments keep. -/
theorem of_arguments {t : Term} (hop : t.op? = none) (hclosed : ¬t.EndsOpen) {f : List Char}
    {distinct : Bool} {expected : List Tree} (htree : t.tree.grouped = .call f distinct expected)
    {good : Prop} (hkeeps : t.KeepsNegations ↔ good)
    (h : ∀ stack, ∃ xs, TellsAll good expected xs ∧ ∀ rest,
      operand stack (t.sql.tokens ++ rest) = operator stack (.call f distinct xs) rest) :
    Reads t :=
  .of_closed hop hclosed fun stack _ => by
    obtain ⟨xs, htells, hread⟩ := h stack
    rw [htree, propext hkeeps]
    exact ⟨_, htells.tells (w := .call f distinct) (c := 0) fun ts => ⟨(Nat.zero_add _).symm, rfl⟩,
      fun rest _ => hread rest⟩

theorem call (f : ScalarFunction) {arguments : List Term} (h : ∀ u ∈ arguments, Reads u) :
    Reads (.call f arguments) :=
  .of_arguments rfl id rfl (List.forall_mem_cons.trans (and_iff_right trivial)) fun stack => by
    obtain ⟨xs, htells, hread⟩ := operand_items h (.call f.sql.toList false) stack
    refine ⟨xs, htells, fun rest => ?_⟩
    rw [Term.sql, Sql.tokens_append, Sql.tokens_scalarFunction, Sql.tokens_parenthesized,
      List.singleton_append, List.cons_append, List.cons_append, List.append_assoc]
    exact hread rest

theorem aggregate (f : AggregateFunction) {t : Term} (h : Reads t) : Reads (.aggregate f t) :=
  .of_arguments rfl id rfl (List.forall_mem_cons.trans (and_iff_right trivial)) fun stack => by
    obtain ⟨x, htells, hread⟩ := operand_last h (.call f.sql.toList false) [] stack
    refine ⟨[x], htells.single, fun rest => ?_⟩
    rw [Term.sql, Sql.tokens_append, Sql.tokens_aggregateFunction, Sql.tokens_parenthesized,
      List.singleton_append, List.cons_append, List.cons_append, List.append_assoc]
    exact hread rest

theorem groupConcat {t : Term} (h : Reads t) (separator : Option String) :
    Reads (.groupConcat t separator) := by
  have hwords : Sql.tokens (Sql.words "GROUP_CONCAT(")
      = [.word "GROUP_CONCAT".toList, .opening] := by decide
  have hkeeps : (Term.groupConcat t separator).KeepsNegations ↔ t.KeepsNegations :=
    List.forall_mem_cons.trans (and_iff_right trivial)
  cases separator with
  | none =>
    refine .of_arguments rfl id rfl hkeeps fun stack => ?_
    obtain ⟨x, htells, hread⟩ := operand_last h (.call "GROUP_CONCAT".toList false) [] stack
    refine ⟨[x], htells.single, fun rest => ?_⟩
    rw [Term.sql, List.append_nil, Sql.tokens_append, Sql.tokens_append, hwords,
      Sql.tokens_closing, List.append_assoc, List.append_assoc, List.singleton_append]
    exact hread rest
  | some s =>
    -- the text between the parts is an argument like the others, but no term
    have htail : Sql.tokens (Sql.words ", " ++ [.quotedText s]) = [.comma, .text s.toList] := by
      rw [Sql.tokens_append, Sql.tokens_comma, Sql.tokens_singleton, Piece.tokens_quotedText]
      rfl
    have htext : TellsAll True [.text s.toList] [.text s.toList] := (Tells.of_eq rfl).single
    refine .of_arguments rfl id rfl (hkeeps.trans (and_iff_left trivial).symm) fun stack => ?_
    obtain ⟨x, htells, hread⟩ := operand_item h (.call "GROUP_CONCAT".toList false) [] stack
    refine ⟨[x, .text s.toList], .cons htells htext, fun rest => ?_⟩
    rw [Term.sql, Sql.tokens_append, Sql.tokens_append, Sql.tokens_append, htail, hwords,
      Sql.tokens_closing, List.append_assoc, List.append_assoc, List.append_assoc]
    refine (hread _).trans ?_
    exact operator_list_closing _ _ _ stack rest

theorem countStar : Reads .countStar :=
  .of_leaf rfl id rfl trivial fun stack rest _ => by
    have hwords : Sql.tokens (Sql.words "COUNT(*)")
        = [.word "COUNT".toList, .opening, .op .mul, .closing] := by decide
    rw [Term.sql, hwords]
    rfl

theorem countDistinct {t : Term} (h : Reads t) : Reads (.countDistinct t) :=
  .of_arguments rfl id rfl (List.forall_mem_cons.trans (and_iff_right trivial)) fun stack => by
    have hwords : Sql.tokens (Sql.words "COUNT(DISTINCT ")
        = [.word "COUNT".toList, .opening, .distinct] := by decide
    obtain ⟨x, htells, hread⟩ := operand_last h (.call "COUNT".toList true) [] stack
    refine ⟨[x], htells.single, fun rest => ?_⟩
    rw [Term.sql, Sql.tokens_append, Sql.tokens_append, hwords, Sql.tokens_closing,
      List.append_assoc, List.append_assoc, List.singleton_append]
    exact hread rest

/-! ### Binary operators

The only terms that are printed without parentheses on the right of their own
operator. An operator that waits on the stack with the same level takes the
left operand of the new one before that has got its right one, and this is
where a chain is grouped to the left. -/

/-- **The right operand of an operator** that waits for it. -/
theorem right {r : Term} (h : Reads r) {op : BinaryOp} {stack : List Frame}
    (hfloor : floor stack < op.level) (left : Tree) :
    Becomes (fun rest => operand (.left op left :: stack)
        (Sql.tokens (Sql.parenthesizedIf (needsParentheses op r true) r.sql) ++ rest))
      op.level stack r.KeepsNegations
      (negation < op.level ∧ needsParentheses op r true = false ∧ r.EndsOpen)
      (Tree.extend op left r.tree.grouped) := by
  have hop := op.precedence_eq_level
  have htree := r.tree.op?_grouped.trans r.op?_tree
  by_cases hchain : needsParentheses op r true = false ∧ op ∈ BinaryOp.chained ∧ r.op? = some op
  · -- in a chain the operand that waits is grafted in
    obtain ⟨hneeds, hchain⟩ := hchain
    have hlevel := Term.precedence_of_op? hchain.2
    have htest : op.level ≠ test := by
      have hmem := hchain.1
      revert hmem
      cases op <;> decide
    have hread := (h.behind op left stack hlevel.symm htest (hlevel ▸ hfloor)).lower hlevel.ge
    rw [Tree.extend, htree, if_pos hchain, hneeds]
    exact hread.congr (fun _ _ => rfl) .rfl
      (and_congr_right fun _ => (and_iff_right rfl).symm)
  · -- set off, or binding tighter, the operand fills the frame
    have hbare : needsParentheses op r true = false → op.level < r.precedence := fun hneeds =>
      hop ▸ (Term.right_of_not_needsParentheses hneeds).resolve_right fun h => hchain ⟨hneeds, h⟩
    have hwhole : ¬(op ∈ BinaryOp.chained ∧ r.op? = some op) := by
      intro hchained
      cases hneeds : needsParentheses op r true with
      | true => exact Term.not_chained_of_needsParentheses hneeds hchained
      | false => exact hchain ⟨hneeds, hchained⟩
    rw [Tree.extend, htree, if_neg hwhole]
    exact Becomes.fill (f := .left op left)
      (h.parenthesizedIf fun hneeds => ⟨(hbare hneeds).le, .inr (hbare hneeds)⟩)
      (fun _ => rfl) nofun

/-- **The left operand of an operator.** -/
theorem left {l : Term} (h : Reads l) {op : BinaryOp} {stack : List Frame}
    (hfloor : floor stack < op.level) :
    Becomes (fun rest => operand stack
        (Sql.tokens (Sql.parenthesizedIf (needsParentheses op l false) l.sql) ++ rest))
      op.level stack l.KeepsNegations
      (negation < op.level ∧ needsParentheses op l false = false ∧ l.EndsOpen) l.tree.grouped :=
  h.parenthesizedIf fun hneeds =>
    have hle : op.level ≤ l.precedence :=
      op.precedence_eq_level ▸ Term.precedence_le_of_not_needsParentheses hneeds
    ⟨hle, .inr (Nat.lt_of_lt_of_le hfloor hle)⟩

/-- **The left operand of an operator behind another one** of its level, which
takes the operand that waits. -/
theorem left_behind {l : Term} (h : Reads l) {o op : BinaryOp} (hlevel : o.level = op.level)
    (htest : o.level ≠ test) {stack : List Frame} (hfloor : floor stack < op.level)
    (waiting : Tree) :
    Becomes (fun rest => operand (.left o waiting :: stack)
        (Sql.tokens (Sql.parenthesizedIf (needsParentheses op l false) l.sql) ++ rest))
      op.level stack l.KeepsNegations
      (negation < op.level ∧ needsParentheses op l false = false ∧ l.EndsOpen)
      (Tree.graft o waiting l.tree.grouped) := by
  have hop := op.precedence_eq_level
  have htree := l.tree.op?_grouped.trans l.op?_tree
  by_cases hsame : needsParentheses op l false = false ∧ l.precedence = op.level
  · obtain ⟨hneeds, heq⟩ := hsame
    have hread := (h.behind o waiting stack (hlevel.trans heq.symm) htest (heq ▸ hfloor)).lower
      heq.ge
    rw [hneeds]
    exact hread.congr (fun _ _ => rfl) .rfl (and_congr_right fun _ => (and_iff_right rfl).symm)
  · -- an operand of another level is taken whole
    have hne : l.precedence ≠ op.level := by
      intro heq
      cases hneeds : needsParentheses op l false with
      | true => exact Term.precedence_ne_of_needsParentheses hneeds (heq.trans hop.symm)
      | false => exact hsame ⟨hneeds, heq⟩
    have hwhole : Tree.graft o waiting l.tree.grouped = .binary o waiting l.tree.grouped :=
      Tree.graft_of_forall_ne (fun p hp heq => hne ((Term.precedence_of_op? (htree ▸ hp)).trans
        (heq.trans hlevel))) waiting
    have hbare : needsParentheses op l false = false → op.level < l.precedence := fun hneeds =>
      Nat.lt_of_le_of_ne (hop ▸ Term.precedence_le_of_not_needsParentheses hneeds) hne.symm
    have hlt : needsParentheses op l false = false → o.level < l.precedence := fun hneeds =>
      Nat.lt_of_le_of_lt hlevel.le (hbare hneeds)
    rw [hwhole, ← hlevel]
    exact Becomes.fill (f := .left o waiting)
      (h.parenthesizedIf fun hneeds => ⟨(hlt hneeds).le, .inr (hlt hneeds)⟩) (fun _ => rfl) nofun

theorem binary (op : BinaryOp) {l r : Term} (hl : Reads l) (hr : Reads r) :
    Reads (.binary op l r) := by
  have hop : (Term.binary op l r).precedence = op.level := op.precedence_eq_level
  have hoperator : ∀ base x, floor base < op.level → Becomes (fun rest => operator base x
      (.op op :: (Sql.tokens (Sql.parenthesizedIf (needsParentheses op r true) r.sql)) ++ rest))
      op.level base r.KeepsNegations (Term.binary op l r).EndsOpen
      (Tree.extend op x r.tree.grouped) := fun base x hbase =>
    (hr.right hbase x).congr (fun rest _ => operator_op_of_floor_lt hbase x _) .rfl .rfl
  have hfollows : ∀ rest, Follows op.level
      (.op op :: Sql.tokens (Sql.parenthesizedIf (needsParentheses op r true) r.sql) ++ rest) :=
    fun rest => follows_cons (t := .op op) rfl (Nat.le_refl _) _
  -- the operator is read on whatever stands there, and adds the questions of its right operand
  have hcount : ∀ z, (Tree.extend op z r.tree.grouped).negations
      = z.negations + r.tree.grouped.negations ∧
        (Tree.extend op z r.tree.grouped).isExists = false := fun z =>
    ⟨Tree.negations_extend op z _, Tree.isExists_extend op z _⟩
  have hkeeps := and_left_comm.trans (@Term.keepsNegations_binary op l r).symm
  have htext : ∀ rest, (Term.binary op l r).sql.tokens ++ rest
      = Sql.tokens (Sql.parenthesizedIf (needsParentheses op l false) l.sql) ++
        (.op op :: Sql.tokens (Sql.parenthesizedIf (needsParentheses op r true) r.sql) ++
          rest) := by
    intro rest
    rw [Term.sql, Sql.tokens_append, Sql.tokens_append, Sql.tokens_binary, List.append_assoc,
      List.append_assoc]
    rfl
  -- on a stack that fits, and behind an operator of its level that waits
  refine ⟨fun stack hfits => ?_, fun o waiting stack hlevel htest hfloor => ?_⟩
  · have hfloor := hop ▸ hfits.resolve_left (hop ▸ op.level_ne_negation)
    have hread := (hl.left hfloor).after hfloor id id hfollows hcount hoperator
    rw [hop]
    exact hread.congr (fun rest _ => congrArg (operand stack) (htext rest)) hkeeps .rfl
  · rw [hop] at hlevel hfloor
    have hread := (hl.left_behind hlevel htest hfloor waiting).after hfloor id id hfollows hcount
      hoperator
    rw [← Tree.graft_extend hlevel] at hread
    rw [hop]
    exact hread.congr (fun rest _ => congrArg (operand (.left o waiting :: stack)) (htext rest))
      hkeeps .rfl

end Reads

/-! ## All terms

The induction over terms has one line for each kind. What is left is to begin
with an empty stack and to end where no token is left. -/

mutual

/-- **Every term is read as it was meant**, as long as the negations in it are
kept. -/
theorem Term.reads : ∀ t : Term, Reads t
  | .literal c v => .literal c v
  | .slot c => .slot c
  | .column source name => .column source name
  | .rowColumn row name => .rowColumn row name
  | .reference name => .reference name
  | .not t => .not t.reads
  | .isNull t negated => .isNull t.reads negated
  | .binary op l r => .binary op l.reads r.reads
  | .between t low high => .between t.reads low.reads high.reads
  | .inList t items negated => .inList t.reads (Term.reads_all items) negated
  | .inQuery t query negated => .inQuery t.reads query negated
  | .exists query negated => .exists query negated
  | .call f arguments => .call f (Term.reads_all arguments)
  | .aggregate f t => .aggregate f t.reads
  | .countStar => .countStar
  | .countDistinct t => .countDistinct t.reads
  | .groupConcat t separator => .groupConcat t.reads separator
  | .scalar query => .scalar query

theorem Term.reads_all : ∀ ts : List Term, ∀ u ∈ ts, Reads u
  | [], _, hu => absurd hu List.not_mem_nil
  | t :: ts, u, hu => (List.mem_cons.mp hu).elim (fun heq => heq ▸ t.reads)
    (Term.reads_all ts u)

end

/-- **The tree that is read** from the text of a term is the tree of the term,
grouped to the left, if its negations are kept, and one with fewer negated
questions otherwise. -/
theorem Term.tells_read? (t : Term) :
    ∃ tree, Tree.read? t.sql.text.toList = some tree ∧
      Tells t.KeepsNegations t.tree.grouped tree := by
  obtain ⟨tree, htells, hread⟩ := t.reads.tells (.inr t.precedence_pos : t.Fits [])
  refine ⟨tree, ?_, htells⟩
  have hend := hread [] (follows_nil _) (follows_nil _)
  rw [List.append_nil] at hend
  rw [Tree.read?, t.phrase.lex_text, hend]
  rfl

/-- Without a negated `EXISTS` the tree of the term is read. -/
theorem Term.read?_text {t : Term} (h : ∀ q, Term.exists q true ∉ t.subterms) :
    Tree.read? t.sql.text.toList = some t.tree.grouped := by
  obtain ⟨tree, hread, htells⟩ := t.tells_read?
  rw [hread, htells.kept (Term.keepsNegations_of_forall h)]

/-- **A term is read back from its text**, up to the grouping of chains. -/
theorem Term.read?_regroups (t : Term) (hexists : ∀ q, Term.exists q true ∉ t.subterms)
    (hunmixed : ∀ u ∈ t.subterms, u.Unmixed) :
    ∃ tree, Tree.read? t.sql.text.toList = some tree ∧ tree.Regroups t.tree :=
  ⟨t.tree.grouped, Term.read?_text hexists, t.regroups_tree hunmixed⟩

/-- So is a sum on the right of a sum, in a range next to a group of the other
connective, under a negation. -/
theorem Term.read?_regroups_not_or :
    ∃ tree,
      Tree.read? ("NOT (\"a\" + ? * \"b\" + \"c\" BETWEEN ? AND \"d\" - (\"a\" - ?) " ++
        "OR (\"a\" IS NULL AND \"b\" = ?))").toList = some tree ∧
      tree.Regroups (Term.tree (.not (.binary .or
        (.between
          (.binary .add (.reference ⟨"a"⟩) (.binary .add
            (.binary .mul (.slot .long) (.reference ⟨"b"⟩)) (.reference ⟨"c"⟩)))
          (.slot .long)
          (.binary .sub (.reference ⟨"d"⟩) (.binary .sub (.reference ⟨"a"⟩) (.slot .long))))
        (.binary .and (.isNull (.reference ⟨"a"⟩) false)
          (.binary .eq (.reference ⟨"b"⟩) (.slot .long)))))) := by
  refine Term.read?_regroups (.not (.binary .or
    (.between
      (.binary .add (.reference ⟨"a"⟩) (.binary .add
        (.binary .mul (.slot .long) (.reference ⟨"b"⟩)) (.reference ⟨"c"⟩)))
      (.slot .long)
      (.binary .sub (.reference ⟨"d"⟩) (.binary .sub (.reference ⟨"a"⟩) (.slot .long))))
    (.binary .and (.isNull (.reference ⟨"a"⟩) false)
      (.binary .eq (.reference ⟨"b"⟩) (.slot .long))))) ?_ ?_
  · intro q
    simp [Term.subterms]
  · simp [Term.subterms, Term.Unmixed, Term.op?, Term.leftSpine, BinaryOp.level]

end TypedSql
