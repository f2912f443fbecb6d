import TypedSql.Term

/-!
# The tokens of a text

What the text of a statement is to a reader. `Token.lex` goes over the
characters once, from the left; what it carries along is the token it is
inside of (`Lexeme`). A token ends where a character comes that does not
belong to it, and that character begins the next one.

So two texts put together have the tokens of the one and then those of the
other, unless the first character of the second still belongs to the last
token of the first (`Token.lex_append`). Quoted text is where this needs
care: a quote right behind a quoted text belongs to it.
-/

namespace TypedSql

/-! ## Tokens

As many of them as the statements of this library use. A keyword that decides
how a term is read has a token of its own, for which its letters count as
capitals, and every other word is kept as it is written. -/

/-- **A token.** -/
inductive Token where
  /-- The sign or word of a binary operator. -/
  | op (o : BinaryOp)
  /-- `NOT`. -/
  | not
  /-- `IS`. -/
  | is
  /-- `NULL`. -/
  | null
  /-- `IN`. -/
  | member
  /-- `BETWEEN`. -/
  | between
  /-- `EXISTS`. -/
  | exists
  /-- `SELECT`. -/
  | select
  /-- `DISTINCT`. -/
  | distinct
  /-- `NEW` or `OLD`. -/
  | scope (row : RowScope)
  /-- Any other word. -/
  | word (cs : List Char)
  /-- A number without its sign. -/
  | number (cs : List Char)
  /-- A name. -/
  | name (i : Identifier)
  /-- A text as a value. -/
  | text (cs : List Char)
  /-- Bytes as a value, by their digits. -/
  | blob (digits : List Char)
  /-- A placeholder. -/
  | slot
  /-- The parenthesis that opens. -/
  | opening
  /-- The parenthesis that closes. -/
  | closing
  /-- A comma. -/
  | comma
  /-- A point. -/
  | dot
  /-- A character that begins no token. -/
  | stray (c : Char)
  /-- A quoted text or a comment without its end. -/
  | unclosed
deriving DecidableEq

namespace Token

/-- The words of the language that have a token of their own. -/
def keywords : List (String × Token) :=
  [("OR", .op .or), ("AND", .op .and), ("LIKE", .op .like), ("GLOB", .op .glob), ("NOT", .not),
    ("IS", .is), ("NULL", .null), ("IN", .member), ("BETWEEN", .between), ("EXISTS", .exists),
    ("SELECT", .select), ("DISTINCT", .distinct), ("NEW", .scope .new), ("OLD", .scope .old)]

/-- The token of a word, whose letters count as capitals. -/
def ofWord (cs : List Char) : Token :=
  match keywords.find? fun k => k.1.toList == cs.map Char.toUpper with
  | some k => k.2
  | none => .word cs

/-- The token of a sign. -/
def ofSign : Char → Token
  | '=' => .op .eq
  | '<' => .op .lt
  | '>' => .op .gt
  | '+' => .op .add
  | '-' => .op .sub
  | '*' => .op .mul
  | '/' => .op .div
  | '%' => .op .rem
  | '(' => .opening
  | ')' => .closing
  | ',' => .comma
  | '.' => .dot
  | '?' => .slot
  | c => .stray c

/-- The token of two signs that are one. -/
def ofPair? : Char → Char → Option Token
  | '=', '=' => some (.op .eq)
  | '!', '=' => some (.op .ne)
  | '<', '>' => some (.op .ne)
  | '<', '=' => some (.op .le)
  | '>', '=' => some (.op .ge)
  | '|', '|' => some (.op .concat)
  | _, _ => none

end Token

/-- **What stands between quotes.** -/
inductive Mark where
  /-- A name. -/
  | name
  /-- A text. -/
  | text
  /-- Hexadecimal digits. -/
  | blob
deriving DecidableEq

namespace Mark

/-- The quote. -/
def quote : Mark → Char
  | .name => '"'
  | .text | .blob => '\''

/-- The token of what stood between the quotes. -/
def token : Mark → List Char → Token
  | .name, cs => .name ⟨String.ofList cs⟩
  | .text, cs => .text cs
  | .blob, cs => .blob cs

end Mark

/-! ## Lexemes

The state of the scan, which has a constructor for each way in which a
character can fail to begin a token of its own. `Lexeme.extend?` is the whole
of the rules of the language in this respect: it says what a character does to
the token it stands behind, or that it does nothing to it. -/

/-- **The part of a token that has been read.** -/
inductive Lexeme where
  /-- Nothing. -/
  | none
  /-- Letters and digits, a letter first. -/
  | word (cs : List Char)
  /-- Letters, digits and points, a digit first. -/
  | number (cs : List Char)
  /-- A sign that may have a second character. -/
  | sign (c : Char)
  /-- The quote that opens and what came after it. -/
  | quoted (m : Mark) (cs : List Char)
  /-- A quoted text with a quote that closes it, or is the first of two. -/
  | closed (m : Mark) (cs : List Char)
  /-- A comment up to the end of the line. -/
  | lineComment
  /-- A comment up to its closing mark, and whether the last character was
  a star. -/
  | blockComment (star : Bool)
deriving DecidableEq

namespace Lexeme

/-- The tokens of a lexeme that ends here. -/
def finish : Lexeme → List Token
  | .none | .lineComment => []
  | .word cs => [.ofWord cs]
  | .number cs => [.number cs]
  | .sign c => [.ofSign c]
  | .closed m cs => [m.token cs]
  | .quoted _ _ | .blockComment _ => [.unclosed]

/-- A character where no token has begun. -/
def start (c : Char) : List Token × Lexeme :=
  if c = ' ' ∨ c = '\n' ∨ c = '\r' ∨ c = '\t' then ([], .none)
  else if c.isAlpha ∨ c = '_' then ([], .word [c])
  else if c.isDigit then ([], .number [c])
  else if c = '"' then ([], .quoted .name [])
  else if c = '\'' then ([], .quoted .text [])
  else if c ∈ ['=', '!', '<', '>', '|', '-', '/'] then ([], .sign c)
  else ([.ofSign c], .none)

/-- **A character that belongs to a lexeme**, or nothing if it does not. The
letter `X` before a quote belongs to what is quoted. -/
def extend? : Lexeme → Char → Option (List Token × Lexeme)
  | .none, _ => Option.none
  | .word cs, c =>
    if c.isAlphanum ∨ c = '_' then some ([], .word (cs ++ [c]))
    else if c = '\'' ∧ cs.map Char.toUpper = ['X'] then some ([], .quoted .blob [])
    else Option.none
  | .number cs, c =>
    if c.isAlphanum ∨ c = '.' then some ([], .number (cs ++ [c])) else Option.none
  | .sign s, c =>
    if s = '-' ∧ c = '-' then some ([], .lineComment)
    else if s = '/' ∧ c = '*' then some ([], .blockComment false)
    else (Token.ofPair? s c).map fun t => ([t], .none)
  | .quoted m cs, c =>
    some ([], if c = m.quote then .closed m cs else .quoted m (cs ++ [c]))
  | .closed m cs, c =>
    if c = m.quote then some ([], .quoted m (cs ++ [c])) else Option.none
  | .lineComment, c => some ([], if c = '\n' then .none else .lineComment)
  | .blockComment star, c =>
    some ([], if star ∧ c = '/' then .none else .blockComment (c = '*'))

/-- **One character**: it belongs to the lexeme, or ends it and begins the
next one. -/
def step (l : Lexeme) (c : Char) : List Token × Lexeme :=
  match l.extend? c with
  | some r => r
  | Option.none => (l.finish ++ (start c).1, (start c).2)

/-- The tokens that end inside a text, and the lexeme at its end. -/
def scan : Lexeme → List Char → List Token × Lexeme
  | l, [] => ([], l)
  | l, c :: cs => ((l.step c).1 ++ (scan (l.step c).2 cs).1, (scan (l.step c).2 cs).2)

@[simp] theorem scan_nil (l : Lexeme) : l.scan [] = ([], l) := rfl

theorem scan_cons (l : Lexeme) (c : Char) (cs : List Char) :
    l.scan (c :: cs)
      = ((l.step c).1 ++ ((l.step c).2.scan cs).1, ((l.step c).2.scan cs).2) := rfl

theorem scan_append (l : Lexeme) (xs ys : List Char) :
    l.scan (xs ++ ys)
      = ((l.scan xs).1 ++ ((l.scan xs).2.scan ys).1, ((l.scan xs).2.scan ys).2) := by
  induction xs generalizing l with
  | nil => rfl
  | cons c cs ih =>
    rw [List.cons_append, scan_cons, scan_cons, ih]
    simp only [List.append_assoc]

/-- A character that belongs to the lexeme goes into it. -/
theorem step_of_extend? {l : Lexeme} {c : Char} {r : List Token × Lexeme}
    (h : l.extend? c = some r) : l.step c = r := by
  unfold step
  rw [h]

/-- A character that does not belong to the lexeme ends it. -/
theorem step_of_extend?_eq_none {l : Lexeme} {c : Char} (h : l.extend? c = Option.none) :
    l.step c = (l.finish ++ (start c).1, (start c).2) := by
  unfold step
  rw [h]

theorem step_none (c : Char) : Lexeme.none.step c = start c := rfl

end Lexeme

namespace Token

/-- **The tokens of a text.** -/
def lex (cs : List Char) : List Token :=
  (Lexeme.none.scan cs).1 ++ (Lexeme.none.scan cs).2.finish

/-- The tokens of a text end before the next character. -/
def EndsBefore (xs : List Char) (c : Char) : Prop :=
  (Lexeme.none.scan xs).2.extend? c = none

/-- **The tokens of two texts put together**, where those of the first end
before the second. -/
theorem lex_append (xs ys : List Char) (h : ∀ c, ys.head? = some c → EndsBefore xs c) :
    lex (xs ++ ys) = lex xs ++ lex ys := by
  unfold lex
  rw [Lexeme.scan_append]
  cases ys with
  | nil => simp [Lexeme.finish]
  | cons c cs =>
    -- the first character behind ends the lexeme, and begins the same one as alone
    have hstep := Lexeme.step_of_extend?_eq_none (h c rfl)
    rw [Lexeme.scan_cons, Lexeme.scan_cons, hstep, Lexeme.step_none]
    simp only [List.append_assoc]

/-! ## Quoted text

A quote inside quotes is doubled. When the scan meets the first of the two it
takes the text for closed, and the second opens it again; so the lexeme of a
quoted text is `closed` and can go on, and what it holds then is the text with
its quotes undoubled. -/

/-- What is quoted is read back, whatever it is. -/
theorem scan_doubled (m : Mark) (cs s : List Char) :
    (Lexeme.quoted m cs).scan (Text.doubled m.quote s) = ([], .quoted m (cs ++ s)) := by
  induction s generalizing cs with
  | nil => rw [Text.doubled_nil, Lexeme.scan_nil, List.append_nil]
  | cons c s ih =>
    -- a quote is two characters of the text, and the lexeme closes and opens again
    by_cases hc : c = m.quote
    · have hclose : (Lexeme.quoted m cs).step m.quote = ([], .closed m cs) :=
        Lexeme.step_of_extend? (by simp [Lexeme.extend?])
      have hopen : (Lexeme.closed m cs).step m.quote = ([], .quoted m (cs ++ [m.quote])) :=
        Lexeme.step_of_extend? (by simp [Lexeme.extend?])
      rw [hc, Text.doubled_cons_self, Lexeme.scan_cons, hclose, Lexeme.scan_cons, hopen, ih]
      simp
    · have hstay : (Lexeme.quoted m cs).step c = ([], .quoted m (cs ++ [c])) :=
        Lexeme.step_of_extend? (by simp [Lexeme.extend?, hc])
      rw [Text.doubled_cons_of_ne hc, Lexeme.scan_cons, hstay, ih]
      simp

/-- **A quoted text is one lexeme** with its content undoubled. -/
theorem scan_quoted (m : Mark) (s : List Char) :
    (Lexeme.quoted m []).scan (Text.doubled m.quote s ++ [m.quote]) = ([], .closed m s) := by
  have hclose : (Lexeme.quoted m s).step m.quote = ([], .closed m s) :=
    Lexeme.step_of_extend? (by simp [Lexeme.extend?])
  rw [Lexeme.scan_append, scan_doubled]
  simp only [List.nil_append, Lexeme.scan_cons, hclose, Lexeme.scan_nil]

theorem scan_name (i : Identifier) :
    Lexeme.none.scan i.quoted.toList = ([], .closed .name i.name.toList) := by
  rw [Identifier.toList_quoted, List.cons_append, Lexeme.scan_cons]
  exact scan_quoted .name i.name.toList

theorem scan_textLiteral (s : String) :
    Lexeme.none.scan (textLiteral s).toList = ([], .closed .text s.toList) := by
  rw [textLiteral, Text.toList_quoted, List.cons_append, Lexeme.scan_cons]
  exact scan_quoted .text s.toList

/-- A text without quotes in it is its own content. -/
theorem doubled_eq_self {q : Char} {cs : List Char} (h : ∀ c ∈ cs, c ≠ q) :
    Text.doubled q cs = cs := by
  induction cs with
  | nil => rfl
  | cons c cs ih =>
    rw [Text.doubled_cons_of_ne (h c List.mem_cons_self),
      ih fun d hd => h d (List.mem_cons_of_mem c hd)]

theorem hexDigit_ne_quote {n : Nat} (h : n < 16) : Text.hexDigit n ≠ '\'' := by
  revert n
  decide

theorem doubled_hex (bytes : List UInt8) :
    Text.doubled '\'' (Text.hex bytes) = Text.hex bytes := by
  refine doubled_eq_self fun c hc => ?_
  obtain ⟨b, -, hb⟩ := List.mem_flatMap.mp hc
  have hlt : b.toNat < 256 := b.toNat_lt
  rw [List.mem_cons, List.mem_singleton] at hb
  rcases hb with rfl | rfl
  · exact hexDigit_ne_quote (by omega)
  · exact hexDigit_ne_quote (by omega)

theorem scan_blobLiteral (bytes : List UInt8) :
    Lexeme.none.scan (blobLiteral bytes).toList = ([], .closed .blob (Text.hex bytes)) := by
  have hquoted := scan_quoted .blob (Text.hex bytes)
  rw [show Mark.blob.quote = '\'' from rfl, doubled_hex] at hquoted
  rw [blobLiteral, String.toList_ofList, List.cons_append, List.cons_append, Lexeme.scan_cons,
    Lexeme.scan_cons]
  exact hquoted

end Token

/-! ## Parentheses

What is balanced is said by a depth that a sequence of tokens begins and ends
at. The depth is a number and not a stack, as there is one kind of parenthesis,
and a result at depth zero holds at any other depth (`nest_add`). -/

namespace Token

/-- **How deep in parentheses** a sequence of tokens ends that begins at a
given depth, or nothing if it closes more than are open. -/
def nest : Nat → List Token → Option Nat
  | depth, [] => some depth
  | depth, .opening :: ts => nest (depth + 1) ts
  | depth + 1, .closing :: ts => nest depth ts
  | 0, .closing :: _ => none
  | depth, _ :: ts => nest depth ts

/-- A token that is no parenthesis. -/
def IsFlat (t : Token) : Prop := t ≠ .opening ∧ t ≠ .closing

instance (t : Token) : Decidable t.IsFlat := inferInstanceAs (Decidable (_ ∧ _))

theorem isFlat_or (t : Token) : t.IsFlat ∨ t = .opening ∨ t = .closing := by
  cases t <;> simp [IsFlat]

/-- A token that is no parenthesis leaves the depth as it is. -/
theorem nest_cons_of_isFlat {t : Token} (h : t.IsFlat) (depth : Nat) (ts : List Token) :
    nest depth (t :: ts) = nest depth ts := by
  obtain ⟨hopening, hclosing⟩ := h
  cases t
  case opening => exact absurd rfl hopening
  case closing => exact absurd rfl hclosing
  all_goals cases depth <;> rfl

/-- Tokens that are no parentheses leave the depth as it is. -/
theorem nest_of_isFlat {ts : List Token} (h : ∀ t ∈ ts, t.IsFlat) (depth : Nat) :
    nest depth ts = some depth := by
  induction ts with
  | nil => rfl
  | cons t ts ih =>
    rw [nest_cons_of_isFlat (h t List.mem_cons_self)]
    exact ih fun u hu => h u (List.mem_cons_of_mem t hu)

/-- Depth is counted part by part. -/
theorem nest_append (depth : Nat) (ts us : List Token) :
    nest depth (ts ++ us) = (nest depth ts).bind fun d => nest d us := by
  induction ts generalizing depth with
  | nil => rfl
  | cons t ts ih =>
    rcases t.isFlat_or with hflat | rfl | rfl
    · rw [List.cons_append, nest_cons_of_isFlat hflat, nest_cons_of_isFlat hflat, ih]
    · exact ih (depth + 1)
    · cases depth with
      | zero => rfl
      | succ depth => exact ih depth

/-- What is balanced at one depth is balanced below it. -/
theorem nest_add {depth depth' : Nat} {ts : List Token} (h : nest depth ts = some depth')
    (extra : Nat) : nest (depth + extra) ts = some (depth' + extra) := by
  induction ts generalizing depth with
  | nil =>
    rw [show depth = depth' from Option.some.inj h]
    rfl
  | cons t ts ih =>
    rcases t.isFlat_or with hflat | rfl | rfl
    · rw [nest_cons_of_isFlat hflat] at h ⊢
      exact ih h
    · rw [nest, Nat.add_right_comm]
      exact ih h
    · cases depth with
      | zero => cases h
      | succ depth =>
        rw [Nat.add_right_comm]
        exact ih h

end Token

end TypedSql
