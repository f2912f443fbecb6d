import TypedSql.Proofs.Term.Negation
import TypedSql.Proofs.Term.Reader

/-!
# What a text leaves open

Behind the tokens of a term the reader has an operand in hand. As a rule the
stack is what it was before, but a text that ends in an open negation leaves
frames on it: the negation, and the operators in front of it that still wait
for what it says (`Reader.Open`). As soon as something comes that binds no
tighter than a negation, all of them are ended (`Reader.operator_close`).

`Reader.Becomes` says what has been read at such a point, compared to what was
expected, and with it the account of the negated questions: as long as all of
them are kept, the operand completes the frames to the expected tree; once one
has been lost, the tree will have fewer of them than expected, whatever is read
later (`Reader.Standing`). The lemmas about it are the steps of reading: an
operand that completes a frame (`Becomes.fill`), something that comes behind an
operand and binds tighter than a negation (`Becomes.after`).
-/

namespace TypedSql

namespace Reader

/-! ## Frames that one operand ends

What is left open consists of frames that wait for a single operand, so that
closing them is a fold over the frames. The count of negated questions is taken
along: a frame has its own, and a negation counts its operand too when that is
a question for rows. -/

namespace Frame

/-- The tree of a frame and its last operand, if it waits for no more. -/
def filled (f : Frame) (x : Tree) : Tree := (f.fill? x).getD x

/-- The negated questions that wait in a frame. -/
def negations : Frame → Nat
  | .left _ l => l.negations
  | .high t lower => t.negations + lower.negations
  | _ => 0

/-- **A frame that waits for one operand** and is ended by what binds no tighter
than a negation. -/
structure Closes (f : Frame) : Prop where
  /-- One operand is enough. -/
  fill : ∀ x, f.fill? x = some (f.filled x)
  /-- It binds at least as tightly as a negation. -/
  level : negation ≤ f.level

theorem closes_not : Frame.not.Closes := ⟨fun _ => rfl, Nat.le_refl _⟩

/-- **A frame counts what is in it.** Only a negation counts its operand as well,
if that is a question for rows. -/
theorem negations_filled {f : Frame} {x : Tree} (h : f.fill? x = some (f.filled x))
    (hx : f ≠ .not ∨ x.isExists = false) :
    (f.filled x).negations = f.negations + x.negations ∧ (f.filled x).isExists = false := by
  cases f with
  | not =>
    refine ⟨?_, rfl⟩
    show x.isExists.toNat + x.negations = 0 + x.negations
    rw [hx.resolve_left fun hne => hne rfl]
    rfl
  | left op l => exact ⟨rfl, rfl⟩
  | high t lower => exact ⟨rfl, rfl⟩
  | low t => cases h
  | group => cases h
  | list head done => cases h

end Frame

/-- The tree of an operand and the frames on top of it, innermost first. -/
def close (frames : List Frame) (x : Tree) : Tree := frames.foldl (fun y f => f.filled y) x

/-- The negated questions that wait in frames. -/
def waiting : List Frame → Nat
  | [] => 0
  | f :: frames => f.negations + waiting frames

/-- **Frames that are left open**: a negation on top, and what it is part of. -/
structure Open (frames : List Frame) : Prop where
  /-- The innermost is a negation. -/
  top : frames.head? = some .not
  /-- One operand ends all of them. -/
  closes : ∀ f ∈ frames, f.Closes

/-- **What is left open is ended** by what binds no tighter than a negation. -/
theorem operator_close {frames : List Frame} (h : ∀ f ∈ frames, f.Closes) {rest : List Token}
    (hrest : Follows negation rest) (base : List Frame) (x : Tree) :
    operator (frames ++ base) x rest = operator base (close frames x) rest := by
  induction frames generalizing x with
  | nil => rfl
  | cons f frames ih =>
    rw [List.forall_mem_cons] at h
    rw [List.cons_append, operator_fill (h.1.fill x) (hrest.mono h.1.level)]
    exact ih h.2 (f.filled x)

/-- An operand that is no question for rows is counted with what waits for
it. -/
theorem negations_close {frames : List Frame} (h : ∀ f ∈ frames, f.Closes) {x : Tree}
    (hx : x.isExists = false) :
    (close frames x).negations = waiting frames + x.negations ∧
      (close frames x).isExists = false := by
  induction frames generalizing x with
  | nil => exact ⟨(Nat.zero_add _).symm, hx⟩
  | cons f frames ih =>
    rw [List.forall_mem_cons] at h
    obtain ⟨hnegations, hexists⟩ := Frame.negations_filled (h.1.fill x) (.inr hx)
    obtain ⟨ih, hclose⟩ := ih h.2 hexists
    refine ⟨?_, hclose⟩
    rw [waiting]
    refine ih.trans ?_
    rw [hnegations, Nat.add_left_comm, Nat.add_assoc]

namespace Open

variable {frames : List Frame} (h : Open frames)

include h

theorem ne_nil : frames ≠ [] := by
  rintro rfl
  cases h.top

/-- A negation binds looser than what stands on it. -/
theorem floor_eq (base : List Frame) : floor (frames ++ base) = negation := by
  cases frames with
  | nil => exact absurd rfl h.ne_nil
  | cons f frames => exact congrArg Frame.level (Option.some.inj h.top)

/-- **What is left open is counted** by its operand: a question for rows is
negated. -/
theorem negations_close (x : Tree) :
    (close frames x).negations = waiting frames + (x.isExists.toNat + x.negations) ∧
      (close frames x).isExists = false := by
  cases frames with
  | nil => exact absurd rfl h.ne_nil
  | cons f frames =>
    obtain rfl := Option.some.inj h.top
    obtain ⟨hnegations, hexists⟩ := Reader.negations_close
      (List.forall_mem_cons.mp h.closes).2 (x := .not x) rfl
    refine ⟨hnegations.trans ?_, hexists⟩
    rw [waiting, Tree.negations]
    show _ = 0 + _ + _
    rw [Nat.zero_add]

theorem append {more : List Frame} (hmore : ∀ f ∈ more, f.Closes) : Open (frames ++ more) where
  top := by
    rw [List.head?_append, h.top]
    rfl
  closes := List.forall_mem_append.mpr ⟨h.closes, hmore⟩

end Open

/-! ## What has been read

`Tells` is the comparison of a tree with the one expected, good if nothing was
lost. It is stated with a proposition and not with two cases, so that the
conditions of the parts of a term can be put together by `and` without a case
distinction at every step. -/

/-- **What a tree says** compared to what was expected: the same, if nothing was
lost, and otherwise something with fewer negated questions. -/
structure Tells (good : Prop) (expected x : Tree) : Prop where
  /-- Nothing is lost. -/
  kept : good → x = expected
  /-- A negation is lost. -/
  lost : ¬good → x.negations < expected.negations ∧ x.isExists = false

namespace Tells

variable {good : Prop} {expected x : Tree}

theorem of_eq (h : x = expected) : Tells True expected x :=
  ⟨fun _ => h, fun hbad => absurd trivial hbad⟩

/-- No negated question is added. -/
theorem negations_le (h : Tells good expected x) : x.negations ≤ expected.negations := by
  by_cases hgood : good
  · exact Nat.le_of_eq (congrArg Tree.negations (h.kept hgood))
  · exact Nat.le_of_lt (h.lost hgood).1

/-- A negation is lost or kept with its operand. -/
theorem not (h : Tells good expected x) : Tells good (.not expected) (.not x) where
  kept hgood := by rw [h.kept hgood]
  lost hbad := by
    obtain ⟨hlt, hexists⟩ := h.lost hbad
    refine ⟨?_, rfl⟩
    rw [Tree.negations, Tree.negations, hexists, Bool.toNat_false, Nat.zero_add]
    exact Nat.lt_of_lt_of_le hlt (Nat.le_add_left _ _)

end Tells

/-- **What several trees say** compared to what was expected. -/
structure TellsAll (good : Prop) (expected xs : List Tree) : Prop where
  /-- Nothing is lost. -/
  kept : good → xs = expected
  /-- A negation is lost. -/
  lost : ¬good → Tree.negationsAll xs < Tree.negationsAll expected

/-- One tree and others. -/
theorem TellsAll.cons {good good' : Prop} {expected x : Tree} {expecteds xs : List Tree}
    (h : Tells good expected x) (h' : TellsAll good' expecteds xs) :
    TellsAll (good ∧ good') (expected :: expecteds) (x :: xs) where
  kept hgood := by rw [h.kept hgood.1, h'.kept hgood.2]
  lost hbad := by
    rw [Tree.negationsAll, Tree.negationsAll]
    by_cases hgood : good
    · have hlt := h'.lost fun hgood' => hbad ⟨hgood, hgood'⟩
      exact Nat.add_lt_add_of_le_of_lt h.negations_le hlt
    · rcases Classical.em good' with hgood' | hgood'
      · rw [h'.kept hgood']
        exact Nat.add_lt_add_right (h.lost hgood).1 _
      · exact Nat.add_lt_add (h.lost hgood).1 (h'.lost hgood')

theorem Tells.single {good : Prop} {expected x : Tree} (h : Tells good expected x) :
    TellsAll good [expected] [x] :=
  ⟨fun hgood => congrArg ([·]) (h.kept hgood), fun hbad => (h.lost hbad).1⟩

theorem TellsAll.tells {good : Prop} {expected xs : List Tree} (h : TellsAll good expected xs)
    {w : List Tree → Tree} {c : Nat}
    (hw : ∀ ts, (w ts).negations = c + Tree.negationsAll ts ∧ (w ts).isExists = false) :
    Tells good (w expected) (w xs) where
  kept hgood := by rw [h.kept hgood]
  lost hbad := by
    refine ⟨?_, (hw xs).2⟩
    rw [(hw xs).1, (hw expected).1]
    exact Nat.add_lt_add_left (h.lost hbad) c

/-- **Where the reader stands** with an operand on open frames. -/
structure Standing (good opens : Prop) (expected : Tree) (frames : List Frame) (x : Tree) :
    Prop where
  /-- Nothing is left open, or a negation is. -/
  shape : frames = [] ∨ Open frames
  /-- What is read when nothing tight comes behind. -/
  tells : Tells good expected (close frames x)
  /-- When nothing is lost, it is known where a negation is open, -/
  opens : good → (frames ≠ [] ↔ opens)
  /-- and that it is the negation of a question. -/
  isExists : good → frames ≠ [] → x.isExists = true

namespace Standing

variable {good opens : Prop} {expected x : Tree} {frames : List Frame}

theorem of_tells (h : Tells good expected x) : Standing good False expected [] x where
  shape := .inl rfl
  tells := h
  opens _ := iff_of_false (fun h => h rfl) id
  isExists _ h := absurd rfl h

theorem closes (h : Standing good opens expected frames x) : ∀ f ∈ frames, f.Closes :=
  h.shape.elim (fun hnil => hnil ▸ List.forall_mem_nil _) Open.closes

/-- **What an operand has left open is counted**, even when something tight comes
behind it: at most the question that is the operand loses its negation. -/
theorem negations_close (h : Standing good opens expected frames x) :
    (close frames x).negations
      = waiting frames + (if frames = [] then 0 else x.isExists.toNat) + x.negations := by
  rcases h.shape with rfl | hopen
  · simp only [if_true, Nat.add_zero]
    exact (Nat.zero_add _).symm
  · rw [if_neg hopen.ne_nil, (hopen.negations_close x).1, Nat.add_assoc]

/-- **Something tight behind an operand.** It is built on the operand (`w`) and
read with what follows it. An open negation takes it in and is lost. -/
theorem after (h : Standing good opens expected frames x) {w : Tree → Tree} {c : Nat}
    (hw : ∀ z, (w z).negations = z.negations + c ∧ (w z).isExists = false)
    {good' opens' : Prop} {frames' : List Frame} {x' : Tree}
    (h' : Standing good' opens' (w x) frames' x') :
    Standing (good ∧ ¬opens ∧ good') opens' (w expected) (frames' ++ frames) x' := by
  have hclose : close (frames' ++ frames) x' = close frames (close frames' x') :=
    List.foldl_append
  -- what is read behind the operand is no question for rows
  have hexists : (close frames' x').isExists = false := by
    by_cases hgood' : good'
    · rw [h'.tells.kept hgood']
      exact (hw x).2
    · exact (h'.tells.lost hgood').2
  have hle : (close frames' x').negations ≤ x.negations + c := by
    by_cases hgood' : good'
    · exact Nat.le_of_eq (h'.tells.kept hgood' ▸ (hw x).1)
    · exact (hw x).1 ▸ Nat.le_of_lt (h'.tells.lost hgood').1
  obtain ⟨hcount, hexists'⟩ := Reader.negations_close h.closes hexists
  have hnil : good → ¬opens → frames = [] := fun hgood hopens =>
    Classical.not_not.mp fun hne => hopens ((h.opens hgood).mp hne)
  refine ⟨?_, ⟨?_, ?_⟩, ?_, ?_⟩
  · rcases h'.shape with rfl | hopen
    · exact h.shape
    · exact .inr (hopen.append h.closes)
  · rintro ⟨hgood, hopens, hgood'⟩
    obtain rfl := hnil hgood hopens
    have hx : x = expected := h.tells.kept hgood
    rw [List.append_nil, h'.tells.kept hgood', hx]
  · intro hbad
    refine ⟨?_, hclose ▸ hexists'⟩
    have hbefore := h.negations_close
    rw [hclose, hcount, (hw expected).1]
    by_cases hgood : good
    · rw [h.tells.kept hgood] at hbefore
      by_cases hopens : opens
      · -- the negation that was open is lost
        have hne := (h.opens hgood).mpr hopens
        rw [if_neg hne, h.isExists hgood hne, Bool.toNat_true] at hbefore
        omega
      · obtain rfl := hnil hgood hopens
        have hgood' : ¬good' := fun hgood' => hbad ⟨hgood, hopens, hgood'⟩
        have hlost := (h'.tells.lost hgood').1
        rw [(hw x).1] at hlost
        rw [if_pos rfl] at hbefore
        omega
    · have hlost := (h.tells.lost hgood).1
      omega
  · rintro ⟨hgood, hopens, hgood'⟩
    rw [hnil hgood hopens, List.append_nil]
    exact h'.opens hgood'
  · rintro ⟨hgood, hopens, hgood'⟩
    rw [hnil hgood hopens, List.append_nil]
    exact h'.isExists hgood'

end Standing

/-- **What comes to be read** from where the reader is, as it goes on with the
rest of the text: before a rest that binds no tighter than `hold` it stands on
`base` with what was expected. -/
def Becomes (start : List Token → Option Tree) (hold : Nat) (base : List Frame)
    (good opens : Prop) (expected : Tree) : Prop :=
  ∃ frames x, Standing good opens expected frames x ∧ (frames ≠ [] → negation < hold) ∧
    ∀ rest, Follows hold rest → start rest = operator (frames ++ base) x rest

namespace Becomes

variable {start : List Token → Option Tree} {hold : Nat} {base : List Frame} {good opens : Prop}
  {expected : Tree}

theorem of_tells {x : Tree} (h : Tells good expected x)
    (hstart : ∀ rest, Follows hold rest → start rest = operator base x rest) :
    Becomes start hold base good False expected :=
  ⟨[], x, .of_tells h, fun hne => absurd rfl hne, hstart⟩

theorem congr (h : Becomes start hold base good opens expected)
    {start' : List Token → Option Tree} {good' opens' : Prop}
    (hstart : ∀ rest, Follows hold rest → start' rest = start rest) (hgood : good ↔ good')
    (hopens : opens ↔ opens') : Becomes start' hold base good' opens' expected := by
  obtain ⟨frames, x, hstands, hhold, hread⟩ := h
  rw [← propext hgood, ← propext hopens]
  exact ⟨frames, x, hstands, hhold, fun rest hrest =>
    (hstart rest hrest).trans (hread rest hrest)⟩

/-- **Before what binds no tighter than a negation** nothing is left open. -/
theorem tells (h : Becomes start hold base good opens expected) :
    ∃ x, Tells good expected x ∧ ∀ rest, Follows hold rest → Follows negation rest →
      start rest = operator base x rest := by
  obtain ⟨frames, x, hstands, -, hread⟩ := h
  exact ⟨close frames x, hstands.tells, fun rest hrest hloose =>
    (hread rest hrest).trans (operator_close hstands.closes hloose base x)⟩

/-- **Before what binds looser** than it may, a negation is open only if even that
binds tighter than a negation. -/
theorem lower (h : Becomes start hold base good opens expected) {hold' : Nat}
    (hle : hold' ≤ hold) :
    Becomes start hold' base good (negation < hold' ∧ opens) expected := by
  by_cases htight : negation < hold'
  · obtain ⟨frames, x, hstands, -, hread⟩ := h
    rw [propext (and_iff_right htight)]
    exact ⟨frames, x, hstands, fun _ => htight, fun rest hrest => hread rest (hrest.mono hle)⟩
  · obtain ⟨x, htells, hread⟩ := h.tells
    have hclosed : ¬(negation < hold' ∧ opens) := fun hopen => htight hopen.1
    rw [propext (iff_false_intro hclosed)]
    exact of_tells htells fun rest hrest =>
      hread rest (hrest.mono hle) (hrest.mono (Nat.not_lt.mp htight))

/-- **What was expected around a tree** is expected around what that tree should
have said. -/
theorem within {w : Tree → Tree} {x : Tree} (h : Becomes start hold base good opens (w x)) {c : Nat}
    (hw : ∀ z, (w z).negations = z.negations + c ∧ (w z).isExists = false) {good' : Prop}
    {expected' : Tree} (hx : Tells good' expected' x) :
    Becomes start hold base (good' ∧ good) opens (w expected') := by
  obtain ⟨frames, y, hstands, hhold, hread⟩ := h
  refine ⟨frames, y, ⟨hstands.shape, ⟨fun hgood => ?_, fun hbad => ?_⟩,
    fun hgood => hstands.opens hgood.2, fun hgood => hstands.isExists hgood.2⟩, hhold, hread⟩
  · rw [hstands.tells.kept hgood.2, hx.kept hgood.1]
  · rw [(hw expected').1]
    by_cases hgood : good
    · have hlt := (hx.lost fun hgood' => hbad ⟨hgood', hgood⟩).1
      rw [hstands.tells.kept hgood, (hw x).1]
      exact ⟨Nat.add_lt_add_right hlt c, (hw x).2⟩
    · obtain ⟨hlt, hexists⟩ := hstands.tells.lost hgood
      rw [(hw x).1] at hlt
      exact ⟨Nat.lt_of_lt_of_le hlt (Nat.add_le_add_right hx.negations_le c), hexists⟩

/-- **An operand that completes a frame.** -/
theorem fill {f : Frame} (h : Becomes start f.level (f :: base) good opens expected)
    (hfill : ∀ x, f.fill? x = some (f.filled x)) (hnot : f ≠ .not) :
    Becomes start f.level base good opens (f.filled expected) := by
  obtain ⟨frames, x, hstands, hhold, hread⟩ := h
  have hcount := fun x => Frame.negations_filled (hfill x) (.inl hnot)
  have htells : Tells good (f.filled expected) (f.filled (close frames x)) := by
    refine ⟨fun hgood => congrArg f.filled (hstands.tells.kept hgood), fun hbad => ?_⟩
    refine ⟨?_, (hcount _).2⟩
    rw [(hcount _).1, (hcount _).1]
    exact Nat.add_lt_add_left (hstands.tells.lost hbad).1 _
  rcases hstands.shape with rfl | hopen
  · -- nothing is open: the frame is completed
    refine ⟨[], f.filled x, ⟨.inl rfl, htells, hstands.opens, fun _ hne => absurd rfl hne⟩,
      fun hne => absurd rfl hne, fun rest hrest => ?_⟩
    exact (hread rest hrest).trans (operator_fill (hfill x) hrest base)
  · -- the frame waits for what the negation says
    have hcloses : ∀ g ∈ [f], g.Closes :=
      List.forall_mem_singleton.mpr ⟨hfill, Nat.le_of_lt (hhold hopen.ne_nil)⟩
    have hne := (hopen.append hcloses).ne_nil
    refine ⟨frames ++ [f], x, ⟨.inr (hopen.append hcloses), ?_, fun hgood => ?_,
      fun hgood _ => hstands.isExists hgood hopen.ne_nil⟩, fun _ => hhold hopen.ne_nil,
      fun rest hrest => ?_⟩
    · rw [close, List.foldl_append]
      exact htells
    · exact iff_of_true hne ((hstands.opens hgood).mp hopen.ne_nil)
    · rw [hread rest hrest, List.append_assoc]
      rfl

/-- **Something tight behind an operand**, from `ts` on: it is built on the
operand (`w`) wherever that stands. -/
theorem after (h : Becomes start hold base good opens expected) {level hold' : Nat}
    {ts : List Token} (hbase : floor base < level) (hlevel : negation < hold → negation < level)
    (hhold : negation < hold → negation < hold')
    (hts : ∀ rest, Follows hold (ts ++ rest)) {w : Tree → Tree} {c : Nat}
    (hw : ∀ z, (w z).negations = z.negations + c ∧ (w z).isExists = false)
    {good' opens' : Prop}
    (h' : ∀ base x, floor base < level →
      Becomes (fun rest => operator base x (ts ++ rest)) hold' base good' opens' (w x)) :
    Becomes (fun rest => start (ts ++ rest)) hold' base (good ∧ ¬opens ∧ good') opens'
      (w expected) := by
  obtain ⟨frames, x, hstands, htight, hread⟩ := h
  -- a negation that was left open is still looser than what comes
  have hfloor : floor (frames ++ base) < level := by
    rcases hstands.shape with rfl | hopen
    · exact hbase
    · rw [hopen.floor_eq]
      exact hlevel (htight hopen.ne_nil)
  obtain ⟨frames', x', hstands', htight', hread'⟩ := h' (frames ++ base) x hfloor
  refine ⟨frames' ++ frames, x', hstands.after hw hstands', fun hne => ?_, fun rest hrest => ?_⟩
  · by_cases hnil : frames' = []
    · rw [hnil, List.nil_append] at hne
      exact hhold (htight hne)
    · exact htight' hnil
  · rw [List.append_assoc]
    exact (hread _ (hts rest)).trans (hread' rest hrest)

end Becomes

end Reader

end TypedSql
