import TypedSql.Proofs.Schema.TriggerBody

/-!
# References to the changed row

The body of a trigger hands out references to the columns of the changed row.
It looks at each when it hands it out: its event has to have such a row, and
the column has to be of its table. The reference is an expression then, which
a program may keep and put into any condition or statement, of this trigger
or of another one, and nobody looks at it again.

`TriggerProgram` is a program that fills any number of bodies, with all the
references it was handed and, for each body, the ones that are in it. What
holds of every program is that a reference fits the body that handed it out.
So a trigger is in order exactly if each reference in it is one that its own
body would hand out (`TriggerProgram.Reachable.legal_iff`), and a program can
build one that is not (`TriggerProgram.reachable_illegal`).
-/

namespace TypedSql

/-! ## References in texts -/

/-- The reference that a piece is. -/
def Piece.rowColumn? : Piece → Option (RowScope × Identifier)
  | .rowColumn scope column => some (scope, column)
  | _ => none

namespace Sql

/-- **The references to a changed row** in a text, from left to right. -/
def rowColumns (s : Sql) : List (RowScope × Identifier) := s.filterMap Piece.rowColumn?

@[simp] theorem rowColumns_nil : rowColumns [] = [] := rfl

@[simp] theorem rowColumns_append (s t : Sql) :
    (s ++ t).rowColumns = s.rowColumns ++ t.rowColumns := List.filterMap_append

@[simp] theorem rowColumns_words (w : String) : (words w).rowColumns = [] := rfl

@[simp] theorem rowColumns_name (i : Identifier) : (name i).rowColumns = [] := rfl

@[simp] theorem rowColumns_commaList (ss : List Sql) :
    (commaList ss).rowColumns = ss.flatMap rowColumns := by
  induction ss using commaList.induct with
  | case1 => rfl
  | case2 s => exact (List.append_nil _).symm
  | case3 s t rest ih =>
    rw [commaList, rowColumns_append, rowColumns_append, ih, rowColumns_words, List.append_nil]
    rfl

@[simp] theorem rowColumns_names (is : List Identifier) : (names is).rowColumns = [] := by
  rw [names, rowColumns_commaList, List.flatMap_map]
  exact List.flatMap_eq_nil_iff.mpr fun i _ => rowColumns_name i

end Sql

namespace TriggerDraft

/-- The references in the condition. -/
def conditionColumns (d : TriggerDraft) : List (RowScope × Identifier) :=
  (d.when?.map fun w => w.sql.rowColumns).getD []

/-- The references in the statements. -/
def bodyColumns (d : TriggerDraft) : List (RowScope × Identifier) :=
  d.body.flatMap fun w => w.sql.rowColumns

end TriggerDraft

/-- **The references in the text of a trigger** are those in its condition and
in its statements. -/
theorem Trigger.rowColumns_sql {d : TriggerDraft} {t : Trigger} (h : finish? d = .ok t)
    (temporary : Bool) :
    (t.sql temporary).rowColumns = d.conditionColumns ++ d.bodyColumns := by
  obtain ⟨-, rfl⟩ := of_finish? h
  have hcolumns : Sql.rowColumns (if d.head.updateOf.isEmpty then []
      else Sql.words " OF " ++ Sql.names d.head.updateOf) = [] := by
    split <;> simp
  have hbody : Sql.rowColumns (d.body.flatMap fun s => s.sql ++ Sql.words "; ") =
      d.bodyColumns := by
    rw [TriggerDraft.bodyColumns]
    induction d.body with
    | nil => rfl
    | cons w body ih => simp [ih]
  simp only [sql, name, Sql.rowColumns_append, Sql.rowColumns_words, Sql.rowColumns_name, hcolumns,
    hbody, List.nil_append, List.append_nil]
  congr 1
  rw [TriggerDraft.conditionColumns]
  cases d.when? with
  | none => rfl
  | some condition => exact Sql.rowColumns_append _ _

/-! ## References that were handed out -/

/-- **A reference that a body handed out.** -/
structure RowReference where
  /-- The trigger whose body it was. -/
  head : TriggerHead
  /-- The row. -/
  scope : RowScope
  /-- The column. -/
  column : Column

namespace RowReference

/-- What is left of the reference in a text. -/
def shown (r : RowReference) : RowScope × Identifier := (r.scope, r.column.name)

/-- **A reference fits a trigger.** -/
structure Fits (r : RowReference) (h : TriggerHead) : Prop where
  /-- There is a new row if one is inserted or changed. -/
  new : r.scope = .new → h.event = .insert ∨ h.event = .update
  /-- There is an old row if one is changed or deleted. -/
  old : r.scope = .old → h.event = .update ∨ h.event = .delete
  /-- The column is of the trigger's table. -/
  own : r.column.table = h.table.name

/-- What fits is what the body of the trigger looks for. -/
theorem fits_iff {r : RowReference} {h : TriggerHead} :
    r.Fits h ↔ r.scope.existsIn h.event = true ∧ r.column.table = h.table.name := by
  have hrow : ∀ (scope : RowScope) (event : TriggerEvent),
      scope.existsIn event = true ↔ (scope = .new → event = .insert ∨ event = .update) ∧
        (scope = .old → event = .update ∨ event = .delete) := by
    rintro (_ | _) (_ | _ | _) <;> decide
  rw [hrow]
  exact ⟨fun hfits => ⟨⟨hfits.new, hfits.old⟩, hfits.own⟩, fun ⟨⟨hnew, hold⟩, hown⟩ =>
    ⟨hnew, hold, hown⟩⟩

end RowReference

/-- **A body hands a reference out** if it fits, and refuses it otherwise. -/
theorem TriggerDraft.call_reference (d : TriggerDraft) (n : ExprId) (r : RowReference) :
    (r.Fits d.head → ∃ e, TriggerCall.call (d, n) (.reference r.scope r.column) =
        (.ok (some e), d, n + 1) ∧ e.term = .rowColumn r.scope r.column.name) ∧
      (¬ r.Fits d.head → ∃ fault, TriggerCall.call (d, n) (.reference r.scope r.column) =
        (.error (d.unreferable r.scope r.column fault), d, n)) := by
  rw [RowReference.fits_iff]
  refine ⟨fun hfits => ⟨_, TriggerCall.call_reference hfits.1 hfits.2, rfl⟩, fun hnot => ?_⟩
  cases hrow : r.scope.existsIn d.head.event with
  | false => exact ⟨_, TriggerCall.call_reference_of_unavailable hrow⟩
  | true =>
    have hother : r.column.table ≠ d.head.table.name := fun hown => hnot ⟨hrow, hown⟩
    exact ⟨_, TriggerCall.call_reference_of_otherTable hrow hother⟩

/-! ## Programs

A statement with a reference in it is a text that shows the reference. A
program can write such a text if it was handed the references (`CanWrite`), by
whichever body, and it remembers which body handed them out, which the text
does not show. -/

/-- **A body that a program fills**, with the references that are in it. -/
structure FilledBody where
  /-- The body. -/
  draft : TriggerDraft
  /-- The references in its condition. -/
  condition : List RowReference := []
  /-- The references in its statements. -/
  statements : List RowReference := []

namespace FilledBody

/-- What a program has of asking for a reference. -/
def asked (o : FilledBody) (n : ExprId) (scope : RowScope) (column : Column) :
    List RowReference :=
  match (TriggerCall.call (o.draft, n) (.reference scope column)).1 with
  | .ok _ => [⟨o.draft.head, scope, column⟩]
  | .error _ => []

/-- The body after a condition with some references. -/
def onlyWhen (o : FilledBody) (n : ExprId) (t : Term) (uses : List RowReference) : FilledBody :=
  match TriggerCall.call (o.draft, n) (.onlyWhen t) with
  | (.ok _, d, _) => { o with draft := d, condition := uses }
  | (.error _, d, _) => { o with draft := d }

/-- The body after a statement with some references. -/
def perform (o : FilledBody) (n : ExprId) (c : TriggerCall) (uses : List RowReference) :
    FilledBody :=
  match TriggerCall.call (o.draft, n) c with
  | (.ok _, d, _) => { o with draft := d, statements := o.statements ++ uses }
  | (.error _, d, _) => { o with draft := d }

end FilledBody

/-- **A trigger that was built**, with the references that are in it. -/
structure BuiltTrigger where
  /-- The trigger. -/
  trigger : Trigger
  /-- The references in its condition and its statements. -/
  uses : List RowReference

/-- **A trigger that is in order**: every reference in it fits it. -/
def BuiltTrigger.Legal (b : BuiltTrigger) : Prop := ∀ r ∈ b.uses, r.Fits b.trigger.head

/-- **A program that builds triggers.** -/
structure TriggerProgram where
  /-- The references that it was handed. -/
  references : List RowReference := []
  /-- The bodies on the way; there may be several. -/
  bodies : List FilledBody := []
  /-- The triggers that were built. -/
  built : List BuiltTrigger := []

namespace TriggerProgram

/-- **A program can write a text** with references that it was handed. -/
structure CanWrite (p : TriggerProgram) (s : Sql) (uses : List RowReference) : Prop where
  /-- It was handed them. -/
  handed : ∀ r ∈ uses, r ∈ p.references
  /-- They are the references in the text. -/
  shown : s.rowColumns = uses.map RowReference.shown

/-- **One operation of a program**, which may be refused. Its terms and its
statements are any that it can write. -/
inductive Step (p : TriggerProgram) : TriggerProgram → Prop
  /-- A body is opened. -/
  | start {h : TriggerHead} {d : TriggerDraft} : Trigger.start h = .ok d →
    Step p { p with bodies := { draft := d } :: p.bodies }
  /-- A body is asked for a reference. -/
  | refer {o : FilledBody} (n : ExprId) (scope : RowScope) (column : Column) : o ∈ p.bodies →
    Step p { p with references := o.asked n scope column ++ p.references }
  /-- A body is given a condition. -/
  | condition {front back : List FilledBody} {o : FilledBody} {t : Term}
      {uses : List RowReference} (n : ExprId) : p.bodies = front ++ o :: back →
    p.CanWrite t.sql uses → Step p { p with bodies := front ++ o.onlyWhen n t uses :: back }
  /-- A body is given a statement. -/
  | statement {front back : List FilledBody} {o : FilledBody} {c : TriggerCall} {s : Statement}
      {uses : List RowReference} (n : ExprId) : p.bodies = front ++ o :: back → c.Adds s →
    p.CanWrite s.sql uses → Step p { p with bodies := front ++ o.perform n c uses :: back }
  /-- A body is closed, and the trigger is built. -/
  | build {front back : List FilledBody} {o : FilledBody} {t : Trigger} :
    p.bodies = front ++ o :: back → Trigger.finish? o.draft = .ok t →
    Step p { p with bodies := front ++ back, built := ⟨t, o.condition ++ o.statements⟩ :: p.built }
  /-- A body is given up. -/
  | giveUp {front back : List FilledBody} {o : FilledBody} : p.bodies = front ++ o :: back →
    Step p { p with bodies := front ++ back }

/-- **The programs that there are**, from nothing in hand. -/
inductive Reachable : TriggerProgram → Prop
  /-- Nothing was handed out. -/
  | start : Reachable {}
  /-- One operation more. -/
  | step {p q : TriggerProgram} : Reachable p → Step p q → Reachable q

end TriggerProgram

/-! ## What every program keeps

Two things are kept: a reference in hand fits the body that handed it out, and
the references in a body are in hand. The head of a body never changes, so what
fitted once goes on fitting, and the induction has a case for each operation
that only says what was added. -/

/-- **The references in a body are accounted for.** -/
structure FilledBody.Accounted (references : List RowReference) (o : FilledBody) : Prop where
  /-- The condition has these. -/
  condition : (∀ r ∈ o.condition, r ∈ references) ∧
    o.draft.conditionColumns = o.condition.map RowReference.shown
  /-- The statements have these. -/
  statements : (∀ r ∈ o.statements, r ∈ references) ∧
    o.draft.bodyColumns = o.statements.map RowReference.shown

namespace FilledBody

variable {references : List RowReference} {o : FilledBody} {n : ExprId}

/-- More references do no harm. -/
theorem Accounted.mono (h : o.Accounted references) (more : List RowReference) :
    o.Accounted (more ++ references) where
  condition := ⟨fun r hr => List.mem_append_right more (h.condition.1 r hr), h.condition.2⟩
  statements := ⟨fun r hr => List.mem_append_right more (h.statements.1 r hr), h.statements.2⟩

theorem accounted_start {h : TriggerHead} {d : TriggerDraft} (hstart : Trigger.start h = .ok d) :
    Accounted references { draft := d } := by
  unfold Trigger.start at hstart
  split at hstart
  · cases hstart
  · cases hstart
    exact ⟨⟨List.forall_mem_nil _, rfl⟩, ⟨List.forall_mem_nil _, rfl⟩⟩

theorem Accounted.onlyWhen (h : o.Accounted references) {t : Term} {uses : List RowReference}
    (huses : ∀ r ∈ uses, r ∈ references) (hshown : t.sql.rowColumns = uses.map RowReference.shown) :
    (o.onlyWhen n t uses).Accounted references := by
  rw [FilledBody.onlyWhen]
  by_cases hslots : t.sql.slots = []
  · rw [TriggerCall.call_onlyWhen hslots]
    exact ⟨⟨huses, hshown⟩, h.statements⟩
  · rw [TriggerCall.call_onlyWhen_of_slots hslots]
    exact h

/-- A statement whose references were handed out. -/
theorem Accounted.perform (h : o.Accounted references) {c : TriggerCall} {s : Statement}
    (hadds : c.Adds s) {uses : List RowReference} (huses : ∀ r ∈ uses, r ∈ references)
    (hshown : s.sql.rowColumns = uses.map RowReference.shown) :
    (o.perform n c uses).Accounted references := by
  rw [FilledBody.perform]
  by_cases hslots : s.sql.slots = []
  · rw [TriggerCall.call_statement hadds hslots]
    refine ⟨h.condition, List.forall_mem_append.mpr ⟨h.statements.1, huses⟩, ?_⟩
    rw [TriggerDraft.bodyColumns, List.flatMap_append, List.flatMap_singleton, List.map_append,
      ← hshown, ← h.statements.2]
    rfl
  · rw [TriggerCall.call_statement_of_slots hadds hslots]
    exact h

end FilledBody

namespace TriggerProgram

/-- **A program whose references are accounted for.** -/
structure Accounted (p : TriggerProgram) : Prop where
  /-- A reference fits the body that handed it out. -/
  references : ∀ r ∈ p.references, r.Fits r.head
  /-- The references in bodies were handed out. -/
  bodies : ∀ o ∈ p.bodies, o.Accounted p.references
  /-- So were those in triggers. -/
  built : ∀ b ∈ p.built, (∀ r ∈ b.uses, r ∈ p.references) ∧
    ∀ temporary, (b.trigger.sql temporary).rowColumns = b.uses.map RowReference.shown

variable {p q : TriggerProgram}

theorem Accounted.body (h : p.Accounted) {front back : List FilledBody} {o : FilledBody}
    (hbodies : p.bodies = front ++ o :: back) : o.Accounted p.references :=
  h.bodies o (hbodies ▸ List.mem_append_right front List.mem_cons_self)

theorem Accounted.others (h : p.Accounted) {front back : List FilledBody} {o : FilledBody}
    (hbodies : p.bodies = front ++ o :: back) :
    ∀ body ∈ front ++ back, body.Accounted p.references := fun body hbody =>
  h.bodies body (hbodies ▸ (List.sublist_cons_self o back).append_left front |>.subset hbody)

theorem Accounted.replaced (h : p.Accounted) {front back : List FilledBody} {o o' : FilledBody}
    (hbodies : p.bodies = front ++ o :: back) (ho' : o'.Accounted p.references) :
    ∀ body ∈ front ++ o' :: back, body.Accounted p.references := by
  have hothers := h.others hbodies
  rw [List.forall_mem_append] at hothers ⊢
  exact ⟨hothers.1, List.forall_mem_cons.mpr ⟨ho', hothers.2⟩⟩

/-- **An operation keeps the references accounted for.** -/
theorem Accounted.step (h : p.Accounted) (hstep : p.Step q) : q.Accounted := by
  cases hstep with
  | start hstart =>
    exact ⟨h.references,
      List.forall_mem_cons.mpr ⟨FilledBody.accounted_start hstart, h.bodies⟩, h.built⟩
  | @refer o n scope column ho =>
    refine ⟨List.forall_mem_append.mpr ⟨fun r hr => ?_, h.references⟩,
      fun body hbody => (h.bodies body hbody).mono _,
      fun b hb => ⟨fun r hr => List.mem_append_right _ ((h.built b hb).1 r hr), (h.built b hb).2⟩⟩
    -- the only place where a reference is looked at
    obtain ⟨-, hrefused⟩ := o.draft.call_reference n ⟨o.draft.head, scope, column⟩
    by_cases hfits : RowReference.Fits ⟨o.draft.head, scope, column⟩ o.draft.head
    · rw [FilledBody.asked] at hr
      split at hr
      · rw [List.mem_singleton.mp hr]
        exact hfits
      · cases hr
    · obtain ⟨fault, hcall⟩ := hrefused hfits
      rw [FilledBody.asked, hcall] at hr
      cases hr
  | condition n hbodies hwrite =>
    refine ⟨h.references, h.replaced hbodies ?_, h.built⟩
    exact (h.body hbodies).onlyWhen hwrite.handed hwrite.shown
  | statement n hbodies hadds hwrite =>
    refine ⟨h.references, h.replaced hbodies ?_, h.built⟩
    exact (h.body hbodies).perform hadds hwrite.handed hwrite.shown
  | @build front back o t hbodies hfinish =>
    have ho := h.body hbodies
    refine ⟨h.references, h.others hbodies,
      List.forall_mem_cons.mpr ⟨⟨?_, fun temporary => ?_⟩, h.built⟩⟩
    · exact List.forall_mem_append.mpr ⟨ho.condition.1, ho.statements.1⟩
    · rw [Trigger.rowColumns_sql hfinish, ho.condition.2, ho.statements.2, List.map_append]
  | giveUp hbodies => exact ⟨h.references, h.others hbodies, h.built⟩

/-- **In every program the references are accounted for.** -/
theorem Reachable.accounted (h : p.Reachable) : p.Accounted := by
  induction h with
  | start => exact ⟨List.forall_mem_nil _, List.forall_mem_nil _, List.forall_mem_nil _⟩
  | step _ hstep ih => exact ih.step hstep

/-! ## Lending references -/

/-- **A reference can be put anywhere**: what one body hands out, any other
trigger can have in a statement. -/
theorem exists_built {r : RowReference} (hfits : r.Fits r.head) (herror : r.head.error? = none)
    {h : TriggerHead} (herror' : h.error? = none) {c : TriggerCall} {s : Statement}
    (hadds : c.Adds s) (hslots : s.sql.slots = []) (hshown : s.sql.rowColumns = [r.shown]) :
    ∃ p : TriggerProgram, p.Reachable ∧ ⟨⟨h, none, [⟨s.sql, hslots⟩]⟩, [r]⟩ ∈ p.built := by
  have hopen : ∀ {h : TriggerHead}, h.error? = none → Trigger.start h = .ok { head := h } := by
    intro h herror
    rw [Trigger.start, herror]
  have hasked : FilledBody.asked { draft := { head := r.head } } 0 r.scope r.column = [r] := by
    obtain ⟨e, hcall, -⟩ := (TriggerDraft.call_reference { head := r.head } 0 r).1 hfits
    rw [FilledBody.asked, hcall]
  have hperform : FilledBody.perform { draft := { head := h } } 0 c [r] =
      { draft := { head := h, body := [⟨s.sql, hslots⟩] }, statements := [r] } := by
    rw [FilledBody.perform, TriggerCall.call_statement hadds hslots]
    rfl
  -- one body lends the reference; then the other is opened and takes it
  have hlender : Reachable { bodies := [{ draft := { head := r.head } }] } :=
    .step .start (.start (hopen herror))
  have hlent : Reachable { references := [r], bodies := [{ draft := { head := r.head } }] } := by
    have hstep := hlender.step (.refer 0 r.scope r.column (List.mem_singleton_self _))
    rwa [hasked] at hstep
  have hborrower := hlent.step (.start (hopen herror'))
  have hborrowed := hborrower.step (@Step.statement _ [] _ _ c s [r] 0 rfl hadds
    ⟨fun r' hr' => hr', hshown⟩)
  rw [hperform] at hborrowed
  have hbuilt := hborrowed.step (@Step.build _ [] _ _ _ rfl rfl)
  exact ⟨_, hbuilt, List.mem_cons_self⟩

/-! ## Triggers that are in order

Whether a reference fits is a question of its event and its table, and the
program could have asked the trigger's own body for it. So a trigger is in
order exactly if all of its references could have come from its own body; where
one could not, the program got it from somewhere else, and that is always
possible (`exists_built`). -/

/-- **A trigger is in order** exactly if each reference in it is one that its
own body hands out. The references in its text are those that the program put
there, each of them was handed out by some body and fits that one; one that
does not fit comes from a body with another event or another table, and the
trigger's own body refuses it. -/
theorem Reachable.legal_iff (h : p.Reachable) {b : BuiltTrigger} (hb : b ∈ p.built) :
    (∀ temporary, (b.trigger.sql temporary).rowColumns = b.uses.map RowReference.shown) ∧
      (∀ r ∈ b.uses, r ∈ p.references ∧ r.Fits r.head) ∧
      (b.Legal ↔ ∀ r ∈ b.uses, ∀ d : TriggerDraft, d.head = b.trigger.head → ∀ n,
        ∃ e, TriggerCall.call (d, n) (.reference r.scope r.column) = (.ok (some e), d, n + 1)) ∧
      ∀ r ∈ b.uses, ¬ r.Fits b.trigger.head →
        (r.head.event ≠ b.trigger.head.event ∨ r.head.table.name ≠ b.trigger.head.table.name) ∧
        ∀ d : TriggerDraft, d.head = b.trigger.head → ∀ n, ∃ fault,
          TriggerCall.call (d, n) (.reference r.scope r.column) =
            (.error (d.unreferable r.scope r.column fault), d, n) := by
  have haccounted := h.accounted
  obtain ⟨hhanded, hshown⟩ := haccounted.built b hb
  have hfits : ∀ r ∈ b.uses, r.Fits r.head := fun r hr => haccounted.references r (hhanded r hr)
  refine ⟨hshown, fun r hr => ⟨hhanded r hr, hfits r hr⟩, ⟨?_, ?_⟩, fun r hr hnot => ⟨?_, ?_⟩⟩
  · intro hlegal r hr d hd n
    obtain ⟨e, hcall, -⟩ := (d.call_reference n r).1 (hd ▸ hlegal r hr)
    exact ⟨e, hcall⟩
  · intro hown r hr
    by_contra hnot
    obtain ⟨e, hcall⟩ := hown r hr { head := b.trigger.head } rfl 0
    obtain ⟨fault, hrefused⟩ := (TriggerDraft.call_reference { head := b.trigger.head } 0 r).2 hnot
    rw [hcall] at hrefused
    cases hrefused
  · by_contra hsame
    rw [not_or, not_not, not_not] at hsame
    have hhere := RowReference.fits_iff.mp (hfits r hr)
    rw [hsame.1, hsame.2] at hhere
    exact hnot (RowReference.fits_iff.mpr hhere)
  · intro d hd n
    exact (d.call_reference n r).2 (hd ▸ hnot)

/-- A trigger on changed rows that has a reference from a trigger on inserted
rows of the same table. -/
theorem reachable_legal :
    let a : Column := ⟨0, ⟨"t"⟩, ⟨"a"⟩, .scalar .long, [], none⟩
    let t : Table := ⟨⟨"t"⟩, [a], [], [], [], [], false⟩
    let inserted : TriggerHead := { name := ⟨"ins"⟩, table := t, timing := .after, event := .insert }
    let changed : TriggerHead := { name := ⟨"upd"⟩, table := t, timing := .after, event := .update }
    ∃ p : TriggerProgram, p.Reachable ∧ ∃ b ∈ p.built, b.trigger.head = changed ∧
      b.uses = [⟨inserted, .new, a⟩] ∧ (b.trigger.sql false).rowColumns = [(.new, ⟨"a"⟩)] ∧
      b.Legal := by
  intro a t inserted changed
  obtain ⟨p, hp, hb⟩ := @exists_built ⟨inserted, .new, a⟩
    (RowReference.fits_iff.mpr ⟨rfl, rfl⟩) rfl changed rfl _ _
    (.delete ⟨⟨"t"⟩, some (.binary .eq a.term (.rowColumn .new ⟨"a"⟩))⟩) rfl rfl
  obtain ⟨hshown, -, hlegal, -⟩ := hp.legal_iff hb
  refine ⟨p, hp, _, hb, rfl, rfl, hshown false, hlegal.mpr fun r hr d hd n => ?_⟩
  obtain rfl := List.mem_singleton.mp hr
  have hfits : RowReference.Fits ⟨inserted, .new, a⟩ d.head :=
    hd ▸ RowReference.fits_iff.mpr ⟨rfl, rfl⟩
  obtain ⟨e, hcall, -⟩ := (d.call_reference n ⟨inserted, .new, a⟩).1 hfits
  exact ⟨e, hcall⟩

/-- A trigger on deleted rows refers to the new row. The body of a trigger on
inserted rows handed the reference out. -/
theorem reachable_illegal :
    ∃ p : TriggerProgram, p.Reachable ∧ ∃ b ∈ p.built, b.trigger.head.event = .delete ∧
      (b.trigger.sql false).rowColumns = [(.new, ⟨"a"⟩)] ∧ ¬ b.Legal := by
  let a : Column := ⟨0, ⟨"t"⟩, ⟨"a"⟩, .scalar .long, [], none⟩
  let t : Table := ⟨⟨"t"⟩, [a], [], [], [], [], false⟩
  obtain ⟨p, hp, hb⟩ := @exists_built ⟨⟨⟨"ins"⟩, t, .after, .insert, [], false, none⟩, .new, a⟩
    (RowReference.fits_iff.mpr ⟨rfl, rfl⟩) rfl
    ⟨⟨"del"⟩, t, .after, .delete, [], false, none⟩ rfl _ _
    (.delete ⟨⟨"t"⟩, some (.binary .eq a.term (.rowColumn .new ⟨"a"⟩))⟩) rfl rfl
  refine ⟨p, hp, _, hb, rfl, rfl, fun hlegal => ?_⟩
  obtain hevent | hevent := (hlegal _ (List.mem_singleton_self _)).new rfl
  · cases hevent
  · cases hevent

end TriggerProgram

end TypedSql
