import TypedSql.Record
import Mathlib.Data.List.Induction

/-!
# What the attributes of a record say

The readers of attributes stop at the first item that they cannot read, so
each of them is a result that stands unless a fault was found (`judged`). That
form is kept by putting readers one after the other (`judged_bind`), and with
it the whole of `Record.plan?` becomes one equation (`Record.plan?_eq`): the
faults of the items that are read, in order, and the plan that these items
describe.

The plan of a column comes from the items of all its attributes taken
together: a word that stands alone counts once however often it is given, and
of several texts for one word the last counts (`FieldSettings.said`). For the
table it is different. The first attribute with an item in it ends the
reading, and what stands in the attributes behind it, right or wrong, is never
looked at (`Record.skippedItems`). `Record.readsAttributes` says how far the
attributes are read all the same.
-/

namespace TypedSql

/-! ## Results and faults

Reading in `Except` mixes two questions: whether something is wrong and what
comes of it. `judged` takes them apart. The faults of all items are a list that
can be written down without reading in order, and the plan is a value that is
there in any case; that the reading gives up at the first fault is in the
definition of `judged` alone. -/

/-- **A result that stands unless something is at fault.** The first fault
decides. -/
def judged {ε α : Type} (faults : List ε) (a : α) : Except ε α :=
  match faults with
  | [] => .ok a
  | e :: _ => .error e

section Judged

variable {ε α β : Type} {faults : List ε} {a b : α}

theorem judged_bind {f : α → Except ε β} {more : List ε} {b : β} (h : f a = judged more b) :
    (judged faults a >>= f) = judged (faults ++ more) b := by
  cases faults with
  | nil => exact h
  | cons e es => rfl

theorem judged_bind_pure (f : α → β) :
    (judged faults a >>= fun x => pure (f x)) = judged faults (f a) := by
  cases faults <;> rfl

/-- The fault that is found is the first one. -/
theorem judged_eq_error_iff {e : ε} : judged faults a = .error e ↔ faults.head? = some e := by
  cases faults <;> simp [judged]

theorem judged_eq_ok_iff : judged faults a = .ok b ↔ faults = [] ∧ a = b := by
  cases faults <;> simp [judged]

theorem exists_judged_eq_error_iff : (∃ e, judged faults a = .error e) ↔ faults ≠ [] := by
  cases faults <;> simp [judged]

end Judged

/-! ## Items -/

namespace AttributeItem

/-- The words of a column that stand alone. -/
def columnFlags : List String :=
  ["primary_key", "desc", "autoincrement", "unique", "index", "unique_index"]

/-- The words of a column that take a text. -/
def columnTexts : List String := ["name", "collate", "default"]

/-- **The documented items of a table**: its name. -/
inductive TableForm : AttributeItem → Prop where
  /-- The name. -/
  | name (text : String) : TableForm (.assignment "name" (some text))

/-- **The documented items of a column**: words that stand alone, and words
with a text. -/
inductive ColumnForm : AttributeItem → Prop where
  /-- A word alone. -/
  | flag {key : String} (h : key ∈ columnFlags) : ColumnForm (.flag key)
  /-- A word with a text. -/
  | text {key : String} (h : key ∈ columnTexts) (text : String) :
      ColumnForm (.assignment key (some text))

/-- What is wrong with an item that should assign a text. -/
def textFault? : AttributeItem → Option RecordError
  | .flag _ => some .missingValue
  | .assignment _ none => some .notText
  | .assignment _ (some _) => none

/-- **What is wrong with an item of a table.** -/
def tableFault? (i : AttributeItem) : Option RecordError :=
  if i.key = "name" then i.textFault? else some .unsupportedTableAttribute

/-- **What is wrong with an item of a column.** -/
def columnFault? (i : AttributeItem) : Option RecordError :=
  if i.key ∈ columnFlags then
    match i with
    | .flag _ => none
    | .assignment _ _ => some .unexpectedValue
  else if i.key ∈ columnTexts then i.textFault?
  else some .unsupportedColumnAttribute

theorem textFault?_eq_none_iff {i : AttributeItem} :
    i.textFault? = none ↔ ∃ key text, i = .assignment key (some text) := by
  rcases i with key | ⟨key, _ | text⟩ <;> simp [textFault?]

/-- **Nothing is wrong with the documented items of a table**, and with no
others. -/
theorem tableFault?_eq_none_iff {i : AttributeItem} : i.tableFault? = none ↔ i.TableForm := by
  constructor
  · intro h
    unfold tableFault? at h
    split at h
    · next hkey =>
      obtain ⟨key, text, rfl⟩ := textFault?_eq_none_iff.mp h
      obtain rfl : key = "name" := hkey
      exact .name text
    · cases h
  · rintro ⟨text⟩
    rfl

/-- No word of a column both stands alone and takes a text. -/
theorem not_mem_columnFlags {key : String} (h : key ∈ columnTexts) : key ∉ columnFlags := by
  revert key
  decide

/-- **Nothing is wrong with the documented items of a column**, and with no
others. -/
theorem columnFault?_eq_none_iff {i : AttributeItem} : i.columnFault? = none ↔ i.ColumnForm := by
  constructor
  · intro h
    unfold columnFault? at h
    split at h
    · next hkey =>
      cases i with
      | flag key => exact .flag hkey
      | assignment key text? => cases h
    · split at h
      · next hkey =>
        obtain ⟨key, text, rfl⟩ := textFault?_eq_none_iff.mp h
        exact .text hkey text
      · cases h
  · rintro (hkey | ⟨hkey, text⟩)
    · exact if_pos hkey
    · exact (if_neg (not_mem_columnFlags hkey)).trans (if_pos hkey)

/-- The text that an item assigns to a word. -/
def assigned? (key : String) : AttributeItem → Option String
  | .assignment k (some text) => if k = key then some text else none
  | _ => none

end AttributeItem

open AttributeItem

/-- **A word stands among the items.** -/
def given (key : String) (items : List AttributeItem) : Bool := decide (.flag key ∈ items)

/-- **The last text that the items assign to a word.** -/
def lastText (key : String) (items : List AttributeItem) : Option String :=
  (items.filterMap (assigned? key)).getLast?

section Last

variable (key k text : String) (items : List AttributeItem)

@[simp] theorem given_append_flag :
    given key (items ++ [.flag k]) = (given key items || decide (key = k)) := by
  simp [given]

@[simp] theorem given_append_assignment (text? : Option String) :
    given key (items ++ [.assignment k text?]) = given key items := by
  simp [given]

@[simp] theorem lastText_append_flag :
    lastText key (items ++ [.flag k]) = lastText key items := by
  simp [lastText, assigned?]

@[simp] theorem lastText_append_assignment :
    lastText key (items ++ [.assignment k (some text)])
      = if k = key then some text else lastText key items := by
  by_cases h : k = key <;> simp [lastText, assigned?, h]

end Last

/-! ## Fields

The settings of a field are changed item by item, a flag set or a text
replaced. What they come to is a function of all the items read so far
(`said`), and one item more is one equation for each word that an item can be
about. -/

namespace FieldSettings

/-- **What items say about a column**, all of them taken together. -/
def said (items : List AttributeItem) : FieldSettings where
  name? := lastText "name" items
  primaryKey := given "primary_key" items
  desc := given "desc" items
  autoIncrement := given "autoincrement" items
  unique := given "unique" items
  collation? := lastText "collate" items
  default? := lastText "default" items
  index := given "index" items
  uniqueIndex := given "unique_index" items

variable (items : List AttributeItem)

/-- One more word that stands alone. -/
theorem flag?_said (key : String) :
    (said items).flag? key
      = if key ∈ columnFlags then some (said (items ++ [.flag key])) else none := by
  by_cases h : key ∈ columnFlags
  · rw [if_pos h]
    simp only [columnFlags, List.mem_cons, List.not_mem_nil, or_false] at h
    rcases h with rfl | rfl | rfl | rfl | rfl | rfl <;> simp [flag?, said]
  · rw [if_neg h]
    simp only [columnFlags, List.mem_cons, List.not_mem_nil, or_false, not_or] at h
    simp [flag?, h]

/-- One more word with a text. -/
theorem assignment?_said (key : String) :
    (said items).assignment? key
      = if key ∈ columnTexts then some fun text => said (items ++ [.assignment key (some text)])
        else none := by
  by_cases h : key ∈ columnTexts
  · rw [if_pos h]
    simp only [columnTexts, List.mem_cons, List.not_mem_nil, or_false] at h
    rcases h with rfl | rfl | rfl <;> simp [assignment?, said]
  · rw [if_neg h]
    simp only [columnTexts, List.mem_cons, List.not_mem_nil, or_false, not_or] at h
    simp [assignment?, h]

/-- **One more item**: its fault, or what the items say together with it. -/
theorem read_said (i : AttributeItem) :
    (said items).read i = judged i.columnFault?.toList (said (items ++ [i])) := by
  rw [read, flag?_said, assignment?_said]
  unfold columnFault?
  by_cases hflag : i.key ∈ columnFlags
  · simp only [hflag, if_true]
    cases i <;> rfl
  by_cases htext : i.key ∈ columnTexts
  · simp only [hflag, htext, if_true, if_false]
    rcases i with key | ⟨key, _ | text⟩ <;> rfl
  · simp only [hflag, htext, if_false]
    rfl

/-- **The items of a field are read** in order, and say what they say
together. -/
theorem foldlM_read :
    items.foldlM read {} = judged (items.filterMap columnFault?) (said items) := by
  -- what has been read is what the items so far say, so the last item goes first
  induction items using List.reverseRecOn with
  | nil => rfl
  | append_singleton items i ih =>
    have hlast : List.foldlM read (said items) [i]
        = judged i.columnFault?.toList (said (items ++ [i])) := by
      rw [List.foldlM_cons, read_said]
      exact judged_bind_pure id
    have hfaults : (items ++ [i]).filterMap columnFault?
        = items.filterMap columnFault? ++ i.columnFault?.toList := by
      cases hi : i.columnFault? <;> simp [hi]
    rw [List.foldlM_append, ih, hfaults]
    exact judged_bind hlast

end FieldSettings

namespace RecordField

/-- The items of all attributes of a field. -/
def items (f : RecordField) : List AttributeItem := f.attributes.flatMap fun a => a.getD []

/-- **The column that the items of a field describe.** -/
def planned (f : RecordField) : PlannedColumn where
  field := f.name
  name := (FieldSettings.said f.items).name?.getD f.name
  settings := (FieldSettings.said f.items).settings

/-- **The plan of a column.** -/
theorem plan?_eq (f : RecordField) :
    f.plan? = judged (f.items.filterMap columnFault?) f.planned := by
  rw [plan?, FieldSettings.ofAttributes]
  exact (congrArg (· >>= _) (FieldSettings.foldlM_read f.items)).trans (judged_bind_pure _)

theorem mapM_plan? (fs : List RecordField) :
    fs.mapM plan? = judged (fs.flatMap fun f => f.items.filterMap columnFault?)
      (fs.map planned) := by
  induction fs with
  | nil => rfl
  | cons f fs ih =>
    rw [List.mapM_cons, plan?_eq, ih, List.flatMap_cons, List.map_cons]
    exact judged_bind (judged_bind_pure _)

end RecordField

/-! ## Tables

The reader of the table attributes returns at the first attribute that names
the table, and it does so from within the loop. Attributes with empty
parentheses have no item and do not end it. So the attributes fall into those
up to the first with an item, and those behind it, of which nothing is read. -/

/-- **The items of a table attribute are read** in order; the last name
counts. -/
theorem itemsName_eq (items : List AttributeItem) (name? : Option String) :
    itemsName name? items
      = judged (items.filterMap tableFault?) ((lastText "name" items).or name?) := by
  induction items generalizing name? with
  | nil => rfl
  | cons i is ih =>
    rw [itemsName]
    by_cases hkey : i.key = "name"
    · rw [if_pos hkey]
      rcases i with key | ⟨key, _ | text⟩ <;> obtain rfl : key = "name" := hkey
      · rfl
      · rfl
      · refine (ih (some text)).trans ?_
        simp only [lastText, List.filterMap_cons, assigned?, tableFault?, textFault?, key,
          if_true, List.getLast?_cons]
        cases (is.filterMap (assigned? "name")).getLast? <;> rfl
    · rw [if_neg hkey, List.filterMap_cons, tableFault?, if_neg hkey]
      rfl

namespace Record

/-- **The items of a table that are read**: those of the first attribute that
has any. -/
def readItems : List Attribute → List AttributeItem
  | [] | none :: _ => []
  | some [] :: as => readItems as
  | some (i :: is) :: _ => i :: is

/-- **The items of a table that are skipped**: those of the attributes behind
the first that has any. -/
def skippedItems : List Attribute → List AttributeItem
  | [] | none :: _ => []
  | some [] :: as => skippedItems as
  | some (_ :: _) :: as => as.flatMap fun a => a.getD []

/-- The items of attributes with parentheses are read or skipped. -/
theorem readItems_append_skippedItems {as : List Attribute} (h : ∀ a ∈ as, a ≠ none) :
    readItems as ++ skippedItems as = as.flatMap fun a => a.getD [] := by
  induction as with
  | nil => rfl
  | cons a as ih =>
    rw [List.forall_mem_cons] at h
    rcases a with _ | _ | ⟨i, is⟩
    · exact absurd rfl h.1
    · exact ih h.2
    · rfl

/-- **What is wrong with the attributes of a table**, as far as they are
read. -/
def tableFaults : List Attribute → List RecordError
  | [] => []
  | none :: _ => [.missingParentheses]
  | some [] :: as => tableFaults as
  | some (i :: is) :: _ => (i :: is).filterMap tableFault?

/-- Where every attribute has parentheses, what is wrong is an item. -/
theorem tableFaults_eq {as : List Attribute} (h : ∀ a ∈ as, a ≠ none) :
    tableFaults as = (readItems as).filterMap tableFault? := by
  induction as with
  | nil => rfl
  | cons a as ih =>
    rw [List.forall_mem_cons] at h
    rcases a with _ | _ | ⟨i, is⟩
    · exact absurd rfl h.1
    · exact ih h.2
    · rfl

theorem exists_lastText {i : AttributeItem} {is : List AttributeItem}
    (h : (i :: is).filterMap tableFault? = []) : ∃ name, lastText "name" (i :: is) = some name := by
  rw [List.filterMap_eq_nil_iff] at h
  obtain ⟨text⟩ := tableFault?_eq_none_iff.mp (h i List.mem_cons_self)
  exact ⟨_, List.getLast?_cons⟩

/-- **The attributes of a table** are read up to the first that has an
item. -/
theorem attributesName_eq (as : List Attribute) :
    attributesName as = judged (tableFaults as) (lastText "name" (readItems as)) := by
  induction as with
  | nil => rfl
  | cons a as ih =>
    rcases a with _ | _ | ⟨i, is⟩
    · rfl
    · exact ih
    · rw [attributesName, itemsName_eq, Option.or_none, tableFaults, readItems]
      cases hfaults : (i :: is).filterMap tableFault? with
      | nil =>
        -- all items are right, so they give a name and the reading ends here
        obtain ⟨name, hname⟩ := exists_lastText hfaults
        rw [hname]
        rfl
      | cons e es => rfl

/-! ## Records -/

/-- What is wrong with the shape of a type. -/
def shapeFaults : RecordShape → List RecordError
  | .named => []
  | .unnamed => [.unnamedFields]
  | .other => [.notRecord]

/-- **What is wrong with a record**, in the order in which it is read. -/
def faults (r : Record) : List RecordError :=
  tableFaults r.attributes ++
    (shapeFaults r.shape ++ r.fields.flatMap fun f => f.items.filterMap columnFault?)

/-- **The plan that the items of a record describe.** -/
def planned (r : Record) : TablePlan where
  name := (lastText "name" (readItems r.attributes)).getD (wordsApart r.name)
  typeName := withoutRawMark r.name ++ "Table"
  columns := r.fields.map RecordField.planned

/-- **The plan of a table** is what the items describe that are read, unless
something is wrong. -/
theorem plan?_eq (r : Record) : r.plan? = judged r.faults r.planned := by
  rw [plan?, attributesName_eq]
  refine judged_bind ?_
  rcases r with ⟨name, shape, attributes, fields⟩
  cases shape with
  | named => exact (congrArg (· >>= _) (RecordField.mapM_plan? fields)).trans (judged_bind_pure _)
  | unnamed => rfl
  | other => rfl

/-- **A record with named fields** whose table attributes have parentheses. An
attribute of a field without them has no items. -/
structure Parenthesised (r : Record) : Prop where
  /-- The fields have names. -/
  named : r.shape = .named
  /-- The attributes have parentheses. -/
  attributes : ∀ a ∈ r.attributes, a ≠ none

/-- **Every item is read**: there is no plan exactly if an item somewhere is
of no documented form. -/
def ReadsEveryItem (r : Record) : Prop :=
  (∃ e, r.plan? = .error e) ↔
    (∃ i ∈ r.attributes.flatMap fun a => a.getD [], ¬ i.TableForm) ∨
      ∃ f ∈ r.fields, ∃ i ∈ f.items, ¬ i.ColumnForm

/-- Something is wrong with items exactly if one of them is of no documented
form. -/
theorem filterMap_ne_nil_iff {fault? : AttributeItem → Option RecordError}
    {Form : AttributeItem → Prop} (hform : ∀ i, fault? i = none ↔ Form i)
    {items : List AttributeItem} : items.filterMap fault? ≠ [] ↔ ∃ i ∈ items, ¬ Form i := by
  rw [Ne, List.filterMap_eq_nil_iff]
  simp only [hform, not_forall, exists_prop]

/-- **There is no plan** exactly if an item that is read is of no documented
form. -/
theorem Parenthesised.exists_error_iff {r : Record} (h : r.Parenthesised) :
    (∃ e, r.plan? = .error e) ↔
      (∃ i ∈ readItems r.attributes, ¬ i.TableForm) ∨
        ∃ f ∈ r.fields, ∃ i ∈ f.items, ¬ i.ColumnForm := by
  have hfields : (r.fields.flatMap fun f => f.items.filterMap columnFault?) ≠ [] ↔
      ∃ f ∈ r.fields, ∃ i ∈ f.items, ¬ i.ColumnForm := by
    rw [Ne, List.flatMap_eq_nil_iff]
    simp only [not_forall, exists_prop, filterMap_ne_nil_iff fun i => columnFault?_eq_none_iff]
  rw [plan?_eq, exists_judged_eq_error_iff, faults, h.named, tableFaults_eq h.attributes,
    ← hfields, ← filterMap_ne_nil_iff fun i => tableFault?_eq_none_iff]
  simp only [shapeFaults, List.nil_append, ne_eq, List.append_eq_nil_iff]
  exact not_and_or

/-- The items of an attribute and not its parts make the plan. -/
theorem plan?_congr (r : Record) {fields : List RecordField}
    (h : (fields.map fun f => (f.name, f.items)) = r.fields.map fun f => (f.name, f.items)) :
    { r with fields }.plan? = r.plan? := by
  have hfaults : ∀ fs : List RecordField, (fs.flatMap fun f => f.items.filterMap columnFault?)
      = (fs.map fun f => (f.name, f.items)).flatMap fun p => p.2.filterMap columnFault? :=
    fun fs => by rw [List.flatMap_map]
  have hplanned : ∀ fs : List RecordField, fs.map RecordField.planned
      = (fs.map fun f => (f.name, f.items)).map fun p =>
        ⟨p.1, (FieldSettings.said p.2).name?.getD p.1, (FieldSettings.said p.2).settings⟩ :=
    fun fs => by
      rw [List.map_map]
      rfl
  rw [plan?_eq, plan?_eq]
  simp only [faults, planned]
  rw [hfaults, hplanned, h, ← hfaults, ← hplanned]

/-- **How far the attributes are read.** Every item is read, except those of
the table that stand behind the first attribute with an item in it: the law
holds exactly if there is no plan anyway, or if the items that are skipped are
all of the documented form. There is a plan exactly if all items are that are
read. Then the columns are what the items of each field say together – a word
that stands alone counts wherever it is, and of several texts for a word the
last counts – and it does not matter to which attributes of the field the items
belong. -/
theorem Parenthesised.readsAttributes {r : Record} (h : r.Parenthesised) :
    (r.ReadsEveryItem ↔
      (∃ e, r.plan? = .error e) ∨ ∀ i ∈ skippedItems r.attributes, i.TableForm) ∧
    ((∃ e, r.plan? = .error e) ↔
      (∃ i ∈ readItems r.attributes, ¬ i.TableForm) ∨
        ∃ f ∈ r.fields, ∃ i ∈ f.items, ¬ i.ColumnForm) ∧
    (∀ p, r.plan? = .ok p → p = r.planned ∧
      ∀ f ∈ r.fields, FieldSettings.ofAttributes f.attributes = .ok (.said f.items)) ∧
    ∀ fields : List RecordField,
      ((fields.map fun f => (f.name, f.items)) = r.fields.map fun f => (f.name, f.items)) →
        { r with fields }.plan? = r.plan? := by
  refine ⟨?_, h.exists_error_iff, fun p hp => ?_, fun fields hfields => r.plan?_congr hfields⟩
  · have hskipped : (∀ i ∈ skippedItems r.attributes, i.TableForm) ↔
        ¬ ∃ i ∈ skippedItems r.attributes, ¬ i.TableForm := by
      simp only [not_exists, not_and, not_not]
    rw [ReadsEveryItem, ← readItems_append_skippedItems h.attributes, hskipped,
      h.exists_error_iff]
    simp only [List.mem_append, or_and_right, exists_or]
    by_cases hbad : ∃ i ∈ skippedItems r.attributes, ¬ i.TableForm
    · simp only [hbad, or_true, true_or, iff_true, not_true, or_false]
    · simp only [hbad, or_false, not_false_eq_true, or_true]
  · rw [plan?_eq, judged_eq_ok_iff] at hp
    refine ⟨hp.2.symm, fun f hf => ?_⟩
    have hno : f.items.filterMap columnFault? = [] := by
      have hfaults := (List.append_eq_nil_iff.mp (List.append_eq_nil_iff.mp hp.1).2).2
      exact List.flatMap_eq_nil_iff.mp hfaults f hf
    exact (FieldSettings.foldlM_read f.items).trans (judged_eq_ok_iff.mpr ⟨hno, rfl⟩)

/-- Two names, the second of them skipped, and a field with its items in two
attributes. -/
theorem readsAttributes_two_names :
    ReadsEveryItem ⟨"Album", .named,
      [some [], some [.assignment "name" (some "albums")],
        some [.assignment "name" (some "discs")]],
      [⟨"id", [some [.flag "primary_key"], some [.flag "desc", .flag "primary_key"]]⟩]⟩ := by
  refine (Parenthesised.readsAttributes ⟨rfl, by decide⟩).1.mpr (.inr fun i hi => ?_)
  rw [List.mem_singleton.mp hi]
  exact .name "discs"

/-- **A misspelt item that is not read.** The first attribute names the table,
so the word `nme` in the second is no fault. -/
theorem not_readsEveryItem_skipped :
    Parenthesised ⟨"S", .named, [some [.assignment "name" (some "a")],
      some [.assignment "nme" (some "b")]], []⟩ ∧
    ¬ ReadsEveryItem ⟨"S", .named, [some [.assignment "name" (some "a")],
      some [.assignment "nme" (some "b")]], []⟩ := by
  refine ⟨⟨rfl, by decide⟩, fun h => ?_⟩
  have hform : ¬ TableForm (.assignment "nme" (some "b")) :=
    fun h => by cases tableFault?_eq_none_iff.mpr h
  obtain ⟨e, he⟩ := h.mpr (.inl ⟨_, by simp, hform⟩)
  rw [plan?_eq, judged_eq_error_iff] at he
  cases he

end Record

end TypedSql
