import Erd.Proofs.Grammar.Predictive

/-!
# The order of settings

Every item writes one field of the settings, or none.  So a field depends only on the items that write it, and
items that write different fields can change places.  A column is read alike from all lists of items that agree
field by field, however the items are spelled, and its relations come in the order of their items.

    (items.foldl withItem s).get f = ((items.filter (·.field? = some f)).foldl withItem s).get f    (get_foldl)
    Reordering items items' → items.foldl withItem s = items'.foldl withItem s            (Reordering.foldl_eq)
    c.terminals = w.terminals ++ t :: rest →
      column c = .ok ⟨w.column, w.references⟩ (c.skip w.terminals.length)                         (column_exact)
-/

namespace Erd

open Production

/-! ## Definitions -/

namespace SettingItem

/-- The field that an item writes. -/
def field? : SettingItem → Option SettingField
  | primaryKey => some .primaryKey
  | unique => some .unique
  | notNull => some .notNull
  | nullable => some .notNull
  | autoIncrement => some .autoIncrement
  | default _ => some .default
  | note _ => some .note
  | reference _ _ => none
  | ignored => none

theorem value?_eq_none {i : SettingItem} {f : SettingField} : i.value? f = none ↔ i.field? ≠ some f := by
  cases i <;> cases f <;> simp [value?, field?]

end SettingItem

/-- The same items in an order in which those of one field follow each other as before. -/
structure Reordering (items items' : List SettingItem) : Prop where
  perm : items.Perm items'
  order : ∀ f : SettingField, items.filter (·.field? = some f) = items'.filter (·.field? = some f)

namespace ColumnSettings

/-- The settings of a column without items. -/
def ofSize : Option ColumnSize → ColumnSettings
  | none => {}
  | some size => withSize {} size

/-! ## Fields -/

theorem eq_of_get {s s' : ColumnSettings} (h : ∀ f, s.get f = s'.get f) (h' : s.unwritten = s'.unwritten) :
    s = s' := by
  obtain ⟨pk, unique, notNull, increment, default, note, length, precision, scale, enumValues⟩ := s
  obtain ⟨pk', unique', notNull', increment', default', note', length', precision', scale', enumValues'⟩ := s'
  have hpk : pk = pk' := h .primaryKey
  have hunique : unique = unique' := h .unique
  have hnull : notNull = notNull' := h .notNull
  have hincrement : increment = increment' := h .autoIncrement
  have hdefault : default = default' := h .default
  have hnote : note = note' := h .note
  cases h'
  rw [hpk, hunique, hnull, hincrement, hdefault, hnote]

theorem get_foldl_congr {f : SettingField} {s s' : ColumnSettings} (h : s.get f = s'.get f)
    (items : List SettingItem) : (items.foldl withItem s).get f = (items.foldl withItem s').get f := by
  induction items generalizing s s' with
  | nil => exact h
  | cons i items ih => exact ih (by rw [get_withItem, get_withItem, h])

/-- A field depends only on the items that write it. -/
theorem get_foldl (f : SettingField) (items : List SettingItem) (s : ColumnSettings) :
    (items.foldl withItem s).get f = ((items.filter (·.field? = some f)).foldl withItem s).get f := by
  induction items generalizing s with
  | nil => rfl
  | cons i items ih =>
    by_cases hi : i.field? = some f
    · rw [List.filter_cons_of_pos (by simpa using hi)]
      exact ih (s.withItem i)
    · have hkept : (s.withItem i).get f = s.get f := by
        rw [get_withItem, SettingItem.value?_eq_none.2 hi]
        rfl
      rw [List.filter_cons_of_neg (by simpa using hi), List.foldl_cons, ih]
      exact get_foldl_congr hkept _

theorem unwritten_foldl (items : List SettingItem) (s : ColumnSettings) :
    (items.foldl withItem s).unwritten = s.unwritten := by
  induction items generalizing s with
  | nil => rfl
  | cons i items ih => rw [List.foldl_cons, ih, unwritten_withItem]

end ColumnSettings

/-- Items in another order make the same settings. -/
theorem Reordering.foldl_eq {items items' : List SettingItem} (h : Reordering items items') (s : ColumnSettings) :
    items.foldl ColumnSettings.withItem s = items'.foldl ColumnSettings.withItem s := by
  refine ColumnSettings.eq_of_get (fun f => ?_) ?_
  · rw [ColumnSettings.get_foldl, h.order f, ← ColumnSettings.get_foldl]
  · rw [ColumnSettings.unwritten_foldl, ColumnSettings.unwritten_foldl]

/-! ## Columns -/

namespace Production

theorem predictive_column : Predictive column Any fun _ k => k ≠ .openBracket ∧ k ≠ .openParen :=
  (predictive_word _ trivial).bind fun name => (predictive_word _ trivial).bind fun type =>
    predictive_columnRest name type

end Production

/-- An item and one way to write it. -/
structure SettingText where
  item : SettingItem
  terminals : List Terminal
  written : item.WrittenAs terminals

/-- A column with items in brackets, as a source may write it. -/
structure ColumnText where
  name : String
  type : String
  size : Option ColumnSize
  sizeTerminals : List Terminal
  sized : ColumnSize.WrittenAs size sizeTerminals
  items : List SettingText
  nonempty : items ≠ []

namespace ColumnText

def terminals (w : ColumnText) : List Terminal :=
  .word w.name :: .word w.type ::
    (w.sizeTerminals ++ .mark '[' :: (commaTerminals SettingText.terminals w.items ++ [.mark ']']))

/-- The column that is written, its items put in from left to right. -/
def column (w : ColumnText) : Column :=
  { name := w.name, type := .ofTypeName w.type, rawType := some w.type
    settings := (w.items.map SettingText.item).foldl ColumnSettings.withItem (.ofSize w.size) }

def references (w : ColumnText) : List InlineReference :=
  (w.items.map SettingText.item).filterMap SettingItem.reference?

theorem reads (w : ColumnText) : Reads Production.column w.terminals (· = ⟨w.column, w.references⟩) Any := by
  refine (reads_word (kind_word_isWord w.name)).then leads_any ?_
  rintro _ rfl
  refine (reads_word (kind_word_isWord w.type)).then leads_any ?_
  rintro _ rfl
  refine w.sized.reads.bind (leads_cons (by decide)) ?_
  rintro _ rfl
  have hitems : Reads settingPart _ (· = w.items.map SettingText.item) Any :=
    reads_brackets (fun i _ => i.written.reads) w.nonempty
  refine hitems.map ?_
  rintro _ rfl
  unfold ColumnDeclaration.ofItems column ColumnSettings.ofSize
  cases w.size <;> rfl

/-- Columns that differ in nothing but the order of their items and the way they are written. -/
structure Reordered (w w' : ColumnText) : Prop where
  name : w.name = w'.name
  type : w.type = w'.type
  size : w.size = w'.size
  items : Reordering (w.items.map SettingText.item) (w'.items.map SettingText.item)

/-- A column with items in brackets is read to its closing bracket, and its settings are those that its items make
from left to right.  The order of the items is of no importance but for those that write one field, and the relations
come in the order of their items. -/
theorem column_exact (w : ColumnText) :
    (∀ (c : Cursor) (t : Terminal) (rest : List Terminal), c.Closed → c.terminals = w.terminals ++ t :: rest →
      Production.column c = .ok ⟨w.column, w.references⟩ (c.skip w.terminals.length)) ∧
      ∀ w' : ColumnText, w.Reordered w' → w.column = w'.column ∧ w.references.Perm w'.references := by
  refine ⟨fun c t rest hc hts => predictive_column.ok_of_reads w.reads hc hts trivial, fun w' h => ⟨?_, ?_⟩⟩
  · unfold column
    rw [h.name, h.type, h.size, h.items.foldl_eq]
  · exact h.items.perm.filterMap _

/-- A default that is a call, behind a key of two words and in front of a minus sign that means nothing. -/
def amount : ColumnText where
  name := "amount"
  type := "DECIMAL"
  size := some (.precision 10 2)
  sizeTerminals := [.mark '(', .number ['1', '0'], .mark ',', .number ['2'], .mark ')']
  sized := .precision (by decide) (by decide)
  items :=
    [⟨.primaryKey, [.word "Primary", .word "KEY"], .primaryKeyWords (by decide) (by decide)⟩,
     ⟨_, _, .default (w := "default") (by decide)
      (.call "f" [.string "x", .mark ',', .number ['2']] (by decide) (by decide))⟩,
     ⟨.ignored, [.word "zebra", .mark ':', .mark '-'], .unknownValue (by decide) (by decide)⟩,
     ⟨.notNull, [.word "NOT", .word "null"], .notNullWords (by decide) (by decide)⟩,
     ⟨.reference .manyToOne ⟨"a", "b"⟩, _, .reference (w := "Ref") (by decide)⟩,
     ⟨.nullable, [.word "Null"], .nullable (by decide)⟩]
  nonempty := List.cons_ne_nil _ _

/-- The same items in another order and with other words. -/
def amountAgain : ColumnText :=
  { amount with
    items :=
      [⟨.ignored, [.word "zebra"], .unknown (by decide)⟩,
       ⟨.notNull, [.word "notnull"], .notNull (by decide)⟩,
       ⟨.reference .manyToOne ⟨"a", "b"⟩, _, .reference (w := "ref") (by decide)⟩,
       ⟨.nullable, [.word "null"], .nullable (by decide)⟩,
       ⟨_, _, .default (w := "DEFAULT") (by decide)
        (.call "f" [.string "x", .mark ',', .number ['2']] (by decide) (by decide))⟩,
       ⟨.primaryKey, [.word "pk"], .primaryKey (by decide)⟩]
    nonempty := List.cons_ne_nil _ _ }

def amountSource : String :=
  "amount DECIMAL(10, 2) [Primary KEY, default: f('x', 2), zebra: -, NOT null, Ref: > a.b, Null]"

theorem column_amount :
    (Cursor.ofTokens (tokenize amountSource)).terminals = amount.terminals ++ [.endOfText] ∧
      Production.column (Cursor.ofTokens (tokenize amountSource)) = .ok ⟨amount.column, amount.references⟩
        ((Cursor.ofTokens (tokenize amountSource)).skip amount.terminals.length) ∧
      amount.Reordered amountAgain ∧ amount.column = amountAgain.column ∧
      amount.references.Perm amountAgain.references := by
  have hterminals : (Cursor.ofTokens (tokenize amountSource)).terminals = amount.terminals ++ [.endOfText] := by
    decide +kernel
  have horder : amount.Reordered amountAgain := by
    refine ⟨rfl, rfl, rfl, by decide, fun f => ?_⟩
    cases f <;> rfl
  obtain ⟨hread, hreordered⟩ := column_exact amount
  exact ⟨hterminals, hread _ .endOfText [] rfl hterminals, horder, hreordered amountAgain horder⟩

end ColumnText

end Erd
