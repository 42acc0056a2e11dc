import Erd.Proofs.Grammar.Default
import Erd.Proofs.Schema.Canonical

/-!
# Terminals of what is printed

Every construct is printed in terminals of its own, whatever its strings hold and whatever stands behind it.

    c.Named → SpellsLine c.print c.terminals                             (Column.spellsLine_print)
    t.Named → SpellsLine t.print t.terminals                              (Table.spellsLine_print)
    s.Named → Spread s.statements (terminals s.print.toList)               (Schema.spread_print)
-/

namespace Erd

open Production (commaTerminals)

/-! ## Relations -/

namespace Endpoint

def terminals (e : Endpoint) : List Terminal := [.word e.table, .mark '.', .word e.column]

theorem Named.spells {e : Endpoint} (h : e.Named) : Spells e.path e.terminals := by
  intro rest hr
  have hd (r : List Char) : Erd.terminals (".".toList ++ r) = .mark '.' :: Erd.terminals r :=
    terminals_mark (by decide) r
  have hs (r : List Char) : StopsAt isWordChar (".".toList ++ r) := stopsAt_cons.2 (by decide)
  simp only [path, columnPath, String.toList_append, List.append_assoc]
  rw [terminals_word h.table (hs _), hd, terminals_word h.column hr.word]
  rfl

end Endpoint

namespace RelationType

def terminal : RelationType → Terminal
  | oneToOne => .mark '-'
  | oneToMany => .mark '<'
  | manyToOne => .mark '>'
  | manyToMany => ⟨.lessGreater, "<>"⟩

theorem spells_operator (r : RelationType) : Spells r.operator [r.terminal] := by
  intro rest hr
  cases r with
  | oneToOne => exact terminals_mark (by decide) rest
  | oneToMany => exact terminals_less hr.greater
  | manyToOne => exact terminals_mark (by decide) rest
  | manyToMany => exact terminals_lessGreater rest

end RelationType

namespace Relation

def terminals (r : Relation) : List Terminal :=
  .word "Ref" :: (r.name.toList.map .word ++
    .mark ':' :: (r.source.terminals ++ r.type.terminal :: r.target.terminals))

theorem spellsLine_print {r : Relation} (h : r.Named) : SpellsLine r.print r.terminals := by
  intro rest
  have hc (cs : List Char) : Erd.terminals (": ".toList ++ cs) = .mark ':' :: Erd.terminals cs :=
    (terminals_mark (by decide) _).trans (congrArg _ (terminals_blank cs))
  have hs (cs : List Char) : StopsAt isWordChar (": ".toList ++ cs) := stopsAt_cons.2 (by decide)
  obtain ⟨name, source, target, type⟩ := r
  have hends (cs : List Char) : Erd.terminals (source.path.toList ++ (" ".toList ++ (type.operator.toList ++
      (" ".toList ++ (target.path.toList ++ ("\n".toList ++ cs)))))) =
        source.terminals ++ type.terminal :: (target.terminals ++ .mark '\n' :: Erd.terminals cs) := by
    rw [h.source.spells _ stopsAt_space, terminals_space, type.spells_operator _ stopsAt_space,
      terminals_space, h.target.spells _ stopsAt_lineEnd, terminals_lineEnd]
    simp
  cases name with
  | none =>
    simp only [print, terminals, String.append_empty, String.toList_append, List.append_assoc]
    rw [terminals_word (by decide) (hs _), hc, hends]
    simp
  | some n =>
    simp only [print, terminals, String.toList_append, List.append_assoc]
    rw [terminals_word (by decide) stopsAt_space.word, terminals_space,
      terminals_word (h.name n rfl) (hs _), hc, hends]
    simp

end Relation

/-! ## Enumerations and groups -/

/-- The terminals of a note in a list of settings. -/
def noteTerminals (text : String) : List Terminal := [.word "note", .mark ':', .string text]

theorem spells_note (text : String) : Spells ("note: " ++ quote text) (noteTerminals text) := by
  intro rest _
  rw [String.toList_append, List.append_assoc, terminals_key (w := "note") rfl (by decide), terminals_quote]
  rfl

namespace EnumValue

def terminals (v : EnumValue) : List Terminal :=
  wordOrStringTerminal v.name :: bracketTerminals noteTerminals v.note.toList

theorem spellsLine_print (v : EnumValue) : SpellsLine v.print v.terminals := by
  intro rest
  have hnote : Spells (bracketed (v.note.map fun note => "note: " ++ quote note).toList)
      (bracketTerminals noteTerminals v.note.toList) := by
    rw [Option.toList_map]
    exact spells_bracketed fun text _ => spells_note text
  simp only [print, terminals, String.toList_append, List.append_assoc]
  rw [terminals_indent, spells_wordOrString v.name _ (stopsAt_bracketed stopsAt_lineEnd),
    hnote _ stopsAt_lineEnd, terminals_lineEnd]
  simp

end EnumValue

namespace Enumeration

def terminals (e : Enumeration) : List Terminal :=
  .word "Enum" :: .word e.name :: bodyTerminals (e.values.map EnumValue.terminals)

theorem spellsLine_print {e : Enumeration} (h : IsWord e.name) : SpellsLine e.print e.terminals := by
  intro rest
  simp only [print, terminals, String.toList_append, List.append_assoc]
  rw [terminals_lead (w := "Enum") rfl (by decide), terminals_word h stopsAt_openLine.word,
    terminals_body (spellsLines_join fun v _ => v.spellsLine_print)]
  simp

end Enumeration

namespace TableGroup

def terminals (g : TableGroup) : List Terminal :=
  .word "TableGroup" :: .word g.name :: bodyTerminals (g.tables.map fun t => [.word t])

theorem spellsLine_print {g : TableGroup} (h : g.Named) : SpellsLine g.print g.terminals := by
  intro rest
  have hline : ∀ t ∈ g.tables, SpellsLine (indent ++ t ++ "\n") [.word t] := by
    intro t ht rest
    simp only [String.toList_append, List.append_assoc]
    rw [terminals_indent, terminals_word (h.tables t ht) stopsAt_lineEnd.word, terminals_lineEnd]
    rfl
  simp only [print, terminals, String.toList_append, List.append_assoc]
  rw [terminals_lead (w := "TableGroup") rfl (by decide), terminals_word h.name stopsAt_openLine.word,
    terminals_body (spellsLines_join hline)]
  simp

end TableGroup

/-! ## Columns -/

namespace SettingItem

/-- The text of an item that is printed. -/
def text : SettingItem → String
  | primaryKey => "pk"
  | autoIncrement => "increment"
  | unique => "unique"
  | notNull => "not null"
  | default v => "default: " ++ v.literal
  | note text => "note: " ++ quote text
  | _ => ""

def terminals : SettingItem → List Terminal
  | primaryKey => [.word "pk"]
  | autoIncrement => [.word "increment"]
  | unique => [.word "unique"]
  | notNull => [.word "not", .word "null"]
  | default v => .word "default" :: .mark ':' :: v.terminals
  | note text => noteTerminals text
  | _ => []

theorem spells_text (i : SettingItem) : Spells i.text i.terminals := by
  cases i with
  | primaryKey => exact spells_word (w := "pk") (by decide)
  | autoIncrement => exact spells_word (w := "increment") (by decide)
  | unique => exact spells_word (w := "unique") (by decide)
  | notNull =>
    intro rest hr
    have hs : "not null".toList = "not ".toList ++ "null".toList := rfl
    rw [text, hs, List.append_assoc, terminals_lead (w := "not") rfl (by decide),
      terminals_word (by decide) hr.word]
    rfl
  | default v =>
    intro rest hr
    rw [text, String.toList_append, List.append_assoc, terminals_key (w := "default") rfl (by decide),
      v.lexesTo_literal.spells _ hr]
    rfl
  | note text => exact spells_note text
  | _ => exact spells_empty

end SettingItem

namespace ColumnSize

/-- The digits of a number in a size. -/
def digits (n : UInt32) : Terminal := .number (Decimal.digitChars n.toNat)

def terminals : ColumnSize → List Terminal
  | length n => [.mark '(', digits n, .mark ')']
  | precision p q => [.mark '(', digits p, .mark ',', digits q, .mark ')']

/-- The text of a size. -/
def text : ColumnSize → String
  | length n => "(" ++ toString n.toNat ++ ")"
  | precision p q => "(" ++ toString p.toNat ++ ", " ++ toString q.toNat ++ ")"

theorem terminals_digits (n : UInt32) {rest : List Char} (hr : StopsAt isNumberChar rest) :
    Erd.terminals ((toString n.toNat).toList ++ rest) = digits n :: Erd.terminals rest := by
  have hn : IsNumeral (Decimal.digitChars n.toNat) :=
    .whole (Decimal.digitChars_ne_nil _) fun c hc => Decimal.isDigit_of_mem_digitChars hc
  rw [Nat.toString_eq_ofList_toDigits, String.toList_ofList]
  exact terminals_number hn hr

theorem spells_text (size : ColumnSize) : Spells size.text size.terminals := by
  have ho (cs : List Char) : Erd.terminals ("(".toList ++ cs) = .mark '(' :: Erd.terminals cs :=
    terminals_mark (by decide) cs
  have hc (cs : List Char) : Erd.terminals (")".toList ++ cs) = .mark ')' :: Erd.terminals cs :=
    terminals_mark (by decide) cs
  have hm (cs : List Char) : Erd.terminals (", ".toList ++ cs) = .mark ',' :: Erd.terminals cs :=
    (terminals_mark (by decide) _).trans (congrArg _ (terminals_blank cs))
  have hs (cs : List Char) : StopsAt isNumberChar (")".toList ++ cs) := stopsAt_cons.2 (by decide)
  have hs' (cs : List Char) : StopsAt isNumberChar (", ".toList ++ cs) := stopsAt_cons.2 (by decide)
  intro rest _
  cases size with
  | length n =>
    simp only [text, String.toList_append, List.append_assoc]
    rw [ho, terminals_digits _ (hs _), hc]
    rfl
  | precision p q =>
    simp only [text, String.toList_append, List.append_assoc]
    rw [ho, terminals_digits _ (hs' _), hm, terminals_digits _ (hs _), hc]
    rfl

theorem stopsAt_text (size : ColumnSize) (rest : List Char) :
    StopsAt isLexemeChar (size.text.toList ++ rest) := by
  cases size with
  | length n =>
    simp only [text, String.toList_append, List.append_assoc]
    exact stopsAt_literal rfl (by decide)
  | precision p q =>
    simp only [text, String.toList_append, List.append_assoc]
    exact stopsAt_literal rfl (by decide)

end ColumnSize

namespace ColumnSettings

/-- The size that is printed. -/
def size? (s : ColumnSettings) : Option ColumnSize :=
  match s.precision, s.scale, s.length with
  | some p, some q, _ => some (.precision p q)
  | _, _, some n => some (.length n)
  | _, _, none => none

def sizeTerminals (s : ColumnSettings) : List Terminal := (s.size?.map ColumnSize.terminals).getD []

theorem sizeText_eq (s : ColumnSettings) : s.sizeText = (s.size?.map ColumnSize.text).getD "" := by
  obtain ⟨_, _, _, _, _, _, length, precision, scale, _⟩ := s
  cases precision <;> cases scale <;> cases length <;> rfl

theorem spells_sizeText (s : ColumnSettings) : Spells s.sizeText s.sizeTerminals := by
  rw [sizeText_eq, sizeTerminals]
  cases s.size? with
  | none => exact spells_empty
  | some size => exact size.spells_text

theorem stopsAt_sizeText {s : ColumnSettings} {rest : List Char} (hr : StopsAt isLexemeChar rest) :
    StopsAt isLexemeChar (s.sizeText.toList ++ rest) := by
  rw [sizeText_eq]
  cases s.size? with
  | none => exact hr
  | some size => exact size.stopsAt_text rest

/-- The items that are printed, in their order. -/
def items (s : ColumnSettings) : List SettingItem :=
  [if s.primaryKey then some .primaryKey else none,
   if s.autoIncrement then some .autoIncrement else none,
   if s.unique then some .unique else none,
   if s.notNull then some .notNull else none,
   s.default.map .default,
   s.note.map .note].filterMap id

theorem texts_eq (s : ColumnSettings) : s.texts = s.items.map SettingItem.text := by
  obtain ⟨pk, unique, notNull, increment, default, note, _, _, _, _⟩ := s
  cases pk <;> cases unique <;> cases notNull <;> cases increment <;> cases default <;> cases note <;> rfl

end ColumnSettings

namespace Column

def terminals (c : Column) : List Terminal :=
  .word c.name :: .word c.displayType ::
    (c.settings.sizeTerminals ++ bracketTerminals SettingItem.terminals c.settings.items)

theorem spellsLine_print {c : Column} (h : c.Named) : SpellsLine c.print c.terminals := by
  intro rest
  have hitems := spells_bracketed fun i (_ : i ∈ c.settings.items) => i.spells_text
  simp only [print, terminals, c.settings.texts_eq, String.toList_append, List.append_assoc]
  rw [terminals_indent, terminals_word h.name stopsAt_space.word, terminals_space,
    terminals_word h.type (ColumnSettings.stopsAt_sizeText (stopsAt_bracketed stopsAt_lineEnd)).word,
    c.settings.spells_sizeText _ (stopsAt_bracketed stopsAt_lineEnd), hitems _ stopsAt_lineEnd,
    terminals_lineEnd]
  simp

end Column

/-! ## Indexes -/

namespace IndexItem

/-- The text of an item that is printed. -/
def text : IndexItem → String
  | unique => "unique"
  | name (some n) => "name: " ++ quote n
  | type (some t) => "type: " ++ wordOrString t
  | _ => ""

def terminals : IndexItem → List Terminal
  | unique => [.word "unique"]
  | name (some n) => [.word "name", .mark ':', .string n]
  | type (some t) => [.word "type", .mark ':', wordOrStringTerminal t]
  | _ => []

theorem spells_text (i : IndexItem) : Spells i.text i.terminals := by
  intro rest hr
  match i with
  | unique => exact spells_word (w := "unique") (by decide) rest hr
  | name (some n) =>
    rw [text, String.toList_append, List.append_assoc, terminals_key (w := "name") rfl (by decide),
      terminals_quote]
    rfl
  | type (some t) =>
    rw [text, String.toList_append, List.append_assoc, terminals_key (w := "type") rfl (by decide),
      spells_wordOrString t _ hr]
    rfl
  | name none => rfl
  | type none => rfl
  | ignored => rfl

end IndexItem

namespace Index

/-- The items that are printed, in their order. -/
def items (i : Index) : List IndexItem :=
  [if i.unique then some .unique else none, i.name.map fun n => .name (some n),
   i.type.map fun t => .type (some t)].filterMap id

theorem texts_eq (i : Index) : i.texts = i.items.map IndexItem.text := by
  obtain ⟨name, columns, unique, type⟩ := i
  cases name <;> cases unique <;> cases type <;> rfl

/-- The terminals of a list of columns, one alone or several in parentheses. -/
def columnTerminals : List String → List Terminal
  | [c] => [.word c]
  | cs => .mark '(' :: (commaTerminals (fun c => [.word c]) cs ++ [.mark ')'])

theorem spells_columnsText {i : Index} (h : ∀ c ∈ i.columns, IsWord c) :
    Spells i.columnsText (columnTerminals i.columns) := by
  have ho (cs : List Char) : Erd.terminals ("(".toList ++ cs) = .mark '(' :: Erd.terminals cs :=
    terminals_mark (by decide) cs
  have hc (cs : List Char) : Erd.terminals (")".toList ++ cs) = .mark ')' :: Erd.terminals cs :=
    terminals_mark (by decide) cs
  have hs (cs : List Char) : StopsAt isLexemeChar (")".toList ++ cs) := stopsAt_literal rfl (by decide)
  have hlist : Spells (String.intercalate ", " i.columns) (commaTerminals (fun c => [.word c]) i.columns) := by
    have := spells_intercalate (f := id) fun c hc => spells_word (h c hc)
    rwa [List.map_id] at this
  unfold columnsText
  split
  · next c e =>
    rw [e]
    exact spells_word (h c (by simp [e]))
  · next hne =>
    intro rest _
    have hcols : columnTerminals i.columns =
        .mark '(' :: (commaTerminals (fun c => [.word c]) i.columns ++ [.mark ')']) := by
      unfold columnTerminals
      split
      · next c e => exact absurd e (hne c)
      · rfl
    rw [hcols]
    simp only [String.toList_append, List.append_assoc]
    rw [ho, hlist _ (hs _), hc]
    simp

def terminals (i : Index) : List Terminal :=
  columnTerminals i.columns ++ bracketTerminals IndexItem.terminals i.items

theorem spellsLine_print {i : Index} (h : ∀ c ∈ i.columns, IsWord c) : SpellsLine i.print i.terminals := by
  intro rest
  have hitems := spells_bracketed fun item (_ : item ∈ i.items) => item.spells_text
  simp only [print, terminals, i.texts_eq, String.toList_append, List.append_assoc]
  rw [terminals_indent, terminals_indent, spells_columnsText h _ (stopsAt_bracketed stopsAt_lineEnd),
    hitems _ stopsAt_lineEnd, terminals_lineEnd]

end Index

/-! ## Tables -/

/-- The column as it is declared, without relations at it. -/
def Column.item (c : Column) : TableItem := .column ⟨c, []⟩

namespace TableItem

def terminals : TableItem → List Terminal
  | column d => d.column.terminals
  | indexes entries => .word "indexes" :: bodyTerminals (entries.map Index.terminals)
  | note text => [.word "Note", .mark ':', .string text]
  | skipped => []

end TableItem

namespace Table

/-- The items of the body that are printed. -/
def items (t : Table) : List TableItem :=
  t.columns.map Column.item ++ (if t.printedIndexes.isEmpty then [] else [.indexes t.printedIndexes]) ++
    t.note.toList.map .note

/-- The terminals in front of the body. -/
def headerTerminals (t : Table) : List Terminal :=
  .word "Table" :: (t.schema.toList.flatMap (fun s => [.word s, .mark '.']) ++
    .word t.name :: t.shortName.toList.flatMap fun a => [.word "as", .word a])

def terminals (t : Table) : List Terminal :=
  t.headerTerminals ++ bodyTerminals (t.items.map TableItem.terminals)

/-- The name of a table with the short name behind it. -/
theorem terminals_name {name : String} {shortName : Option String} (hn : IsWord name)
    (ha : ∀ a, shortName = some a → IsWord a) {rest : List Char} (hr : StopsAt isLexemeChar rest) :
    Erd.terminals (name.toList ++ ((match shortName with
      | none => ""
      | some a => " as " ++ a).toList ++ rest)) =
        .word name :: (shortName.toList.flatMap fun a => [.word "as", .word a]) ++ Erd.terminals rest := by
  have hstop (cs : List Char) : StopsAt isLexemeChar (" as ".toList ++ cs) := stopsAt_literal rfl (by decide)
  have has (cs : List Char) : Erd.terminals (" as ".toList ++ cs) = .word "as" :: Erd.terminals cs :=
    (terminals_blank _).trans (terminals_lead (s := "as ") rfl (by decide) cs)
  cases shortName with
  | none => exact terminals_word hn hr.word
  | some a =>
    simp only [String.toList_append, List.append_assoc]
    rw [terminals_word hn (hstop _).word, has, terminals_word (ha a rfl) hr.word]
    rfl

theorem spells_header {t : Table} (h : t.Named) : Spells t.header t.headerTerminals := by
  intro rest hr
  have hd (cs : List Char) : Erd.terminals (".".toList ++ cs) = .mark '.' :: Erd.terminals cs :=
    terminals_mark (by decide) cs
  have hs (cs : List Char) : StopsAt isWordChar (".".toList ++ cs) := stopsAt_cons.2 (by decide)
  have hname := terminals_name h.name h.shortName hr
  obtain ⟨name, schema, shortName, columns, indexes, note⟩ := t
  simp only [header, headerTerminals, String.toList_append, List.append_assoc]
  rw [terminals_lead (w := "Table") rfl (by decide)]
  cases schema with
  | none =>
    refine (congrArg (.word "Table" :: ·) hname).trans ?_
    simp
  | some s =>
    simp only [String.toList_append, List.append_assoc]
    rw [terminals_word (h.schema s rfl) (hs _), hd]
    refine (congrArg (.word "Table" :: .word s :: .mark '.' :: ·) hname).trans ?_
    simp

theorem spellsLines_indexBlock {t : Table} (h : t.Named) : SpellsLines t.indexBlock
    ((if t.printedIndexes.isEmpty then [] else [TableItem.indexes t.printedIndexes]).map
      TableItem.terminals) := by
  unfold indexBlock
  split
  · exact spellsLines_empty
  · have hentries : ∀ i ∈ t.printedIndexes, SpellsLine i.print i.terminals :=
      fun i hi => Index.spellsLine_print (h.indexes i (List.mem_of_mem_filter hi))
    have hlines : SpellsLines (String.join (t.printedIndexes.map Index.print) ++ indent)
        (t.printedIndexes.map Index.terminals) := by
      intro rest
      rw [String.toList_append, List.append_assoc, spellsLines_join hentries, terminals_indent]
    intro rest
    have hbody := terminals_body hlines rest
    simp only [String.toList_append, List.append_assoc] at hbody ⊢
    rw [terminals_indent, terminals_word (w := "indexes") (by decide) stopsAt_openLine.word, hbody]
    simp [TableItem.terminals]

theorem spellsLines_noteLine (t : Table) :
    SpellsLines t.noteLine ((t.note.toList.map TableItem.note).map TableItem.terminals) := by
  unfold noteLine
  cases t.note with
  | none => exact spellsLines_empty
  | some note =>
    refine SpellsLine.lines fun rest => ?_
    simp only [String.toList_append, List.append_assoc]
    rw [terminals_indent, terminals_key (w := "Note") rfl (by decide), terminals_quote, terminals_lineEnd]
    rfl

theorem spellsLine_print {t : Table} (h : t.Named) : SpellsLine t.print t.terminals := by
  intro rest
  have hcolumns := spellsLines_join fun c hc => Column.spellsLine_print (h.columns c hc)
  have hlines := (hcolumns.append (spellsLines_indexBlock h)).append t.spellsLines_noteLine
  have hitems : t.items.map TableItem.terminals = t.columns.map Column.terminals ++
      (if t.printedIndexes.isEmpty then [] else [TableItem.indexes t.printedIndexes]).map
        TableItem.terminals ++ (t.note.toList.map TableItem.note).map TableItem.terminals := by
    rw [items, List.map_append, List.map_append, List.map_map]
    rfl
  have hbody := terminals_body hlines rest
  simp only [print, terminals, String.toList_append, List.append_assoc] at hbody ⊢
  rw [spells_header h _ stopsAt_openLine, hbody, hitems]
  simp

end Table

/-! ## Statements -/

namespace Statement

def print : Statement → String
  | table d => d.table.print
  | enum e => e.print
  | relation r => r.print
  | group g => g.print

def terminals : Statement → List Terminal
  | table d => d.table.terminals
  | enum e => e.terminals
  | relation r => r.terminals
  | group g => g.terminals

def Named : Statement → Prop
  | table d => d.table.Named
  | enum e => IsWord e.name
  | relation r => r.Named
  | group g => g.Named

theorem spellsLine_print {st : Statement} (h : st.Named) : SpellsLine st.print st.terminals := by
  cases st with
  | table d => exact Table.spellsLine_print h
  | enum e => exact Enumeration.spellsLine_print h
  | relation r => exact Relation.spellsLine_print h
  | group g => exact TableGroup.spellsLine_print h

end Statement

/-- The table as it is declared, without relations at its columns. -/
def Table.statement (t : Table) : Statement := .table ⟨t, []⟩

/-- Statements with line breaks between them. -/
inductive Spread : List Statement → List Terminal → Prop where
  | nil : Spread [] []
  | lineEnd {sts : List Statement} {ts : List Terminal} (h : Spread sts ts) : Spread sts (.mark '\n' :: ts)
  | cons (st : Statement) {sts : List Statement} {ts : List Terminal} (h : Spread sts ts) :
      Spread (st :: sts) (st.terminals ++ ts)

/-- The text is read as these statements, whatever follows. -/
def SpellsStatements (s : String) (sts : List Statement) : Prop :=
  ∀ rest more, Spread more (terminals rest) → Spread (sts ++ more) (terminals (s.toList ++ rest))

theorem spellsStatements_empty : SpellsStatements "" [] := fun _ _ h => h

theorem SpellsStatements.append {s s' : String} {sts sts' : List Statement} (h : SpellsStatements s sts)
    (h' : SpellsStatements s' sts') : SpellsStatements (s ++ s') (sts ++ sts') := by
  intro rest more hm
  rw [String.toList_append, List.append_assoc, List.append_assoc]
  exact h _ _ (h' rest more hm)

theorem spellsStatements_lineEnd : SpellsStatements "\n" [] := by
  intro rest more hm
  rw [terminals_lineEnd]
  exact hm.lineEnd

theorem Statement.Named.spells {st : Statement} (h : st.Named) : SpellsStatements st.print [st] := by
  intro rest more hm
  rw [st.spellsLine_print h]
  exact .cons st hm.lineEnd

theorem spellsStatements_join {sts : List Statement} (h : ∀ st ∈ sts, st.Named) :
    SpellsStatements (String.join (sts.map Statement.print)) sts := by
  induction sts with
  | nil => exact spellsStatements_empty
  | cons st sts ih =>
    rw [List.map_cons, String.join_cons]
    exact (h st List.mem_cons_self).spells.append (ih fun st' hst' => h st' (List.mem_cons_of_mem st hst'))

/-- Blocks of statements with blank lines between them. -/
theorem spellsStatements_intercalate {bs : List (List Statement)} (h : ∀ b ∈ bs, ∀ st ∈ b, st.Named) :
    SpellsStatements (String.intercalate "\n" (bs.map fun b => String.join (b.map Statement.print)))
      bs.flatten := by
  cases bs with
  | nil => exact spellsStatements_empty
  | cons b bs =>
    induction bs generalizing b with
    | nil =>
      have hb := spellsStatements_join (h b List.mem_cons_self)
      rw [List.map_singleton, String.intercalate_singleton, List.flatten_singleton]
      exact hb
    | cons b' bs ih =>
      have hb := spellsStatements_join (h b List.mem_cons_self)
      have ih := ih b' fun b hb => h b (List.mem_cons_of_mem _ hb)
      have hmore := hb.append (spellsStatements_lineEnd.append ih)
      rw [← String.append_assoc, List.nil_append, ← List.flatten_cons] at hmore
      rw [List.map_cons, List.map_cons, String.intercalate_cons_cons]
      exact hmore

namespace Schema

/-- The statements that are printed, in blocks. -/
def statementBlocks (s : Schema) : List (List Statement) :=
  s.enums.map (fun e => [.enum e]) ++ s.tables.map (fun t => [t.statement]) ++
    (if s.relations.isEmpty then [] else [s.relations.map .relation]) ++ s.groups.map fun g => [.group g]

def statements (s : Schema) : List Statement :=
  s.enums.map .enum ++ s.tables.map Table.statement ++ s.relations.map .relation ++ s.groups.map .group

theorem flatten_statementBlocks (s : Schema) : s.statementBlocks.flatten = s.statements := by
  have hsingle {α : Type} (f : α → Statement) (xs : List α) : (xs.map fun x => [f x]).flatten = xs.map f := by
    induction xs with
    | nil => rfl
    | cons x xs ih => rw [List.map_cons, List.flatten_cons, ih]; rfl
  have hrelations : (if s.relations.isEmpty then [] else [s.relations.map Statement.relation]).flatten =
      s.relations.map .relation := by
    cases s.relations with
    | nil => rfl
    | cons r rs => simp
  unfold statementBlocks statements
  rw [List.flatten_append, List.flatten_append, List.flatten_append, hsingle, hsingle, hsingle, hrelations]

theorem Named.statements {s : Schema} (h : s.Named) : ∀ st ∈ s.statements, st.Named := by
  intro st hst
  simp only [Schema.statements, List.mem_append, List.mem_map] at hst
  rcases hst with ((⟨e, he, rfl⟩ | ⟨t, ht, rfl⟩) | ⟨r, hr, rfl⟩) | ⟨g, hg, rfl⟩
  · exact h.enums e he
  · exact h.tables t ht
  · exact h.relations r hr
  · exact h.groups g hg

theorem blocks_eq (s : Schema) :
    s.blocks = s.statementBlocks.map fun b => String.join (b.map Statement.print) := by
  have hrelations : (if s.relations.isEmpty then [] else [String.join (s.relations.map Relation.print)]) =
      (if s.relations.isEmpty then [] else [s.relations.map Statement.relation]).map
        fun b => String.join (b.map Statement.print) := by
    split
    · rfl
    · simp only [List.map_cons, List.map_map, List.map_nil]
      rfl
  unfold blocks statementBlocks
  simp only [List.map_append, List.map_map, hrelations]
  congr 3

theorem spread_print {s : Schema} (h : s.Named) : Spread s.statements (Erd.terminals s.print.toList) := by
  have hall : ∀ b ∈ s.statementBlocks, ∀ st ∈ b, st.Named := by
    intro b hb st hst
    refine h.statements st ?_
    rw [← flatten_statementBlocks]
    exact List.mem_flatten_of_mem hb hst
  have hspells := spellsStatements_intercalate hall [] [] (by rw [terminals_nil]; exact .nil)
  rwa [List.append_nil, List.append_nil, flatten_statementBlocks, ← blocks_eq] at hspells

end Schema

end Erd
