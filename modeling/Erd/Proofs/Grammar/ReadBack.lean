import Erd.Proofs.Grammar.Settings

/-!
# Reading what is printed

The terminals of every construct are read as that construct, except for what a source cannot say: a column
comes back with the type of its name, and an infinite default as a word.

    Reads column c.terminals (· = ⟨c.declared, []⟩) (· = .newline)               (Column.reads)
    Reads table t.terminals (· = ⟨t.declared, []⟩) Any                            (Table.reads)
    Spread sts ts → … → Reads (many statement) (ts ++ [endOfText]) (· = sts.map Statement.declared) Any
                                                                                  (Spread.reads)
-/

namespace Erd

open Production

/-! ## Settings of columns -/

namespace SettingItem

/-- What an item is read as. -/
def reread : SettingItem → SettingItem
  | default v => .default v.reread
  | i => i

/-- An item that is printed, with a default that can be read. -/
def Printed : SettingItem → Prop
  | default v => v ≠ .number (.infinity true)
  | nullable => False
  | reference _ _ => False
  | ignored => False
  | _ => True

end SettingItem

theorem SettingItem.reads {i : SettingItem} (hi : i.Printed) :
    Reads setting i.terminals (· = i.reread) EndsSetting := by
  cases i with
  | primaryKey => exact (WrittenAs.primaryKey (w := "pk") (by decide)).reads
  | autoIncrement => exact (WrittenAs.autoIncrement (w := "increment") (by decide)).reads
  | unique => exact (WrittenAs.unique (w := "unique") (by decide)).reads
  | notNull => exact (WrittenAs.notNullWords (w := "not") (n := "null") (by decide) (by decide)).reads
  | default v =>
    refine reads_setting (k := "default") (by decide) ?_
    refine (reads_accept rfl).then leads_any ?_
    rintro _ rfl
    have hv := DefaultValue.reads_terminals hi
    exact (hv.narrow fun _ h => h.ne (by decide) (by decide)).map_eq
  | note text => exact (WrittenAs.note (w := "note") (by decide)).reads
  | nullable => exact hi.elim
  | reference type target => exact hi.elim
  | ignored => exact hi.elim

/-! ## Columns -/

/-- The defaults of a column can be read back. -/
def ColumnSettings.Readable (s : ColumnSettings) : Prop :=
  ∀ v ∈ s.default, v ≠ .number (.infinity true)

theorem ColumnSettings.mem_items {s : ColumnSettings} {i : SettingItem} (h : i ∈ s.items) :
    i.Printed ∨ ∃ v, s.default = some v ∧ i = .default v := by
  simp only [ColumnSettings.items, List.mem_filterMap, List.mem_cons, List.not_mem_nil, or_false, id,
    exists_eq_right] at h
  have hflag {b : Bool} {j : SettingItem} (hj : j.Printed) (h : some i = if b then some j else none) :
      i.Printed := by
    cases b <;> cases h
    exact hj
  rcases h with h | h | h | h | h | h
  · exact Or.inl (hflag (j := .primaryKey) trivial h)
  · exact Or.inl (hflag (j := .autoIncrement) trivial h)
  · exact Or.inl (hflag (j := .unique) trivial h)
  · exact Or.inl (hflag (j := .notNull) trivial h)
  · obtain ⟨v, hv, rfl⟩ := Option.map_eq_some_iff.1 h.symm
    exact Or.inr ⟨v, hv, rfl⟩
  · obtain ⟨v, hv, rfl⟩ := Option.map_eq_some_iff.1 h.symm
    exact Or.inl trivial

theorem ColumnSettings.Readable.items {s : ColumnSettings} (h : s.Readable) :
    ∀ i ∈ s.items, i.Printed := by
  intro i hi
  rcases mem_items hi with hp | ⟨v, hv, rfl⟩
  · exact hp
  · exact h v hv

/-- The column as it is read, before its type is looked up among the enumerations. -/
def Column.declared (c : Column) : Column :=
  { c with
    type := .ofTypeName c.displayType
    rawType := some c.displayType
    settings :=
      { c.settings.normalSize with
        enumValues := none, default := c.settings.default.map DefaultValue.reread } }

namespace Production

/-- No brackets at the end of a line. -/
theorem reads_unbracketed {α : Type} {f : Bool → Production α} {Q : α → Prop}
    (h : Reads (f false) [] Q (· = .newline)) : Reads (accept .openBracket >>= f) [] Q (· = .newline) := by
  have hopen : Reads (accept .openBracket) [] (· = false) (· = .newline) :=
    reads_accept_other.narrow fun _ h => by rw [h]; decide
  refine hopen.skip (leads_nil fun _ h => h) ?_
  rintro _ rfl
  exact h

/-- Settings between brackets at the end of a line, or none. -/
theorem reads_bracketed {ι α β : Type} {item : Production α} {g : ι → List Terminal} {v : ι → α}
    {r : List α → β} {xs : List ι} (hx : ∀ x ∈ xs, Reads item (g x) (· = v x) EndsSetting) :
    Reads (accept .openBracket >>= fun b =>
        if b = true then
          commaList item >>= fun items => expect .closeBracket >>= fun _ => Pure.pure (r items)
        else Pure.pure (r []))
      (bracketTerminals g xs) (· = r (xs.map v)) (· = .newline) := by
  cases xs with
  | nil => exact reads_unbracketed (Reads.pure rfl)
  | cons x xs => exact (reads_brackets hx (List.cons_ne_nil x xs)).ofAny

theorem reads_settingPart {s : ColumnSettings} (h : s.Readable) :
    Reads settingPart (bracketTerminals SettingItem.terminals s.items)
      (· = s.items.map SettingItem.reread) (· = .newline) :=
  reads_bracketed fun i hi => SettingItem.reads (h.items i hi)

/-- A numeral without a sign is read as its digits. -/
theorem sizeOfText_of_ne_plus {s : String} {d : Char} {ds : List Char} (hs : s.toList = d :: ds) (hd : d ≠ '+') :
    sizeOfText? s = (digits? (d :: ds)).bind fun n => if n < UInt32.size then some (UInt32.ofNat n) else none := by
  unfold sizeOfText?
  rw [hs]
  split
  · next e => exact absurd (List.cons.inj e).1 hd
  · dsimp only
    cases digits? (d :: ds) <;> rfl

theorem sizeOfText_digits (n : UInt32) :
    sizeOfText? (String.ofList (Decimal.digitChars n.toNat)) = some n := by
  obtain ⟨d, ds, hd⟩ := List.exists_cons_of_ne_nil (Decimal.digitChars_ne_nil n.toNat)
  have hall : ∀ c ∈ d :: ds, c.isDigit = true :=
    fun c hc => Decimal.isDigit_of_mem_digitChars (n := n.toNat) (hd ▸ hc)
  have hdigits : digits? (d :: ds) = some n.toNat := by
    unfold digits?
    rw [if_neg (by simpa using hall), ← hd, Decimal.natOfDigits_digitChars]
  have hplus : d ≠ '+' := by
    rintro rfl
    exact absurd (hall _ List.mem_cons_self) (by decide)
  rw [sizeOfText_of_ne_plus ((String.toList_ofList ..).trans hd) hplus, hdigits]
  simp [n.toNat_lt_size]

theorem reads_sizePart (s : ColumnSettings) :
    Reads sizePart s.sizeTerminals (· = s.size?) (· ≠ .openParen) := by
  unfold ColumnSettings.sizeTerminals
  cases s.size? with
  | none => exact ColumnSize.WrittenAs.none.reads
  | some size =>
    cases size with
    | length n => exact (ColumnSize.WrittenAs.length (sizeOfText_digits n)).reads
    | precision p q => exact (ColumnSize.WrittenAs.precision (sizeOfText_digits p) (sizeOfText_digits q)).reads

end Production

/-- The items that are printed make up the settings again. -/
theorem ColumnSettings.foldl_items (s : ColumnSettings) (length precision scale : Option UInt32) :
    (s.items.map SettingItem.reread).foldl withItem { length, precision, scale } =
      { s with
        length, precision, scale, enumValues := none, default := s.default.map DefaultValue.reread } := by
  obtain ⟨pk, unique, notNull, increment, default, note, _, _, _, _⟩ := s
  cases pk <;> cases unique <;> cases notNull <;> cases increment <;> cases default <;> cases note <;> rfl

theorem ColumnSettings.sized_size (s : ColumnSettings) :
    (match s.size? with
      | none => ({} : ColumnSettings)
      | some size => ColumnSettings.withSize {} size) =
        { length := s.normalSize.length, precision := s.normalSize.precision, scale := s.normalSize.scale } := by
  obtain ⟨_, _, _, _, _, _, length, precision, scale, _⟩ := s
  cases precision <;> cases scale <;> cases length <;> rfl

theorem ColumnDeclaration.ofItems_items (c : Column) :
    ofItems c.name c.displayType c.settings.size? (c.settings.items.map SettingItem.reread) =
      ⟨c.declared, []⟩ := by
  have hrefs : (c.settings.items.map SettingItem.reread).filterMap SettingItem.reference? = [] := by
    obtain ⟨_, _, _, pk, unique, notNull, increment, default, note, _, _, _, _⟩ := c
    cases pk <;> cases unique <;> cases notNull <;> cases increment <;> cases default <;> cases note <;> rfl
  have hnormal : { c.settings with
        length := c.settings.normalSize.length, precision := c.settings.normalSize.precision
        scale := c.settings.normalSize.scale, enumValues := none
        default := c.settings.default.map DefaultValue.reread } = c.declared.settings := by
    obtain ⟨_, _, _, _, _, _, _, _, _, length, precision, scale, _⟩ := c
    cases precision <;> cases scale <;> rfl
  have hsettings := congrArg (fun start => (c.settings.items.map SettingItem.reread).foldl
    ColumnSettings.withItem start) c.settings.sized_size
  rw [ColumnSettings.foldl_items, hnormal] at hsettings
  unfold ofItems
  simp only [hrefs]
  exact congrArg (fun settings => (⟨⟨c.name, .ofTypeName c.displayType, some c.displayType, settings⟩, []⟩ :
    ColumnDeclaration)) hsettings

theorem Column.reads {c : Column} (h : c.settings.Readable) :
    Reads column c.terminals (· = ⟨c.declared, []⟩) (· = .newline) := by
  refine (reads_word (kind_word_isWord c.name)).then leads_any ?_
  rintro _ rfl
  refine (reads_word (kind_word_isWord c.displayType)).then leads_any ?_
  rintro _ rfl
  refine (reads_sizePart c.settings).bind ?_ ?_
  · unfold bracketTerminals
    split
    · exact leads_nil fun k hk => by rw [hk]; decide
    · exact leads_cons (by decide)
  · rintro _ rfl
    refine (reads_settingPart h).map ?_
    rintro _ rfl
    exact ColumnDeclaration.ofItems_items c

/-! ## Bodies -/

namespace Production

variable {ι α : Type} {step : Production (Option α)} {xs : List ι} {g : ι → List Terminal} {v : ι → α}

/-- The lines of a body and its closing brace, each behind a line break. -/
theorem reads_lines (hx : ∀ x ∈ xs, Reads step (.mark '\n' :: g x) (· = some (v x)) (· = .newline))
    (hend : Reads step [.mark '\n', .mark '\x7d'] (· = none) Any) :
    Reads (many step) ((xs.map g).flatMap (.mark '\n' :: ·) ++ [.mark '\n', .mark '\x7d'])
      (· = xs.map v) Any := by
  have hmany : Reads (many step) (xs.flatMap (fun x => .mark '\n' :: g x) ++ [.mark '\n', .mark '\x7d'])
      (· = xs.map v) Any :=
    Reads.many hx (fun _ _ => List.cons_ne_nil _ _) (fun _ _ => leads_cons rfl) hend (leads_cons rfl)
  rwa [List.flatMap_map]

/-- A line break that is stepped over. -/
theorem Reads.lineBreak {f : Unit → Production α} {u : Terminal} {us : List Terminal} {Q : α → Prop}
    {F : TokenKind → Prop} (hu : u.kind ≠ .newline) (h : Reads (f ()) (u :: us) Q F) :
    Reads (skipNewlines >>= f) (.mark '\n' :: u :: us) Q F :=
  (reads_skipNewlines 1).bind (leads_cons hu) fun _ _ => h

theorem word_kind_ne {w : String} {k : TokenKind} (hk : k.isWord = false) : (Terminal.word w).kind ≠ k := by
  intro h
  have := kind_word_isWord w
  rw [h, hk] at this
  cases this

/-! ## Indexes -/

/-- The kind of a text that is a word or a string. -/
theorem kind_wordOrString (s : String) :
    ((wordOrStringTerminal s).kind.isWord = true ∨ (wordOrStringTerminal s).kind = .string) ∧
      (wordOrStringTerminal s).value = s := by
  unfold wordOrStringTerminal
  split
  · exact ⟨Or.inl (kind_word_isWord s), rfl⟩
  · exact ⟨Or.inr rfl, rfl⟩

theorem reads_indexSettingValue {t : Terminal} (h : t.kind.isWord = true ∨ t.kind = .string) :
    Reads indexSettingValue [.mark ':', t] (· = some t.value) Any := by
  refine (reads_accept (k := .colon) rfl).then leads_any ?_
  rintro _ rfl
  refine Reads.peek fun tok htok => ?_
  subst htok
  rw [if_pos (show tok.kind.isWord = true ∨ tok.kind = .string from h)]
  refine reads_next.map fun tok' htok' => ?_
  rw [show tok'.value = _ from congrArg Terminal.value htok']

theorem reads_indexSettingValue_none : Reads indexSettingValue [] (· = none) EndsSetting := by
  have hcolon : Reads (accept .colon) [] (· = false) EndsSetting :=
    reads_accept_other.narrow fun _ h => h.ne (by decide) (by decide)
  refine hcolon.skip (leads_nil fun _ h => h) ?_
  rintro _ rfl
  exact Reads.pure rfl

/-- A setting of an index is told by its key and its value. -/
theorem reads_indexSetting {w k : String} {ts : List Terminal} {o : Option String} (hw : asciiLower w = k)
    (h : Reads indexSettingValue ts (· = o) EndsSetting) :
    Reads indexSetting (.word w :: ts) (· = indexItemOf k o) EndsSetting := by
  refine (reads_word (kind_word_isWord w)).then leads_any fun v hv => ?_
  refine h.map ?_
  rintro _ rfl
  rw [hv, show asciiLower (Terminal.word w).value = k from hw]

end Production

/-- An item that is printed. -/
def IndexItem.Printed : IndexItem → Prop
  | unique => True
  | name n => n.isSome
  | type t => t.isSome
  | ignored => False

theorem IndexItem.reads {i : IndexItem} (hi : i.Printed) :
    Reads indexSetting i.terminals (· = i) EndsSetting := by
  have hany {ts : List Terminal} {o : Option String} (h : Reads indexSettingValue ts (· = o) Any) :
      Reads indexSettingValue ts (· = o) EndsSetting := h.ofAny
  match i, hi with
  | unique, _ => exact reads_indexSetting (k := "unique") (by decide) reads_indexSettingValue_none
  | name (some n), _ =>
    exact reads_indexSetting (k := "name") (by decide)
      (hany (reads_indexSettingValue (t := .string n) (Or.inr rfl)))
  | type (some t), _ =>
    have hv := reads_indexSettingValue (kind_wordOrString t).1
    rw [(kind_wordOrString t).2] at hv
    exact reads_indexSetting (k := "type") (by decide) (hany hv)

namespace Index

theorem printed_items (i : Index) : ∀ item ∈ i.items, item.Printed := by
  obtain ⟨name, columns, unique, type⟩ := i
  cases name <;> cases unique <;> cases type <;> simp [items, IndexItem.Printed]

theorem ofItems_items (i : Index) : ofItems i.columns i.items = i := by
  obtain ⟨name, columns, unique, type⟩ := i
  cases name <;> cases unique <;> cases type <;> rfl

theorem reads_indexOn (i : Index) :
    Reads (indexOn i.columns) (bracketTerminals IndexItem.terminals i.items) (· = i) (· = .newline) := by
  have h : Reads (indexOn i.columns) (bracketTerminals IndexItem.terminals i.items)
      (· = ofItems i.columns (i.items.map id)) (· = .newline) :=
    reads_bracketed fun item hitem => IndexItem.reads (i.printed_items item hitem)
  rwa [List.map_id, ofItems_items] at h

theorem reads {i : Index} (hne : i.columns ≠ []) :
    Reads indexEntry (.mark '\n' :: i.terminals) (· = some (some i)) (· = .newline) := by
  have hon : Reads (indexOn i.columns >>= fun x => Pure.pure (some (some x)))
      (bracketTerminals IndexItem.terminals i.items) (· = some (some i)) (· = .newline) := by
    exact i.reads_indexOn.map_eq
  unfold terminals
  generalize bracketTerminals IndexItem.terminals i.items = settings at *
  generalize i.columns = columns at *
  match columns with
  | [] => exact absurd rfl hne
  | [c] =>
    refine Reads.lineBreak (word_kind_ne rfl) (Reads.peek fun tok htok => ?_)
    have hk : tok.kind.isWord = true := by
      rw [show tok.kind = _ from congrArg Terminal.kind htok]
      exact kind_word_isWord c
    have hnext : Reads (next >>= fun t => indexOn [t.value] >>= fun x => Pure.pure (some (some x)))
        (.word c :: settings) (· = some (some i)) (· = .newline) := by
      refine reads_next.then leads_any fun t ht => ?_
      rw [show t.value = c from congrArg Terminal.value ht]
      exact hon
    generalize tok.kind = k at hk
    cases k with
    | _ => first | exact hnext | cases hk
  | c :: c' :: cs =>
    show Reads indexEntry (.mark '\n' :: .mark '(' ::
      ((commaTerminals (fun c => [.word c]) (c :: c' :: cs) ++ [.mark ')']) ++ settings)) _ _
    refine Reads.lineBreak (by decide) (Reads.peek fun tok htok => ?_)
    rw [show tok.kind = .openParen from congrArg Terminal.kind htok]
    refine reads_advance.then leads_any fun _ _ => ?_
    have hcols : Reads (commaList (word .columnName)) (commaTerminals (fun c => [.word c]) (c :: c' :: cs))
        (· = (c :: c' :: cs).map id) (· = .closeParen) :=
      Reads.commaList (F := Any) (fun d _ => reads_word (kind_word_isWord d)) trivial
        fun k hk => ⟨trivial, by rw [hk]; decide⟩
    rw [List.append_assoc]
    refine hcols.bind (leads_cons rfl) ?_
    rintro _ rfl
    rw [List.map_id]
    exact (reads_expect (k := .closeParen) rfl).then leads_any fun _ _ => hon

end Index

/-- The end of a body. -/
theorem Production.reads_indexEntry_end : Reads indexEntry [.mark '\n', .mark '\x7d'] (· = none) Any := by
  refine Reads.lineBreak (by decide) (Reads.peek fun tok htok => ?_)
  rw [show tok.kind = .closeBrace from congrArg Terminal.kind htok]
  exact reads_advance.then leads_any fun _ _ => Reads.pure rfl

/-! ## Tables -/

/-- What is read for an item of a body. -/
def TableItem.declared : TableItem → TableItem
  | column d => .column ⟨d.column.declared, []⟩
  | i => i

/-- An item that is printed and can be read back. -/
def TableItem.Readable : TableItem → Prop
  | column d => d.column.settings.Readable
  | indexes entries => ∀ i ∈ entries, i.columns ≠ []
  | note _ => True
  | skipped => False

namespace Production

/-- The rest of an item of a body, which the kinds of its first two tokens tell. -/
def tableItemAt (first second : TokenKind) : Production (Option TableItem) :=
  if first = .closeBrace then advance >>= fun _ => Pure.pure none
  else if first = .endOfInput then expected (.kind .closeBrace)
  else if first = .note ∧ second = .colon then
    advance >>= fun _ => advance >>= fun _ => string >>= fun s => Pure.pure (some (.note s))
  else if first = .indexes ∧ second = .openBrace then
    indexes >>= fun entries => Pure.pure (some (.indexes entries))
  else if first.isWord ∧ second.isWord then column >>= fun d => Pure.pure (some (.column d))
  else advance >>= fun _ => Pure.pure (some .skipped)

theorem tableItem_eq :
    tableItem = skipNewlines >>= fun _ => peek >>= fun t => second >>= fun u => tableItemAt t.kind u.kind := rfl

theorem tableItemAt_column {w w' : String} :
    tableItemAt (Terminal.word w).kind (Terminal.word w').kind =
      column >>= fun d => Pure.pure (some (.column d)) := by
  unfold tableItemAt
  rw [if_neg (word_kind_ne rfl), if_neg (word_kind_ne rfl), if_neg fun h => word_kind_ne rfl h.2,
    if_neg fun h => word_kind_ne rfl h.2, if_pos ⟨kind_word_isWord _, kind_word_isWord _⟩]

theorem reads_tableItem {t u : Terminal} {ts : List Terminal} {Q : Option TableItem → Prop}
    {F : TokenKind → Prop} (ht : t.kind ≠ .newline)
    (h : Reads (tableItemAt t.kind u.kind) (t :: u :: ts) Q F) :
    Reads tableItem (.mark '\n' :: t :: u :: ts) Q F := by
  rw [tableItem_eq]
  refine Reads.lineBreak ht (Reads.peek fun tok htok => Reads.second fun tok' htok' => ?_)
  subst htok htok'
  exact h

theorem reads_indexes {entries : List Index} (h : ∀ i ∈ entries, i.columns ≠ []) :
    Reads indexes (.word "indexes" :: bodyTerminals (entries.map Index.terminals)) (· = entries) Any := by
  have hlines := reads_lines (g := Index.terminals) (v := some) (fun i hi => Index.reads (h i hi))
    reads_indexEntry_end
  refine (reads_expect (k := .indexes) rfl).then leads_any fun _ _ => ?_
  refine (reads_expect (k := .openBrace) rfl).then leads_any fun _ _ => ?_
  refine hlines.map ?_
  rintro _ rfl
  simp

end Production

theorem TableItem.reads {i : TableItem} (h : i.Readable) :
    Reads tableItem (.mark '\n' :: i.terminals) (· = some i.declared) (· = .newline) := by
  match i, h with
  | column d, h =>
    refine reads_tableItem (word_kind_ne rfl) ?_
    rw [tableItemAt_column]
    exact (Column.reads h).map_eq
  | indexes entries, h =>
    refine reads_tableItem (by decide) ?_
    exact (reads_indexes h).ofAny.map_eq
  | note text, _ =>
    refine reads_tableItem (by decide) ?_
    refine reads_advance.then leads_any fun _ _ => reads_advance.then leads_any fun _ _ => ?_
    exact (reads_string text).ofAny.map_eq

namespace Production

theorem reads_tableItem_end : Reads tableItem [.mark '\n', .mark '\x7d'] (· = none) Any := by
  refine Reads.lineBreak (by decide) (Reads.peek fun tok htok => Reads.anySecond fun _ => ?_)
  rw [show tok.kind = .closeBrace from congrArg Terminal.kind htok]
  exact reads_advance.then leads_any fun _ _ => Reads.pure rfl

theorem reads_tableName (name : String) (schema : Option String) :
    Reads tableName (schema.toList.flatMap (fun s => [.word s, .mark '.']) ++ [.word name])
      (· = (name, schema)) (· ≠ .dot) := by
  cases schema with
  | none =>
    refine (reads_word (kind_word_isWord name)).then leads_any ?_
    rintro _ rfl
    refine reads_accept_other.skip (leads_nil fun _ h => h) ?_
    rintro _ rfl
    exact Reads.pure rfl
  | some s =>
    refine (reads_word (kind_word_isWord s)).then leads_any ?_
    rintro _ rfl
    refine (reads_accept (k := .dot) rfl).then leads_any ?_
    rintro _ rfl
    exact (reads_word (kind_word_isWord name)).ofAny.map_eq

theorem reads_tableAlias (shortName : Option String) :
    Reads tableAlias (shortName.toList.flatMap fun a => [.word "as", .word a]) (· = shortName)
      (· = .openBrace) := by
  cases shortName with
  | none =>
    have has : Reads (accept .asWord) [] (· = false) (· = .openBrace) :=
      reads_accept_other.narrow fun _ h => by rw [h]; decide
    refine has.skip (leads_nil fun _ h => h) ?_
    rintro _ rfl
    exact Reads.pure rfl
  | some a =>
    refine (reads_accept (k := .asWord) rfl).then leads_any ?_
    rintro _ rfl
    exact (reads_word (kind_word_isWord a)).ofAny.map_eq

end Production

namespace Table

/-- The defaults of all columns can be read back. -/
def Readable (t : Table) : Prop := ∀ c ∈ t.columns, c.settings.Readable

/-- The table as it is read, before the types of its columns are looked up. -/
def declared (t : Table) : Table :=
  { t with columns := t.columns.map Column.declared, indexes := t.printedIndexes }

theorem Readable.items {t : Table} (h : t.Readable) : ∀ i ∈ t.items, i.Readable := by
  intro i hi
  simp only [Table.items, List.mem_append, List.mem_map] at hi
  rcases hi with (⟨c, hc, rfl⟩ | hi) | ⟨n, -, rfl⟩
  · exact h c hc
  · split at hi
    · cases hi
    · cases List.mem_singleton.1 hi
      intro i hi
      simpa using (List.mem_filter.1 hi).2
  · trivial

theorem ofItems_items (t : Table) :
    TableDeclaration.ofItems t.name t.schema t.shortName (t.items.map TableItem.declared) =
      ⟨t.declared, []⟩ := by
  have hindexes : (if t.printedIndexes.isEmpty then [] else [TableItem.indexes t.printedIndexes]).map
      TableItem.declared = if t.printedIndexes.isEmpty then [] else [.indexes t.printedIndexes] := by
    split <;> rfl
  have hitems : t.items.map TableItem.declared =
      t.columns.map (fun c => .column ⟨c.declared, []⟩) ++
        (if t.printedIndexes.isEmpty then [] else [.indexes t.printedIndexes]) ++
          t.note.toList.map .note := by
    rw [items, List.map_append, List.map_append, hindexes, List.map_map, List.map_map]
    rfl
  have hcolumns : (t.items.map TableItem.declared).filterMap TableItem.column? =
      t.columns.map fun c => ⟨c.declared, []⟩ := by
    have hc : (t.columns.map fun c => TableItem.column ⟨c.declared, []⟩).filterMap TableItem.column? =
        t.columns.map fun c => ⟨c.declared, []⟩ := by
      simp [List.filterMap_map, Function.comp_def, TableItem.column?]
    rw [hitems, List.filterMap_append, List.filterMap_append, hc]
    cases t.note <;> cases t.printedIndexes <;> simp [TableItem.column?]
  have hblocks : ((t.items.map TableItem.declared).filterMap TableItem.indexes?).getLast?.getD [] =
      t.printedIndexes := by
    have hc : (t.columns.map fun c => TableItem.column ⟨c.declared, []⟩).filterMap TableItem.indexes? = [] := by
      simp [TableItem.indexes?]
    rw [hitems, List.filterMap_append, List.filterMap_append, hc]
    cases t.note <;> cases t.printedIndexes <;> rfl
  have hnote : ((t.items.map TableItem.declared).filterMap TableItem.note?).getLast? = t.note := by
    have hc : (t.columns.map fun c => TableItem.column ⟨c.declared, []⟩).filterMap TableItem.note? = [] := by
      simp [TableItem.note?]
    rw [hitems, List.filterMap_append, List.filterMap_append, hc]
    cases t.note <;> cases t.printedIndexes <;> rfl
  unfold TableDeclaration.ofItems
  simp only [hcolumns, hblocks, hnote]
  simp [declared, List.flatMap_map, TableDeclaration.inlineRelations, Function.comp_def]

/-- Name, other name and body. -/
theorem terminals_eq (t : Table) : t.terminals = .word "Table" ::
    ((t.schema.toList.flatMap (fun s => [.word s, .mark '.']) ++ [.word t.name]) ++
      ((t.shortName.toList.flatMap fun a => [.word "as", .word a]) ++
        bodyTerminals (t.items.map TableItem.terminals))) := by
  simp [terminals, headerTerminals]

/-- No dot stands behind the name. -/
theorem leads_alias {lines : List (List Terminal)} {F : TokenKind → Prop} (t : Table) : Leads (· ≠ .dot)
    ((t.shortName.toList.flatMap fun a => [.word "as", .word a]) ++ bodyTerminals lines) F := by
  cases t.shortName with
  | none => exact leads_cons (by decide)
  | some a => exact leads_cons (by decide)

theorem reads {t : Table} (h : t.Readable) : Reads table t.terminals (· = ⟨t.declared, []⟩) Any := by
  have hlines := reads_lines (fun i hi => TableItem.reads (h.items i hi)) reads_tableItem_end
  have hof := t.ofItems_items
  have hbody : Reads (skipNewlines >>= fun _ => expect .openBrace >>= fun _ => many tableItem >>= fun items =>
      Pure.pure (TableDeclaration.ofItems t.name t.schema t.shortName items))
      (bodyTerminals (t.items.map TableItem.terminals)) (· = ⟨t.declared, []⟩) Any := by
    refine (reads_skipNewlines 0).skip (leads_cons (by decide)) fun _ _ => ?_
    refine (reads_expect (k := .openBrace) rfl).then leads_any fun _ _ => ?_
    refine hlines.map ?_
    rintro _ rfl
    exact hof
  rw [terminals_eq]
  refine (reads_expect (k := .table) rfl).then leads_any fun _ _ => ?_
  refine (reads_tableName t.name t.schema).bind t.leads_alias ?_
  rintro _ rfl
  refine (reads_tableAlias t.shortName).bind (leads_cons rfl) ?_
  rintro _ rfl
  exact hbody

end Table

/-! ## Enumerations, relations and groups -/

theorem EnumValue.reads (v : EnumValue) :
    Reads enumValue (.mark '\n' :: v.terminals) (· = some v) (· = .newline) := by
  obtain ⟨name, note⟩ := v
  have hnote : Reads enumNote (bracketTerminals noteTerminals note.toList) (· = note) (· = .newline) := by
    cases note with
    | none => exact reads_unbracketed (Reads.pure rfl)
    | some text =>
      refine (reads_accept (k := .openBracket) rfl).then leads_any ?_
      rintro _ rfl
      refine (reads_accept (k := .note) rfl).then leads_any ?_
      rintro _ rfl
      refine (reads_expect (k := .colon) rfl).then leads_any fun _ _ => ?_
      refine (reads_string text).then leads_any ?_
      rintro _ rfl
      exact reads_close rfl
  obtain ⟨hkind, hvalue⟩ := kind_wordOrString name
  have hne {k : TokenKind} (hk : k.isWord = false) (hs : k ≠ .string) :
      (wordOrStringTerminal name).kind ≠ k := by
    rintro rfl
    rcases hkind with h | h
    · rw [hk] at h
      cases h
    · exact hs h
  refine Reads.lineBreak (hne rfl (by decide)) (Reads.peek fun tok htok => ?_)
  have hk : tok.kind = (wordOrStringTerminal name).kind := congrArg Terminal.kind htok
  rw [hk, if_neg (hne rfl (by decide)), if_pos hkind]
  refine reads_next.then leads_any fun t ht => ?_
  rw [show t.value = name from (congrArg Terminal.value ht).trans hvalue]
  exact hnote.map_eq

theorem Production.reads_enumValue_end : Reads enumValue [.mark '\n', .mark '\x7d'] (· = none) Any := by
  refine Reads.lineBreak (by decide) (Reads.peek fun tok htok => ?_)
  rw [if_pos (show tok.kind = .closeBrace from congrArg Terminal.kind htok)]
  exact reads_advance.then leads_any fun _ _ => Reads.pure rfl

theorem Enumeration.reads (e : Enumeration) : Reads enumeration e.terminals (· = e) Any := by
  have hlines := reads_lines (fun v (_ : v ∈ e.values) => v.reads) reads_enumValue_end
  refine (reads_expect (k := .enum) rfl).then leads_any fun _ _ => ?_
  refine (reads_word (kind_word_isWord e.name)).then leads_any fun name hname => ?_
  refine (reads_skipNewlines 0).skip (leads_cons (by decide)) fun _ _ => ?_
  refine (reads_expect (k := .openBrace) rfl).then leads_any fun _ _ => ?_
  refine hlines.map ?_
  rintro _ rfl
  rw [hname, List.map_id']
  rfl

theorem Relation.reads (r : Relation) : Reads relation r.terminals (· = r) Any := by
  obtain ⟨name, source, target, type⟩ := r
  have hends : Reads (expect .colon >>= fun _ => endpoint >>= fun source => relationType >>= fun type =>
      endpoint >>= fun target => Pure.pure ({ name, source, target, type } : Relation))
      (.mark ':' :: (source.terminals ++ type.terminal :: target.terminals))
      (· = { name, source, target, type }) Any := by
    refine (reads_expect rfl).then leads_any fun _ _ => ?_
    refine source.reads.bind leads_any ?_
    rintro _ rfl
    refine type.reads.then leads_any ?_
    rintro _ rfl
    exact target.reads.map_eq
  refine (reads_expect (k := .ref) rfl).then leads_any fun _ _ => ?_
  cases name with
  | none =>
    have hname : Reads relationName [] (· = none) (· = .colon) := by
      refine reads_check.skip (leads_nil fun _ h => h) ?_
      rintro _ rfl
      exact Reads.pure rfl
    refine hname.skip (leads_cons rfl) ?_
    rintro _ rfl
    exact hends
  | some n =>
    have hname : Reads relationName [.word n] (· = some n) Any := by
      refine reads_check_other.skip (leads_cons (word_kind_ne rfl)) ?_
      rintro _ rfl
      exact (reads_word (kind_word_isWord n)).map_eq
    refine hname.then leads_any ?_
    rintro _ rfl
    exact hends

theorem Production.reads_groupMember (t : String) :
    Reads groupMember [.mark '\n', .word t] (· = some t) (· = .newline) := by
  refine Reads.lineBreak (word_kind_ne rfl) ?_
  refine reads_accept_other.skip (leads_cons (word_kind_ne rfl)) ?_
  rintro _ rfl
  exact (reads_word (kind_word_isWord t)).ofAny.map_eq

theorem Production.reads_groupMember_end : Reads groupMember [.mark '\n', .mark '\x7d'] (· = none) Any := by
  refine Reads.lineBreak (by decide) ?_
  refine (reads_accept (k := .closeBrace) rfl).then leads_any ?_
  rintro _ rfl
  exact Reads.pure rfl

theorem TableGroup.reads (g : TableGroup) : Reads tableGroup g.terminals (· = g) Any := by
  have hlines := reads_lines (fun t (_ : t ∈ g.tables) => reads_groupMember t) reads_groupMember_end
  refine (reads_expect (k := .tableGroup) rfl).then leads_any fun _ _ => ?_
  refine (reads_word (kind_word_isWord g.name)).then leads_any fun name hname => ?_
  refine (reads_skipNewlines 0).skip (leads_cons (by decide)) fun _ _ => ?_
  refine (reads_expect (k := .openBrace) rfl).then leads_any fun _ _ => ?_
  refine hlines.map ?_
  rintro _ rfl
  rw [hname, List.map_id']
  rfl

end Erd
