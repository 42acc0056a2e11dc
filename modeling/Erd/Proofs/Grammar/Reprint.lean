import Erd.Proofs.Grammar.Unreadable
import Erd.Proofs.Schema.Equality

/-!
# Reprints of what a source declares

What a source declares is in normal form, so its print is read back up to its defaults.  A literal too large
for a number is read as an infinity, and an infinity is written as a word or not readable at all: the print
of a schema is read back as that schema exactly if all its numeric defaults are finite.

    s.Canonical → s.Readable → parse s.print = .ok s.reread               (Canonical.parse_print_eq)
    (s.reread == s) = true → s.Finite                                             (finite_of_reread)
    parse source = .ok s →
      ((∃ s', parse s.print = .ok s' ∧ (s' == s) = true) ↔ s.Finite)              (parse_print_iff)
-/

namespace Erd

open Production

/-! ## Defaults as they are read -/

theorem DefaultValue.reread_number {x : Binary64} (h : ¬x.isFinite) : (number x).reread = string x.toSource :=
  if_neg h

theorem DefaultValue.Real.reread {v : DefaultValue} (h : v.Real) : v.reread.Real := by
  cases v with
  | number x =>
    by_cases hf : x.isFinite
    · rwa [reread_eq (by rintro _ ⟨⟩; exact hf)]
    · rw [reread_number hf]
      nofun
  | boolean b => exact h
  | string s => exact h
  | null => exact h

/-- Only a finite number is read as it is written. -/
theorem DefaultValue.finite_of_reread {x : Binary64} (h : ((number x).reread == number x) = true) :
    x.isFinite = true := by
  by_cases hf : x.isFinite
  · exact hf
  · rw [reread_number hf] at h
    cases h

/-! ## Schemas as they are read -/

theorem Column.Canonical.reread {enums : List Enumeration} {c : Column} (h : c.Canonical enums) :
    c.reread.Canonical enums := by
  refine ⟨h.name, h.rawType, ⟨h.sized.together, h.sized.length⟩, ?_⟩
  intro v hv
  obtain ⟨w, hw, rfl⟩ := Option.map_eq_some_iff.1 hv
  exact (h.default w hw).reread

theorem Table.Canonical.reread {enums : List Enumeration} {t : Table} (h : t.Canonical enums) :
    t.reread.Canonical enums := by
  refine ⟨h.name, h.schema, h.shortName, ?_, h.indexes⟩
  intro c hc
  obtain ⟨d, hd, rfl⟩ := List.mem_map.1 hc
  exact (h.columns d hd).reread

namespace Schema

theorem Canonical.reread {s : Schema} (h : s.Canonical) : s.reread.Canonical := by
  refine ⟨?_, h.relations, h.enums, h.groups, h.name, h.note⟩
  intro t ht
  obtain ⟨u, hu, rfl⟩ := List.mem_map.1 ht
  exact (h.tables u hu).reread

/-- A schema that equals what it is read as has no infinite default. -/
theorem finite_of_reread {s : Schema} (h : (s.reread == s) = true) : s.Finite := by
  intro t ht c hc x hx
  have htable : (t.reread == t) = true := beq_of_map_beq (tables_of_beq h) t ht
  have hcolumn : (c.reread == c) = true := beq_of_map_beq (Table.columns_of_beq htable) c hc
  have hdefault : (c.settings.default.map DefaultValue.reread == c.settings.default) = true :=
    Column.default_of_beq hcolumn
  rw [hx] at hdefault
  exact DefaultValue.finite_of_reread hdefault

end Schema

/-! ## A column with a number -/

/-- A table whose one column has a number for its default. -/
def Schema.numberDefault (x : Binary64) : Schema :=
  { tables :=
      [{ name := "t"
         columns :=
           [{ name := "a", type := .int, rawType := some "int"
              settings := { default := some (.number x) } }] }] }

namespace Production

/-- A column `a int` with a default. -/
def columnDefault (x : Binary64) : ColumnDeclaration :=
  ⟨⟨"a", .int, some "int", { default := some (.number x) }⟩, []⟩

/-- Its terminals. -/
def columnTerminals (t : Terminal) : List Terminal :=
  [.word "a", .word "int", .mark '[', .word "default", .mark ':', t, .mark ']']

def tableTerminals (t : Terminal) : List Terminal :=
  .word "Table" :: .word "t" :: bodyTerminals [columnTerminals t]

variable {ds : List Char} {x : Binary64}

theorem reads_columnDefault (h : Binary64.ofText? (String.ofList ds) = some x) :
    Reads column (columnTerminals (.number ds)) (· = columnDefault x) (· = .newline) := by
  have hsetting : Reads setting [.word "default", .mark ':', .number ds] (· = .default (.number x)) Any := by
    refine reads_setting (k := "default") (by decide) ?_
    refine (reads_accept rfl).then leads_any ?_
    rintro _ rfl
    exact (reads_defaultValue_digits h).map_eq
  have hpart : Reads settingPart
      (bracketTerminals (fun _ : Unit => [.word "default", .mark ':', .number ds]) [()])
      (· = [()].map fun _ => .default (.number x)) (· = .newline) :=
    reads_bracketed fun _ _ => hsetting.ofAny
  refine (reads_word (kind_word_isWord "a")).then leads_any ?_
  rintro _ rfl
  refine (reads_word (kind_word_isWord "int")).then leads_any ?_
  rintro _ rfl
  refine (reads_sizePart {}).skip (leads_cons (by decide)) ?_
  rintro _ rfl
  exact hpart.map_eq

/-- The line of such a column, behind a line break. -/
theorem reads_itemDefault (h : Binary64.ofText? (String.ofList ds) = some x) :
    Reads tableItem (.mark '\n' :: columnTerminals (.number ds)) (· = some (.column (columnDefault x)))
      (· = .newline) := by
  refine reads_tableItem (word_kind_ne (w := "a") rfl) ?_
  rw [tableItemAt_column]
  exact (reads_columnDefault h).map_eq

theorem reads_tableDefault (h : Binary64.ofText? (String.ofList ds) = some x) :
    Reads table (tableTerminals (.number ds))
      (· = .ofItems "t" none none [.column (columnDefault x)]) Any := by
  have hlines : Reads (many tableItem)
      (([()].map fun _ => columnTerminals (.number ds)).flatMap (.mark '\n' :: ·) ++ [.mark '\n', .mark '\x7d'])
      (· = [()].map fun _ => .column (columnDefault x)) Any :=
    reads_lines (fun _ _ => reads_itemDefault h) reads_tableItem_end
  refine (reads_expect (k := .table) rfl).then leads_any fun _ _ => ?_
  have hname : Reads tableName [.word "t"] (· = ("t", none)) (· ≠ .dot) := reads_tableName "t" none
  have halias : Reads tableAlias [] (· = none) (· = .openBrace) := reads_tableAlias none
  refine hname.then (leads_cons (by decide)) ?_
  rintro _ rfl
  refine halias.skip (leads_cons rfl) ?_
  rintro _ rfl
  refine (reads_skipNewlines 0).skip (leads_cons (by decide)) fun _ _ => ?_
  refine (reads_expect (k := .openBrace) rfl).then leads_any fun _ _ => ?_
  exact hlines.map_eq

theorem reads_documentDefault (h : Binary64.ofText? (String.ofList ds) = some x) :
    Reads document (tableTerminals (.number ds) ++ [.mark '\n']) (· = .numberDefault x) (· = .endOfInput) := by
  have hstatement : Reads statement (tableTerminals (.number ds))
      (· = some (.table (.ofItems "t" none none [.column (columnDefault x)]))) Any := by
    rw [statement_eq]
    refine (reads_skipNewlines 0).skip (leads_cons (by decide)) fun _ _ => Reads.peek fun tok htok => ?_
    unfold statementAt
    rw [show tok.kind = .table from congrArg Terminal.kind htok]
    exact (reads_tableDefault h).map_eq
  have hmany : Reads (many statement) ([()].flatMap (fun _ => tableTerminals (.number ds)) ++ [.mark '\n'])
      (· = [()].map fun _ => .table (.ofItems "t" none none [.column (columnDefault x)])) (· = .endOfInput) :=
    Reads.many (fun _ _ => hstatement) (fun _ _ => List.cons_ne_nil _ _) (fun _ _ => leads_any)
      (reads_statement_end 1) leads_any
  exact hmany.map_eq

end Production

/-! ## Reprints -/

namespace Schema

/-- The print of a schema in normal form is read as that schema, defaults apart. -/
theorem Canonical.parse_print_eq {s : Schema} (h : s.Canonical) (hr : s.Readable) :
    parse s.print = .ok s.reread := by
  have hp := parse_print_reread h.named hr
  rwa [h.reread.normalized_eq] at hp

/-- A schema that a source declares is read back from its print exactly if its numeric defaults are finite. -/
theorem parse_print_iff {source : String} {s : Schema} (h : parse source = .ok s) :
    (∃ s', parse s.print = .ok s' ∧ (s' == s) = true) ↔ s.Finite := by
  obtain ⟨c, hd⟩ := parse_eq_ok.1 h
  have hc : s.Canonical := canonical_of_document hd
  constructor
  · rintro ⟨s', hs', heq⟩
    by_cases hr : s.Readable
    · rw [hc.parse_print_eq hr] at hs'
      cases hs'
      exact finite_of_reread heq
    · obtain ⟨e, he⟩ := parse_print_error hc.named hr
      rw [he] at hs'
      cases hs'
  · intro hf
    refine ⟨s, ?_, beq_self hc.real⟩
    have hp := hc.parse_print_eq hf.readable
    rwa [hf.reread_eq] at hp

/-- One and three hundred and nine zeros. -/
def overflowingDigits : List Char := '1' :: List.replicate 309 '0'

/-- A source that declares them as a default. -/
def overflowingText : List Char :=
  "Table t \x7b\n  a int [default: ".toList ++ overflowingDigits ++ "]\n\x7d\n".toList

/-- A literal beyond the range of numbers declares an infinity, which the print does not give back. -/
theorem parse_print_overflowing :
    parse (String.ofList overflowingText) = .ok (numberDefault (.infinity false)) ∧
      ¬∃ s', parse (numberDefault (.infinity false)).print = .ok s' ∧
        (s' == numberDefault (.infinity false)) = true := by
  have hvalue : Binary64.ofText? (String.ofList overflowingDigits) = some (.infinity false) := by
    rw [overflowingDigits, Binary64.ofText_digit _ rfl]
    decide +kernel
  have hterminals : terminals overflowingText =
      tableTerminals (.number overflowingDigits) ++ [.mark '\n'] := by decide +kernel
  have h : parse (String.ofList overflowingText) = .ok (numberDefault (.infinity false)) := by
    refine parse_of_reads ?_
    rw [String.toList_ofList, hterminals]
    exact reads_documentDefault hvalue
  refine ⟨h, fun hback => ?_⟩
  have hfinite := (parse_print_iff h).1 hback _ List.mem_cons_self _ List.mem_cons_self _ rfl
  exact absurd hfinite (by decide)

end Schema

end Erd
