import Erd.Proofs.Grammar.Image
import Erd.Proofs.Grammar.ReadBack

/-!
# The round trip of a schema

A schema whose names are words is read back from its print in normal form, whatever its notes, values and
string defaults hold.  An infinite default comes back as a word, and a negative infinity not at all.

    s.Named → s.Readable → parse s.print = .ok s.reread.normalized           (parse_print_reread)
    s.Named → ¬s.Readable → parse s.print is an error                         (parse_print_error)
    s.Named → s.Finite → parse s.print = .ok s.normalized                        (parse_print)
-/

namespace Erd

open Production

/-! ## Statements -/

namespace Statement

/-- What a statement is read as. -/
def declared : Statement → Statement
  | table d => .table ⟨d.table.declared, []⟩
  | st => st

def Readable : Statement → Prop
  | table d => d.table.Readable
  | _ => True

theorem exists_cons (st : Statement) : ∃ u us, st.terminals = u :: us ∧ u.kind ≠ .newline := by
  cases st with
  | table d => exact ⟨_, _, rfl, by decide⟩
  | enum e => exact ⟨_, _, rfl, by decide⟩
  | relation r => exact ⟨_, _, rfl, by decide⟩
  | group g => exact ⟨_, _, rfl, by decide⟩

end Statement

namespace Production

/-- The rest of a statement, which the kind of its first token tells. -/
def statementAt (t : Token) : Production (Option Statement) :=
  match t.kind with
  | .endOfInput => Pure.pure none
  | .table => table >>= fun d => Pure.pure (some (.table d))
  | .enum => enumeration >>= fun e => Pure.pure (some (.enum e))
  | .ref => relation >>= fun r => Pure.pure (some (.relation r))
  | .tableGroup => tableGroup >>= fun g => Pure.pure (some (.group g))
  | _ => throw ⟨.statement, t⟩

theorem statement_eq : statement = skipNewlines >>= fun _ => peek >>= statementAt := rfl

end Production

namespace Statement

theorem reads_first {st : Statement} (h : st.Readable) :
    Reads (peek >>= statementAt) st.terminals (· = some st.declared) Any := by
  unfold statementAt
  cases st with
  | table d =>
    refine Reads.peek fun tok htok => ?_
    rw [show tok.kind = .table from congrArg Terminal.kind htok]
    exact (Table.reads h).map_eq
  | enum e =>
    refine Reads.peek fun tok htok => ?_
    rw [show tok.kind = .enum from congrArg Terminal.kind htok]
    exact e.reads.map_eq
  | relation r =>
    refine Reads.peek fun tok htok => ?_
    rw [show tok.kind = .ref from congrArg Terminal.kind htok]
    exact r.reads.map_eq
  | group g =>
    refine Reads.peek fun tok htok => ?_
    rw [show tok.kind = .tableGroup from congrArg Terminal.kind htok]
    exact g.reads.map_eq

theorem reads {st : Statement} (h : st.Readable) (n : Nat) :
    Reads statement (List.replicate n (.mark '\n') ++ st.terminals) (· = some st.declared) Any := by
  obtain ⟨u, us, hu, hne⟩ := st.exists_cons
  rw [statement_eq]
  exact (reads_skipNewlines n).bind (by rw [hu]; exact leads_cons hne) fun _ _ => reads_first h

end Statement

theorem Production.reads_statement_end (n : Nat) :
    Reads statement (List.replicate n (.mark '\n')) (· = none) (· = .endOfInput) := by
  rw [← List.append_nil (List.replicate n _)]
  refine (reads_skipNewlines n).bind (leads_nil fun k hk => by rw [hk]; decide) fun _ _ => ?_
  intro c t rest hc ht
  obtain ⟨tok, -, htok, -, hp, -⟩ := terminals_eq_cons hc
  have hk : c.peek.kind = .endOfInput := by
    rw [hp, ← ht]
    exact congrArg Terminal.kind htok
  rw [peek_bind, hk]
  exact ⟨none, c, rfl, rfl, hc⟩

/-- Statements behind so many line breaks each, and line breaks behind the last. -/
theorem Spread.exists_counts {sts : List Statement} {ts : List Terminal} (h : Spread sts ts) :
    ∃ (xs : List (Nat × Statement)) (m : Nat), xs.map Prod.snd = sts ∧
      ts = xs.flatMap (fun x => List.replicate x.1 (.mark '\n') ++ x.2.terminals) ++
        List.replicate m (.mark '\n') := by
  induction h with
  | nil => exact ⟨[], 0, rfl, rfl⟩
  | lineEnd _ ih =>
    obtain ⟨xs, m, rfl, rfl⟩ := ih
    cases xs with
    | nil => exact ⟨[], m + 1, rfl, rfl⟩
    | cons x xs => exact ⟨(x.1 + 1, x.2) :: xs, m, rfl, rfl⟩
  | cons st _ ih =>
    obtain ⟨xs, m, rfl, rfl⟩ := ih
    exact ⟨(0, st) :: xs, m, rfl, by simp⟩

theorem Spread.reads {sts : List Statement} {ts : List Terminal} (h : Spread sts ts)
    (hr : ∀ st ∈ sts, st.Readable) :
    Reads (many statement) ts (· = sts.map Statement.declared) (· = .endOfInput) := by
  obtain ⟨xs, m, rfl, rfl⟩ := h.exists_counts
  have hmany : Reads (many statement)
      (xs.flatMap (fun x => List.replicate x.1 (.mark '\n') ++ x.2.terminals) ++ List.replicate m (.mark '\n'))
      (· = xs.map fun x => x.2.declared) (· = .endOfInput) := by
    refine Reads.many (F := Any) (fun x hx => Statement.reads (hr _ (List.mem_map_of_mem hx)) x.1) ?_
      (fun _ _ => leads_any) (reads_statement_end m) leads_any
    intro x _ hnil
    obtain ⟨u, us, hu, -⟩ := x.2.exists_cons
    rw [hu] at hnil
    exact List.cons_ne_nil _ _ (List.append_eq_nil_iff.1 hnil).2
  rwa [List.map_map]

/-! ## Schemas -/

/-- The column with its default as it is read. -/
def Column.reread (c : Column) : Column :=
  { c with settings := { c.settings with default := c.settings.default.map DefaultValue.reread } }

def Table.reread (t : Table) : Table := { t with columns := t.columns.map Column.reread }

namespace Schema

/-- The schema with its defaults as they are read. -/
def reread (s : Schema) : Schema := { s with tables := s.tables.map Table.reread }

/-- No default is a negative infinity. -/
def Readable (s : Schema) : Prop := ∀ t ∈ s.tables, t.Readable

/-- Every numeric default is a finite number. -/
def Finite (s : Schema) : Prop :=
  ∀ t ∈ s.tables, ∀ c ∈ t.columns, ∀ x, c.settings.default = some (.number x) → x.isFinite = true

theorem Readable.statements {s : Schema} (h : s.Readable) : ∀ st ∈ s.statements, st.Readable := by
  intro st hst
  simp only [Schema.statements, List.mem_append, List.mem_map] at hst
  rcases hst with ((⟨e, -, rfl⟩ | ⟨t, ht, rfl⟩) | ⟨r, -, rfl⟩) | ⟨g, -, rfl⟩
  · trivial
  · exact h t ht
  · trivial
  · trivial

end Schema

theorem Column.resolveEnum_declared (c : Column) (enums : List Enumeration) :
    c.declared.resolveEnum enums = c.reread.normalized enums := by
  have hsettings : c.reread.settings.normalSize =
      { c.settings.normalSize with default := c.settings.default.map DefaultValue.reread } := by
    obtain ⟨_, _, _, _, _, _, _, _, _, length, precision, scale, _⟩ := c
    cases precision <;> cases scale <;> rfl
  have hname : c.reread.displayType = c.displayType := rfl
  unfold normalized typeNamed valuesNamed enumNamed? resolveEnum declared
  rw [hsettings, hname]
  dsimp only
  cases enums.find? (·.name == c.displayType) with
  | none => rfl
  | some e => rfl

theorem Table.resolveEnums_declared (t : Table) (enums : List Enumeration) :
    { t.declared with columns := t.declared.columns.map (Column.resolveEnum enums) } =
      t.reread.normalized enums := by
  have hcolumns : t.declared.columns.map (Column.resolveEnum enums) =
      t.reread.columns.map (Column.normalized enums) := by
    unfold declared reread
    dsimp only
    rw [List.map_map, List.map_map]
    exact List.map_congr_left fun c _ => c.resolveEnum_declared enums
  rw [hcolumns]
  rfl

theorem Schema.ofStatements_declared (s : Schema) :
    ofStatements (s.statements.map Statement.declared) = s.reread.normalized := by
  have hmap : s.statements.map Statement.declared =
      s.enums.map .enum ++ s.tables.map (fun t => .table ⟨t.declared, []⟩) ++ s.relations.map .relation ++
        s.groups.map .group := by
    unfold statements
    simp only [List.map_append, List.map_map]
    rfl
  have htables : (s.statements.map Statement.declared).filterMap Statement.table? =
      s.tables.map Table.declared := by
    rw [hmap]
    simp [List.filterMap_map, Function.comp_def, Statement.table?]
  have hrelations : (s.statements.map Statement.declared).flatMap Statement.relations = s.relations := by
    have hnil {α : Type} (xs : List α) : (xs.flatMap fun _ => ([] : List Relation)) = [] :=
      List.flatMap_eq_nil_iff.2 fun _ _ => rfl
    rw [hmap]
    simp [List.flatMap_map, Statement.relations, hnil]
  have henums : (s.statements.map Statement.declared).filterMap Statement.enum? = s.enums := by
    rw [hmap]
    simp [List.filterMap_map, Function.comp_def, Statement.enum?]
  have hgroups : (s.statements.map Statement.declared).filterMap Statement.group? = s.groups := by
    rw [hmap]
    simp [List.filterMap_map, Function.comp_def, Statement.group?]
  have hresolved : (s.tables.map Table.declared).map (fun t =>
      { t with columns := t.columns.map (Column.resolveEnum s.enums) }) =
        (s.tables.map Table.reread).map (Table.normalized s.enums) := by
    rw [List.map_map, List.map_map]
    exact List.map_congr_left fun t _ => t.resolveEnums_declared s.enums
  unfold ofStatements declared resolveEnums
  rw [htables, hrelations, henums, hgroups]
  dsimp only
  rw [hresolved]
  rfl

namespace Schema

/-- A source that begins with the terminals of a document. -/
theorem parse_of_reads {source : String} {s : Schema} (h : Reads document (terminals source.toList) (· = s)
    (· = .endOfInput)) : parse source = .ok s := by
  have hc : (Cursor.ofTokens (tokenize source)).terminals = terminals source.toList ++ [.endOfText] :=
    terminal_tokenize source
  obtain ⟨_, c, e, rfl, -⟩ := h _ .endOfText [] hc rfl
  exact parse_eq_ok.2 ⟨c, e⟩

/-- The print of a schema is read as its normal form. -/
theorem parse_print_reread {s : Schema} (hn : s.Named) (hr : s.Readable) :
    parse s.print = .ok s.reread.normalized := by
  refine parse_of_reads (((spread_print hn).reads hr.statements).map ?_)
  rintro _ rfl
  exact s.ofStatements_declared

theorem Finite.readable {s : Schema} (h : s.Finite) : s.Readable := by
  intro t ht c hc v hv heq
  subst heq
  have hfinite := h t ht c hc _ hv
  exact absurd hfinite (by decide)

/-- Finite numbers are read as they are written. -/
theorem Finite.reread_eq {s : Schema} (h : s.Finite) : s.reread = s := by
  have hcolumn : ∀ t ∈ s.tables, ∀ c ∈ t.columns, c.reread = c := by
    intro t ht c hc
    have hdefault : c.settings.default.map DefaultValue.reread = c.settings.default := by
      cases hd : c.settings.default with
      | none => rfl
      | some v =>
        have hv : v.reread = v := by
          refine DefaultValue.reread_eq ?_
          rintro x rfl
          exact h t ht c hc x hd
        rw [Option.map_some, hv]
    unfold Column.reread
    rw [hdefault]
  have htable : ∀ t ∈ s.tables, t.reread = t := by
    intro t ht
    unfold Table.reread
    rw [List.map_congr_left (hcolumn t ht), List.map_id']
  unfold reread
  rw [List.map_congr_left htable, List.map_id']

/-- The print of a schema whose numeric defaults are finite is read as its normal form. -/
theorem parse_print {s : Schema} (hn : s.Named) (hf : s.Finite) : parse s.print = .ok s.normalized := by
  have h := parse_print_reread hn hf.readable
  rwa [hf.reread_eq] at h

/-- Names that are keywords, and texts that would end a literal, a line or a comment. -/
def hostileTexts : Schema :=
  { tables :=
      [{ name := "Table"
         schema := some "Ref"
         columns :=
           [{ name := "note", type := .int
              settings := { default := some (.string "x')]"), length := some 3, scale := some 1 } },
            { name := "size", type := .int, rawType := some "Enum"
              settings := { default := some (.number ⟨0xC00C000000000000⟩) } }]
         indexes := [{ columns := [] }, { name := some "\x7d", columns := ["note"], type := some "/*" }]
         note := some "'\\\n\x7d\nTable t \x7b // " }]
    enums := [⟨"Enum", [⟨"]", some "'"⟩]⟩]
    name := some "shop" }

theorem parse_hostileTexts :
    hostileTexts.Named ∧ hostileTexts.Finite ∧ parse hostileTexts.print = .ok hostileTexts.normalized := by
  have hn : hostileTexts.Named := by
    refine ⟨?_, nofun, ?_, nofun⟩
    · intro t ht
      obtain rfl := List.mem_singleton.1 ht
      refine ⟨by decide, by decide, nofun, ?_, by decide⟩
      intro c hc
      simp only [List.mem_cons, List.not_mem_nil, or_false] at hc
      rcases hc with rfl | rfl
      · exact ⟨by decide, by decide⟩
      · exact ⟨by decide, by decide⟩
    · decide
  have hf : hostileTexts.Finite := by
    intro t ht c hc x hx
    obtain rfl := List.mem_singleton.1 ht
    simp only [List.mem_cons, List.not_mem_nil, or_false] at hc
    rcases hc with rfl | rfl
    · cases hx
    · cases hx
      decide
  exact ⟨hn, hf, parse_print hn hf⟩

end Schema

end Erd
