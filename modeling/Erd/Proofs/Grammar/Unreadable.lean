import Erd.Proofs.Grammar.RoundTrip

/-!
# Defaults that are not read back

A minus sign in front of a word is no default value, so the print of a schema with a negative infinity among
its defaults is refused: at its first such column, whatever stands before or behind it.

    ¬c.settings.Readable → Fails column c.terminals                            (Column.fails)
    ¬t.Readable → Fails table t.terminals                                      (Table.fails)
    s.Named → ¬s.Readable → ∃ e, parse s.print = .error e                      (parse_print_error)
-/

namespace Erd

open Production

/-- The first of a list that is not as it should be. -/
theorem exists_first {α : Type} {P : α → Prop} {xs : List α} (h : ¬∀ x ∈ xs, P x) :
    ∃ front x back, xs = front ++ x :: back ∧ (∀ y ∈ front, P y) ∧ ¬P x := by
  induction xs with
  | nil => exact absurd nofun h
  | cons x xs ih =>
    by_cases hx : P x
    · have htail : ¬∀ y ∈ xs, P y := by
        intro hall
        refine h fun y hy => ?_
        rcases List.mem_cons.1 hy with rfl | hy
        · exact hx
        · exact hall y hy
      obtain ⟨front, y, back, rfl, hfront, hy⟩ := ih htail
      refine ⟨x :: front, y, back, rfl, ?_, hy⟩
      intro z hz
      rcases List.mem_cons.1 hz with rfl | hz
      · exact hx
      · exact hfront z hz
    · exact ⟨[], x, xs, rfl, nofun, hx⟩

/-! ## Columns -/

theorem SettingItem.fails : Fails setting (SettingItem.default (.number (.infinity true))).terminals := by
  have hts : (DefaultValue.number (.infinity true)).terminals = [.mark '-', .word "inf"] :=
    (DefaultValue.lexesTo_infinity true).spells.terminals_eq
  have hvalue : Fails (settingAfter "default")
      (.mark ':' :: (DefaultValue.number (.infinity true)).terminals) := by
    refine (reads_accept (k := .colon) rfl).then_fails (by simp [hts]) ?_
    rintro _ rfl
    exact DefaultValue.fails_negativeInfinity.bind
  refine (reads_word (kind_word_isWord "default")).then_fails (List.cons_ne_nil _ _) ?_
  rintro _ rfl
  rw [show asciiLower (Terminal.word "default").value = "default" by decide]
  exact hvalue

theorem ColumnSettings.settingPart_fails {s : ColumnSettings} (h : ¬s.Readable) :
    ∃ us, bracketTerminals SettingItem.terminals s.items = .mark '[' :: us ∧
      Fails settingPart (.mark '[' :: us) := by
  obtain ⟨v, hv, hbad⟩ : ∃ v, s.default = some v ∧ v = .number (.infinity true) := by
    unfold Readable at h
    cases hd : s.default with
    | none => exact absurd (by rw [hd]; nofun) h
    | some v =>
      refine ⟨v, rfl, Decidable.byContradiction fun hne => h ?_⟩
      rintro _ hv
      cases hd.symm.trans hv
      exact hne
  have hmem : SettingItem.default v ∈ s.items := by simp [items, hv]
  obtain ⟨front, i, back, hitems, hfront, hi⟩ :=
    exists_first fun hall : ∀ i ∈ s.items, i.Printed => (hall _ hmem) hbad
  have hiv : i = .default (.number (.infinity true)) := by
    rcases mem_items (hitems ▸ List.mem_append_right front List.mem_cons_self) with hp | ⟨w, hw, rfl⟩
    · exact absurd hp hi
    · cases hv.symm.trans hw
      rw [hbad]
  subst hiv
  have hne : s.items ≠ [] := List.ne_nil_of_mem hmem
  refine ⟨_, if_neg (by simpa using hne), ?_⟩
  rw [hitems]
  refine (reads_accept (k := .openBracket) rfl).then_fails (by simp) ?_
  rintro _ rfl
  have hlist : Fails (commaList setting)
      (commaTerminals SettingItem.terminals (front ++ .default (.number (.infinity true)) :: back)) :=
    Reads.commaList_fails (fun j hj => SettingItem.reads (hfront j hj)) (Or.inl rfl) (List.cons_ne_nil _ _)
      SettingItem.fails
  exact hlist.append.bind

theorem Column.fails {c : Column} (h : ¬c.settings.Readable) : Fails column c.terminals := by
  obtain ⟨us, hus, hpart⟩ := ColumnSettings.settingPart_fails h
  unfold terminals
  rw [hus]
  refine (reads_word (kind_word_isWord c.name)).then_fails (List.cons_ne_nil _ _) ?_
  rintro _ rfl
  refine (reads_word (kind_word_isWord c.displayType)).then_fails (by simp) ?_
  rintro _ rfl
  refine (reads_sizePart c.settings).bind_fails (G := Any) (List.cons_ne_nil _ _) (leads_cons (by decide)) ?_
  rintro _ rfl
  exact hpart.bind

/-! ## Tables -/

theorem TableItem.fails {c : Column} (h : ¬c.settings.Readable) :
    Fails tableItem (.mark '\n' :: c.item.terminals) := by
  have hcolumn := (Column.fails h).bind (f := fun d => Pure.pure (some (TableItem.column d)))
  rw [tableItem_eq]
  refine (reads_skipNewlines 1).bind_fails (G := Any) (List.cons_ne_nil _ _) (leads_cons (word_kind_ne rfl))
    fun _ _ => Fails.peek fun tok htok => Fails.second fun tok' htok' => ?_
  rw [show tok.kind = _ from congrArg Terminal.kind htok, show tok'.kind = _ from congrArg Terminal.kind htok',
    tableItemAt_column]
  exact hcolumn

/-- A body with a line that fails behind lines that do not. -/
theorem Production.lines_fails {ι α : Type} {step : Production (Option α)} {front back : List ι} {x : ι}
    {g : ι → List Terminal} {v : ι → α}
    (hx : ∀ y ∈ front, Reads step (.mark '\n' :: g y) (· = some (v y)) (· = .newline))
    (hf : Fails step (.mark '\n' :: g x)) :
    Fails (many step)
      (((front ++ x :: back).map g).flatMap (.mark '\n' :: ·) ++ [.mark '\n', .mark '\x7d']) := by
  have hmany := Reads.many_fails (G := Any) hx (fun _ _ => List.cons_ne_nil _ _) (fun _ _ => leads_cons rfl)
    (List.cons_ne_nil _ _) (leads_cons rfl) hf
  have hshape : ((front ++ x :: back).map g).flatMap (.mark '\n' :: ·) ++ [.mark '\n', .mark '\x7d'] =
      (front.flatMap (fun y => .mark '\n' :: g y) ++ .mark '\n' :: g x) ++
        ((back.map g).flatMap (.mark '\n' :: ·) ++ [.mark '\n', .mark '\x7d']) := by
    simp [List.flatMap_map]
  rw [hshape]
  exact hmany.append

theorem Table.fails {t : Table} (h : ¬t.Readable) : Fails table t.terminals := by
  obtain ⟨front, c, back, hcolumns, hfront, hc⟩ := exists_first h
  obtain ⟨more, hitems⟩ : ∃ more, t.items = front.map Column.item ++ c.item :: more := by
    unfold items
    rw [hcolumns, List.map_append, List.map_cons, List.append_assoc, List.append_assoc, List.cons_append]
    exact ⟨_, rfl⟩
  have hlines : Fails (many tableItem) ((t.items.map TableItem.terminals).flatMap (.mark '\n' :: ·) ++
      [.mark '\n', .mark '\x7d']) := by
    rw [hitems]
    refine lines_fails (v := TableItem.declared) ?_ (TableItem.fails hc)
    intro i hi
    obtain ⟨d, hd, rfl⟩ := List.mem_map.1 hi
    exact TableItem.reads (hfront d hd)
  rw [terminals_eq]
  refine (reads_expect (k := .table) rfl).then_fails (by simp) fun _ _ => ?_
  refine (reads_tableName t.name t.schema).bind_fails (G := Any) (by simp [bodyTerminals]) t.leads_alias ?_
  rintro _ rfl
  refine (reads_tableAlias t.shortName).bind_fails (G := Any) (List.cons_ne_nil _ _) (leads_cons rfl) ?_
  rintro _ rfl
  refine (reads_skipNewlines 0).bind_fails (G := Any) (List.cons_ne_nil _ _) (leads_cons (by decide))
    fun _ _ => ?_
  exact (reads_expect (k := .openBrace) rfl).then_fails (by simp) fun _ _ => hlines.bind

/-! ## Schemas -/

theorem Statement.fails {st : Statement} (h : ¬st.Readable) (n : Nat) :
    Fails statement (List.replicate n (.mark '\n') ++ st.terminals) := by
  obtain ⟨u, us, hu, hne⟩ := st.exists_cons
  rw [statement_eq]
  refine (reads_skipNewlines n).bind_fails (G := Any) (by simp [hu]) (by rw [hu]; exact leads_cons hne)
    fun _ _ => ?_
  cases st with
  | table d =>
    refine Fails.peek fun tok htok => ?_
    unfold statementAt
    rw [show tok.kind = .table from congrArg Terminal.kind htok]
    exact (Table.fails h).bind
  | enum e => exact absurd trivial h
  | relation r => exact absurd trivial h
  | group g => exact absurd trivial h

theorem Spread.fails {sts : List Statement} {ts : List Terminal} (h : Spread sts ts)
    (hr : ¬∀ st ∈ sts, st.Readable) : Fails (many statement) ts := by
  obtain ⟨xs, m, rfl, rfl⟩ := h.exists_counts
  have hall : ¬∀ x ∈ xs, x.2.Readable := by
    intro hall
    refine hr fun st hst => ?_
    obtain ⟨x, hx, rfl⟩ := List.mem_map.1 hst
    exact hall x hx
  obtain ⟨front, x, back, rfl, hfront, hx⟩ := exists_first hall
  have hne (x : Nat × Statement) : List.replicate x.1 (Terminal.mark '\n') ++ x.2.terminals ≠ [] := by
    obtain ⟨u, us, hu, -⟩ := x.2.exists_cons
    simp [hu]
  have hmany := Reads.many_fails (F := Any) (G := Any) (fun y hy => Statement.reads (hfront y hy) y.1)
    (fun y _ => hne y) (fun _ _ => leads_any) (hne x) leads_any (Statement.fails hx x.1)
  rw [List.flatMap_append, List.flatMap_cons, List.append_assoc, List.append_assoc, ← List.append_assoc]
  exact hmany.append

namespace Schema

theorem readable_of_statements {s : Schema} (h : ∀ st ∈ s.statements, st.Readable) : s.Readable := by
  intro t ht
  refine h t.statement ?_
  simp only [Schema.statements, List.mem_append, List.mem_map]
  exact Or.inl (Or.inl (Or.inr ⟨t, ht, rfl⟩))

/-- The print of a schema with a negative infinity among its defaults is refused. -/
theorem parse_print_error {s : Schema} (hn : s.Named) (hr : ¬s.Readable) : ∃ e, parse s.print = .error e := by
  have hfails := ((spread_print hn).fails fun h => hr (readable_of_statements h)).bind
    (f := fun sts => Pure.pure (ofStatements sts))
  obtain ⟨e, c, he⟩ := hfails (.ofTokens (tokenize s.print)) [.endOfText] (terminal_tokenize s.print)
  refine ⟨e, ?_⟩
  unfold parse ofTokens
  rw [show document _ = _ from he]

end Schema

end Erd
