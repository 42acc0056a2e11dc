import Erd.Proofs.Grammar.Yielding
import Erd.Proofs.Schema.Canonical

/-!
# The image of the reader

What a source declares is canonical.  Every production is followed with what it yields off scanned
tokens, up to the columns that are resolved against the enumerations of the whole schema.

    Yields column ColumnDeclaration.Declared                                       (yields_column)
    Yields document Schema.Canonical                                             (yields_document)
    Schema.parse source = .ok s → s.Canonical                                    (parse_canonical)
-/

namespace Erd

/-! ## Declarations -/

/-- What an item between brackets may say. -/
structure SettingItem.Declared (i : SettingItem) : Prop where
  default : ∀ v, i = .default v → v.Real
  reference : ∀ type target, i = .reference type target → target.Named

/-- A column before its type is looked up, and the relations at it. -/
structure ColumnDeclaration.Declared (d : ColumnDeclaration) : Prop where
  column : d.column.Canonical []
  references : ∀ r ∈ d.references, r.2.Named

structure TableDeclaration.Declared (d : TableDeclaration) : Prop where
  table : d.table.Canonical []
  relations : ∀ r ∈ d.relations, r.Named

/-- What an item of the body of a table may say. -/
structure TableItem.Declared (i : TableItem) : Prop where
  column : ∀ d, i = .column d → d.Declared
  indexes : ∀ entries, i = .indexes entries → ∀ e ∈ entries, e.Canonical

def Statement.Declared : Statement → Prop
  | .table d => d.Declared
  | .enum e => IsWord e.name
  | .relation r => r.Named
  | .group g => g.Named

/-! ## Columns -/

namespace ColumnSettings

/-- The part of the settings that no item writes is kept, and a default stays a number. -/
structure Keeps (s s' : ColumnSettings) : Prop where
  length : s'.length = s.length
  precision : s'.precision = s.precision
  scale : s'.scale = s.scale
  enumValues : s'.enumValues = s.enumValues
  default : (∀ v ∈ s.default, v.Real) → ∀ v ∈ s'.default, v.Real

theorem Keeps.refl (s : ColumnSettings) : s.Keeps s := ⟨rfl, rfl, rfl, rfl, id⟩

theorem Keeps.trans {s s' s'' : ColumnSettings} (h : s.Keeps s') (h' : s'.Keeps s'') : s.Keeps s'' :=
  ⟨h'.length.trans h.length, h'.precision.trans h.precision, h'.scale.trans h.scale,
    h'.enumValues.trans h.enumValues, fun hd => h'.default (h.default hd)⟩

theorem keeps_withItem (s : ColumnSettings) {i : SettingItem} (h : i.Declared) : s.Keeps (s.withItem i) := by
  cases i with
  | default v => exact ⟨rfl, rfl, rfl, rfl, fun _ => by rintro _ ⟨⟩; exact h.default v rfl⟩
  | _ => exact ⟨rfl, rfl, rfl, rfl, id⟩

theorem keeps_foldl (s : ColumnSettings) {items : List SettingItem} (h : ∀ i ∈ items, i.Declared) :
    s.Keeps (items.foldl withItem s) := by
  induction items generalizing s with
  | nil => exact .refl s
  | cons i items ih =>
    exact (keeps_withItem s (h i List.mem_cons_self)).trans
      (ih _ fun j hj => h j (List.mem_cons_of_mem i hj))

theorem sized_withSize (size : ColumnSize) : (withSize {} size).Sized := by
  cases size with
  | length n => exact ⟨rfl, nofun⟩
  | precision p q => exact ⟨rfl, fun _ => rfl⟩

end ColumnSettings

theorem ColumnDeclaration.declared_ofItems {name type : String} (hn : IsWord name) (ht : IsWord type)
    (size : Option ColumnSize) {items : List SettingItem} (hi : ∀ i ∈ items, i.Declared) :
    (ofItems name type size items).Declared := by
  -- the settings before the items: nothing but a size
  obtain ⟨start, hstart, hs, hv, hd⟩ : ∃ start : ColumnSettings,
      (ofItems name type size items).column.settings = items.foldl .withItem start ∧
        start.Sized ∧ start.enumValues = none ∧ start.default = none := by
    cases size with
    | none => exact ⟨{}, rfl, ⟨rfl, nofun⟩, rfl, rfl⟩
    | some size =>
      refine ⟨_, rfl, ColumnSettings.sized_withSize size, ?_, ?_⟩
      · cases size <;> rfl
      · cases size <;> rfl
  have hk := ColumnSettings.keeps_foldl start hi
  rw [← hstart] at hk
  refine ⟨⟨hn, ⟨type, rfl, ht, rfl, hk.enumValues.trans hv⟩, ⟨?_, ?_⟩, ?_⟩, ?_⟩
  · rw [hk.precision, hk.scale]
    exact hs.together
  · rw [hk.precision, hk.length]
    exact hs.length
  · exact hk.default (by rw [hd]; nofun)
  · intro r hr
    obtain ⟨i, hmem, he⟩ := List.mem_filterMap.1 hr
    cases i with
    | reference type target => cases he; exact (hi _ hmem).reference type target rfl
    | _ => cases he

namespace Production

theorem yields_relationType : Yields relationType (fun _ => True) := by
  refine yields_peek.bind fun t _ => ?_
  split
  · exact yields_advance.bind fun _ _ => Yields.pure trivial
  · exact yields_expected

theorem yields_endpoint : Yields endpoint Endpoint.Named := by
  refine yields_word.bind fun table ht => ?_
  refine yields_expect.bind fun _ _ => ?_
  exact yields_word.bind fun column hc => Yields.pure ⟨ht, hc⟩

/-- A number token has a digit in front, so it is no NaN. -/
theorem yields_numberOf {t : Token} (h : t.terminal.Scanned) (hk : t.kind = .number) :
    Yields (numberOf t) (·.isNaN = false) := by
  obtain ⟨d, ds, hv, hd⟩ := h.number hk
  have hv' : t.value = String.ofList (d :: ds) := by
    rw [← show t.value.toList = d :: ds from hv, String.ofList_toList]
  unfold numberOf
  split
  · next x hx =>
    rw [hv'] at hx
    exact Yields.pure (Binary64.isNaN_ofText hd hx)
  · exact Yields.throw

theorem yields_callPiece : Yields callPiece (fun _ => True) := by
  have hadv (o : Option String) : Yields (advance >>= fun _ => Pure.pure o) (fun _ => True) :=
    yields_advance.bind fun _ _ => Yields.pure trivial
  refine yields_peek.bind fun t _ => ?_
  split
  · exact hadv _
  · exact yields_expected
  · exact yields_expected
  · exact yields_expected
  · exact hadv _
  · exact hadv _
  · exact hadv _

theorem yields_wordValue (w : String) : Yields (wordValue w) DefaultValue.Real := by
  have hargs : Yields callArguments (fun _ => True) :=
    yields_expect.bind fun _ _ =>
      (Yields.many (P := fun _ => True) (yields_callPiece.mono fun _ _ _ _ => trivial)).bind
        fun _ _ => Yields.pure trivial
  refine (Yields.pure nofun).ite ((Yields.pure nofun).ite ((Yields.pure nofun).ite ?_))
  refine yields_check.bind fun _ _ => Yields.ite ?_ (Yields.pure nofun)
  exact hargs.bind fun _ _ => Yields.pure nofun

/-- The token behind the sign is the one that was looked at. -/
theorem yields_negative {Q : DefaultValue → Prop} {q : Production DefaultValue} (hq : Yields q Q)
    {f : Token → Production DefaultValue}
    (hf : ∀ t : Token, t.terminal.Scanned → t.kind = .number → Yields (f t) Q) :
    Yields (second >>= fun t => if t.kind = .number then advance >>= fun _ => next >>= f else q) Q := by
  intro c v c' hc e
  rw [second_bind] at e
  split at e
  · next hk => exact hf c.second hc.second hk c.advance.advance v c' hc.advance.advance e
  · exact hq c v c' hc e

theorem yields_defaultValue : Yields defaultValue DefaultValue.Real := by
  refine yields_peek.bind fun t ht => ?_
  split
  · exact yields_advance.bind fun _ _ => Yields.pure nofun
  · next hk =>
    refine yields_advance.bind fun _ _ => (yields_numberOf ht hk).bind fun x hx => Yields.pure ?_
    rintro _ ⟨⟩
    exact hx
  · refine yields_negative yields_expected fun t ht hk => ?_
    refine (yields_numberOf ht hk).bind fun x hx => Yields.pure ?_
    rintro _ ⟨⟩
    rw [Binary64.isNaN_neg]
    exact hx
  · exact (yields_advance.bind fun _ _ => yields_wordValue _).ite yields_expected

/-! ## Settings and columns -/

/-- The rest of a setting that says nothing of a default or a target. -/
theorem declared_plain {i : SettingItem} (h : ∀ v, i ≠ .default v) (h' : ∀ ty e, i ≠ .reference ty e) :
    i.Declared :=
  ⟨fun v e => absurd e (h v), fun ty target e => absurd e (h' ty target)⟩

theorem yields_ignoredSetting : Yields ignoredSetting SettingItem.Declared := by
  have hi : Yields (Pure.pure .ignored) SettingItem.Declared := Yields.pure (declared_plain nofun nofun)
  refine yields_accept.bind fun _ _ => Yields.ite ?_ hi
  exact yields_peek.bind fun _ _ => hi.ite (yields_advance.bind fun _ _ => hi)

theorem yields_settingAfter (key : String) : Yields (settingAfter key) SettingItem.Declared := by
  have hplain {i : SettingItem} (h : ∀ v, i ≠ .default v) (h' : ∀ ty e, i ≠ .reference ty e) :
      Yields (Pure.pure i) SettingItem.Declared := Yields.pure (declared_plain h h')
  unfold settingAfter
  split
  · exact yields_acceptWord.bind fun _ _ => hplain nofun nofun
  · exact yields_acceptWord.bind fun _ _ => hplain nofun nofun
  · exact yields_acceptWord.bind fun _ _ => hplain nofun nofun
  · exact hplain nofun nofun
  · exact hplain nofun nofun
  · exact hplain nofun nofun
  · exact yields_acceptWord.bind fun _ _ => Yields.ite (hplain nofun nofun) yields_expected
  · exact hplain nofun nofun
  · exact hplain nofun nofun
  · exact hplain nofun nofun
  · refine yields_accept.bind fun _ _ => Yields.ite ?_ (hplain nofun nofun)
    refine yields_defaultValue.bind fun v hv => Yields.pure ⟨?_, nofun⟩
    rintro _ ⟨⟩
    exact hv
  · exact yields_expect.bind fun _ _ => yields_string.bind fun _ _ => hplain nofun nofun
  · refine yields_expect.bind fun _ _ => yields_relationType.bind fun type _ => ?_
    refine yields_endpoint.bind fun target ht => Yields.pure ⟨nofun, ?_⟩
    rintro _ _ ⟨⟩
    exact ht
  · exact yields_ignoredSetting

theorem yields_setting : Yields setting SettingItem.Declared :=
  yields_word.bind fun _ _ => yields_settingAfter _

theorem yields_sizeNumber : Yields sizeNumber (fun _ => True) := by
  refine yields_expect.bind fun t _ => ?_
  split
  · exact Yields.pure trivial
  · exact Yields.throw

theorem yields_sizePart : Yields sizePart (fun _ => True) := by
  refine yields_accept.bind fun _ _ => Yields.ite ?_ (Yields.pure trivial)
  refine Yields.bind (P := fun _ => True) ?_ fun _ _ => Yields.pure trivial
  refine yields_sizeNumber.bind fun _ _ => yields_accept.bind fun _ _ => Yields.ite ?_ ?_
  · exact yields_sizeNumber.bind fun _ _ => yields_expect.bind fun _ _ => Yields.pure trivial
  · exact yields_expect.bind fun _ _ => Yields.pure trivial

theorem yields_settingPart : Yields settingPart fun items => ∀ i ∈ items, i.Declared := by
  refine yields_accept.bind fun _ _ => Yields.ite ?_ (Yields.pure nofun)
  refine yields_setting.commaList.bind fun items hi => ?_
  exact yields_expect.bind fun _ _ => Yields.pure hi.2

theorem yields_column : Yields column ColumnDeclaration.Declared := by
  refine yields_word.bind fun name hn => yields_word.bind fun type ht => ?_
  refine yields_sizePart.bind fun size _ => yields_settingPart.bind fun items hi => ?_
  exact Yields.pure (ColumnDeclaration.declared_ofItems hn ht size hi)

end Production

/-! ## Tables -/

theorem Index.columns_ofItems (columns : List String) (items : List IndexItem) :
    (ofItems columns items).columns = columns := by
  have hfold (i : Index) : (items.foldl withItem i).columns = i.columns := by
    induction items generalizing i with
    | nil => rfl
    | cons item items ih =>
      rw [List.foldl_cons, ih]
      cases item <;> rfl
  exact hfold { columns }

theorem TableDeclaration.declared_ofItems {name : String} {schema shortName : Option String}
    {items : List TableItem} (hn : IsWord name) (hs : ∀ s ∈ schema, IsWord s)
    (ha : ∀ a ∈ shortName, IsWord a) (hi : ∀ i ∈ items, i.Declared) :
    (ofItems name schema shortName items).Declared := by
  have hcol : ∀ d ∈ items.filterMap TableItem.column?, d.Declared := by
    intro d hd
    obtain ⟨i, hmem, he⟩ := List.mem_filterMap.1 hd
    cases i with
    | column d => cases he; exact (hi _ hmem).column d rfl
    | _ => cases he
  refine ⟨⟨hn, hs, ha, ?_, ?_⟩, ?_⟩
  · intro c hc
    obtain ⟨d, hd, rfl⟩ := List.mem_map.1 hc
    exact (hcol d hd).column
  · -- the last block of indexes, if there is one
    intro e he
    cases hlast : (items.filterMap TableItem.indexes?).getLast? with
    | none => simp [ofItems, hlast] at he
    | some entries =>
      obtain ⟨i, hmem, hi'⟩ := List.mem_filterMap.1 (List.mem_of_getLast? hlast)
      simp only [ofItems, hlast, Option.getD_some] at he
      cases i with
      | indexes entries => cases hi'; exact (hi _ hmem).indexes entries rfl e he
      | _ => cases hi'
  · intro r hr
    obtain ⟨d, hd, hr⟩ := List.mem_flatMap.1 hr
    obtain ⟨⟨type, target⟩, ht, rfl⟩ := List.mem_map.1 hr
    exact ⟨nofun, ⟨hn, (hcol d hd).column.name⟩, (hcol d hd).references _ ht⟩

namespace Production

theorem yields_indexSetting : Yields indexSetting (fun _ => True) := by
  refine yields_word.bind fun _ _ => Yields.bind (P := fun _ => True) ?_ fun _ _ => Yields.pure trivial
  refine yields_accept.bind fun _ _ => Yields.ite ?_ (Yields.pure trivial)
  exact yields_peek.bind fun _ _ =>
    (yields_next.bind fun _ _ => Yields.pure trivial).ite yields_expected

theorem yields_indexOn {columns : List String} (hne : columns ≠ []) (hc : ∀ c ∈ columns, IsWord c) :
    Yields (indexOn columns) Index.Canonical := by
  have hof (items : List IndexItem) : (Index.ofItems columns items).Canonical := by
    have h := Index.columns_ofItems columns items
    exact ⟨by rwa [h], by rwa [h]⟩
  refine yields_accept.bind fun _ _ => Yields.ite ?_ (Yields.pure (hof []))
  refine yields_indexSetting.commaList.bind fun items _ => ?_
  exact yields_expect.bind fun _ _ => Yields.pure (hof items)

theorem yields_indexEntry : Yields indexEntry fun o => ∀ e ∈ o, ∀ i ∈ e, i.Canonical := by
  have hon {columns : List String} (hne : columns ≠ []) (hc : ∀ c ∈ columns, IsWord c) :
      Yields (indexOn columns >>= fun i => Pure.pure (some (some i)))
        fun o => ∀ e ∈ o, ∀ i ∈ e, i.Canonical :=
    (yields_indexOn hne hc).bind fun i hi => Yields.some fun _ h => Option.some.inj h ▸ hi
  refine yields_skipNewlines.bind fun _ _ => Yields.ofPeek fun t ht => ?_
  split
  · exact (yields_advance.bind fun _ _ => Yields.none).at t
  · exact yields_expected.at t
  · refine Yields.at (yields_advance.bind fun _ _ => ?_) t
    refine yields_word.commaList.bind fun columns h => ?_
    exact yields_expect.bind fun _ _ => hon h.1 h.2
  · split
    · next hk =>
      refine yieldsAt_next (hon (List.cons_ne_nil _ _) ?_)
      intro w hw
      rw [List.mem_singleton.1 hw]
      exact ht.word hk
    · exact (yields_advance.bind fun _ _ => Yields.some nofun).at t

theorem yields_indexes : Yields indexes fun entries => ∀ i ∈ entries, i.Canonical := by
  refine yields_expect.bind fun _ _ => yields_expect.bind fun _ _ => ?_
  refine yields_indexEntry.many.bind fun entries h => Yields.pure ?_
  intro i hi
  obtain ⟨e, he, rfl⟩ := List.mem_filterMap.1 hi
  exact h _ he i rfl

theorem yields_tableItem : Yields tableItem fun o => ∀ i ∈ o, i.Declared := by
  have hplain {i : TableItem} (h : ∀ d, i ≠ .column d) (h' : ∀ es, i ≠ .indexes es) : i.Declared :=
    ⟨fun d e => absurd e (h d), fun es e => absurd e (h' es)⟩
  have hindexes : Yields (indexes >>= fun es => Pure.pure (some (.indexes es)))
      fun o : Option TableItem => ∀ i ∈ o, i.Declared := by
    refine yields_indexes.bind fun entries h => Yields.some ⟨(fun _ e => nomatch e), ?_⟩
    rintro _ ⟨⟩
    exact h
  have hcolumn : Yields (column >>= fun d => Pure.pure (some (.column d)))
      fun o : Option TableItem => ∀ i ∈ o, i.Declared := by
    refine yields_column.bind fun d h => Yields.some ⟨?_, fun _ e => nomatch e⟩
    rintro _ ⟨⟩
    exact h
  refine yields_skipNewlines.bind fun _ _ => yields_peek.bind fun t _ => ?_
  refine yields_second.bind fun t' _ => ?_
  refine Yields.ite (yields_advance.bind fun _ _ => Yields.none) (yields_expected.ite (Yields.ite ?_ ?_))
  · refine yields_advance.bind fun _ _ => yields_advance.bind fun _ _ => ?_
    exact yields_string.bind fun text _ => Yields.some (hplain (fun _ e => nomatch e) fun _ e => nomatch e)
  · refine hindexes.ite (hcolumn.ite (yields_advance.bind fun _ _ => Yields.some ?_))
    exact hplain (fun _ e => nomatch e) fun _ e => nomatch e

theorem yields_tableName :
    Yields tableName fun x => IsWord x.1 ∧ ∀ s ∈ x.2, IsWord s := by
  refine yields_word.bind fun first hf => yields_accept.bind fun _ _ => Yields.ite ?_ ?_
  · refine yields_word.bind fun name hn => Yields.pure ⟨hn, ?_⟩
    rintro _ ⟨⟩
    exact hf
  · exact Yields.pure ⟨hf, nofun⟩

theorem yields_tableAlias : Yields tableAlias fun o => ∀ a ∈ o, IsWord a :=
  yields_accept.bind fun _ _ => (yields_word.bind fun _ ha => Yields.some ha).ite Yields.none

theorem yields_table : Yields table TableDeclaration.Declared := by
  refine yields_expect.bind fun _ _ => yields_tableName.bind fun ⟨name, schema⟩ ⟨hn, hs⟩ => ?_
  refine yields_tableAlias.bind fun shortName ha => ?_
  refine yields_skipNewlines.bind fun _ _ => yields_expect.bind fun _ _ => ?_
  exact yields_tableItem.many.bind fun items hi =>
    Yields.pure (TableDeclaration.declared_ofItems hn hs ha hi)

end Production

/-! ## Documents -/

theorem Column.canonical_resolveEnum {c : Column} (h : c.Canonical []) (enums : List Enumeration) :
    (c.resolveEnum enums).Canonical enums := by
  obtain ⟨r, hr, hw, ht, hv⟩ := h.rawType
  unfold resolveEnum
  simp only [hr]
  cases he : enums.find? (·.name == r) with
  | none =>
    refine ⟨h.name, ⟨r, hr, hw, ?_, ?_⟩, h.sized, h.default⟩
    · simp only [ht, typeNamed, enumNamed?, he, List.find?_nil]
    · simp only [hv, valuesNamed, enumNamed?, he, List.find?_nil, Option.map_none]
  | some e =>
    refine ⟨h.name, ⟨r, rfl, hw, ?_, ?_⟩, ⟨h.sized.together, h.sized.length⟩, h.default⟩
    · simp only [typeNamed, enumNamed?, he]
    · simp only [valuesNamed, enumNamed?, he, Option.map_some]

theorem Schema.canonical_ofStatements {statements : List Statement} (h : ∀ st ∈ statements, st.Declared) :
    (ofStatements statements).Canonical := by
  refine ⟨?_, ?_, ?_, ?_, rfl, rfl⟩
  · intro t ht
    obtain ⟨t, hmem, rfl⟩ := List.mem_map.1 ht
    obtain ⟨st, hst, he⟩ := List.mem_filterMap.1 hmem
    cases st with
    | table d =>
      cases he
      have hd := (h _ hst).table
      refine ⟨hd.name, hd.schema, hd.shortName, ?_, hd.indexes⟩
      intro _ hc
      obtain ⟨c, hmem, rfl⟩ := List.mem_map.1 hc
      exact Column.canonical_resolveEnum (hd.columns c hmem) _
    | _ => cases he
  · intro r hr
    obtain ⟨st, hst, hr⟩ := List.mem_flatMap.1 hr
    cases st with
    | table d => exact (h _ hst).relations r hr
    | relation r' => rw [List.mem_singleton.1 hr]; exact h _ hst
    | enum e => cases hr
    | group g => cases hr
  · intro e he
    obtain ⟨st, hst, he⟩ := List.mem_filterMap.1 he
    cases st with
    | enum e => cases he; exact h _ hst
    | _ => cases he
  · intro g hg
    obtain ⟨st, hst, he⟩ := List.mem_filterMap.1 hg
    cases st with
    | group g => cases he; exact h _ hst
    | _ => cases he

namespace Production

theorem yields_enumeration : Yields enumeration fun e => IsWord e.name := by
  have hnote : Yields enumNote (fun _ => True) := by
    refine yields_accept.bind fun _ _ => Yields.ite ?_ (Yields.pure trivial)
    refine yields_accept.bind fun _ _ => Yields.ite ?_ yields_expected
    refine yields_expect.bind fun _ _ => yields_string.bind fun _ _ => ?_
    exact yields_expect.bind fun _ _ => Yields.pure trivial
  have hvalue : Yields enumValue fun o => ∀ v ∈ o, True := by
    refine yields_skipNewlines.bind fun _ _ => yields_peek.bind fun t _ => ?_
    refine Yields.ite ?_ (Yields.ite ?_ yields_expected)
    · exact yields_advance.bind fun _ _ => Yields.none
    · exact yields_next.bind fun _ _ => hnote.bind fun _ _ => Yields.some trivial
  refine yields_expect.bind fun _ _ => yields_word.bind fun name hn => ?_
  refine yields_skipNewlines.bind fun _ _ => yields_expect.bind fun _ _ => ?_
  exact hvalue.many.bind fun _ _ => Yields.pure hn

theorem yields_relation : Yields relation Relation.Named := by
  have hname : Yields relationName fun o => ∀ n ∈ o, IsWord n :=
    yields_check.bind fun _ _ => Yields.none.ite (yields_word.bind fun _ hn => Yields.some hn)
  refine yields_expect.bind fun _ _ => hname.bind fun name hn => yields_expect.bind fun _ _ => ?_
  refine yields_endpoint.bind fun source hs => yields_relationType.bind fun type _ => ?_
  exact yields_endpoint.bind fun target ht => Yields.pure ⟨hn, hs, ht⟩

theorem yields_tableGroup : Yields tableGroup TableGroup.Named := by
  have hmember : Yields groupMember fun o => ∀ t ∈ o, IsWord t := by
    refine yields_skipNewlines.bind fun _ _ => yields_accept.bind fun _ _ => ?_
    exact Yields.none.ite (yields_word.bind fun _ ht => Yields.some ht)
  refine yields_expect.bind fun _ _ => yields_word.bind fun name hn => ?_
  refine yields_skipNewlines.bind fun _ _ => yields_expect.bind fun _ _ => ?_
  exact hmember.many.bind fun tables ht => Yields.pure ⟨hn, ht⟩

theorem yields_statement : Yields statement fun o => ∀ st ∈ o, st.Declared := by
  refine yields_skipNewlines.bind fun _ _ => yields_peek.bind fun t _ => ?_
  split
  · exact Yields.none
  · exact yields_table.bind fun _ h => Yields.some h
  · exact yields_enumeration.bind fun _ h => Yields.some h
  · exact yields_relation.bind fun _ h => Yields.some h
  · exact yields_tableGroup.bind fun _ h => Yields.some h
  · exact Yields.throw

theorem yields_document : Yields document Schema.Canonical :=
  yields_statement.many.bind fun _ h => Yields.pure (Schema.canonical_ofStatements h)

end Production

/-- Reading and what it reads, apart from the tokens that are left. -/
theorem Schema.parse_eq_ok {source : String} {s : Schema} :
    parse source = .ok s ↔ ∃ c, Production.document (.ofTokens (tokenize source)) = .ok s c := by
  unfold parse ofTokens
  split
  · next s' c h => simp [h]
  · next e c h => simp [h]

theorem Schema.parse_eq_error {source : String} {e : SyntaxError} :
    parse source = .error e ↔ ∃ c, Production.document (.ofTokens (tokenize source)) = .error e c := by
  unfold parse ofTokens
  split
  · next s' c h => simp [h]
  · next e' c h => simp [h]

theorem Schema.canonical_of_document {source : String} {s : Schema} {c : Cursor}
    (h : Production.document (.ofTokens (tokenize source)) = .ok s c) : s.Canonical :=
  (Production.yields_document _ s c (Cursor.scanned_ofTokens (scanned_tokenize source)) h).2

/-- Every schema that a source declares is canonical. -/
theorem Schema.parse_canonical {source : String} {s : Schema} (h : parse source = .ok s) :
    s.Canonical := by
  obtain ⟨c, hc⟩ := parse_eq_ok.1 h
  exact canonical_of_document hc

/-- A column typed by an enumeration that is declared behind its table. -/
def lateEnumeration : Schema :=
  { tables :=
      [{ name := "t"
         columns :=
           [{ name := "a", type := .enum, rawType := some "e", settings := { enumValues := some ["x"] } }] }]
    enums := [⟨"e", [⟨"x", none⟩]⟩] }

theorem Schema.parse_lateEnumeration :
    parse "Table t \x7b\n  a e\n\x7d\nEnum e \x7b\n  x\n\x7d" = .ok lateEnumeration ∧
      lateEnumeration.Canonical := by
  have h : parse "Table t \x7b\n  a e\n\x7d\nEnum e \x7b\n  x\n\x7d" = .ok lateEnumeration := by
    decide +kernel
  exact ⟨h, parse_canonical h⟩

end Erd
