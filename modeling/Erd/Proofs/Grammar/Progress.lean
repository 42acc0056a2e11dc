import Erd.Proofs.Grammar.Predictive
import Erd.Proofs.Grammar.Rounds

/-!
# Progress

Every production of the grammar ends by itself on every list of tokens: on an empty one, on one without an end, and
on one with ends in the middle, over which a setting of no meaning may step.  No loop goes round without a token
but for its last round, so a token pays for one round of each loop that stands around it.

    steady_defaultValue, steady_column, steady_table, …                    one production at a time
    Progresses .document 4 0 ∧ Progresses .table 3 1 ∧ …                   (productions_progress)
-/

namespace Erd

namespace Production

open Cursor

variable {α : Type} {p : Production α} {code : Code p} {K H : TokenKind → Prop} {F : α → TokenKind → Prop} {k : Nat}
  {c d : Cursor}

/-- At the end of a text the production fails. -/
def FailsAtEnd (p : Production α) : Prop := ∀ position, ∃ e c, p ⟨[], .endAt position⟩ = .error e c

theorem FailsAtEnd.ne_ok (h : FailsAtEnd p) (position : Position) (a : α) (c : Cursor) :
    p ⟨[], .endAt position⟩ ≠ .ok a c := by
  obtain ⟨e, d, he⟩ := h position
  rw [he]
  nofun

theorem Predictive.consumes (h : Predictive p H F) {i : TokenKind} (hF : ∀ a, F a i) (hH : ¬ H i)
    (hend : FailsAtEnd p) : Consumes p :=
  fun c c' a hc e => (h.run c hc).progress hc e (hF a) hH fun position => hend.ne_ok position a c'

/-- A loop that a token closes. -/
theorem Steps.steady_closed {step : Production (Option α)} {round : Code step} {F : Option α → TokenKind → Prop}
    (hs : Steps step H F) (h : Steady k round) (hF : F none .comma) (hH : ¬ H .comma)
    (hend : FailsAtEnd step) : SteadyAt K (k + 1) (.many round) :=
  hs.steady h fun c c' hc e => (hs.run c hc).progress hc e hF hH fun position => hend.ne_ok position none c'

/-! ## Columns -/

theorem steady_relationType : Steady k .relationType := by
  refine .peek (fun t => ?_) fun t u ht hu => ?_
  · generalize relationTypeOf? t.kind = r
    cases r with
    | some r => exact .map .advance
    | none => exact .expected _
  · rw [ht, hu]

theorem steady_endpoint : Steady k .endpoint :=
  .bind (.word _) fun _ => .bind (.expect nofun) fun _ => .map (.word _)

theorem steady_numberOf (t : Token) : SteadyAt K k (.numberOf t) := by
  delta Code.numberOf Production.numberOf
  generalize Binary64.ofText? t.value = x
  cases x with
  | some x => exact .pure x
  | none => exact .throw ⟨.number, t⟩

theorem steady_callPiece : Steady k .callPiece := by
  refine .peek (fun t => ?_) fun t u ht hu => ?_
  · generalize t.kind = i
    cases i with
    | endOfInput | newline | closeBracket => exact .expected _
    | _ => exact .map .advance
  · rw [ht, hu]

theorem steady_callArguments : Steady (k + 1) .callArguments :=
  .bind (.expect nofun) fun _ =>
    .map (steps_callPiece.steady_closed steady_callPiece trivial nofun fun _ => ⟨_, _, rfl⟩)

theorem steady_wordValue (w : String) : Steady (k + 1) (.wordValue w) :=
  .ite (fun _ => .pure _) fun _ => .ite (fun _ => .pure _) fun _ => .ite (fun _ => .pure _) fun _ =>
    .bind (.check _) fun _ => .ite (fun _ => .map steady_callArguments) fun _ => .pure _

theorem behindFirst_eq (f : Token → Production α) (c : Cursor) :
    (advance >>= fun _ => next >>= f) c = f c.second c.advance.advance := rfl

/-- A minus sign in front of a number.  The number is the token behind the sign, and so no end is told. -/
theorem steady_minus : SteadyAt (· = .dash) k (.bind .second fun _ => .ite (.bind .advance fun _ => .bind .next fun v =>
    .map (.numberOf v)) (.expected _) : Code (second >>= fun u => if u.kind = .number then
      advance >>= fun _ => next >>= fun v => numberOf v >>= fun x => pure (DefaultValue.number x.neg)
      else expected .defaultValue)) := by
  constructor
  · exact Pays.second.bind fun u => .ite
      (fun _ => Pays.advance.bind fun _ => Pays.next.bind fun v => ((steady_numberOf v).map (K := Any)).pays)
      fun _ => (SteadyAt.expected (K := Any) _).pays
  · intro c d h _
    have hkind : d.second.kind = c.second.kind := h.advance.kind
    rw [second_bind, second_bind]
    by_cases hn : c.second.kind = .number
    · have e : d.second = c.second := h.second.resolve_right fun e => nomatch hn.symm.trans e.1
      simp only [hkind, hn, if_true]
      rw [behindFirst_eq, behindFirst_eq, e]
      exact (steady_numberOf (K := Any) (k := k) c.second).map.same _ _ h.advance.advance trivial
    · simp only [hkind, hn, if_false]
      exact (SteadyAt.expected (K := Any) (k := k) _).same c d h trivial

theorem steady_defaultValue : Steady (k + 1) .defaultValue := by
  refine .peek (fun t => ?_) fun t u ht hu => ?_
  · generalize t.kind = i
    cases i with
    | string => exact .map .advance
    | number => exact .bind .advance fun _ => .map (steady_numberOf t)
    | dash => exact steady_minus
    | _ => exact .ite (fun _ => .bind .advance fun _ => steady_wordValue _) fun _ => .expected _
  · rw [ht, hu]
    rfl

/-! ## Settings -/

theorem steady_ignoredSetting : Steady k .ignoredSetting := by
  refine .bind (.accept _) fun _ => .ite (fun _ => ?_) fun _ => .pure _
  exact .kind (f := fun i => if i = .comma ∨ i = .closeBracket then pure SettingItem.ignored
    else advance >>= fun _ => pure SettingItem.ignored) fun t => .ite (fun _ => .pure _) fun _ => .map .advance

theorem steady_settingAfter (key : String) : Steady (k + 1) (.settingAfter key) := by
  refine .cast (.ite (fun _ => .map (.acceptWord _)) fun _ => .ite (fun _ => .pure _) fun _ =>
    .ite (fun _ => .pure _) fun _ => .ite (fun _ => ?_) fun _ => .ite (fun _ => .pure _) fun _ =>
    .ite (fun _ => .pure _) fun _ => .ite (fun _ => ?_) fun _ => .ite (fun _ => ?_) fun _ =>
    .ite (fun _ => ?_) fun _ => steady_ignoredSetting) _
  · exact .bind (.acceptWord _) fun _ => .ite (fun _ => .pure _) fun _ => .expected _
  · exact .bind (.accept _) fun _ => .ite (fun _ => .map steady_defaultValue) fun _ => .pure _
  · exact .bind (.expect nofun) fun _ => .map .string
  · exact .bind (.expect nofun) fun _ => .bind steady_relationType fun _ => .map steady_endpoint

theorem steady_setting : Steady (k + 1) .setting := .bind (.word _) fun _ => steady_settingAfter _

theorem consumes_setting : Consumes setting :=
  (predictive_setting (H := (· = .identifier)) rfl).consumes (i := .comma) (fun _ => Or.inl rfl) nofun
    fun _ => ⟨_, _, rfl⟩

theorem steady_sizeNumber : Steady k .sizeNumber := by
  refine .bind (.expect nofun) fun t => ?_
  generalize sizeOfText? t.value = n
  cases n with
  | some n => exact .pure n
  | none => exact .throw ⟨.size, t⟩

theorem steady_size : Steady k .size :=
  .bind steady_sizeNumber fun _ => .bind (.accept _) fun _ => .ite
    (fun _ => .bind steady_sizeNumber fun _ => .map (.expect nofun)) fun _ => .map (.expect nofun)

theorem steady_sizePart : Steady k .sizePart :=
  .bind (.accept _) fun _ => .ite (fun _ => .map steady_size) fun _ => .pure _

theorem steady_settingPart : Steady (k + 2) .settingPart := by
  have hitems : Steady (k + 2) (.commaList .setting) :=
    .commaList (steps_afterComma (predictive_setting (H := Any) trivial) (Or.inl rfl)) steady_setting consumes_setting
  exact .bind (.accept _) fun _ => .ite (fun _ => .bind hitems fun _ => .map (.expect nofun)) fun _ => .pure _

theorem steady_column : Steady (k + 2) .column :=
  .bind (.word _) fun _ => .bind (.word _) fun _ => .bind steady_sizePart fun _ => .map steady_settingPart

theorem consumes_column : Consumes column := by
  have h : Predictive column (· = .identifier) fun _ i => i ≠ .openBracket ∧ i ≠ .openParen :=
    (predictive_word (H := (· = .identifier)) .columnName rfl).bind fun name =>
      (predictive_word .columnType trivial).bind fun type => predictive_columnRest name type
  exact h.consumes (i := .comma) (fun _ => ⟨nofun, nofun⟩) nofun fun _ => ⟨_, _, rfl⟩

/-! ## Indexes -/

theorem steady_indexSettingValue : Steady k .indexSettingValue := by
  refine .bind (.accept _) fun _ => .ite (fun _ => ?_) fun _ => .pure _
  exact .kind (f := fun i => if i.isWord = true ∨ i = .string then next >>= fun t => pure (some t.value)
    else expected .indexSettingValue) fun t => .ite (fun ht =>
      .map (.next_of (P := fun i => i.isWord = true ∨ i = .string) ht (by decide))) fun _ => .expected _

theorem steady_indexSetting : Steady k .indexSetting :=
  .bind (.word _) fun _ => .map steady_indexSettingValue

theorem consumes_indexSetting : Consumes indexSetting :=
  (predictive_indexSetting (H := (· = .identifier)) rfl).consumes (i := .comma) (fun _ => Or.inl rfl) nofun
    fun _ => ⟨_, _, rfl⟩

theorem steady_indexOn (columns : List String) : Steady (k + 1) (.indexOn columns) := by
  have hitems : Steady (k + 1) (.commaList .indexSetting) :=
    .commaList (steps_afterComma (predictive_indexSetting (H := Any) trivial) (Or.inl rfl)) steady_indexSetting
      consumes_indexSetting
  exact .bind (.accept _) fun _ => .ite (fun _ => .bind hitems fun _ => .map (.expect nofun)) fun _ => .pure _

theorem consumes_word (what : Expectation) : Consumes (word what) :=
  (predictive_word (H := (· = .identifier)) what rfl).consumes (i := .comma) (fun _ => trivial) nofun
    fun _ => ⟨_, _, rfl⟩

theorem steady_indexEntry : Steady (k + 1) .indexEntry := by
  have hcolumns : Steady (k + 1) (.commaList (.word .columnName)) :=
    .commaList (steps_afterComma (predictive_word (H := Any) .columnName trivial) trivial) (.word _) (consumes_word _)
  refine .bind .skipNewlines fun _ => .peek (fun t => ?_) fun t u ht hu => ?_
  · generalize t.kind = i
    cases i with
    | closeBrace => exact .map .advance
    | endOfInput => exact .expected _
    | openParen =>
      exact .bind .advance fun _ => .bind hcolumns fun _ => .bind (.expect nofun) fun _ => .map (steady_indexOn _)
    | _ => exact .ite (fun _ => .bind (.next nofun) fun _ => .map (steady_indexOn _)) fun _ => .map .advance
  · rw [ht, hu]

theorem steady_indexes : Steady (k + 2) .indexes := by
  have hentries : Steady (k + 2) (.many .indexEntry) :=
    steps_indexEntry.steady_closed steady_indexEntry trivial nofun fun _ => ⟨_, _, rfl⟩
  exact .bind (.expect nofun) fun _ => .bind (.expect nofun) fun _ => .map hentries

theorem consumes_indexes : Consumes indexes := by
  have h : Predictive indexes (· = .indexes) fun _ => Any := .expect (.expect predictive_indexEntries trivial) rfl
  exact h.consumes (i := .comma) (fun _ => trivial) nofun fun _ => ⟨_, _, rfl⟩

/-! ## Tables -/

theorem steady_tableItem : Steady (k + 2) .tableItem := by
  refine .bind .skipNewlines fun _ => .peek (fun t => .second (fun u => ?_) fun u v hu hv => by rw [hu, hv])
    fun t t' ht ht' => by rw [ht, ht']
  refine .ite (fun _ => .map .advance) fun _ => .ite (fun _ => .expected _) fun _ => .ite (fun _ => ?_) fun _ =>
    .ite (fun _ => .map (steady_indexes.weaken fun _ _ => trivial)) fun _ =>
    .ite (fun _ => .map (steady_column.weaken fun _ _ => trivial)) fun _ => .map .advance
  exact .bind .advance fun _ => .bind .advance fun _ => .map .string

theorem steady_tableName : Steady k .tableName :=
  .bind (.word _) fun _ => .bind (.accept _) fun _ => .ite (fun _ => .map (.word _)) fun _ => .pure _

theorem steady_tableAlias : Steady k .tableAlias :=
  .bind (.accept _) fun _ => .ite (fun _ => .map (.word _)) fun _ => .pure _

theorem steady_table : Steady (k + 3) .table := by
  have hitems : Steady (k + 3) (.many .tableItem) :=
    steps_tableItem.steady_closed steady_tableItem trivial nofun fun _ => ⟨_, _, rfl⟩
  exact .bind (.expect nofun) fun _ => .bind steady_tableName fun _ => .bind steady_tableAlias fun _ =>
    .bind .skipNewlines fun _ => .bind (.expect nofun) fun _ => .map hitems

theorem consumes_table : Consumes table :=
  (predictive_table (H := (· = .table)) rfl).consumes (i := .comma) (fun _ => trivial) nofun fun _ => ⟨_, _, rfl⟩

/-! ## Enumerations, relations and groups -/

theorem steady_enumNote : Steady k .enumNote :=
  .bind (.accept _) fun _ => .ite (fun _ => .bind (.accept _) fun _ => .ite (fun _ => .bind (.expect nofun) fun _ =>
    .bind .string fun _ => .map (.expect nofun)) fun _ => .expected _) fun _ => .pure _

theorem steady_enumValue : Steady (k + 1) .enumValue := by
  refine .bind .skipNewlines fun _ => .peek (fun t => ?_) fun t u ht hu => ?_
  · refine .ite (fun _ => .map .advance) fun _ => .ite (fun ht => ?_) fun _ => .expected _
    exact .bind (.next_of (P := fun i => i.isWord = true ∨ i = .string) ht (by decide)) fun _ => .map steady_enumNote
  · simp [ht, hu, TokenKind.isWord]

theorem steady_enumeration : Steady (k + 2) .enumeration := by
  have hvalues : Steady (k + 2) (.many .enumValue) :=
    steps_enumValue.steady_closed steady_enumValue trivial nofun fun _ => ⟨_, _, rfl⟩
  exact .bind (.expect nofun) fun _ => .bind (.word _) fun _ => .bind .skipNewlines fun _ =>
    .bind (.expect nofun) fun _ => .map hvalues

theorem consumes_enumeration : Consumes enumeration :=
  (predictive_enumeration (H := (· = .enum)) rfl).consumes (i := .comma) (fun _ => trivial) nofun fun _ => ⟨_, _, rfl⟩

theorem steady_relation : Steady k .relation := by
  have hname : Steady k .relationName :=
    .bind (.check _) fun _ => .ite (fun _ => .pure _) fun _ => .map (.word _)
  exact .bind (.expect nofun) fun _ => .bind hname fun _ => .bind (.expect nofun) fun _ =>
    .bind steady_endpoint fun _ => .bind steady_relationType fun _ => .map steady_endpoint

theorem consumes_relation : Consumes relation :=
  (predictive_relation (H := (· = .ref)) rfl).consumes (i := .comma) (fun _ => trivial) nofun fun _ => ⟨_, _, rfl⟩

theorem steady_groupMember : Steady (k + 1) .groupMember :=
  .bind .skipNewlines fun _ => .bind (.accept _) fun _ => .ite (fun _ => .pure _) fun _ => .map (.word _)

theorem steady_tableGroup : Steady (k + 2) .tableGroup := by
  have hmembers : Steady (k + 2) (.many .groupMember) :=
    steps_groupMember.steady_closed steady_groupMember trivial nofun fun _ => ⟨_, _, rfl⟩
  exact .bind (.expect nofun) fun _ => .bind (.word _) fun _ => .bind .skipNewlines fun _ =>
    .bind (.expect nofun) fun _ => .map hmembers

theorem consumes_tableGroup : Consumes tableGroup :=
  (predictive_tableGroup (H := (· = .tableGroup)) rfl).consumes (i := .comma) (fun _ => trivial) nofun
    fun _ => ⟨_, _, rfl⟩

/-! ## Documents -/

theorem steady_statement : Steady 3 .statement := by
  refine .bind .skipNewlines fun _ => .peek (fun t => ?_) fun t u ht hu => ?_
  · generalize t.kind = i
    cases i with
    | endOfInput => exact .pure _
    | table => exact .map (steady_table.weaken fun _ _ => trivial)
    | enum => exact .map (steady_enumeration.weaken fun _ _ => trivial)
    | ref => exact .map (steady_relation.weaken fun _ _ => trivial)
    | tableGroup => exact .map (steady_tableGroup.weaken fun _ _ => trivial)
    | _ => exact .throw _
  · rw [ht, hu]

/-- The last round of a document takes no token. -/
theorem pays_document : Pays 4 1 .document :=
  .map (steps_statement.pays steady_statement.pays fun _ _ hc e =>
    Nat.lt_succ_of_le (steady_statement.pays.length_le hc e))

theorem sameResult_document (h : c.Ended d) : SameResult (document c) (document d) :=
  (steps_statement.sameResult steady_statement h).bind fun as _ _ h' _ => .ok (Schema.ofStatements as) h'

/-! ## Token lists -/

/-- What a production does at every place of every list of tokens, wherever ends may stand in it.  Loops of its code
stand at most `depth` deep, and a value takes at least so many tokens as `taken` says. -/
structure Progresses (code : Code p) (depth taken : Nat) : Prop where
  /-- There is one run, which comes to the production's result in rounds that the tokens left bound. -/
  rounds : ∀ (ts : List Token) (i : Nat), i ≤ ts.length →
    ∃ n ≤ depth * (ts.length - i + 1), ∀ m r, code.Runs ((ofTokens ts).skip i) m r ↔
      m = n ∧ r = p ((ofTokens ts).skip i)
  /-- It stops further on in the list, and behind the tokens that a value takes. -/
  forward : ∀ (ts : List Token) (i : Nat), i ≤ ts.length →
    ∃ j, i ≤ j ∧ j ≤ ts.length ∧ Result.stop (p ((ofTokens ts).skip i)) = (ofTokens ts).skip j ∧
      ∀ a c, p ((ofTokens ts).skip i) = .ok a c → i + taken ≤ j
  /-- One more end makes no difference. -/
  ended : ∀ (ts : List Token) (e : Token) (i : Nat), e.kind = .endOfInput → i ≤ ts.length →
    SameResult (p ((ofTokens ts).skip i)) (p ((ofTokens (ts ++ [e])).skip i))

theorem length_rest_skip (ts : List Token) (i : Nat) : ((ofTokens ts).skip i).rest.length = ts.length - i :=
  List.length_drop

/-- A cursor further on in a list stands at a place of it. -/
theorem exists_skip {ts : List Token} {i : Nat} (hi : i ≤ ts.length) (h : ((ofTokens ts).skip i).Reaches c) :
    ∃ j, i ≤ j ∧ j ≤ ts.length ∧ c = (ofTokens ts).skip j ∧ c.rest.length = ts.length - j := by
  obtain ⟨us, b⟩ := c
  obtain ⟨⟨vs, hvs⟩, rfl⟩ := h
  have hvs : vs ++ us = ts.drop i := hvs
  have hlen := congrArg List.length hvs
  simp only [List.length_append, List.length_drop] at hlen
  have hrest : us = ts.drop (i + vs.length) := by rw [← List.drop_drop, ← hvs, List.drop_left]
  refine ⟨i + vs.length, by omega, by omega, ?_, show us.length = _ by omega⟩
  rw [hrest]
  rfl

theorem Progresses.of_pays {depth taken j : Nat} (h : Pays depth j code) (hj : j ≤ depth)
    (htaken : ∀ (c c' : Cursor) (a : α), c.Closed → p c = .ok a c' → c'.rest.length + taken ≤ c.rest.length)
    (hsame : ∀ c d : Cursor, c.Ended d → SameResult (p c) (p d)) : Progresses code depth taken := by
  refine ⟨fun ts i hi => ?_, fun ts i hi => ?_, fun ts e i he hi => ?_⟩
  · obtain ⟨n, r, rfl, hrun, hpaid⟩ := h _ ((closed_ofTokens ts).skip i)
    refine ⟨n, ?_, fun m s => ⟨fun hs => code.runs_unique hs hrun, ?_⟩⟩
    · rw [← length_rest_skip ts i]
      exact hpaid.le hj
    · rintro ⟨rfl, rfl⟩
      exact hrun
  · obtain ⟨j, hij, hj, hstop, hlen⟩ := exists_skip hi (h.reaches ((closed_ofTokens ts).skip i))
    refine ⟨j, hij, hj, hstop, fun a c e => ?_⟩
    have hle := htaken _ c a ((closed_ofTokens ts).skip i) e
    rw [e] at hlen
    have hlen : c.rest.length = ts.length - j := hlen
    rw [length_rest_skip] at hle
    omega
  · exact hsame _ _ ⟨rfl, rfl, Or.inr ⟨e, he, List.drop_append_of_le_length hi⟩⟩

theorem Progresses.of_steady {depth : Nat} (h : Steady depth code) (hp : Consumes p) : Progresses code depth 1 :=
  .of_pays h.pays (Nat.zero_le _) hp fun c d hcd => h.same c d hcd trivial

/-- The productions of the grammar end in a number of rounds that the tokens left bound, never go back, take a token
but for a document, and do not tell a list from the same list with one more end. -/
theorem productions_progress : Progresses .document 4 0 ∧ Progresses .table 3 1 ∧ Progresses .column 2 1 ∧
    Progresses .indexes 2 1 ∧ Progresses .enumeration 2 1 ∧ Progresses .relation 0 1 ∧ Progresses .tableGroup 2 1 := by
  refine ⟨.of_pays pays_document (by decide) ?_ fun c d => sameResult_document, .of_steady steady_table consumes_table,
    .of_steady steady_column consumes_column, .of_steady steady_indexes consumes_indexes,
    .of_steady steady_enumeration consumes_enumeration, .of_steady steady_relation consumes_relation,
    .of_steady steady_tableGroup consumes_tableGroup⟩
  exact fun c c' a hc e => pays_document.length_le hc e

end Production

end Erd
