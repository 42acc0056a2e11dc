import Erd.Proofs.Grammar.RoundTrip
import Erd.Proofs.Grammar.Steps

/-!
# The grammar is predictive

Each production decides by the tokens that it takes and the one behind them.  Only a default value with a
minus sign and an item of a table look at two tokens at once, and an item of a table that is none of its
forms is passed over.

    predictive_defaultValue, predictive_setting, predictive_table, …       one production at a time
    Predictive document StartsStatement fun _ => (· = .endOfInput)         (predictive_document)
-/

namespace Erd

namespace Production

open Cursor

variable {α : Type} {p : Production α} {H : TokenKind → Prop} {F : α → TokenKind → Prop} {c d : Cursor}

/-! ## Columns -/

theorem predictive_relationType (h : H .dash) : Predictive relationType H fun _ => Any := by
  refine .take (fun t => (relationTypeOf? t.kind).isSome) ?_ ?_ ⟨.dash, ""⟩ rfl h
  · intro t ht
    obtain ⟨type, ht⟩ := Option.isSome_iff_exists.1 ht
    refine ⟨pure type, Takes.peek fun tok htok => ?_, .pure fun _ _ => trivial⟩
    rw [Token.kind_eq htok, ht]
    exact takes_advance
  · intro t ht
    refine ⟨.expected .relationOperator, Refuses.peek fun tok htok => ?_⟩
    rw [Token.kind_eq htok, Option.not_isSome_iff_eq_none.1 ht]
    exact refuses_expected _

theorem predictive_endpoint (h : H .identifier) : Predictive endpoint H fun _ => Any :=
  (predictive_word _ h).bind fun _ => .expect ((predictive_word _ trivial).map fun _ _ h => h) trivial

theorem takes_callPiece {t : Terminal} (h : t.kind = .closeParen) :
    Takes callPiece t (pure none) := by
  refine Takes.peek fun tok htok => ?_
  rw [show tok.kind = .closeParen from (Token.kind_eq htok).trans h]
  exact takes_advance

theorem takes_callPiece_some {t : Terminal} (h : t.IsPiece) :
    Takes callPiece t (pure (some t.pieceText)) := by
  obtain ⟨h1, h2, h3, h4⟩ := h
  refine Takes.peek fun tok htok => ?_
  obtain ⟨k, v⟩ := t
  obtain ⟨hk, hv⟩ : tok.kind = k ∧ tok.value = v := Terminal.mk.inj htok
  rw [hk, hv]
  cases k with
  | closeParen => exact absurd rfl h1
  | endOfInput => exact absurd rfl h2
  | newline => exact absurd rfl h3
  | closeBracket => exact absurd rfl h4
  | _ => exact takes_advance

theorem refuses_callPiece {t : Terminal} (h : t.kind ≠ .closeParen) (h' : ¬ t.IsPiece) :
    Refuses callPiece t (.expected (.kind .closeParen)) := by
  refine Refuses.peek fun tok htok => ?_
  have hk : t.kind = .endOfInput ∨ t.kind = .newline ∨ t.kind = .closeBracket := by
    by_contra hne
    simp only [not_or] at hne
    exact h' ⟨h, hne.1, hne.2.1, hne.2.2⟩
  rw [Token.kind_eq htok]
  rcases hk with hk | hk | hk <;> rw [hk] <;> exact refuses_expected _

theorem predictive_callPiece : Predictive callPiece (· = .closeParen) fun _ => Any := by
  refine .take (fun t => t.kind = .closeParen ∨ t.IsPiece) ?_ ?_ ⟨.closeParen, ""⟩ (Or.inl rfl) rfl
  · rintro t (ht | ht)
    · exact ⟨_, takes_callPiece ht, .pure fun _ _ => trivial⟩
    · exact ⟨_, takes_callPiece_some ht, .pure fun _ _ => trivial⟩
  · intro t ht
    exact ⟨_, refuses_callPiece (fun h => ht (Or.inl h)) fun h => ht (Or.inr h)⟩

theorem steps_callPiece : Steps callPiece (· = .closeParen) fun _ => Any :=
  ⟨predictive_callPiece.run, ⟨[⟨.closeParen, ""⟩], rfl, (takes_callPiece rfl).passes⟩,
    fun _ => ⟨fun _ _ => trivial, .comma, trivial, nofun⟩, nofun⟩

theorem predictive_callArguments (h : H .openParen) : Predictive callArguments H fun _ => Any :=
  .expect (steps_callPiece.many.any.map fun _ _ h => h) h

theorem predictive_wordValue (w : String) : Predictive (wordValue w) Any fun _ k => k ≠ .openParen := by
  unfold wordValue
  split
  · exact .pure fun _ _ => trivial
  split
  · exact .pure fun _ _ => trivial
  split
  · exact .pure fun _ _ => trivial
  have hcall : Predictive callArguments (· = .openParen) fun _ => Any := predictive_callArguments rfl
  exact .ifCheck (hcall.map fun _ _ _ => trivial) (.pure fun _ h => h)

theorem numberOf_eq {t : Token} {x : Binary64} (h : Binary64.ofText? t.value = some x) :
    numberOf t = pure x := by
  unfold numberOf
  rw [h]

theorem numberOf_error {t : Token} (h : Binary64.ofText? t.value = none) :
    numberOf t = throw ⟨.number, t⟩ := by
  unfold numberOf
  rw [h]

theorem takes_defaultValue_number {t : Terminal} (h : t.kind = .number) {x : Binary64}
    (hx : Binary64.ofText? t.value = some x) : Takes defaultValue t (pure (.number x)) := by
  refine Takes.peek fun tok htok => ?_
  obtain ⟨rfl⟩ := htok
  rw [show tok.kind = .number from h]
  dsimp only
  rw [numberOf_eq hx]
  exact takes_advance

theorem refuses_defaultValue_number {t : Terminal} (h : t.kind = .number)
    (hx : Binary64.ofText? t.value = none) : Refuses defaultValue t .number := by
  rintro c rfl
  refine ⟨c.advance, ?_⟩
  show (peek >>= _) c = _
  rw [peek_bind, show c.peek.kind = .number from h]
  dsimp only
  rw [numberOf_error hx]
  rfl

theorem takes_defaultValue_string {t : Terminal} (h : t.kind = .string) :
    Takes defaultValue t (pure (.string t.value)) := by
  refine Takes.peek fun tok htok => ?_
  obtain ⟨rfl⟩ := htok
  rw [show tok.kind = .string from h]
  exact takes_advance

theorem takes_defaultValue_word {t : Terminal} (h : t.kind.isWord = true) :
    Takes defaultValue t (wordValue t.value) := by
  refine Takes.peek fun tok htok => ?_
  obtain ⟨k, v⟩ := t
  obtain ⟨hk, hv⟩ : tok.kind = k ∧ tok.value = v := Terminal.mk.inj htok
  rw [hk, hv]
  cases k with
  | string => cases h
  | number => cases h
  | dash => cases h
  | _ => first | exact takes_advance | cases h

theorem refuses_defaultValue {t : Terminal} (h : t.kind.isWord = false) (hs : t.kind ≠ .string)
    (hn : t.kind ≠ .number) (hd : t.kind ≠ .dash) : Refuses defaultValue t (.expected .defaultValue) := by
  refine Refuses.peek fun tok htok => ?_
  obtain ⟨k, v⟩ := t
  rw [Token.kind_eq htok]
  cases k with
  | string => exact absurd rfl hs
  | number => exact absurd rfl hn
  | dash => exact absurd rfl hd
  | _ => first | exact refuses_expected _ | cases h

/-- A minus sign in front of a number. -/
theorem defaultValue_negative (h : c.peek.kind = .dash) (h' : c.second.kind = .number) :
    defaultValue c = (numberOf c.second >>= fun x => Pure.pure (.number x.neg)) (c.skip 2) := by
  show (peek >>= _) c = _
  rw [peek_bind, h]
  dsimp only
  rw [second_bind, if_pos h', bind_ok (show advance c = .ok () c.advance from rfl),
    bind_ok (show next c.advance = .ok c.second c.advance.advance from rfl), ← skip_one, ← skip_one,
    skip_skip]

theorem defaultValue_dash (h : c.peek.kind = .dash) (h' : c.second.kind ≠ .number) :
    defaultValue c = .error ⟨.expected .defaultValue, c.peek⟩ c := by
  show (peek >>= _) c = _
  rw [peek_bind, h]
  dsimp only
  rw [second_bind, if_neg h']
  rfl

theorem passes_defaultValue_negative {t u : Terminal} {x : Binary64} {P : Terminal → Prop}
    (ht : t.kind = .dash) (hu : u.kind = .number) (hx : Binary64.ofText? u.value = some x) :
    Passes defaultValue [t, u] (.number x.neg) P := by
  intro d _ e _
  simp only [List.length_cons, List.length_nil, ahead, List.cons.injEq, and_true, Nat.zero_add,
    Nat.reduceAdd] at e ⊢
  obtain ⟨rfl, rfl⟩ := e
  rw [defaultValue_negative ht hu, numberOf_eq (t := d.second) hx]
  rfl

theorem predictiveAt_defaultValue_dash (h : c.peek.kind = .dash) :
    PredictiveAt defaultValue H (fun _ k => k ≠ .openParen) c := by
  -- a minus sign and the token behind it decide together
  have hsame : ∀ {d : Cursor}, d.ahead 2 = c.ahead 2 →
      d.peek.kind = .dash ∧ d.second.kind = c.second.kind ∧ d.second.value = c.second.value := by
    intro d e
    obtain ⟨h1, h2⟩ := second_agree e
    exact ⟨(Token.kind_eq h1).trans h, Token.kind_eq h2, Token.value_eq h2⟩
  by_cases hn : c.second.kind = .number
  · cases hx : Binary64.ofText? c.second.value with
    | some x =>
      exact .success 2 (.number x.neg) (fun h => absurd h (by omega))
        (passes_defaultValue_negative h hn hx)
    | none =>
      refine .failure 1 .number ?_ fun _ => ?_
      · intro d _ e
        obtain ⟨hd, hk, hv⟩ := hsame (ahead_agree_le (by omega) e)
        refine ⟨d.skip 2, ?_⟩
        rw [defaultValue_negative hd (hk.trans hn), numberOf_error (by rw [hv, hx]), ← second_eq]
        rfl
      · obtain ⟨x, hx⟩ := Option.isSome_iff_exists.1 (show (Binary64.ofText? "0").isSome by rfl)
        exact ⟨[⟨.number, "0"⟩], .number x.neg, passes_defaultValue_negative h rfl hx⟩
  · refine .stop (.expected .defaultValue) fun d _ e => ⟨d, ?_⟩
    obtain ⟨hd, hk, -⟩ := hsame e
    exact defaultValue_dash hd (by rw [hk]; exact hn)

theorem predictive_defaultValue (h : H .string) :
    Predictive defaultValue H fun _ k => k ≠ .openParen := by
  refine ⟨fun c hc => ?_,
    .take (t := ⟨.string, ""⟩) (V := Any) (takes_defaultValue_string rfl) h (.pure fun _ _ => trivial)⟩
  have htake {v : DefaultValue} (hv : Takes defaultValue c.peek.terminal (pure v)) :
      PredictiveAt defaultValue H (fun _ k => k ≠ .openParen) c :=
    .take (V := Any) (W := Any) hv hc (fun _ _ => .pure fun _ _ => trivial) (.pure fun _ _ => trivial)
  cases hw : c.peek.kind.isWord with
  | true =>
    have hr := predictive_wordValue c.peek.value
    exact .take (takes_defaultValue_word hw) hc hr.run hr.opens
  | false =>
    by_cases hs : c.peek.kind = .string
    · exact htake (takes_defaultValue_string hs)
    by_cases hd : c.peek.kind = .dash
    · exact predictiveAt_defaultValue_dash hd
    by_cases hn : c.peek.kind = .number
    · cases hx : Binary64.ofText? c.peek.value with
      | some x => exact htake (takes_defaultValue_number hn hx)
      | none => exact .refuse (refuses_defaultValue_number hn hx)
    · exact .refuse (refuses_defaultValue hw hs hn hd)

/-! ## Settings -/

theorem predictive_ignoredSetting : Predictive ignoredSetting Any fun _ => EndsSetting := by
  have hvalue : Predictive (peek >>= fun t => if t.kind = .comma ∨ t.kind = .closeBracket then
      Pure.pure SettingItem.ignored else advance >>= fun _ => Pure.pure .ignored) Any
      fun _ => EndsSetting := by
    refine .choose (fun t => ¬ EndsSetting t.kind) ?_ (q := pure .ignored) (V := EndsSetting)
      (.pure fun _ h => h) ?_ fun _ h => ⟨fun h' => h' h, trivial⟩
    · intro t ht
      refine ⟨pure .ignored, Takes.peek fun tok htok => ?_, .pure fun _ _ => trivial⟩
      rw [if_neg (by rw [Token.kind_eq htok]; exact ht)]
      exact takes_advance
    · intro c hc
      have hc : EndsSetting c.peek.kind := not_not.1 hc
      exact (peek_bind c _).trans (congrFun (if_pos hc) c)
  exact .ifAccept hvalue (.pure fun _ h => ⟨h.ne nofun nofun, trivial⟩)

/-- The word behind `not`. -/
theorem predictive_nullWord : Predictive (acceptWord "null" >>= fun b =>
    if b = true then Pure.pure SettingItem.notNull else expected .nullWord) Any fun _ => EndsSetting := by
  refine .take (fun t => (t.kind.isWord && asciiLower t.value == "null") = true) ?_ ?_
    ⟨.identifier, "null"⟩ rfl trivial
  · intro t ht
    refine ⟨pure .notNull, fun c hc => ?_, .pure fun _ _ => trivial⟩
    rw [bind_ok ((acceptWord_eq "null" c).trans (if_pos (by rw [Token.kind_eq hc, Token.value_eq hc]; exact ht)))]
    rfl
  · intro t ht
    refine ⟨.expected .nullWord, fun c hc => ⟨c, ?_⟩⟩
    rw [bind_ok ((acceptWord_eq "null" c).trans (if_neg (by rw [Token.kind_eq hc, Token.value_eq hc]; exact ht)))]
    rfl

theorem predictive_settingAfter (key : String) : Predictive (settingAfter key) Any fun _ => EndsSetting := by
  unfold settingAfter
  split
  · exact (predictive_acceptWord "key").bind fun b => .pure fun k h => Or.inr ⟨h.not_isWord, trivial⟩
  · exact (predictive_acceptWord "key").bind fun b => .pure fun k h => Or.inr ⟨h.not_isWord, trivial⟩
  · exact (predictive_acceptWord "key").bind fun b => .pure fun k h => Or.inr ⟨h.not_isWord, trivial⟩
  · exact .pure fun _ _ => trivial
  · exact .pure fun _ _ => trivial
  · exact .pure fun _ _ => trivial
  · exact predictive_nullWord
  · exact .pure fun _ _ => trivial
  · exact .pure fun _ _ => trivial
  · exact .pure fun _ _ => trivial
  · refine .ifAccept ((predictive_defaultValue trivial).map fun _ _ h => h.ne nofun nofun) ?_
    exact .pure fun _ h => ⟨h.ne nofun nofun, trivial⟩
  · exact .expect ((predictive_string trivial).map fun _ _ _ => trivial) trivial
  · exact .expect ((predictive_relationType trivial).bind fun _ =>
      (predictive_endpoint trivial).map fun _ _ _ => trivial) trivial
  · exact predictive_ignoredSetting

theorem predictive_setting (h : H .identifier) : Predictive setting H fun _ => EndsSetting :=
  (predictive_word _ h).bind fun w => predictive_settingAfter (asciiLower w)

theorem sizeNumber_eq {c : Cursor} (hk : c.peek.kind = .number) :
    sizeNumber c = match sizeOfText? c.peek.value with
      | some n => .ok n c.advance
      | none => .error ⟨.size, c.peek⟩ c.advance := by
  show (Production.expect .number >>= _) c = _
  rw [bind_ok ((expect_eq .number c).trans (if_pos hk))]
  split <;> next h => rw [h]; rfl

theorem predictive_sizeNumber (h : H .number) : Predictive sizeNumber H fun _ => Any := by
  refine .take (fun t => t.kind = .number ∧ (sizeOfText? t.value).isSome) ?_ ?_ ⟨.number, "0"⟩
    ⟨rfl, by decide⟩ h
  · rintro t ⟨hk, hn⟩
    obtain ⟨n, hn⟩ := Option.isSome_iff_exists.1 hn
    refine ⟨pure n, fun c hc => ?_, .pure fun _ _ => trivial⟩
    rw [sizeNumber_eq ((Token.kind_eq hc).trans hk), Token.value_eq hc, hn]
    rfl
  · intro t ht
    by_cases hk : t.kind = .number
    · refine ⟨.size, fun c hc => ⟨c.advance, ?_⟩⟩
      rw [sizeNumber_eq ((Token.kind_eq hc).trans hk), Token.value_eq hc,
        Option.not_isSome_iff_eq_none.1 fun h => ht ⟨hk, h⟩]
    · exact ⟨_, refuses_expect hk⟩

theorem predictive_size : Predictive size Any fun _ => Any := by
  refine (predictive_sizeNumber trivial).bind fun _ => .ifAccept ?_ ?_
  · exact (predictive_sizeNumber trivial).bind fun _ => .expect (.pure fun _ h => h) trivial
  · exact .expect (.pure fun _ h => h) ⟨nofun, trivial⟩

theorem predictive_sizePart : Predictive sizePart H fun _ k => k ≠ .openParen ∧ H k :=
  .ifAccept (predictive_size.map fun _ _ _ => trivial) (.pure fun _ h => h)

/-- Items between brackets. -/
theorem Predictive.bracketed (hp : Predictive p Any fun _ => EndsSetting) :
    Predictive (Production.commaList p) Any fun _ => (· = .closeBracket) :=
  (hp.commaList (Or.inl rfl)).narrow fun _ _ h => by
    rw [h]
    exact ⟨nofun, Or.inr rfl⟩

theorem predictive_settingPart : Predictive settingPart H fun _ k => k ≠ .openBracket ∧ H k :=
  .ifAccept ((predictive_setting trivial).bracketed.bind fun _ => .expect (.pure fun _ _ => trivial) rfl)
    (.pure fun _ h => h)

/-- The part of a column behind its name and type. -/
theorem predictive_columnRest (name type : String) :
    Predictive (sizePart >>= fun size => settingPart >>= fun items =>
      Pure.pure (ColumnDeclaration.ofItems name type size items)) Any
      fun _ k => k ≠ .openBracket ∧ k ≠ .openParen :=
  predictive_sizePart.bind fun _ => predictive_settingPart.map fun _ _ h => ⟨h.1, h.2, trivial⟩

/-! ## Indexes -/

theorem predictive_indexSettingValue :
    Predictive indexSettingValue Any fun _ => EndsSetting := by
  have hvalue : Predictive (peek >>= fun t => if t.kind.isWord = true ∨ t.kind = .string then
      next >>= fun u => Pure.pure (some u.value) else expected .indexSettingValue) Any fun _ => EndsSetting := by
    refine .take (fun t => t.kind.isWord = true ∨ t.kind = .string) ?_ ?_ ⟨.string, ""⟩ (Or.inr rfl) trivial
    · intro t ht
      refine ⟨pure (some t.value), Takes.peek fun tok htok => ?_, .pure fun _ _ => trivial⟩
      rw [if_pos (by rw [Token.kind_eq htok]; exact ht)]
      exact takes_next fun u hu => by rw [Token.value_eq hu]
    · intro t ht
      refine ⟨.expected .indexSettingValue, Refuses.peek fun tok htok => ?_⟩
      rw [if_neg (by rw [Token.kind_eq htok]; exact ht)]
      exact refuses_expected _
  exact .ifAccept hvalue (.pure fun _ h => ⟨h.ne nofun nofun, trivial⟩)

theorem predictive_indexSetting (h : H .identifier) : Predictive indexSetting H fun _ => EndsSetting :=
  (predictive_word _ h).bind fun _ => predictive_indexSettingValue.map fun _ _ h => h

theorem predictive_indexOn (columns : List String) :
    Predictive (indexOn columns) Any fun _ k => k ≠ .openBracket :=
  .ifAccept ((predictive_indexSetting trivial).bracketed.bind fun _ => .expect (.pure fun _ _ => trivial) rfl)
    (.pure fun _ h => ⟨h, trivial⟩)

/-- One entry of an index block behind its line breaks. -/
def indexEntryAt (t : Token) : Production (Option (Option Index)) :=
  match t.kind with
  | .closeBrace => advance >>= fun _ => Pure.pure none
  | .endOfInput => expected (.kind .closeBrace)
  | .openParen =>
    advance >>= fun _ => commaList (word .columnName) >>= fun columns => expect .closeParen >>= fun _ =>
      indexOn columns >>= fun i => Pure.pure (some (some i))
  | k =>
    if k.isWord = true then
      next >>= fun u => indexOn [u.value] >>= fun i => Pure.pure (some (some i))
    else advance >>= fun _ => Pure.pure (some none)

theorem indexEntry_eq : indexEntry = skipNewlines >>= fun _ => peek >>= indexEntryAt := rfl

/-- An opening parenthesis, a word and any other token begin an entry or are passed over. -/
theorem takes_indexEntryAt {t : Terminal} (h : t.kind ≠ .endOfInput) :
    ∃ r, Takes (peek >>= indexEntryAt) t r ∧ Predictive r Any (bodyKinds (· ≠ .openBracket)) := by
  have hindex (columns : List String) : Predictive (indexOn columns >>= fun i => pure (some (some i))) Any
      (bodyKinds (· ≠ .openBracket)) := (predictive_indexOn columns).map fun _ _ h => h
  have hwords : Predictive (commaList (word .columnName)) Any fun _ => (· ≠ .comma) :=
    (Predictive.commaList (predictive_word _ trivial) trivial).narrow fun _ _ h => ⟨h, trivial⟩
  obtain ⟨k, v⟩ := t
  by_cases hp : k = .openParen
  · subst hp
    refine ⟨commaList (word .columnName) >>= fun columns => expect .closeParen >>= fun _ =>
      indexOn columns >>= fun i => pure (some (some i)), Takes.peek fun tok htok => ?_,
      hwords.bind fun columns => .expect (hindex columns) (by decide)⟩
    unfold indexEntryAt
    rw [show tok.kind = .openParen from Token.kind_eq htok]
    exact takes_advance
  cases hw : k.isWord with
  | true =>
    refine ⟨_, Takes.peek fun tok htok => ?_, hindex [v]⟩
    unfold indexEntryAt
    rw [Token.kind_eq htok]
    have hnext : Takes (next >>= fun u => indexOn [u.value] >>= fun i => pure (some (some i))) ⟨k, v⟩
        (indexOn [v] >>= fun i => pure (some (some i))) :=
      takes_next fun u hu => by rw [Token.value_eq hu]
    cases k <;> first | exact hnext | cases hw
  | false =>
    by_cases hb : k = .closeBrace
    · subst hb
      refine ⟨pure none, Takes.peek fun tok htok => ?_, .pure fun _ _ => trivial⟩
      unfold indexEntryAt
      rw [show tok.kind = .closeBrace from Token.kind_eq htok]
      exact takes_advance
    · refine ⟨pure (some none), Takes.peek fun tok htok => ?_, .pure fun _ _ => trivial⟩
      unfold indexEntryAt
      rw [Token.kind_eq htok]
      cases k with
      | closeBrace => exact absurd rfl hb
      | openParen => exact absurd rfl hp
      | endOfInput => exact absurd rfl h
      | _ => first | exact takes_advance | cases hw

theorem steps_indexEntry : Steps indexEntry (· = .closeBrace) (bodyKinds (· ≠ .openBracket)) := by
  have hnone : Takes (peek >>= indexEntryAt) ⟨.closeBrace, ""⟩ (pure none) := by
    refine Takes.peek fun tok htok => ?_
    unfold indexEntryAt
    rw [show tok.kind = .closeBrace from Token.kind_eq htok]
    exact takes_advance
  have hend {t : Terminal} (ht : t.kind = .endOfInput) :
      Refuses (peek >>= indexEntryAt) t (.expected (.kind .closeBrace)) := by
    refine Refuses.peek fun tok htok => ?_
    unfold indexEntryAt
    rw [show tok.kind = .endOfInput from (Token.kind_eq htok).trans ht]
    exact refuses_expected _
  have hbody : Predictive (peek >>= indexEntryAt) (· = .closeBrace) (bodyKinds (· ≠ .openBracket)) :=
    .take (·.kind ≠ .endOfInput) (fun t => takes_indexEntryAt) (fun t ht => ⟨_, hend (not_not.1 ht)⟩)
      ⟨.closeBrace, ""⟩ nofun rfl
  rw [indexEntry_eq]
  exact steps_body hbody hnone (hend rfl) nofun nofun

/-- The entries of an index block behind its opening brace. -/
theorem predictive_indexEntries :
    Predictive (many indexEntry >>= fun entries => Pure.pure (entries.filterMap id)) Any fun _ => Any :=
  steps_indexEntry.many.any.map fun _ _ h => h

/-! ## Tables -/

/-- The kinds that may stand behind an item of a table when the text is mended. -/
def itemKinds (k : TokenKind) : Prop := k = .closeBrace ∨ k = .closeBracket

theorem tableItemAt_eq (c : Cursor) :
    (peek >>= fun t => second >>= fun u => tableItemAt t.kind u.kind) c =
      tableItemAt c.peek.kind c.second.kind c := rfl

theorem column_eq (h : c.peek.kind.isWord = true) (h' : c.second.kind.isWord = true) :
    column c = (sizePart >>= fun size => settingPart >>= fun items =>
      Pure.pure (ColumnDeclaration.ofItems c.peek.value c.second.value size items)) (c.skip 2) := by
  show (word .columnName >>= fun name => word .columnType >>= _) c = _
  rw [bind_ok ((word_eq .columnName c).trans (if_pos h)),
    bind_ok ((word_eq .columnType c.advance).trans (if_pos h')), skip_two]
  rfl

theorem indexes_eq (h : c.peek.kind = .indexes) (h' : c.second.kind = .openBrace) :
    indexes c = (many indexEntry >>= fun entries => Pure.pure (entries.filterMap id)) (c.skip 2) := by
  show (expect .indexes >>= fun _ => expect .openBrace >>= _) c = _
  rw [bind_ok ((expect_eq .indexes c).trans (if_pos h)),
    bind_ok ((expect_eq .openBrace c.advance).trans (if_pos h')), skip_two]

/-- Two tokens that begin no item of a table. -/
structure Skipped (k k' : TokenKind) : Prop where
  close : k ≠ .closeBrace
  ends : k ≠ .endOfInput
  note : ¬ (k = .note ∧ k' = .colon)
  indexes : ¬ (k = .indexes ∧ k' = .openBrace)
  column : ¬ (k.isWord = true ∧ k'.isWord = true)

theorem Skipped.item {k k' : TokenKind} (h : Skipped k k') :
    tableItemAt k k' = advance >>= fun _ => pure (some .skipped) := by
  unfold tableItemAt
  rw [if_neg h.close, if_neg h.ends, if_neg h.note, if_neg h.indexes, if_neg h.column]

theorem Skipped.mend {k k' k'' : TokenKind} (h : Skipped k k') (hk : itemKinds k'') : Skipped k k'' := by
  refine ⟨h.close, h.ends, ?_, ?_, ?_⟩ <;> rintro ⟨-, hk'⟩ <;> rcases hk with rfl | rfl <;> cases hk'

theorem tableItemAt_words {k k' : TokenKind} (h : k.isWord = true) (h' : k'.isWord = true) :
    tableItemAt k k' = column >>= fun d => pure (some (.column d)) := by
  have hne {j j' : TokenKind} (hj : j'.isWord = true) (hj' : j.isWord = false) : j' ≠ j := by
    rintro rfl
    exact absurd (hj.symm.trans hj') (by decide)
  unfold tableItemAt
  rw [if_neg (hne h rfl), if_neg (hne h rfl), if_neg fun e => hne h' rfl e.2, if_neg fun e => hne h' rfl e.2,
    if_pos ⟨h, h'⟩]

/-- An item that its first two tokens tell. -/
theorem predictiveAt_item {r : Production (Option TableItem)} (hc : c.Closed)
    (hr : Predictive r Any (bodyKinds itemKinds))
    (h : ∀ d : Cursor, d.peek.terminal = c.peek.terminal → d.second.terminal = c.second.terminal →
      tableItemAt d.peek.kind d.second.kind d = r (d.skip 2)) :
    PredictiveAt (peek >>= fun t => second >>= fun u => tableItemAt t.kind u.kind) H (bodyKinds itemKinds) c := by
  refine .behind (m := 2) (by omega) (hr.run _ (hc.skip 2)) hr.opens fun d _ e => ?_
  exact h d (second_agree e).1 (second_agree e).2

theorem takes_tableItem {t : Terminal} (h : t.kind = .closeBrace) :
    Takes (peek >>= fun t => second >>= fun u => tableItemAt t.kind u.kind) t (pure none) := by
  intro c hc
  rw [tableItemAt_eq, (Token.kind_eq hc).trans h]
  rfl

theorem refuses_tableItem {t : Terminal} (h : t.kind = .endOfInput) :
    Refuses (peek >>= fun t => second >>= fun u => tableItemAt t.kind u.kind) t
      (.expected (.kind .closeBrace)) := by
  intro c hc
  rw [tableItemAt_eq, (Token.kind_eq hc).trans h]
  exact ⟨c, rfl⟩

theorem predictiveAt_tableItem (hc : c.Closed) :
    PredictiveAt (peek >>= fun t => second >>= fun u => tableItemAt t.kind u.kind) (· = .closeBrace)
      (bodyKinds itemKinds) c := by
  by_cases hclose : c.peek.kind = .closeBrace
  · exact .take (V := Any) (W := Any) (takes_tableItem hclose) hc (fun _ _ => .pure fun _ _ => trivial)
      (.pure fun _ _ => trivial)
  by_cases hend : c.peek.kind = .endOfInput
  · exact .refuse (refuses_tableItem hend)
  by_cases hnote : c.peek.kind = .note ∧ c.second.kind = .colon
  · refine predictiveAt_item (r := string >>= fun s => pure (some (.note s))) hc
      ((predictive_string trivial).map fun _ _ _ => trivial) fun d h1 h2 => ?_
    rw [(Token.kind_eq h1).trans hnote.1, show d.second.kind = .colon from (Token.kind_eq h2).trans hnote.2,
      skip_two]
    rfl
  by_cases hindexes : c.peek.kind = .indexes ∧ c.second.kind = .openBrace
  · refine predictiveAt_item (r := (many indexEntry >>= fun entries => pure (entries.filterMap id)) >>=
        fun entries => pure (some (.indexes entries))) hc
      (predictive_indexEntries.map fun _ _ _ => trivial) fun d h1 h2 => ?_
    have hk : d.peek.kind = .indexes := (Token.kind_eq h1).trans hindexes.1
    have hk' : d.second.kind = .openBrace := (Token.kind_eq h2).trans hindexes.2
    rw [hk, hk']
    exact bind_congr_at (indexes_eq hk hk')
  by_cases hcolumn : c.peek.kind.isWord = true ∧ c.second.kind.isWord = true
  · refine predictiveAt_item (r := (sizePart >>= fun size => settingPart >>= fun items =>
        pure (ColumnDeclaration.ofItems c.peek.value c.second.value size items)) >>=
        fun d => pure (some (.column d))) hc
      ((predictive_columnRest _ _).map fun _ k hk => ?_) fun d h1 h2 => ?_
    · rcases hk with rfl | rfl <;> exact ⟨nofun, nofun⟩
    have hk : d.peek.kind.isWord = true := by rw [Token.kind_eq h1]; exact hcolumn.1
    have hk' : d.second.kind.isWord = true := by
      rw [Token.kind_eq h2]
      exact hcolumn.2
    rw [tableItemAt_words hk hk']
    refine bind_congr_at ((column_eq hk hk').trans ?_)
    rw [Token.value_eq h1, Token.value_eq h2]
    rfl
  · have hskip : Skipped c.peek.kind c.second.kind := ⟨hclose, hend, hnote, hindexes, hcolumn⟩
    refine .success 1 (some .skipped) (fun h => absurd h (by omega)) fun d hd e hu => ?_
    rw [length_ahead, ← second_eq, ← second_eq] at hu
    rw [length_ahead] at e ⊢
    have hd' : Skipped d.peek.kind d.second.kind := by
      rw [Token.kind_eq (ahead_one_eq.1 e)]
      rcases hu with hu | hu
      · rwa [show d.second.kind = c.second.kind from Token.kind_eq hu]
      · exact hskip.mend hu
    rw [tableItemAt_eq, hd'.item, skip_one]
    rfl

theorem steps_tableItem : Steps tableItem (· = .closeBrace) (bodyKinds itemKinds) := by
  have hnone := takes_tableItem (t := ⟨.closeBrace, ""⟩) rfl
  have hopens : Opens (peek >>= fun t => second >>= fun u => tableItemAt t.kind u.kind) (· = .closeBrace)
      (bodyKinds itemKinds) := .take (V := Any) hnone rfl (.pure fun _ _ => trivial)
  rw [tableItem_eq]
  exact steps_body ⟨fun c hc => predictiveAt_tableItem hc, hopens⟩ hnone (refuses_tableItem rfl) (Or.inl rfl)
    (Or.inr rfl)

theorem predictive_tableName (h : H .identifier) : Predictive tableName H fun _ => (· ≠ .dot) :=
  (predictive_word _ h).bind fun _ =>
    .ifAccept ((predictive_word _ trivial).map fun _ _ _ => trivial) (.pure fun _ h => ⟨h, trivial⟩)

theorem predictive_tableAlias : Predictive tableAlias H fun _ k => k ≠ .asWord ∧ H k :=
  .ifAccept ((predictive_word _ trivial).map fun _ _ _ => trivial) (.pure fun _ h => h)

theorem predictive_table (h : H .table) : Predictive table H fun _ => Any :=
  .expect ((predictive_tableName trivial).bind fun _ => predictive_tableAlias.bind fun _ =>
    .openBrace (steps_tableItem.many.any.map fun _ _ h => h) ⟨nofun, nofun⟩) h

/-! ## Enumerations -/

theorem predictive_enumNote : Predictive enumNote Any fun _ => (· ≠ .openBracket) := by
  have hnote : Predictive (accept .note >>= fun b => if b = true then
      expect .colon >>= fun _ => string >>= fun text => expect .closeBracket >>= fun _ => Pure.pure (some text)
      else expected .noteWord) Any fun _ => (· ≠ .openBracket) := by
    refine .take (·.kind = .note) ?_ ?_ ⟨.note, ""⟩ rfl trivial
    · intro t ht
      refine ⟨expect .colon >>= fun _ => string >>= fun text => expect .closeBracket >>= fun _ => pure (some text),
        fun c hc => bind_ok ((accept_eq .note c).trans (if_pos ((Token.kind_eq hc).trans ht))), ?_⟩
      exact .expect ((predictive_string trivial).bind fun _ => .expect (.pure fun _ _ => trivial) trivial) trivial
    · intro t ht
      refine ⟨.expected .noteWord, fun c hc => ⟨c, ?_⟩⟩
      rw [bind_ok ((accept_eq .note c).trans (if_neg (by rw [Token.kind_eq hc]; exact ht)))]
      rfl
  exact .ifAccept hnote (.pure fun _ h => ⟨h, trivial⟩)

/-- One value behind its line breaks. -/
def enumValueAt (t : Token) : Production (Option EnumValue) :=
  if t.kind = .closeBrace then advance >>= fun _ => Pure.pure none
  else if t.kind.isWord = true ∨ t.kind = .string then
    next >>= fun u => enumNote >>= fun note => Pure.pure (some ⟨u.value, note⟩)
  else expected .enumValue

theorem enumValue_eq : enumValue = skipNewlines >>= fun _ => peek >>= enumValueAt := rfl

theorem takes_enumValueAt {t : Terminal} (h : t.kind = .closeBrace) :
    Takes (peek >>= enumValueAt) t (pure none) := by
  refine Takes.peek fun tok htok => ?_
  unfold enumValueAt
  rw [if_pos (show tok.kind = .closeBrace from (Token.kind_eq htok).trans h)]
  exact takes_advance

theorem refuses_enumValueAt {t : Terminal} (h : t.kind ≠ .closeBrace)
    (h' : ¬ (t.kind.isWord = true ∨ t.kind = .string)) :
    Refuses (peek >>= enumValueAt) t (.expected .enumValue) := by
  refine Refuses.peek fun tok htok => ?_
  have hk : tok.kind = t.kind := Token.kind_eq htok
  unfold enumValueAt
  rw [if_neg (by rw [hk]; exact h), if_neg (by rw [hk]; exact h')]
  exact refuses_expected _

theorem steps_enumValue : Steps enumValue (· = .closeBrace) (bodyKinds (· ≠ .openBracket)) := by
  have hbody : Predictive (peek >>= enumValueAt) (· = .closeBrace) (bodyKinds (· ≠ .openBracket)) := by
    refine .take (fun t => t.kind = .closeBrace ∨ t.kind.isWord = true ∨ t.kind = .string) ?_ ?_
      ⟨.closeBrace, ""⟩ (Or.inl rfl) rfl
    · intro t ht
      by_cases hclose : t.kind = .closeBrace
      · exact ⟨_, takes_enumValueAt hclose, .pure fun _ _ => trivial⟩
      · refine ⟨enumNote >>= fun note => pure (some ⟨t.value, note⟩), Takes.peek fun tok htok => ?_,
          predictive_enumNote.map fun _ _ h => h⟩
        have hk : tok.kind = t.kind := Token.kind_eq htok
        unfold enumValueAt
        rw [if_neg (by rw [hk]; exact hclose), if_pos (by rw [hk]; exact ht.resolve_left hclose)]
        exact takes_next fun u hu => by rw [Token.value_eq hu]
    · intro t ht
      exact ⟨_, refuses_enumValueAt (fun h => ht (Or.inl h)) fun h => ht (Or.inr h)⟩
  rw [enumValue_eq]
  exact steps_body hbody (takes_enumValueAt rfl) (refuses_enumValueAt nofun (by decide)) nofun nofun

theorem predictive_enumeration (h : H .enum) : Predictive enumeration H fun _ => Any :=
  .expect ((predictive_word _ trivial).bind fun _ =>
    .openBrace (steps_enumValue.many.any.map fun _ _ h => h) trivial) h

/-! ## Relations -/

theorem predictive_relationName : Predictive relationName Any fun _ => (· = .colon) :=
  .ifCheck (.pure fun _ h => h) ((predictive_word _ nofun).map fun _ _ _ => trivial)

theorem predictive_relation (h : H .ref) : Predictive relation H fun _ => Any := by
  refine .expect (predictive_relationName.bind fun _ => .expect ?_ rfl) h
  exact (predictive_endpoint trivial).bind fun _ => (predictive_relationType trivial).bind fun _ =>
    (predictive_endpoint trivial).map fun _ _ h => h

/-! ## Groups -/

/-- One member behind its line breaks. -/
def groupMemberHere : Production (Option String) :=
  accept .closeBrace >>= fun b => if b = true then Pure.pure none
    else word .groupMember >>= fun w => Pure.pure (some w)

theorem groupMember_eq : groupMember = skipNewlines >>= fun _ => groupMemberHere := rfl

theorem groupMemberHere_eq (c : Cursor) :
    groupMemberHere c = if c.peek.kind = .closeBrace then .ok none c.advance
      else if c.peek.kind.isWord = true then .ok (some c.peek.value) c.advance
      else .error ⟨.expected .groupMember, c.peek⟩ c := by
  unfold groupMemberHere
  split
  · next h => exact bind_ok ((accept_eq .closeBrace c).trans (if_pos h))
  · next h =>
    rw [bind_ok ((accept_eq .closeBrace c).trans (if_neg h)), if_neg Bool.false_ne_true]
    split
    · next hw => exact bind_ok ((word_eq .groupMember c).trans (if_pos hw))
    · next hw => exact bind_error ((word_eq .groupMember c).trans (if_neg hw))

theorem takes_groupMember {t : Terminal} (h : t.kind = .closeBrace) :
    Takes groupMemberHere t (pure none) := by
  intro c hc
  rw [groupMemberHere_eq, if_pos ((Token.kind_eq hc).trans h)]
  rfl

theorem refuses_groupMember {t : Terminal} (h : t.kind ≠ .closeBrace) (h' : t.kind.isWord = false) :
    Refuses groupMemberHere t (.expected .groupMember) := by
  intro c hc
  rw [groupMemberHere_eq, if_neg (by rw [Token.kind_eq hc]; exact h), if_neg (by rw [Token.kind_eq hc, h']; nofun)]
  exact ⟨c, rfl⟩

theorem steps_groupMember : Steps groupMember (· = .closeBrace) (bodyKinds Any) := by
  have hbody : Predictive groupMemberHere (· = .closeBrace) (bodyKinds Any) := by
    refine .take (fun t => t.kind = .closeBrace ∨ t.kind.isWord = true) ?_ ?_ ⟨.closeBrace, ""⟩ (Or.inl rfl) rfl
    · intro t ht
      by_cases hclose : t.kind = .closeBrace
      · exact ⟨_, takes_groupMember hclose, .pure fun _ _ => trivial⟩
      · refine ⟨pure (some t.value), fun c hc => ?_, .pure fun _ _ => trivial⟩
        rw [groupMemberHere_eq, Token.kind_eq hc, if_neg hclose, if_pos (ht.resolve_left hclose), Token.value_eq hc]
        rfl
    · intro t ht
      rw [not_or, Bool.not_eq_true] at ht
      exact ⟨_, refuses_groupMember ht.1 ht.2⟩
  rw [groupMember_eq]
  exact steps_body hbody (takes_groupMember rfl) (refuses_groupMember nofun rfl) trivial trivial

theorem predictive_tableGroup (h : H .tableGroup) : Predictive tableGroup H fun _ => Any :=
  .expect ((predictive_word _ trivial).bind fun _ =>
    .openBrace (steps_groupMember.many.any.map fun _ _ h => h) trivial) h

/-! ## Documents -/

/-- The kinds with which a statement begins, or a text ends. -/
def StartsStatement (k : TokenKind) : Prop :=
  k = .endOfInput ∨ k = .table ∨ k = .enum ∨ k = .ref ∨ k = .tableGroup

/-- What may stand behind a statement, or behind the last. -/
def statementKinds : Option Statement → TokenKind → Prop
  | none => (· = .endOfInput)
  | some _ => Any

theorem statementAt_end {d : Cursor} (h : d.peek.kind = .endOfInput) : statementAt d.peek d = .ok none d := by
  rw [statementAt, h]
  rfl

/-- A statement is told by its first token. -/
theorem predictiveAt_statement {p : Production α} (g : α → Statement) {k : TokenKind}
    (hp : Predictive p (· = k) fun _ => Any) (hk : StartsStatement k) (hc : c.Closed) (hck : c.peek.kind = k)
    (h : ∀ t : Token, t.kind = k → statementAt t = p >>= fun a => pure (some (g a))) :
    PredictiveAt (peek >>= statementAt) StartsStatement statementKinds c := by
  have hp : Predictive (p >>= fun a => pure (some (g a))) (· = k) statementKinds := hp.map fun _ _ h => h
  refine (hp.run c hc).congr (fun j hj => by rw [hj]; exact hk) ?_
  rintro d _ (hd | hd)
  · rw [peek_bind, h d.peek ((Token.kind_eq hd).trans hck)]
  · rw [peek_bind, h d.peek hd]

theorem predictive_statementAt : Predictive (peek >>= statementAt) StartsStatement statementKinds := by
  have hnone : Predictive (pure none) (· = .endOfInput) statementKinds := .pure fun _ h => h
  refine ⟨fun c hc => ?_, hnone.opens.congr (fun _ h => Or.inl h) fun d hd => statementAt_end hd⟩
  cases hk : c.peek.kind with
  | endOfInput =>
    refine (hnone.run c hc).congr (fun _ h => Or.inl h) ?_
    rintro d _ (hd | hd)
    · exact statementAt_end ((Token.kind_eq hd).trans hk)
    · exact statementAt_end hd
  | table =>
    refine predictiveAt_statement .table (predictive_table rfl) (by simp [StartsStatement]) hc hk fun t ht => ?_
    rw [statementAt, ht]
  | enum =>
    refine predictiveAt_statement .enum (predictive_enumeration rfl) (by simp [StartsStatement]) hc hk fun t ht => ?_
    rw [statementAt, ht]
  | ref =>
    refine predictiveAt_statement .relation (predictive_relation rfl) (by simp [StartsStatement]) hc hk fun t ht => ?_
    rw [statementAt, ht]
  | tableGroup =>
    refine predictiveAt_statement .group (predictive_tableGroup rfl) (by simp [StartsStatement]) hc hk fun t ht => ?_
    rw [statementAt, ht]
  | _ =>
    refine .stop .statement fun d _ e => ⟨d, ?_⟩
    have hd := (Token.kind_eq (ahead_one_eq.1 (ahead_agree_le (by omega) e))).trans hk
    rw [peek_bind, statementAt, hd]
    rfl

theorem steps_statement : Steps statement StartsStatement statementKinds := by
  have hne : ∀ k, StartsStatement k → k ≠ .newline := by
    rintro k (rfl | rfl | rfl | rfl | rfl) <;> nofun
  have h : Predictive statement StartsStatement statementKinds :=
    .skipNewlines (predictive_statementAt.widen fun k hk => ⟨hne k hk, hk⟩)
  refine ⟨h.run, ⟨[], fun _ h => Or.inl h, passes_nil.2 fun d hd hu => ?_⟩, fun _ => ⟨fun _ _ => trivial, ?_⟩, ?_⟩
  · have hu : d.peek.kind = .endOfInput := hu
    rw [statement_eq, bind_ok (skipNewlines_eq (n := 0) hd nofun (show d.peek.kind ≠ .newline by rw [hu]; nofun))]
    exact statementAt_end hu
  · exact ⟨.comma, trivial, by simp [StartsStatement]⟩
  · intro position a c
    rw [show statement ⟨[], .endAt position⟩ = .ok none ⟨[], .endAt position⟩ from rfl]
    nofun

theorem predictive_document : Predictive document StartsStatement fun _ => (· = .endOfInput) :=
  steps_statement.many.map fun _ _ h => h

end Production

end Erd
