import Erd.Proofs.Grammar.Predictive

/-!
# Literals in front of more text

What is printed for a string, a name or a default value is cut into tokens of its own in front of a comma or a
closing bracket, and the tokens of the text behind it come next.  A default value is read back from them, and the
reading stops at the first token of the text behind it.

    tokensAt p (quote s ++ r) = ⟨string, s, p⟩ :: tokensAt (p.after (quote s)) r             (tokensAt_quote)
    isCall s = true → ∃ ts, ∀ r, tokensAt p (s ++ r) = ts ++ tokensAt (p.after s) r          (tokensAt_call)
    Predictive m H G → Reads m ts (· = a) F → LexesTo s ts → BehindSetting r → … →
      m (.ofTokens (tokensAt p (s ++ r))) = .ok a (.ofTokens (tokensAt (p.after s) r))        (ok_of_lexesTo)
-/

namespace Erd

/-! ## Definitions -/

/-- The place behind a text. -/
def Position.after (p : Position) (s : String) : Position := p.advance s.toList

/-- The tokens of a text that stands at a place; `tokenize` has it stand at the start. -/
def tokensAt (p : Position) (s : String) : List Token := Scanner.tokens ⟨p, s.toList⟩

/-- The text can stand behind a setting: it begins with a comma or a closing bracket. -/
def BehindSetting (r : String) : Prop := r.toList.head? = some ',' ∨ r.toList.head? = some ']'

instance (r : String) : Decidable (BehindSetting r) := inferInstanceAs (Decidable (_ ∨ _))

variable {s r : String}

/-! ## The text behind -/

theorem BehindSetting.exists_mark (h : BehindSetting r) :
    ∃ c cs, r.toList = c :: cs ∧ (c = ',' ∨ c = ']') := by
  rcases h with h | h
  · obtain ⟨cs, hcs⟩ := List.head?_eq_some_iff.1 h
    exact ⟨',', cs, hcs, Or.inl rfl⟩
  · obtain ⟨cs, hcs⟩ := List.head?_eq_some_iff.1 h
    exact ⟨']', cs, hcs, Or.inr rfl⟩

theorem BehindSetting.stopsAt (h : BehindSetting r) : StopsAt isLexemeChar r.toList := by
  obtain ⟨c, cs, hr, hc⟩ := h.exists_mark
  rw [hr, stopsAt_cons]
  rcases hc with rfl | rfl <;> decide

theorem BehindSetting.exists_token (h : BehindSetting r) (p : Position) :
    ∃ t ts, tokensAt p r = t :: ts ∧ EndsSetting t.kind := by
  obtain ⟨c, cs, hr, hc⟩ := h.exists_mark
  have hmark : isMark c = true := by rcases hc with rfl | rfl <;> decide
  refine ⟨_, _, by rw [tokensAt, hr, Scanner.tokens_mark hmark], ?_⟩
  rcases hc with rfl | rfl
  · exact Or.inl rfl
  · exact Or.inr rfl

/-- The place of a text has no say in the kinds and values of its tokens. -/
theorem terminal_tokensAt (p : Position) (s : String) :
    (tokensAt p s).map Token.terminal = (tokenize s).map Token.terminal := by
  rw [terminal_tokenize]
  exact Scanner.terminal_tokens ⟨p, s.toList⟩

theorem tokensAt_ne_nil (p : Position) (s : String) : tokensAt p s ≠ [] := by
  intro h
  have hterminals := (terminal_tokensAt p s).trans (terminal_tokenize s)
  rw [h] at hterminals
  exact List.append_ne_nil_of_right_ne_nil _ (List.cons_ne_nil _ _) hterminals.symm

theorem tokensAt_empty (p : Position) : tokensAt p "" = [.endAt p] := Scanner.tokens_of_rest_nil rfl

/-! ## Tokens of what is printed -/

theorem tokensAt_quote (s : String) (p : Position) (r : String) :
    tokensAt p (quote s ++ r) = ⟨.string, s, p⟩ :: tokensAt (p.after (quote s)) r := by
  rw [tokensAt, String.toList_append]
  exact tokens_quote s p r.toList

theorem tokensAt_wordOrString (s : String) (p : Position) (hr : BehindSetting r) :
    ∃ k : TokenKind, (k.isWord = true ∨ k = .string) ∧
      tokensAt p (wordOrString s ++ r) = ⟨k, s, p⟩ :: tokensAt (p.after (wordOrString s)) r := by
  refine ⟨(wordOrStringTerminal s).kind, ?_, ?_⟩
  · unfold wordOrStringTerminal
    split
    · exact Or.inl (wordKind_isWord s.toList)
    · exact Or.inr rfl
  · rw [tokensAt, String.toList_append]
    exact tokens_wordOrString s p hr.stopsAt.word

/-- A call is cut into the same tokens in front of any text: nothing of that text belongs to its last token, and no
comment of the call reaches into it. -/
theorem tokensAt_call (h : isCall s = true) (p : Position) :
    ∃ ts, ∀ r, tokensAt p (s ++ r) = ts ++ tokensAt (p.after s) r := by
  obtain ⟨w, pieces, hcall⟩ := isCallOf_of_isCall h
  obtain ⟨ts, -, hts⟩ := hcall.exists_tokens p
  refine ⟨ts, fun r => ?_⟩
  rw [tokensAt, String.toList_append]
  exact hts r.toList

/-! ## Reading what is printed -/

/-- A cursor on the tokens behind others. -/
theorem Cursor.skip_ofTokens (ts : List Token) {us : List Token} (h : us ≠ []) :
    (ofTokens (ts ++ us)).skip ts.length = ofTokens us := by
  obtain ⟨u, hu⟩ := Option.ne_none_iff_exists'.1 (List.getLast?_eq_none_iff.not.2 h)
  unfold ofTokens skip
  rw [List.drop_left, List.getLast?_append, hu]
  rfl

namespace Production

/-- What reads the terminals of a text reads the text itself in front of what ends a setting, and stops there. -/
theorem Predictive.ok_of_lexesTo {α : Type} {m : Production α} {H F : TokenKind → Prop} {G : α → TokenKind → Prop}
    {ts : List Terminal} {a : α} (h : Predictive m H G) (hm : Reads m ts (· = a) F) (hs : LexesTo s ts)
    (hF : ∀ k, EndsSetting k → F k) (hr : BehindSetting r) (p : Position) :
    m (.ofTokens (tokensAt p (s ++ r))) = .ok a (.ofTokens (tokensAt (p.after s) r)) := by
  obtain ⟨toks, rfl, htoks⟩ := hs p
  have htokens : tokensAt p (s ++ r) = toks ++ tokensAt (p.after s) r := by
    rw [tokensAt, String.toList_append]
    exact htoks r.toList hr.stopsAt
  obtain ⟨t, us, hfirst, hkind⟩ := hr.exists_token (p.after s)
  have hterminals : (Cursor.ofTokens (tokensAt p (s ++ r))).terminals =
      toks.map Token.terminal ++ t.terminal :: us.map Token.terminal := by
    rw [htokens, hfirst]
    exact List.map_append
  rw [h.ok_of_reads hm (Cursor.closed_ofTokens _) hterminals (hF _ hkind), htokens, List.length_map,
    Cursor.skip_ofTokens _ (tokensAt_ne_nil _ r)]

end Production

/-- A default value is read back from its literal in front of what ends a setting, if a number in it is finite. -/
theorem DefaultValue.defaultValue_literal {d : DefaultValue} (hd : ∀ x, d = .number x → x.isFinite = true)
    (hr : BehindSetting r) (p : Position) :
    Production.defaultValue (.ofTokens (tokensAt p (d.literal ++ r))) =
      .ok d (.ofTokens (tokensAt (p.after d.literal) r)) := by
  have hreads := d.reads_terminals (by
    rintro rfl
    exact absurd (hd _ rfl) (by decide))
  rw [reread_eq hd] at hreads
  have hpredictive := Production.predictive_defaultValue (H := Production.Any) trivial
  refine hpredictive.ok_of_lexesTo hreads d.lexesTo_literal (fun k hk => ?_) hr p
  rcases hk with rfl | rfl <;> decide

/-- Literals in front of a comma or a closing bracket: a quoted string is one token of its value, a name is one word
or one string of its value, a default value with no infinity and no NaN is read back up to the text behind it, and a
call without quotes has the tokens there that it has alone.  The tokens of the text behind come next, of the kinds
and values that they have by themselves. -/
theorem literals_before (p : Position) (s : String) (d : DefaultValue) (r : String)
    (hd : ∀ x, d = .number x → x.isFinite = true) (hr : BehindSetting r) :
    (∀ q, (tokensAt q r).map Token.terminal = (tokenize r).map Token.terminal) ∧
    tokensAt p (quote s ++ r) = ⟨.string, s, p⟩ :: tokensAt (p.after (quote s)) r ∧
    (∃ k : TokenKind, (k.isWord = true ∨ k = .string) ∧
      tokensAt p (wordOrString s ++ r) = ⟨k, s, p⟩ :: tokensAt (p.after (wordOrString s)) r) ∧
    Production.defaultValue (.ofTokens (tokensAt p (d.literal ++ r))) =
      .ok d (.ofTokens (tokensAt (p.after d.literal) r)) ∧
    (isCall s = true → ∃ ts, tokensAt p s = ts ++ [.endAt (p.after s)] ∧
      tokensAt p (s ++ r) = ts ++ tokensAt (p.after s) r) := by
  refine ⟨fun q => terminal_tokensAt q r, tokensAt_quote s p r, tokensAt_wordOrString s p hr,
    DefaultValue.defaultValue_literal hd hr p, fun h => ?_⟩
  obtain ⟨ts, hts⟩ := tokensAt_call h p
  have halone := hts ""
  rw [String.append_empty, tokensAt_empty] at halone
  exact ⟨ts, halone, hts r⟩

theorem literals_before_bracket :
    (∀ x, DefaultValue.number ⟨0xBFE0000000000000⟩ = .number x → x.isFinite = true) ∧ BehindSetting "]" ∧
      isCall "f('a', 1)" = true ∧ (DefaultValue.number ⟨0xBFE0000000000000⟩).literal = "-0.5" ∧
      tokensAt .start (quote "f('a', 1)" ++ "]") =
        ⟨.string, "f('a', 1)", .start⟩ :: tokensAt (Position.start.after (quote "f('a', 1)")) "]" ∧
      Production.defaultValue (.ofTokens (tokensAt .start ("-0.5" ++ "]"))) =
        .ok (.number ⟨0xBFE0000000000000⟩) (.ofTokens (tokensAt (Position.start.after "-0.5") "]")) ∧
      ∃ ts, tokensAt .start "f('a', 1)" = ts ++ [.endAt (Position.start.after "f('a', 1)")] ∧
        tokensAt .start ("f('a', 1)" ++ "]") = ts ++ tokensAt (Position.start.after "f('a', 1)") "]" := by
  have hfinite : ∀ x, DefaultValue.number ⟨0xBFE0000000000000⟩ = .number x → x.isFinite = true := by
    rintro x ⟨⟩
    decide
  have hbehind : BehindSetting "]" := by decide
  have hcall : isCall "f('a', 1)" = true := by decide +kernel
  have hliteral : (DefaultValue.number ⟨0xBFE0000000000000⟩).literal = "-0.5" := by decide +kernel
  obtain ⟨-, hquote, -, hvalue, hcalls⟩ :=
    literals_before .start "f('a', 1)" (.number ⟨0xBFE0000000000000⟩) "]" hfinite hbehind
  rw [hliteral] at hvalue
  exact ⟨hfinite, hbehind, hcall, hliteral, hquote, hvalue, hcalls hcall⟩

end Erd
