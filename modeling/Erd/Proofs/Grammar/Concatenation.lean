import Erd.Proofs.Grammar.Image
import Erd.Proofs.Grammar.Predictive
import Erd.Proofs.Schema.Append
import Erd.Proofs.Token.Joined

/-!
# Documents one behind the other

A statement ends with a closing brace or a word, whatever stands behind it.  So a document with a line
break and another document behind it has the statements of both, and errors of the second are found where
they were, only further down.

    many statement c = .ok sts c' → Statements ts sts                              (statements_of_many)
    Statements ts sts → many statement over `ts`, a line break and more is `sts` and what is more
                                                                                   (Statements.more)
-/

namespace Erd

namespace Production

open Cursor

variable {α β : Type} {p : Production α} {f : α → Production β} {P : α → Prop} {Q : β → Prop}
  {K : TokenKind → Prop} {H : TokenKind → Prop} {F : α → TokenKind → Prop} {c d : Cursor}

/-! ## Last tokens -/

/-- Values of `P` are read up to a token of `K`, which is the last. -/
def Ends (p : Production α) (P : α → Prop) (K : TokenKind → Prop) : Prop :=
  ∀ c a c', c.Closed → p c = .ok a c' → P a → ∃ us t, c.rest = us ++ t :: c'.rest ∧ K t.kind

theorem rest_eq_peek (hc : c.Closed) (h : c.peek.kind ≠ .endOfInput) : c.rest = c.peek :: c.advance.rest := by
  obtain ⟨_ | ⟨t, ts⟩, b⟩ := c
  · exact absurd (Token.kind_eq hc) h
  · rfl

/-- The tokens that are skipped stand in front. -/
theorem rest_of_skip {n : Nat} {us ts : List Token} (h : (c.skip n).rest = us ++ ts) :
    c.rest = c.rest.take n ++ us ++ ts := by
  rw [List.append_assoc, ← h]
  exact (List.take_append_drop n c.rest).symm

theorem Ends.bind (hp : Predictive p H F) (hf : ∀ a, Ends (f a) Q K) : Ends (p >>= f) Q K := by
  intro c b c'' hc e hb
  obtain ⟨a, c', e, e'⟩ := bind_eq_ok e
  obtain ⟨n, rfl, -⟩ := (hp.run c hc).of_ok hc e
  obtain ⟨us, t, hrest, ht⟩ := hf a _ b c'' (hc.skip n) e' hb
  exact ⟨c.rest.take n ++ us, t, rest_of_skip hrest, ht⟩

theorem Ends.map {g : α → β} (hp : Ends p P K) (h : ∀ a, Q (g a) → P a) :
    Ends (p >>= fun a => Pure.pure (g a)) Q K := by
  intro c b c'' hc e hb
  obtain ⟨a, c', e, e'⟩ := bind_eq_ok e
  cases e'
  exact hp c a _ hc e (h a hb)

theorem Ends.some {g : α → β} (hp : Ends p (fun _ => True) K) :
    Ends (p >>= fun a => Pure.pure (some (g a))) (· ≠ none) K :=
  hp.map fun _ _ => trivial

theorem Ends.expect {k : TokenKind} (hk : k ≠ .endOfInput) (hp : Ends p P K) :
    Ends (expect k >>= fun _ => p) P K := by
  intro c a c' hc e ha
  obtain ⟨tok, c₁, e, e'⟩ := bind_eq_ok e
  rw [expect_eq] at e
  split at e
  · next h =>
    cases e
    obtain ⟨us, t, hrest, ht⟩ := hp c.advance a c' hc e' ha
    refine ⟨c.peek :: us, t, ?_, ht⟩
    rw [List.cons_append, ← hrest, rest_eq_peek hc (by rw [h]; exact hk)]
  · cases e

theorem ends_word (what : Expectation) (hK : ∀ k : TokenKind, k.isWord = true → K k) :
    Ends (word what) (fun _ => True) K := by
  intro c a c' hc e _
  rw [word_eq] at e
  split at e
  · next h =>
    cases e
    refine ⟨[], c.peek, rest_eq_peek hc ?_, hK _ h⟩
    intro hk
    rw [hk] at h
    cases h
  · cases e

theorem Steps.ends_many {step : Production (Option α)} {F : Option α → TokenKind → Prop} (h : Steps step H F)
    (hnone : Ends step (· = none) K) : Ends (Production.many step) (fun _ => True) K := by
  intro c as c' hc e _
  induction hlen : c.rest.length using Nat.strongRecOn generalizing c as with
  | ind len ih =>
    subst hlen
    rw [h.many_eq hc] at e
    obtain ⟨o, c₁, hs, e⟩ := bind_eq_ok e
    cases o with
    | none =>
      cases e
      exact hnone c none _ hc hs rfl
    | some a =>
      obtain ⟨more, c₂, hm, e⟩ := bind_eq_ok e
      cases e
      obtain ⟨hc₁, hlt⟩ := h.progress hc hs
      obtain ⟨us, t, hrest, ht⟩ := ih _ hlt _ more hc₁ hm rfl
      obtain ⟨n, rfl, -⟩ := (h.run c hc).of_ok hc hs
      exact ⟨c.rest.take n ++ us, t, rest_of_skip hrest, ht⟩

/-! ## Ends of statements -/

/-- The kinds of the last token of a statement. -/
def EndsStatement (k : TokenKind) : Prop := k = .closeBrace ∨ k.isWord = true

theorem bind_some_ne_none {p : Production α} {g : α → β} {c c' : Cursor} :
    (p >>= fun a => Pure.pure (some (g a))) c ≠ .ok none c' := by
  intro e
  obtain ⟨a, d, -, e⟩ := bind_eq_ok e
  cases e

theorem exists_rest_closeBrace (hc : c.Closed) (h : c.peek.kind = .closeBrace) :
    ∃ us t, c.rest = us ++ t :: c.advance.rest ∧ EndsStatement t.kind :=
  ⟨[], c.peek, rest_eq_peek hc (by rw [h]; nofun), Or.inl h⟩

theorem ends_tableItem : Ends tableItem (· = none) EndsStatement := by
  rw [tableItem_eq]
  refine .bind (predictive_skipNewlines (H := Any)) fun _ c o c' hc e ho => ?_
  subst ho
  rw [tableItemAt_eq] at e
  unfold tableItemAt at e
  split at e
  · next h =>
    cases e
    exact exists_rest_closeBrace hc h
  split at e
  · cases e
  split at e
  · exact absurd e bind_some_ne_none
  split at e
  · exact absurd e bind_some_ne_none
  split at e
  · exact absurd e bind_some_ne_none
  · cases e

theorem ends_enumValue : Ends enumValue (· = none) EndsStatement := by
  rw [enumValue_eq]
  refine .bind (predictive_skipNewlines (H := Any)) fun _ c o c' hc e ho => ?_
  subst ho
  rw [peek_bind, enumValueAt] at e
  split at e
  · next h =>
    cases e
    exact exists_rest_closeBrace hc h
  split at e
  · obtain ⟨tok, d, -, e⟩ := bind_eq_ok e
    exact absurd e bind_some_ne_none
  · cases e

theorem ends_groupMember : Ends groupMember (· = none) EndsStatement := by
  rw [groupMember_eq]
  refine .bind (predictive_skipNewlines (H := Any)) fun _ c o c' hc e ho => ?_
  subst ho
  rw [groupMemberHere_eq] at e
  split at e
  · next h =>
    cases e
    exact exists_rest_closeBrace hc h
  split at e <;> cases e

/-- A body in braces behind line breaks. -/
theorem ends_braces {step : Production (Option α)} {F : Option α → TokenKind → Prop} (h : Steps step H F)
    (hnone : Ends step (· = none) K) {g : List α → β} :
    Ends (skipNewlines >>= fun _ => expect .openBrace >>= fun _ => many step >>= fun as => Pure.pure (g as))
      (fun _ => True) K :=
  .bind (predictive_skipNewlines (H := Any)) fun _ =>
    .expect nofun ((h.ends_many hnone).map fun _ h => h)

theorem ends_table : Ends table (fun _ => True) EndsStatement :=
  .expect nofun (.bind (predictive_tableName (H := Any) trivial) fun _ =>
    .bind (predictive_tableAlias (H := Any)) fun _ => ends_braces steps_tableItem ends_tableItem)

theorem ends_enumeration : Ends enumeration (fun _ => True) EndsStatement :=
  .expect nofun (.bind (predictive_word (H := Any) _ trivial) fun _ =>
    ends_braces steps_enumValue ends_enumValue)

theorem ends_tableGroup : Ends tableGroup (fun _ => True) EndsStatement :=
  .expect nofun (.bind (predictive_word (H := Any) _ trivial) fun _ =>
    ends_braces steps_groupMember ends_groupMember)

theorem ends_endpoint : Ends endpoint (fun _ => True) EndsStatement :=
  .bind (predictive_word (H := Any) _ trivial) fun _ =>
    .expect nofun ((ends_word _ fun _ => Or.inr).map fun _ h => h)

theorem ends_relation : Ends relation (fun _ => True) EndsStatement :=
  .expect nofun (.bind predictive_relationName fun _ => .expect nofun
    (.bind (predictive_endpoint (H := Any) trivial) fun _ =>
      .bind (predictive_relationType (H := Any) trivial) fun _ => ends_endpoint.map fun _ h => h))

/-- A statement ends with a closing brace or a word. -/
theorem ends_statement : Ends statement (· ≠ none) EndsStatement := by
  rw [statement_eq]
  refine .bind (predictive_skipNewlines (H := Any)) fun _ c o c' hc e ho => ?_
  rw [peek_bind] at e
  unfold statementAt at e
  cases hk : c.peek.kind with
  | endOfInput =>
    rw [hk] at e
    cases e
    exact absurd rfl ho
  | table => rw [hk] at e; exact ends_table.some c o c' hc e ho
  | enum => rw [hk] at e; exact ends_enumeration.some c o c' hc e ho
  | ref => rw [hk] at e; exact ends_relation.some c o c' hc e ho
  | tableGroup => rw [hk] at e; exact ends_tableGroup.some c o c' hc e ho
  | _ => rw [hk] at e; cases e

/-! ## Runs of statements -/

/-- The tokens are those of the statements, which read alike whatever follows, and line breaks. -/
inductive Statements : List Token → List Statement → Prop where
  | nil {ts : List Token} (breaks : ∀ t ∈ ts, t.kind = .newline) : Statements ts []
  | cons {us : List Token} {t : Token} {ts : List Token} {st : Statement} {sts : List Statement}
      (last : EndsStatement t.kind) (passes : Passes statement ((us ++ [t]).map Token.terminal) (some st) fun _ => True)
      (more : Statements ts sts) : Statements (us ++ t :: ts) (st :: sts)

/-- No statement is found at the end only. -/
theorem statement_eq_none (e : statement c = .ok none d) :
    (Cursor.mk (c.rest.dropWhile (·.kind == .newline)) c.beyond).peek.kind = .endOfInput := by
  rw [statement_eq, bind_ok (show skipNewlines c = .ok () ⟨c.rest.dropWhile (·.kind == .newline), c.beyond⟩ from rfl),
    peek_bind] at e
  unfold statementAt at e
  generalize Cursor.mk (c.rest.dropWhile (·.kind == .newline)) c.beyond = c' at e
  cases hk : c'.peek.kind with
  | endOfInput => rfl
  | table => rw [hk] at e; exact absurd e bind_some_ne_none
  | enum => rw [hk] at e; exact absurd e bind_some_ne_none
  | ref => rw [hk] at e; exact absurd e bind_some_ne_none
  | tableGroup => rw [hk] at e; exact absurd e bind_some_ne_none
  | _ => rw [hk] at e; cases e

/-- In front of the end only line breaks are no statement. -/
theorem newlines_of_statement_none {ts : List Token} {last : Token} (hrest : c.rest = ts ++ [last])
    (hts : ∀ t ∈ ts, t.kind ≠ .endOfInput) (e : statement c = .ok none d) : ∀ t ∈ ts, t.kind = .newline := by
  have hpeek := statement_eq_none e
  rw [hrest, List.dropWhile_append] at hpeek
  cases hd : ts.dropWhile (·.kind == .newline) with
  | nil =>
    have hall := List.all_takeWhile (p := fun t : Token => t.kind == .newline) (l := ts)
    have happend := List.takeWhile_append_dropWhile (p := fun t : Token => t.kind == .newline) (l := ts)
    rw [hd, List.append_nil] at happend
    rw [happend] at hall
    exact fun t ht => beq_iff_eq.1 (List.all_eq_true.1 hall t ht)
  | cons t us =>
    rw [hd] at hpeek
    have hmem : t ∈ ts := (List.dropWhile_sublist _).mem (hd ▸ List.mem_cons_self)
    exact absurd hpeek (hts t hmem)

theorem statements_of_many {ts : List Token} {last : Token} {sts : List Statement} (hc : c.Closed)
    (hrest : c.rest = ts ++ [last]) (hlast : last.kind = .endOfInput) (hts : ∀ t ∈ ts, t.kind ≠ .endOfInput)
    (e : many statement c = .ok sts d) : Statements ts sts := by
  induction hlen : ts.length using Nat.strongRecOn generalizing ts c sts with
  | ind len ih =>
    subst hlen
    rw [steps_statement.many_eq hc] at e
    obtain ⟨o, c₁, hs, e⟩ := bind_eq_ok e
    cases o with
    | none =>
      cases e
      exact .nil (newlines_of_statement_none hrest hts hs)
    | some st =>
      obtain ⟨more, c₂, hm, e⟩ := bind_eq_ok e
      cases e
      obtain ⟨us, t, hus, ht⟩ := ends_statement c _ _ hc hs nofun
      obtain ⟨n, rfl, -, hpass⟩ := (steps_statement.run c hc).of_ok hc hs
      -- the end is not the last token of the statement, and so it is behind it
      obtain ⟨ts', hts', rfl⟩ : ∃ ts', (c.skip n).rest = ts' ++ [last] ∧ ts = us ++ t :: ts' := by
        rcases List.eq_nil_or_concat' (c.skip n).rest with hnil | ⟨ts', x, hx⟩
        · rw [hnil, hrest] at hus
          obtain rfl : last = t := (List.append_inj' hus rfl).2 |> List.cons.inj |>.1
          rw [hlast] at ht
          rcases ht with ht | ht <;> cases ht
        · rw [hx, hrest, ← List.cons_append, ← List.append_assoc] at hus
          obtain ⟨h1, h2⟩ := List.append_inj' hus rfl
          cases h2
          exact ⟨ts', hx, h1⟩
      have hn : n = us.length + 1 := by
        have h1 := congrArg List.length hts'
        have h2 := congrArg List.length hrest
        simp only [skip, List.length_drop, List.length_append, List.length_cons, List.length_nil] at h1 h2
        omega
      have hahead : c.ahead n = (us ++ [t]).map Token.terminal := by
        have hsplit : us ++ t :: ts' ++ [last] = us ++ [t] ++ (ts' ++ [last]) := by simp
        rw [ahead_eq_take (by rw [hrest]; simp; omega), hrest, hsplit, hn]
        congr 1
        exact List.take_left' (by simp)
      refine .cons ht (hahead ▸ hpass.mono fun _ _ => Or.inr trivial) ?_
      exact ih _ (by simp; omega) (hc.skip n) hts' (fun u hu => hts u (by simp [hu])) hm rfl

namespace Statements

variable {ts : List Token} {sts : List Statement}

/-- The last token is no string. -/
theorem last_ne_string (h : Statements ts sts) : ∀ t ∈ ts.getLast?, t.kind ≠ .string := by
  induction h with
  | nil breaks =>
    intro t ht hk
    have := breaks t (List.mem_of_getLast? ht)
    rw [hk] at this
    cases this
  | @cons us t ts st sts last passes more ih =>
    intro u hu
    rw [List.getLast?_append_cons] at hu
    cases ts with
    | nil =>
      have hu : t = u := by simpa using hu
      subst hu
      intro hk
      rw [hk] at last
      rcases last with h | h <;> cases h
    | cons v vs => exact ih u (by simpa using hu)

/-- Behind the statements and a line break the rest is read as if it stood alone. -/
theorem more (h : Statements ts sts) {line : Token} (hline : line.kind = .newline) {us : List Token} (hd : d.Closed)
    (hrest : d.rest = ts ++ line :: us) :
    many statement d = (many statement >>= fun more => Pure.pure (sts ++ more)) ⟨us, d.beyond⟩ := by
  induction h generalizing d with
  | @nil ts breaks =>
    have hskip : statement d = statement ⟨us, d.beyond⟩ := by
      have hdrop : d.rest.dropWhile (·.kind == .newline) = us.dropWhile (·.kind == .newline) := by
        have hline : (line.kind == .newline) = true := beq_iff_eq.2 hline
        rw [hrest, List.dropWhile_append_of_pos fun t ht => beq_iff_eq.2 (breaks t ht)]
        exact List.dropWhile_cons_of_pos hline
      exact congrArg (fun ts => (peek >>= statementAt) ⟨ts, d.beyond⟩) hdrop
    rw [steps_statement.many_eq hd, bind_congr_at hskip]
    show _ = (many statement >>= Pure.pure) ⟨us, d.beyond⟩
    rw [bind_pure, steps_statement.many_eq (show (Cursor.mk us d.beyond).Closed from hd)]
  | @cons vs t ts st sts last passes _ ih =>
    have hsplit : d.rest = vs ++ [t] ++ (ts ++ line :: us) := by rw [hrest]; simp
    have hskip : d.skip (vs ++ [t]).length = ⟨ts ++ line :: us, d.beyond⟩ := by
      rw [skip, hsplit, List.drop_left]
    have hahead : d.ahead (vs ++ [t]).length = (vs ++ [t]).map Token.terminal := by
      rw [ahead_eq_take (by rw [hsplit]; simp), hsplit, List.take_left]
    have hst : statement d = .ok (some st) ⟨ts ++ line :: us, d.beyond⟩ := by
      rw [← hskip, ← List.length_map (f := Token.terminal)]
      exact passes d hd (by rw [List.length_map]; exact hahead) trivial
    have hmore := ih (d := ⟨ts ++ line :: us, d.beyond⟩) hd rfl
    rw [steps_statement.many_eq hd, bind_ok hst]
    show (many statement >>= fun as => Pure.pure (st :: as)) _ = _
    rw [bind_congr_at hmore, bind_assoc]
    simp only [pure_bind, List.cons_append]

end Statements

end Production

/-! ## The same terminals elsewhere -/

namespace Cursor

/-- The cursor over the same tokens so many lines further down. -/
def below (n : Nat) (c : Cursor) : Cursor := ⟨c.rest.map (Token.below n), c.beyond.below n⟩

theorem peek_below (n : Nat) (c : Cursor) : (c.below n).peek = c.peek.below n := by
  obtain ⟨_ | ⟨t, ts⟩, b⟩ := c <;> rfl

theorem skip_below (n m : Nat) (c : Cursor) : (c.below n).skip m = (c.skip m).below n := by
  simp [skip, below]

theorem ahead_below (n m : Nat) (c : Cursor) : (c.below n).ahead m = c.ahead m := by
  induction m generalizing c with
  | zero => rfl
  | succ m ih => rw [ahead, ahead, ← skip_one, ← skip_one, skip_below, ih, peek_below, Token.terminal_below]

end Cursor

namespace SyntaxError

/-- The error so many lines further down. -/
def below (n : Nat) (e : SyntaxError) : SyntaxError := ⟨e.cause, e.token.below n⟩

end SyntaxError

namespace Production

open Cursor

variable {α : Type} {p : Production α} {H : TokenKind → Prop} {F : α → TokenKind → Prop} {c : Cursor}

/-- Further down a predictive production reads the same. -/
theorem Predictive.ok_below (h : Predictive p H F) (hc : c.Closed) (n : Nat) {a : α} {c' : Cursor}
    (e : p c = .ok a c') : p (c.below n) = .ok a (c'.below n) := by
  obtain ⟨m, rfl, -, hpass⟩ := (h.run c hc).of_ok hc e
  rw [← skip_below]
  refine hpass.run hc (ahead_below n m c) (Or.inl ?_)
  rw [skip_below, peek_below, Token.terminal_below]

/-- Further down a predictive production fails further down. -/
theorem Predictive.error_below (h : Predictive p H F) (hc : c.Closed) (n : Nat) {e : SyntaxError} {c' : Cursor}
    (he : p c = .error e c') : ∃ d', p (c.below n) = .error (e.below n) d' := by
  obtain ⟨m, htok, hfails, -⟩ := (h.run c hc).of_error hc he
  obtain ⟨d', hd'⟩ := hfails (c.below n) hc (ahead_below n _ c)
  rw [skip_below, peek_below, ← htok] at hd'
  exact ⟨d', hd'⟩

end Production

/-! ## Documents -/

namespace Schema

open Production Cursor

/-- A document is read as its statements. -/
theorem document_eq_ok {c c' : Cursor} {s : Schema} :
    document c = .ok s c' ↔ ∃ sts, many statement c = .ok sts c' ∧ s = ofStatements sts := by
  constructor
  · intro e
    obtain ⟨sts, c₁, e, e'⟩ := bind_eq_ok e
    cases e'
    exact ⟨sts, e, rfl⟩
  · rintro ⟨sts, e, rfl⟩
    exact bind_ok e

theorem document_eq_error {c c' : Cursor} {e : SyntaxError} :
    document c = .error e c' ↔ many statement c = .error e c' := by
  constructor
  · intro he
    cases hm : many statement c with
    | ok sts c₁ =>
      have hdoc : document c = .ok (ofStatements sts) c₁ := bind_ok hm
      rw [hdoc] at he
      cases he
    | error e₁ c₁ =>
      have hdoc : document c = .error e₁ c₁ := bind_error hm
      rw [hdoc] at he
      cases he
      rfl
  · exact fun h => bind_error h

/-- The statements of a source that is read to the end. -/
theorem statements_of_parse {a : String} {A : Schema} (h : parse a = .ok A) :
    ∃ ts p sts, tokenize a = ts ++ [.endAt p] ∧ Statements ts sts ∧ A = ofStatements sts := by
  obtain ⟨ts, p, hts, hend⟩ := tokenize_eq_append a
  obtain ⟨c', hdoc⟩ := parse_eq_ok.1 h
  obtain ⟨sts, hmany, hA⟩ := document_eq_ok.1 hdoc
  exact ⟨ts, p, sts, hts, statements_of_many (closed_ofTokens _) hts rfl hend hmany, hA⟩

theorem terminals_getLast {a : String} {ts : List Token} {p : Position} {sts : List Statement}
    (h : tokenize a = ts ++ [.endAt p]) (hs : Statements ts sts) :
    ∀ t ∈ (terminals a.toList).getLast?, t.kind ≠ .string := by
  have hmap := terminal_tokenize a
  rw [h, List.map_append] at hmap
  rw [← (List.append_inj' hmap rfl).1, List.getLast?_map]
  intro t ht
  obtain ⟨u, hu, rfl⟩ := Option.map_eq_some_iff.1 ht
  exact hs.last_ne_string u hu

/-- The cursor over the end of a joined source is one over the second part, further down. -/
theorem ofTokens_below {ts : List Token} {line : Token} {b j : String} {n : Nat}
    (h : tokenize j = ts ++ line :: (tokenize b).map (Token.below n)) :
    Cursor.mk ((tokenize b).map (Token.below n)) (Cursor.ofTokens (tokenize j)).beyond =
      (Cursor.ofTokens (tokenize b)).below n := by
  obtain ⟨us, q, hus, -⟩ := tokenize_eq_append b
  have hlast : (tokenize j).getLast? = some (Token.below n (.endAt q)) := by
    rw [h, hus, List.map_append, ← List.cons_append, ← List.append_assoc]
    exact List.getLast?_concat
  rw [Cursor.ofTokens, hlast, Cursor.ofTokens, hus, List.getLast?_concat]
  rfl

/-- A document, a line break and another document are read as the statements of both. -/
theorem parse_join {a : String} {A : Schema} (ha : parse a = .ok A) (hc : ¬ EndsInComment a) (b : String) :
    (∀ B, parse b = .ok B → ∃ C, parse (a ++ "\n" ++ b) = .ok C ∧ C = (A.append B).resolveEnums ∧
      ∀ t ∈ C.tables, ∀ c ∈ t.columns, ∃ raw, c.rawType = some raw ∧
        c.type = typeNamed (A.enums ++ B.enums) raw ∧
        c.settings.enumValues = valuesNamed (A.enums ++ B.enums) raw) ∧
    (∀ e, parse b = .error e → ∃ e', parse (a ++ "\n" ++ b) = .error e' ∧ e'.message = e.message ∧
      e'.value? = e.value? ∧ e'.column = e.column ∧ e'.line = e.line + (1 + a.toList.count '\n')) := by
  obtain ⟨ts, p, sts, hts, hs, rfl⟩ := statements_of_parse ha
  obtain ⟨ts', p', hts', hjoin⟩ := tokenize_join hc (terminals_getLast hts hs) b
  obtain ⟨rfl, -⟩ := List.append_inj' (hts'.symm.trans hts) rfl
  have hline : (Token.newlineAt p').kind = .newline := rfl
  have hmore := hs.more (d := .ofTokens (tokenize (a ++ "\n" ++ b))) hline (closed_ofTokens _) hjoin
  rw [ofTokens_below hjoin] at hmore
  constructor
  · intro B hB
    obtain ⟨c', hdoc⟩ := parse_eq_ok.1 hB
    obtain ⟨sts', hmany, rfl⟩ := document_eq_ok.1 hdoc
    have hbelow := steps_statement.many.ok_below (closed_ofTokens _) (1 + a.toList.count '\n') hmany
    rw [bind_ok hbelow] at hmore
    have hparse : parse (a ++ "\n" ++ b) = .ok (ofStatements (sts ++ sts')) :=
      parse_eq_ok.2 ⟨_, document_eq_ok.2 ⟨_, hmore, rfl⟩⟩
    refine ⟨_, hparse, ofStatements_append sts sts', fun t ht c hc => ?_⟩
    obtain ⟨c', hdoc⟩ := parse_eq_ok.1 hparse
    obtain ⟨raw, hraw, -, htype, hvalues⟩ := (((canonical_of_document hdoc).tables t ht).columns c hc).rawType
    rw [ofStatements_append] at htype hvalues
    exact ⟨raw, hraw, htype, hvalues⟩
  · intro e he
    obtain ⟨c', hdoc⟩ := parse_eq_error.1 he
    obtain ⟨d', hbelow⟩ := steps_statement.many.error_below (closed_ofTokens _) (1 + a.toList.count '\n')
      (document_eq_error.1 hdoc)
    rw [bind_error hbelow] at hmore
    exact ⟨_, parse_eq_error.2 ⟨d', document_eq_error.2 hmore⟩, rfl, rfl, rfl, rfl⟩

/-- A table in front of the enumeration that types its column, and behind it a relation that is cut off. -/
theorem parse_joined_enumeration :
    ∃ A B e, parse "Table t \x7b\n  a e\n\x7d // f" = .ok A ∧ ¬ EndsInComment "Table t \x7b\n  a e\n\x7d // f" ∧
      parse "Enum e \x7b\n  x\n\x7d" = .ok B ∧ parse "Ref: t.a >" = .error e ∧
      parse ("Table t \x7b\n  a e\n\x7d // f" ++ "\n" ++ "Enum e \x7b\n  x\n\x7d") = .ok (A.append B).resolveEnums ∧
      (A.append B).resolveEnums = lateEnumeration ∧
      ∃ e', parse ("Table t \x7b\n  a e\n\x7d // f" ++ "\n" ++ "Ref: t.a >") = .error e' ∧
        e'.message = e.message ∧ e'.line = 4 := by
  have hA : parse "Table t \x7b\n  a e\n\x7d // f" = .ok
      { tables := [{ name := "t", columns := [{ name := "a", type := .ofTypeName "e", rawType := some "e" }] }] } := by
    decide +kernel
  have hB : parse "Enum e \x7b\n  x\n\x7d" = .ok { enums := [⟨"e", [⟨"x", none⟩]⟩] } := by decide +kernel
  have he : parse "Ref: t.a >" = .error ⟨.expected .tableName, .endAt ⟨1, 11⟩⟩ := by decide +kernel
  have hc : ¬ EndsInComment "Table t \x7b\n  a e\n\x7d // f" := by
    rintro ⟨star, h⟩
    have hm : lastGapMode "Table t \x7b\n  a e\n\x7d // f".toList = .lineComment := by decide +kernel
    rw [hm] at h
    cases h
  obtain ⟨C, hC, hC', -⟩ := (parse_join hA hc _).1 _ hB
  obtain ⟨e', he', hmessage, -, -, hline⟩ := (parse_join hA hc _).2 _ he
  refine ⟨_, _, _, hA, hc, hB, he, hC'.symm ▸ hC, by decide, e', he', hmessage, hline.trans (by decide)⟩

end Schema

end Erd
