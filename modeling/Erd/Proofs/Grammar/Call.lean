import Erd.Proofs.Grammar.Yielding
import Erd.Proofs.Token.Prefix
import Erd.Proofs.Token.Spelling

/-!
# Bare calls

A string default that ends in a parenthesis and is read back from its own text is a call: a word and
pieces between parentheses, each of which stands in the text just as it is put together again.  Such a text
is cut into the same tokens in front of any other.

    isCall s = true → ∃ w pieces, IsCallOf s w pieces                              (isCallOf_of_isCall)
    IsCallOf s w pieces → LexesTo s (callTerminals w pieces)                           (IsCallOf.lexesTo)
    IsCallOf s w pieces → Reads defaultValue (callTerminals w pieces) (· = .string s) Any   (IsCallOf.reads)
-/

namespace Erd

/-! ## Definitions -/

namespace Terminal

/-- The text that stands for a terminal in a call. -/
def pieceText (t : Terminal) : String :=
  match t.kind with
  | .comma => ", "
  | .string => "'" ++ t.value ++ "'"
  | _ => t.value

/-- What may stand between the parentheses. -/
def IsPiece (t : Terminal) : Prop :=
  t.kind ≠ .closeParen ∧ t.kind ≠ .endOfInput ∧ t.kind ≠ .newline ∧ t.kind ≠ .closeBracket

instance (t : Terminal) : Decidable t.IsPiece := inferInstanceAs (Decidable (_ ∧ _ ∧ _ ∧ _))

end Terminal

/-- The words that are values of their own. -/
def valueWords : List String := ["null", "NULL", "true", "TRUE", "false", "FALSE"]

def callTerminals (w : String) (pieces : List Terminal) : List Terminal :=
  .word w :: .mark '(' :: (pieces ++ [.mark ')'])

/-- A text that is the call of a word, put together from its terminals. -/
structure IsCallOf (s w : String) (pieces : List Terminal) : Prop where
  word : IsWord w
  plain : w ∉ valueWords
  terminals : terminals s.toList = callTerminals w pieces
  all : ∀ p ∈ pieces, p.IsPiece
  text : s = w ++ ("(" ++ String.join (pieces.map Terminal.pieceText) ++ ")")

namespace Production

/-! ## Reading a call -/

theorem reads_callPiece {t : Terminal} (h : t.IsPiece) : Reads callPiece [t] (· = some t.pieceText) Any := by
  have hadv (s : String) : Reads (advance >>= fun _ => Pure.pure (some s)) [t] (· = some s) Any :=
    reads_advance.then leads_any fun _ _ => Reads.pure rfl
  obtain ⟨h1, h2, h3, h4⟩ := h
  refine Reads.peek fun tok htok => ?_
  obtain ⟨k, v⟩ := t
  obtain ⟨hk, hv⟩ : tok.kind = k ∧ tok.value = v := Terminal.mk.inj htok
  rw [hk, hv]
  cases k with
  | closeParen => exact absurd rfl h1
  | endOfInput => exact absurd rfl h2
  | newline => exact absurd rfl h3
  | closeBracket => exact absurd rfl h4
  | _ => exact hadv _

theorem reads_callPiece_end : Reads callPiece [.mark ')'] (· = none) Any := by
  refine Reads.peek fun tok htok => ?_
  have hk : tok.kind = .closeParen := congrArg Terminal.kind htok
  simp only [hk]
  exact reads_advance.then leads_any fun _ _ => Reads.pure rfl

theorem reads_callArguments {pieces : List Terminal} (h : ∀ p ∈ pieces, p.IsPiece) :
    Reads callArguments (.mark '(' :: (pieces ++ [.mark ')']))
      (· = "(" ++ String.join (pieces.map Terminal.pieceText) ++ ")") Any := by
  refine (reads_expect rfl).then leads_any fun _ _ => ?_
  have hmany : Reads (many callPiece) (pieces.flatMap (fun p => [p]) ++ [.mark ')'])
      (· = pieces.map Terminal.pieceText) Any :=
    Reads.many (fun p hp => reads_callPiece (h p hp)) (fun _ _ => List.cons_ne_nil _ _)
      (fun _ _ => leads_any) reads_callPiece_end leads_any
  rw [List.flatMap_singleton'] at hmany
  exact hmany.map_eq

/-- A word that is no value of its own, in front of a parenthesis. -/
theorem reads_wordValue_call {w : String} (hw : w ∉ valueWords) {pieces : List Terminal}
    (h : ∀ p ∈ pieces, p.IsPiece) :
    Reads (wordValue w) (.mark '(' :: (pieces ++ [.mark ')']))
      (· = .string (w ++ ("(" ++ String.join (pieces.map Terminal.pieceText) ++ ")"))) Any := by
  simp only [valueWords, List.mem_cons, List.not_mem_nil, or_false, not_or] at hw
  obtain ⟨h1, h2, h3, h4, h5, h6⟩ := hw
  unfold wordValue
  rw [if_neg (by simp [h1, h2]), if_neg (by simp [h3, h4]), if_neg (by simp [h5, h6])]
  refine reads_check.skip (leads_cons rfl) ?_
  rintro _ rfl
  rw [if_pos rfl]
  exact (reads_callArguments h).map_eq

/-- A default that begins with a word. -/
theorem reads_defaultValue_word {w : String} {ts : List Terminal}
    {Q : DefaultValue → Prop} {F : TokenKind → Prop} (h : Reads (wordValue w) ts Q F) :
    Reads defaultValue (.word w :: ts) Q F := by
  have hk := wordKind_isWord w.toList
  refine Reads.peek fun tok htok => ?_
  obtain ⟨hk', hv⟩ : tok.kind = wordKind w.toList ∧ tok.value = w := Terminal.mk.inj htok
  rw [hk', hv]
  have hadv : Reads (advance >>= fun _ => wordValue w) (.word w :: ts) Q F :=
    reads_advance.then leads_any fun _ _ => h
  generalize wordKind w.toList = k at hk
  cases k with
  | string => cases hk
  | number => cases hk
  | dash => cases hk
  | _ => first | exact hadv | cases hk

/-! ## What a call was read from -/

theorem callPiece_eq_ok {c c' : Cursor} {o : Option String} (e : callPiece c = .ok o c') :
    c' = c.advance ∧ ((o = none ∧ c.peek.kind = .closeParen) ∨
      (o = some c.peek.terminal.pieceText ∧ c.peek.terminal.IsPiece)) := by
  have hadv {p : Option String}
      (e : (advance >>= fun _ => Pure.pure p : Production (Option String)) c = .ok o c') :
      c' = c.advance ∧ o = p := by
    cases e
    exact ⟨rfl, rfl⟩
  unfold callPiece at e
  rw [peek_bind] at e
  unfold Terminal.pieceText Terminal.IsPiece
  dsimp only [Token.terminal]
  cases hk : c.peek.kind with
  | closeParen =>
    rw [hk] at e
    obtain ⟨h, h'⟩ := hadv e
    exact ⟨h, Or.inl ⟨h', rfl⟩⟩
  | endOfInput => rw [hk] at e; cases e
  | newline => rw [hk] at e; cases e
  | closeBracket => rw [hk] at e; cases e
  | _ =>
    rw [hk] at e
    obtain ⟨h, h'⟩ := hadv e
    exact ⟨h, Or.inr ⟨h', by decide⟩⟩

/-- What a cursor has left in front of its end token. -/
theorem terminals_eq_peek {c : Cursor} (hb : c.beyond.kind = .endOfInput) (h : c.peek.kind ≠ .endOfInput) :
    c.terminals = c.peek.terminal :: c.advance.terminals ∧ c.advance.rest.length + 1 = c.rest.length := by
  obtain ⟨_ | ⟨t, ts⟩, b⟩ := c
  · exact absurd hb h
  · exact ⟨rfl, rfl⟩

theorem manyAtMost_callPiece_eq_ok {n : Nat} {c c' : Cursor} {texts : List String}
    (hb : c.beyond.kind = .endOfInput) (hn : c.rest.length < n)
    (e : manyAtMost callPiece n c = .ok texts c') :
    ∃ pieces close, (∀ p ∈ pieces, p.IsPiece) ∧ close.kind = .closeParen ∧
      c.terminals = pieces ++ close :: c'.terminals ∧ texts = pieces.map Terminal.pieceText ∧
        c'.beyond = c.beyond := by
  induction n generalizing c c' texts with
  | zero => omega
  | succ n ih =>
    rw [manyAtMost_succ] at e
    obtain ⟨o, d, hp, e⟩ := bind_eq_ok e
    obtain ⟨rfl, ⟨rfl, hk⟩ | ⟨rfl, hpiece⟩⟩ := callPiece_eq_ok hp
    · -- the closing parenthesis
      obtain ⟨hts, -⟩ := terminals_eq_peek hb (by rw [hk]; decide)
      cases e
      exact ⟨[], c.peek.terminal, nofun, hk, hts, rfl, rfl⟩
    · obtain ⟨hts, hlen⟩ := terminals_eq_peek hb hpiece.2.1
      obtain ⟨more, d, hr, e⟩ := bind_eq_ok e
      cases e
      obtain ⟨pieces, close, hall, hclose, hts', rfl, hb'⟩ := ih (c := c.advance) hb (by omega) hr
      refine ⟨c.peek.terminal :: pieces, close, ?_, hclose, ?_, rfl, hb'⟩
      · intro p hmem
        rcases List.mem_cons.1 hmem with rfl | hmem
        · exact hpiece
        · exact hall p hmem
      · rw [hts, hts']
        rfl

theorem callArguments_eq_ok {c c' : Cursor} {text : String} (hb : c.beyond.kind = .endOfInput)
    (e : callArguments c = .ok text c') :
    ∃ first pieces close, (∀ p ∈ pieces, p.IsPiece) ∧ first.kind = .openParen ∧ close.kind = .closeParen ∧
      c.terminals = first :: (pieces ++ close :: c'.terminals) ∧
        text = "(" ++ String.join (pieces.map Terminal.pieceText) ++ ")" ∧ c'.beyond = c.beyond := by
  obtain ⟨t, d, hx, e⟩ := bind_eq_ok e
  rw [expect_eq] at hx
  split at hx
  · next hk =>
    cases hx
    obtain ⟨hts, -⟩ := terminals_eq_peek hb (by rw [hk]; decide)
    obtain ⟨texts, d, hr, e⟩ := bind_eq_ok e
    obtain ⟨pieces, close, hall, hclose, hts', rfl, hb'⟩ :=
      manyAtMost_callPiece_eq_ok (c := c.advance) hb (Nat.lt_succ_self _) hr
    cases e
    exact ⟨c.peek.terminal, pieces, close, hall, hk, hclose, by rw [hts, hts'], rfl, hb'⟩
  · cases hx

/-- What a word that gives a string goes on with. -/
theorem wordValue_eq_string {c c' : Cursor} {w s : String} (e : wordValue w c = .ok (.string s) c') :
    s = w ∨ (w ∉ valueWords ∧ ∃ text, callArguments c = .ok text c' ∧ s = w ++ text) := by
  unfold wordValue at e
  split at e
  · cases e
  · next h1 =>
    split at e
    · cases e
    · next h2 =>
      split at e
      · cases e
      · next h3 =>
        obtain ⟨b, d, hc, e⟩ := bind_eq_ok e
        cases hc
        split at e
        · obtain ⟨text, d, hr, e⟩ := bind_eq_ok e
          cases e
          refine Or.inr ⟨?_, text, hr, rfl⟩
          simp only [Bool.or_eq_true, beq_iff_eq, not_or] at h1 h2 h3
          simp [valueWords, h1, h2, h3]
        · cases e
          exact Or.inl rfl

/-- What a default that is a string was read from: a string, a word alone, or a call. -/
theorem defaultValue_eq_string {c c' : Cursor} {s : String} (e : defaultValue c = .ok (.string s) c') :
    (c.peek.kind = .string ∧ s = c.peek.value) ∨
      (c.peek.kind.isWord = true ∧ (s = c.peek.value ∨ (c.peek.value ∉ valueWords ∧
        ∃ text, callArguments c.advance = .ok text c' ∧ s = c.peek.value ++ text))) := by
  unfold defaultValue at e
  rw [peek_bind] at e
  have hnumber {p : Production Binary64} {f : Binary64 → Binary64} {d : Cursor}
      (e : (p >>= fun x => Pure.pure (DefaultValue.number (f x))) d = .ok (.string s) c') : False := by
    obtain ⟨x, d, -, e⟩ := bind_eq_ok e
    cases e
  have hword (e : (advance >>= fun _ => wordValue c.peek.value) c = .ok (.string s) c') :=
    wordValue_eq_string (c := c.advance) e
  cases hk : c.peek.kind with
  | string =>
    rw [hk] at e
    cases e
    exact Or.inl ⟨rfl, rfl⟩
  | number =>
    rw [hk] at e
    obtain ⟨_, d, -, e⟩ := bind_eq_ok e
    exact (hnumber (f := id) e).elim
  | dash =>
    rw [hk] at e
    dsimp only at e
    rw [second_bind] at e
    split at e
    · obtain ⟨_, d, -, e⟩ := bind_eq_ok e
      obtain ⟨_, d, -, e⟩ := bind_eq_ok e
      exact (hnumber e).elim
    · cases e
  | _ =>
    rw [hk] at e
    first | exact Or.inr ⟨rfl, hword e⟩ | cases e

end Production

/-! ## Calls by their text -/

/-- The end behind a list without ends is found once. -/
theorem append_end_inj {ts us vs : List Terminal} {t : Terminal} (hts : ∀ u ∈ ts, u.kind ≠ .endOfInput)
    (ht : t.kind ≠ .endOfInput) (hv : ∀ u ∈ vs.head?, u.kind = .endOfInput)
    (h : ts ++ [.endOfText] = us ++ t :: vs) : ts = us ++ [t] := by
  rcases List.eq_nil_or_concat vs with rfl | ⟨vs, v, rfl⟩
  · obtain ⟨-, h⟩ := List.append_inj' h rfl
    cases h
    exact absurd rfl ht
  · rw [List.concat_eq_append, ← List.cons_append, ← List.append_assoc] at h
    obtain ⟨rfl, -⟩ := List.append_inj' h rfl
    cases vs with
    | nil => rfl
    | cons u vs =>
      refine absurd (hv u (by simp)) (hts u ?_)
      simp

/-- The terminals of a text that is a word and its arguments to the end. -/
theorem Production.callArguments_to_end {c c' : Cursor} {ts : List Terminal} {text : String}
    (hscan : c.Scanned) (hb : c.beyond.kind = .endOfInput) (hts : c.terminals = ts ++ [.endOfText])
    (hno : ∀ u ∈ ts, u.kind ≠ .endOfInput) (hk : c.peek.kind.isWord = true)
    (e : callArguments c.advance = .ok text c') (hend : c'.peek.kind = .endOfInput) :
    ∃ pieces, ts = callTerminals c.peek.value pieces ∧ (∀ p ∈ pieces, p.IsPiece) ∧
      text = "(" ++ String.join (pieces.map Terminal.pieceText) ++ ")" := by
  have hne : c.peek.kind ≠ .endOfInput := by
    intro h
    rw [h] at hk
    cases hk
  have hpeek := (terminals_eq_peek hb hne).1
  obtain ⟨first, pieces, close, hall, hopen, hclose, hts', rfl, hb'⟩ :=
    callArguments_eq_ok (c := c.advance) hb e
  have hmem {t : Terminal} (h : t ∈ c.advance.terminals) : t.Scanned := by
    obtain ⟨tok, htok, rfl⟩ := List.mem_map.1 h
    exact hscan.advance.1 tok htok
  have hopen : first = .mark '(' := (hmem (by simp [hts'])).mark '(' (by decide) hopen
  have hclose' : close = .mark ')' := (hmem (by simp [hts'])).mark ')' (by decide) hclose
  have hsplit : ts ++ [.endOfText] = (c.peek.terminal :: first :: pieces) ++ close :: c'.terminals := by
    rw [← hts, hpeek, hts']
    simp
  have hhead : ∀ u ∈ c'.terminals.head?, u.kind = .endOfInput := by
    obtain ⟨_ | ⟨t, ts⟩, b⟩ := c'
    · nofun
    · rintro u hu
      cases hu
      exact hend
  refine ⟨pieces, ?_, hall, rfl⟩
  rw [append_end_inj hno (by rw [hclose]; decide) hhead hsplit, hscan.peek.eq_word hk, hopen, hclose']
  rfl

theorem isCallOf_of_isCall {s : String} (h : isCall s = true) : ∃ w pieces, IsCallOf s w pieces := by
  simp only [isCall, isBareDefault, Bool.and_eq_true, beq_iff_eq] at h
  obtain ⟨hlast, h⟩ := h
  have hts : (Cursor.ofTokens (tokenize s)).terminals = terminals s.toList ++ [.endOfText] :=
    terminal_tokenize s
  have hscan := Cursor.scanned_ofTokens (scanned_tokenize s)
  have hb : (Cursor.ofTokens (tokenize s)).beyond.kind = .endOfInput := rfl
  generalize Cursor.ofTokens (tokenize s) = c at *
  split at h
  · next value c' e =>
    simp only [Bool.and_eq_true, beq_iff_eq] at h
    obtain ⟨rfl, hend⟩ := h
    rcases Production.defaultValue_eq_string e with ⟨hk, hv⟩ | ⟨hk, hv | ⟨hplain, text, harg, hv⟩⟩
    · -- a string is shorter than the text that holds it
      have hne : c.peek.kind ≠ .endOfInput := by
        rw [hk]
        decide
      have hfirst : c.peek.terminal ∈ terminals value.toList := by
        have hmem : c.peek.terminal ∈ terminals value.toList ++ [.endOfText] := by
          simp [← hts, (Production.terminals_eq_peek hb hne).1]
        rcases List.mem_append.1 hmem with hmem | hmem
        · exact hmem
        · exact absurd (congrArg Terminal.kind (List.mem_singleton.1 hmem)) hne
      have hlt := length_lt_of_string hfirst hk
      rw [hv] at hlt
      exact absurd hlt (Nat.lt_irrefl _)
    · -- a word does not end in a parenthesis
      have hw := hscan.peek.word hk
      rw [show c.peek.terminal.value = value from hv.symm] at hw
      exact absurd (isWordChar_of_mem hw (List.mem_of_getLast? hlast)) (by decide)
    · obtain ⟨pieces, hterminals, hall, rfl⟩ := Production.callArguments_to_end hscan hb hts
        (fun _ => terminals_kind_ne_endOfInput) hk harg hend
      exact ⟨c.peek.value, pieces, hscan.peek.word hk, hplain, hterminals, hall, hv⟩
  · cases h

/-! ## A call stands in its text as it is put together -/

/-- The text that terminals of a call are put together to. -/
def callText (ts : List Terminal) : List Char := ts.flatMap fun t => t.pieceText.toList

/-- How a lexeme is put together again: a comma takes a blank, a closed string is not longer than it was, and
anything else stands for itself. -/
theorem pieceText_lexeme (c : Char) (r : List Char) :
    ((splitLexeme c r).1.text = [','] ∧ (splitLexeme c r).1.terminal.pieceText.toList = [',', ' ']) ∨
      ((splitLexeme c r).1.kind = .string ∧ ((splitLexeme c r).2 ≠ [] →
        (splitLexeme c r).1.terminal.pieceText.toList.length ≤ (splitLexeme c r).1.text.length)) ∨
      (splitLexeme c r).1.terminal.pieceText.toList = (splitLexeme c r).1.text := by
  have hscan := scanned_splitLexeme c r
  by_cases hs : (splitLexeme c r).1.kind = .string
  · refine Or.inr (Or.inl ⟨hs, fun hr => ?_⟩)
    have hl := (splitLexeme_string hs).2 hr
    have hp : (splitLexeme c r).1.terminal.pieceText =
        "'" ++ String.ofList (splitLexeme c r).1.value ++ "'" := by
      unfold Terminal.pieceText
      rw [show (splitLexeme c r).1.terminal.kind = .string from hs]
      rfl
    have hq : "'".toList.length = 1 := rfl
    rw [hp]
    simp only [String.toList_append, String.toList_ofList, List.length_append]
    omega
  · have hv := splitLexeme_plain hs
    by_cases hc : (splitLexeme c r).1.kind = .comma
    · have ht := hscan.mark ',' (by decide) hc
      refine Or.inl ⟨?_, by rw [ht]; rfl⟩
      rw [← hv]
      have := congrArg (fun t => t.value.toList) ht
      simpa [Lexeme.terminal, Terminal.mark] using this
    · refine Or.inr (Or.inr ?_)
      have hp : (splitLexeme c r).1.terminal.pieceText = String.ofList (splitLexeme c r).1.value := by
        unfold Terminal.pieceText
        split
        · next h => exact absurd h hc
        · next h => exact absurd h hs
        · rfl
      rw [hp, String.toList_ofList, hv]

/-- The front of a text, longer than what it is put together to, leaves something over. -/
theorem exists_surplus {xs ys us vs : List Char} (h : xs ++ us = ys ++ vs) (hl : ys.length < xs.length) :
    ∃ es, es ≠ [] ∧ es ++ us = vs := by
  rcases List.append_eq_append_iff.1 h with ⟨es, rfl, -⟩ | ⟨es, rfl, rfl⟩
  · rw [List.length_append] at hl
    omega
  · refine ⟨es, ?_, rfl⟩
    rintro rfl
    simp at hl

/-- The gap, the lexeme and the rest of a text. -/
theorem splitLexeme_eq {cs r : List Char} {c : Char} (e : (splitGap .blank cs).2 = c :: r) :
    cs = (splitGap .blank cs).1 ++ ((splitLexeme c r).1.text ++ (splitLexeme c r).2) := by
  rw [splitLexeme_append, ← e, splitGap_append]

/-- Once something is left over, it is never made up for. -/
theorem callText_ne_surplus {cs es : List Char} (he : es ≠ [])
    (hlast : ∀ t ∈ (terminals cs).getLast?, t.kind ≠ .string) : es ++ cs ≠ callText (terminals cs) := by
  fun_induction terminals cs generalizing es with
  | case1 cs e =>
    intro h
    exact he (List.append_eq_nil_iff.1 h).1
  | case2 cs c r e hlt ih =>
    intro h
    have hcs := splitLexeme_eq e
    generalize (splitGap .blank cs).1 = gap at hcs
    have hpos := List.length_pos_iff.2 he
    -- what is left over after this lexeme, too
    have hmore : (splitLexeme c r).1.terminal.pieceText.toList.length <
        (es ++ (gap ++ (splitLexeme c r).1.text)).length → False := by
      intro hlen
      have hsplit : (es ++ (gap ++ (splitLexeme c r).1.text)) ++ (splitLexeme c r).2 =
          (splitLexeme c r).1.terminal.pieceText.toList ++ callText (terminals (splitLexeme c r).2) := by
        rw [List.append_assoc, List.append_assoc, ← hcs, h]
        rfl
      obtain ⟨es', he', h'⟩ := exists_surplus hsplit hlen
      refine ih he' ?_ h'
      intro t ht
      refine hlast t ?_
      rw [List.getLast?_cons, Option.mem_def, (Option.mem_def).1 ht]
      rfl
    rcases pieceText_lexeme c r with ⟨ht, hp⟩ | ⟨hs, hp⟩ | hp
    · rw [ht, hp] at hmore
      by_cases hone : es.length = 1 ∧ gap = []
      · -- a comma in place of the blank behind a comma
        obtain ⟨x, rfl⟩ := List.length_eq_one_iff.1 hone.1
        rw [hcs, hone.2, ht] at h
        simp [callText, hp] at h
      · refine hmore ?_
        have : 2 ≤ es.length ∨ 0 < gap.length := by
          rcases Nat.lt_or_ge 1 es.length with hl | hl
          · exact Or.inl hl
          · refine Or.inr (List.length_pos_iff.2 fun hg => hone ⟨by omega, hg⟩)
        simp only [List.length_append, List.length_cons, List.length_nil]
        omega
    · refine hmore ?_
      have hr : (splitLexeme c r).2 ≠ [] := by
        intro hr
        refine hlast (splitLexeme c r).1.terminal ?_ hs
        rw [hr, terminals_nil]
        rfl
      have := hp hr
      simp only [List.length_append]
      omega
    · refine hmore ?_
      rw [hp]
      simp only [List.length_append]
      omega

/-- A text put together from its terminals begins with a lexeme, and behind it goes on alike. -/
theorem callText_cons {cs r : List Char} {c : Char} (e : (splitGap .blank cs).2 = c :: r)
    (h : cs = callText (terminals cs)) (hlast : (terminals cs).getLast? = some (.mark ')')) :
    cs = c :: r ∧ ((splitLexeme c r).2 = callText (terminals (splitLexeme c r).2) ∨
      ((splitLexeme c r).1.text = [','] ∧
        (splitLexeme c r).2 = ' ' :: callText (terminals (splitLexeme c r).2))) := by
  have hcs := splitLexeme_eq e
  rw [terminals_of_rest_cons e] at h hlast
  have hno {es : List Char} (he : es ≠ []) (h : es ++ (splitLexeme c r).2 =
      callText (terminals (splitLexeme c r).2)) : False := by
    refine callText_ne_surplus he ?_ h
    intro t ht hk
    rw [List.getLast?_cons, Option.mem_def.1 ht] at hlast
    cases hlast
    cases hk
  have hgap : (splitGap .blank cs).1 = [] → cs = c :: r := by
    intro hg
    rw [← e, ← splitGap_append .blank cs, hg, List.nil_append, splitGap_rest]
  generalize (splitGap .blank cs).1 = gap at hcs hgap
  have hsplit : (gap ++ (splitLexeme c r).1.text) ++ (splitLexeme c r).2 =
      (splitLexeme c r).1.terminal.pieceText.toList ++ callText (terminals (splitLexeme c r).2) := by
    rw [List.append_assoc, ← hcs, h]
    rfl
  rcases pieceText_lexeme c r with ⟨ht, hp⟩ | ⟨hs, hp⟩ | hp
  · -- a comma: the blank behind it stands in the text
    rw [ht, hp] at hsplit
    match gap with
    | [] => exact ⟨hgap rfl, Or.inr ⟨ht, by simpa using hsplit⟩⟩
    | [x] => simp at hsplit
    | x :: y :: gap =>
      obtain ⟨es, he, h'⟩ := exists_surplus hsplit (by simp)
      exact (hno he h').elim
  · have hr : (splitLexeme c r).2 ≠ [] := by
      intro hr
      rw [hr, terminals_nil] at hlast
      have ht : (splitLexeme c r).1.terminal = .mark ')' := Option.some.inj hlast
      exact absurd (hs.symm.trans (congrArg Terminal.kind ht)) (by decide)
    have hp := hp hr
    by_cases hlen : (splitLexeme c r).1.terminal.pieceText.toList.length <
        (gap ++ (splitLexeme c r).1.text).length
    · obtain ⟨es, he, h'⟩ := exists_surplus hsplit hlen
      exact (hno he h').elim
    · rw [List.length_append] at hlen
      have hg : gap = [] := List.length_eq_zero_iff.1 (by omega)
      subst hg
      exact ⟨hgap rfl, Or.inl (List.append_inj hsplit (by simp; omega)).2⟩
  · rw [hp] at hsplit
    by_cases hg : gap = []
    · subst hg
      exact ⟨hgap rfl, Or.inl (List.append_cancel_left hsplit)⟩
    · have := List.length_pos_iff.2 hg
      obtain ⟨es, he, h'⟩ := exists_surplus hsplit (by simp; omega)
      exact (hno he h').elim

/-- A text that is put together from a closing parenthesis alone. -/
theorem callText_close {c : Char} {r : List Char} (ht : (splitLexeme c r).1.terminal = .mark ')')
    (hmore : (splitLexeme c r).2 = callText [] ∨
      ((splitLexeme c r).1.text = [','] ∧ (splitLexeme c r).2 = ' ' :: callText [])) : c :: r = [')'] := by
  have hk : (splitLexeme c r).1.kind ≠ .string := by
    rw [show (splitLexeme c r).1.kind = _ from congrArg Terminal.kind ht]
    decide
  have htext : (splitLexeme c r).1.text = [')'] := by
    rw [← splitLexeme_plain hk]
    simpa [Lexeme.terminal, Terminal.mark] using congrArg (fun t => t.value.toList) ht
  have hrest : (splitLexeme c r).2 = [] := by
    rcases hmore with h | ⟨h, -⟩
    · exact h
    · rw [htext] at h
      exact absurd h (by decide)
  rw [← splitLexeme_append c r, htext, hrest]
  rfl

/-- A lexeme in front of more terminals is cut off alike in front of any text. -/
theorem tokens_lexeme_more {c : Char} {r : List Char} (hgap : (splitGap .blank (c :: r)).1 = [])
    (hlast : (terminals (splitLexeme c r).2).getLast? = some (.mark ')')) (p : Position) (rest : List Char) :
    Scanner.tokens ⟨p, c :: r ++ rest⟩ = .ofLexeme (splitLexeme c r).1 p ::
      Scanner.tokens ⟨p.advance (splitLexeme c r).1.text, (splitLexeme c r).2 ++ rest⟩ := by
  have hne : (splitLexeme c r).2 ≠ [] := by
    intro h
    rw [h, terminals_nil] at hlast
    cases hlast
  have hdot : (splitLexeme c r).2 ≠ ['.'] := by
    intro h
    rw [h, terminals_mark (by decide), terminals_nil] at hlast
    exact absurd hlast (by decide)
  have hr : r ≠ [] := by
    rintro rfl
    exact hne (List.length_eq_zero_iff.1 (Nat.lt_one_iff.1 (splitLexeme_length_lt c [])))
  have hmore : splitGap .blank (c :: r ++ rest) = ([], c :: (r ++ rest)) := splitGap_more hgap hr rest
  rw [Scanner.tokens_of_rest_cons (s := ⟨p, c :: r ++ rest⟩) hmore, splitLexeme_more hne hdot]
  rfl

/-- Nothing stands in the text of a call but its tokens and the blanks behind commas, so the text behind it begins
with a new token. -/
theorem tokens_callText {cs : List Char} (h : cs = callText (terminals cs))
    (hlast : (terminals cs).getLast? = some (.mark ')')) (p : Position) :
    ∃ ts, ∀ rest, Scanner.tokens ⟨p, cs ++ rest⟩ = ts ++ Scanner.tokens ⟨p.advance cs, rest⟩ := by
  induction hn : cs.length using Nat.strongRecOn generalizing cs p with
  | ind n ih =>
    cases e : (splitGap .blank cs).2 with
    | nil =>
      rw [terminals_of_rest_nil e] at hlast
      cases hlast
    | cons c r =>
      obtain ⟨hcs, hmore⟩ := callText_cons e h hlast
      rw [terminals_of_rest_cons e] at hlast
      have hlt := splitLexeme_length_lt c r
      rw [← hcs] at hlt
      by_cases hnil : terminals (splitLexeme c r).2 = []
      · -- the closing parenthesis
        rw [hnil] at hlast hmore
        have hclose := callText_close (Option.some.inj hlast) hmore
        refine ⟨[.ofLexeme (.plain .closeParen [')']) p], fun rest => ?_⟩
        rw [hcs, hclose, List.singleton_append,
          Scanner.tokens_of_rest_cons (s := ⟨p, ')' :: rest⟩) (splitGap_lexeme (by decide) (by decide) _),
          splitLexeme_mark (by decide)]
        rfl
      · have hlast : (terminals (splitLexeme c r).2).getLast? = some (.mark ')') := by
          obtain ⟨t, ts, hne⟩ := List.exists_cons_of_ne_nil hnil
          rw [hne] at hlast ⊢
          rwa [List.getLast?_cons_cons] at hlast
        have hgap : (splitGap .blank (c :: r)).1 = [] := by
          have := splitGap_rest .blank cs
          rw [e] at this
          rw [this]
        -- what is left over is put together in the same way, perhaps behind a blank
        have hbehind : ∃ ts, ∀ rest,
            Scanner.tokens ⟨p.advance (splitLexeme c r).1.text, (splitLexeme c r).2 ++ rest⟩ =
              ts ++ Scanner.tokens ⟨(p.advance (splitLexeme c r).1.text).advance (splitLexeme c r).2, rest⟩ := by
          rcases hmore with h' | ⟨-, h'⟩
          · exact ih _ (hn ▸ hlt) h' hlast _ rfl
          · generalize hd : callText (terminals (splitLexeme c r).2) = ds at h'
            rw [h', terminals_blank] at hd hlast
            rw [h', List.length_cons] at hlt
            obtain ⟨ts, hts⟩ :=
              ih ds.length (by omega) hd.symm hlast ((p.advance (splitLexeme c r).1.text).next ' ') rfl
            refine ⟨ts, fun rest => ?_⟩
            rw [h', List.cons_append, Scanner.tokens_blank]
            exact hts rest
        obtain ⟨ts, hts⟩ := hbehind
        refine ⟨.ofLexeme (splitLexeme c r).1 p :: ts, fun rest => ?_⟩
        rw [hcs, tokens_lexeme_more hgap hlast, hts, ← Position.advance_append, splitLexeme_append]
        rfl

namespace IsCallOf

variable {s w : String} {pieces : List Terminal}

theorem toList_eq (h : IsCallOf s w pieces) : s.toList = callText (Erd.terminals s.toList) := by
  have hw : (Terminal.word w).pieceText = w := by
    have hk := wordKind_isWord w.toList
    unfold Terminal.pieceText
    split
    · next h => rw [show wordKind w.toList = .comma from h] at hk; cases hk
    · next h => rw [show wordKind w.toList = .string from h] at hk; cases hk
    · rfl
  have hmark (c : Char) (hc : c = '(' ∨ c = ')') : (Terminal.mark c).pieceText = String.ofList [c] := by
    rcases hc with rfl | rfl <;> rfl
  have ho : "(".toList = ['('] := rfl
  have hc : ")".toList = [')'] := rfl
  rw [h.terminals, h.text]
  simp [callTerminals, callText, hw, hmark, String.toList_join, List.flatMap_map, ho, hc]

/-- A call is cut into the same tokens in front of any text. -/
theorem exists_tokens (h : IsCallOf s w pieces) (p : Position) : ∃ ts : List Token,
    ts.map Token.terminal = callTerminals w pieces ∧
      ∀ rest, Scanner.tokens ⟨p, s.toList ++ rest⟩ = ts ++ Scanner.tokens ⟨p.advance s.toList, rest⟩ := by
  have hlast : (Erd.terminals s.toList).getLast? = some (.mark ')') := by
    rw [h.terminals, callTerminals, ← List.cons_append, ← List.cons_append, List.getLast?_append]
    rfl
  obtain ⟨ts, hts⟩ := tokens_callText h.toList_eq hlast p
  refine ⟨ts, ?_, hts⟩
  have halone := terminals_of_tokens (hts [])
  rw [List.append_nil, terminals_nil, List.append_nil] at halone
  rw [← halone, h.terminals]

theorem lexesTo (h : IsCallOf s w pieces) : LexesTo s (callTerminals w pieces) := by
  intro p
  obtain ⟨ts, hmap, hts⟩ := h.exists_tokens p
  exact ⟨ts, hmap, fun rest _ => hts rest⟩

theorem reads (h : IsCallOf s w pieces) :
    Production.Reads Production.defaultValue (callTerminals w pieces) (· = .string s) Production.Any := by
  have hw := Production.reads_wordValue_call h.plain h.all
  rw [← h.text] at hw
  exact Production.reads_defaultValue_word hw

end IsCallOf

end Erd
