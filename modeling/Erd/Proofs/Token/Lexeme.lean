import Mathlib.Data.List.Infix
import Mathlib.Data.List.TakeWhile
import Erd.Proofs.Token.Terminal

/-!
# What lexemes look like

`Lexeme.Before l rest` says what a lexeme in front of a text looks like, one rule for each sort of lexeme.
It leaves no choice: such a lexeme is what is cut off the front of its text and `rest`.  What can be said of
a lexeme is said of each rule, and a lexeme is cut off alike in front of every text that ends it as well.

    l.Before rest ↔ ∃ c r, l.text ++ rest = c :: r ∧ splitLexeme c r = (l, rest)                (before_iff)
    l.Before rest → EndsAs rest rest' → … → l.Before rest'                                  (Before.endsAs)
-/

namespace Erd

/-! ## Definitions -/

/-- What stands behind an opening quote without being the closing one, and the value of the string: a
backslash is dropped and the character behind it kept. -/
inductive StringBody (quote : Char) : List Char → List Char → Prop where
  | nil : StringBody quote [] []
  | plain {c : Char} {body value : List Char} (hc : c ≠ quote) (hb : c ≠ backslash)
      (h : StringBody quote body value) : StringBody quote (c :: body) (c :: value)
  | escaped {c : Char} {body value : List Char} (h : StringBody quote body value) :
      StringBody quote (backslash :: c :: body) (c :: value)

/-- The characters that are tokens by themselves, whatever follows them. -/
def marks : List (Char × TokenKind) :=
  [('\n', .newline), ('\x7b', .openBrace), ('\x7d', .closeBrace), ('[', .openBracket), (']', .closeBracket),
   ('(', .openParen), (')', .closeParen), (',', .comma), (':', .colon), ('.', .dot), ('-', .dash),
   ('>', .greater)]

/-- No token but an unknown one begins with the character. -/
structure StartsNothing (c : Char) : Prop where
  mark : ∀ kind, (c, kind) ∉ marks
  less : c ≠ '<'
  quote : isQuote c = false
  digit : c.isDigit = false
  word : isWordStart c = false

/-- A character with which the text behind a lexeme may go on. -/
def isLexemeChar (c : Char) : Bool := isWordChar c || c == '.' || c == '>'

/-- No digit stands behind a point at the front. -/
def NoFraction (rest : List Char) : Prop := ∀ d r, rest = '.' :: d :: r → d.isDigit = false

/-- The lexeme stands in front of a text and ends there. -/
inductive Lexeme.Before : Lexeme → List Char → Prop where
  | mark {c : Char} {kind : TokenKind} {rest : List Char} (h : (c, kind) ∈ marks) : Before (.plain kind [c]) rest
  | lessGreater {rest : List Char} : Before (.plain .lessGreater ['<', '>']) rest
  | less {rest : List Char} (hr : StopsAt (· == '>') rest) : Before (.plain .less ['<']) rest
  | keyword {w rest : List Char} {kind : TokenKind} (hw : isWord w = true) (hr : StopsAt isWordChar rest)
      (hk : (String.ofList w, kind) ∈ keywords) : Before (.plain kind w) rest
  | identifier {w rest : List Char} (hw : isWord w = true) (hr : StopsAt isWordChar rest)
      (hk : ∀ kind, (String.ofList w, kind) ∉ keywords) : Before (.plain .identifier w) rest
  | whole {ds rest : List Char} (ne : ds ≠ []) (all : ∀ c ∈ ds, c.isDigit = true) (hr : StopsAt Char.isDigit rest)
      (hf : NoFraction rest) : Before (.plain .number ds) rest
  | fraction {ds fs rest : List Char} (ne : ds ≠ []) (all : ∀ c ∈ ds, c.isDigit = true) (fne : fs ≠ [])
      (fall : ∀ c ∈ fs, c.isDigit = true) (hr : StopsAt Char.isDigit rest) :
      Before (.plain .number (ds ++ '.' :: fs)) rest
  | string {quote : Char} {body value rest : List Char} (hq : isQuote quote = true)
      (hb : StringBody quote body value) : Before ⟨.string, value, quote :: (body ++ [quote])⟩ rest
  /-- A string that is never closed reaches to the end of the text. -/
  | openString {quote : Char} {body value : List Char} (hq : isQuote quote = true)
      (hb : StringBody quote body value) : Before ⟨.string, value, quote :: body⟩ []
  | openEscape {quote : Char} {body value : List Char} (hq : isQuote quote = true)
      (hb : StringBody quote body value) : Before ⟨.string, value, quote :: (body ++ [backslash])⟩ []
  | unknown {c : Char} {rest : List Char} (h : StartsNothing c) : Before (.plain .unknown [c]) rest

/-- A text that ends every lexeme another text ends. -/
structure EndsAs (rest rest' : List Char) : Prop where
  stops : ∀ p : Char → Bool, (∀ c, isLexemeChar c = false → p c = false) → StopsAt p rest → StopsAt p rest'
  point : NoFraction rest → NoFraction rest'

/-! ## Strings -/

theorem quote_ne_backslash {c : Char} (h : isQuote c = true) : c ≠ backslash := by
  rintro rfl
  exact absurd h (by decide)

theorem splitString_plain {q c : Char} (hc : c ≠ q) (hb : c ≠ backslash) (r : List Char) :
    splitString q (c :: r) = (c :: (splitString q r).1, c :: (splitString q r).2.1, (splitString q r).2.2) := by
  cases r <;> simp [splitString, hc, hb]

theorem splitString_escape (q c : Char) (r : List Char) :
    splitString q (backslash :: c :: r) =
      (c :: (splitString q r).1, backslash :: c :: (splitString q r).2.1, (splitString q r).2.2) := by
  simp [splitString]

theorem splitString_quote {q : Char} (hq : isQuote q = true) (r : List Char) :
    splitString q (q :: r) = ([], [q], r) := by
  cases r <;> simp [splitString, quote_ne_backslash hq]

/-- A body is part of the string, whatever stands behind it. -/
theorem splitString_body {q : Char} {body value : List Char} (h : StringBody q body value) (r : List Char) :
    splitString q (body ++ r) =
      (value ++ (splitString q r).1, body ++ (splitString q r).2.1, (splitString q r).2.2) := by
  induction h with
  | nil => rfl
  | plain hc hb _ ih => rw [List.cons_append, splitString_plain hc hb, ih]; rfl
  | escaped _ ih => rw [List.cons_append, List.cons_append, splitString_escape, ih]; rfl

theorem StringBody.length_le {q : Char} {body value : List Char} (h : StringBody q body value) :
    value.length ≤ body.length := by
  induction h with
  | nil => exact Nat.le_refl 0
  | plain _ _ _ ih => exact Nat.succ_le_succ ih
  | escaped _ ih => exact Nat.le_succ_of_le (Nat.succ_le_succ ih)

/-- What stands behind an opening quote is a body, and the closing quote or the end of the text. -/
theorem string_cases (q : Char) (cs : List Char) : ∃ body value tail, cs = body ++ tail ∧ StringBody q body value ∧
    (tail = [] ∨ tail = [backslash] ∨ ∃ rest, tail = q :: rest) := by
  induction hlen : cs.length using Nat.strongRecOn generalizing cs with
  | ind len ih =>
    subst hlen
    match cs with
    | [] => exact ⟨[], [], [], rfl, .nil, Or.inl rfl⟩
    | c :: r =>
      by_cases hc : c = q
      · exact ⟨[], [], c :: r, rfl, .nil, Or.inr (Or.inr ⟨r, by rw [hc]⟩)⟩
      · by_cases hb : c = backslash
        · subst hb
          match r with
          | [] => exact ⟨[], [], [backslash], rfl, .nil, Or.inr (Or.inl rfl)⟩
          | d :: r =>
            obtain ⟨body, value, tail, rfl, h, htail⟩ := ih r.length (by simp only [List.length_cons]; omega) r rfl
            exact ⟨_, _, tail, rfl, .escaped h, htail⟩
        · obtain ⟨body, value, tail, rfl, h, htail⟩ := ih r.length (Nat.lt_succ_self _) r rfl
          exact ⟨_, _, tail, rfl, .plain hc hb h, htail⟩

/-! ## Numbers -/

theorem before_splitNumber {c : Char} {r : List Char} (hd : c.isDigit = true) :
    (Lexeme.plain .number (splitNumber (c :: r)).1).Before (splitNumber (c :: r)).2 := by
  have hne : (c :: r).takeWhile Char.isDigit ≠ [] := by simp [hd]
  have hall {cs : List Char} : ∀ d ∈ cs.takeWhile Char.isDigit, d.isDigit = true := fun _ => List.mem_takeWhile_imp
  by_cases hf : ∃ d r', (c :: r).dropWhile Char.isDigit = '.' :: d :: r' ∧ d.isDigit = true
  · obtain ⟨d, r', e, hd'⟩ := hf
    rw [splitNumber_fraction e hd']
    exact .fraction hne hall (by simp [hd']) hall (stopsAt_dropWhile _ _)
  · have hw : ∀ d r', (c :: r).dropWhile Char.isDigit = '.' :: d :: r' → d.isDigit = false := by
      intro d r' e
      exact Bool.eq_false_iff.2 fun hd' => hf ⟨d, r', e, hd'⟩
    rw [splitNumber_whole hw]
    exact .whole hne hall (stopsAt_dropWhile _ _) hw

/-! ## Words and marks -/

theorem wordKind_of_mem {w : List Char} {kind : TokenKind} (h : (String.ofList w, kind) ∈ keywords) :
    wordKind w = kind := by
  have hlookup : ∀ p ∈ keywords, keywords.lookup p.1 = some p.2 := by decide
  rw [wordKind, hlookup _ h]
  rfl

theorem wordKind_of_notMem {w : List Char} (h : ∀ kind, (String.ofList w, kind) ∉ keywords) :
    wordKind w = .identifier := by
  have hlookup : keywords.lookup (String.ofList w) = none := by
    rw [List.lookup_eq_none_iff]
    rintro ⟨s, kind⟩ hp
    rw [bne_iff_ne]
    rintro rfl
    exact h kind hp
  rw [wordKind, hlookup]
  rfl

theorem before_word {w rest : List Char} (hw : isWord w = true) (hr : StopsAt isWordChar rest) :
    (Lexeme.plain (wordKind w) w).Before rest := by
  by_cases hk : ∃ kind, (String.ofList w, kind) ∈ keywords
  · obtain ⟨kind, hk⟩ := hk
    rw [wordKind_of_mem hk]
    exact .keyword hw hr hk
  · have hk : ∀ kind, (String.ofList w, kind) ∉ keywords := fun kind h => hk ⟨kind, h⟩
    rw [wordKind_of_notMem hk]
    exact .identifier hw hr hk

theorem mem_marks {c : Char} {kind : TokenKind} : (c, kind) ∈ marks ↔ isMark c = true ∧ markKind c = kind := by
  constructor
  · have hmarks : ∀ p ∈ marks, isMark p.1 = true ∧ markKind p.1 = p.2 := by decide
    exact fun h => hmarks _ h
  · rintro ⟨hc, rfl⟩
    have hc := isMark_cases hc
    simp only [List.mem_cons, List.not_mem_nil, or_false] at hc
    rcases hc with rfl | rfl | rfl | rfl | rfl | rfl | rfl | rfl | rfl | rfl | rfl | rfl <;> decide

theorem StartsNothing.markKind_eq {c : Char} (h : StartsNothing c) : markKind c = .unknown := by
  by_contra hne
  exact h.mark _ (mem_marks.2 ⟨by simp [isMark, hne, h.less], rfl⟩)

/-! ## Lexemes -/

theorem splitLexeme_other {c : Char} (hq : isQuote c = false) (hd : c.isDigit = false) (hw : isWordStart c = false)
    (hl : c ≠ '<') (r : List Char) : splitLexeme c r = (.plain (markKind c) [c], r) := by
  have hs : ∀ r', c = '<' → r = '>' :: r' → False := fun r' e _ => hl e
  simp only [splitLexeme, hq, hd, hw, Bool.false_eq_true, if_false]

/-- The lexeme of a string, from its body and what stands behind it. -/
theorem splitLexeme_quote {q : Char} {body value : List Char} (hq : isQuote q = true) (hb : StringBody q body value)
    (r : List Char) : splitLexeme q (body ++ r) =
      (⟨.string, value ++ (splitString q r).1, q :: (body ++ (splitString q r).2.1)⟩, (splitString q r).2.2) := by
  simp [splitLexeme, hq, splitString_body hb]

theorem splitLexeme_digit {c : Char} (hd : c.isDigit = true) (r : List Char) :
    splitLexeme c r = (.plain .number (splitNumber (c :: r)).1, (splitNumber (c :: r)).2) := by
  obtain ⟨hq, -, -⟩ := isDigit_outside hd
  simp [splitLexeme, hq, hd]

/-- A lexeme in front of a text is cut off there. -/
theorem splitLexeme_before {l : Lexeme} {rest : List Char} (h : l.Before rest) :
    ∃ c r, l.text ++ rest = c :: r ∧ splitLexeme c r = (l, rest) := by
  have hword {w : List Char} (hw : isWord w = true) (hr : StopsAt isWordChar rest) :
      ∃ c r, w ++ rest = c :: r ∧ splitLexeme c r = (.plain (wordKind w) w, rest) := by
    match w with
    | c :: w => exact ⟨c, w ++ rest, rfl, splitLexeme_word hw hr⟩
  cases h with
  | mark h =>
    obtain ⟨hc, rfl⟩ := mem_marks.1 h
    exact ⟨_, rest, rfl, splitLexeme_mark hc rest⟩
  | lessGreater => exact ⟨'<', '>' :: rest, rfl, rfl⟩
  | less hr => exact ⟨'<', rest, rfl, splitLexeme_less hr⟩
  | keyword hw hr hk =>
    rw [← wordKind_of_mem hk]
    exact hword hw hr
  | identifier hw hr hk =>
    rw [← wordKind_of_notMem hk]
    exact hword hw hr
  | @whole ds _ ne all hr hf =>
    obtain ⟨d, ds, rfl⟩ := List.exists_cons_of_ne_nil ne
    refine ⟨d, ds ++ rest, rfl, ?_⟩
    rw [splitLexeme_digit (all d List.mem_cons_self), ← List.cons_append, splitNumber_digits all hr hf]
  | @fraction ds fs _ ne all fne fall hr =>
    obtain ⟨d, ds, rfl⟩ := List.exists_cons_of_ne_nil ne
    refine ⟨d, ds ++ '.' :: (fs ++ rest), by simp [Lexeme.plain], ?_⟩
    rw [splitLexeme_digit (all d List.mem_cons_self), ← List.cons_append, splitNumber_point all fne fall hr]
  | @string q body value _ hq hb =>
    refine ⟨q, body ++ q :: rest, by simp, ?_⟩
    rw [splitLexeme_quote hq hb, splitString_quote hq, List.append_nil]
  | @openString q body value hq hb =>
    refine ⟨q, body ++ [], rfl, ?_⟩
    rw [splitLexeme_quote hq hb]
    simp [splitString]
  | @openEscape q body value hq hb =>
    refine ⟨q, body ++ [backslash], by simp, ?_⟩
    rw [splitLexeme_quote hq hb]
    simp [splitString]
  | unknown h =>
    refine ⟨_, rest, rfl, ?_⟩
    rw [splitLexeme_other h.quote h.digit h.word h.less, h.markKind_eq]

theorem before_quote {q : Char} (hq : isQuote q = true) (r : List Char) :
    (splitLexeme q r).1.Before (splitLexeme q r).2 := by
  obtain ⟨body, value, tail, rfl, hb, htail⟩ := string_cases q r
  rw [splitLexeme_quote hq hb]
  rcases htail with rfl | rfl | ⟨rest, rfl⟩
  · simpa [splitString] using Lexeme.Before.openString hq hb
  · simpa [splitString] using Lexeme.Before.openEscape hq hb
  · simpa [splitString_quote hq] using Lexeme.Before.string hq hb

theorem before_less (r : List Char) : (splitLexeme '<' r).1.Before (splitLexeme '<' r).2 := by
  by_cases hr : StopsAt (· == '>') r
  · rw [splitLexeme_less hr]
    exact .less hr
  · obtain ⟨r, rfl⟩ : ∃ r', r = '>' :: r' := by
      match r with
      | [] => exact absurd stopsAt_nil hr
      | c :: r => exact ⟨r, by simpa [stopsAt_cons] using hr⟩
    exact .lessGreater

/-- What is cut off is a lexeme in front of what is left. -/
theorem before_splitLexeme (c : Char) (r : List Char) : (splitLexeme c r).1.Before (splitLexeme c r).2 := by
  cases hq : isQuote c with
  | true => exact before_quote hq r
  | false =>
    cases hd : c.isDigit with
    | true =>
      rw [splitLexeme_digit hd]
      exact before_splitNumber hd
    | false =>
      cases hw : isWordStart c with
      | true =>
        simp only [splitLexeme, hq, hd, hw, Bool.false_eq_true, if_false, if_true]
        refine before_word ?_ (stopsAt_dropWhile _ r)
        simp [isWord, hw, List.all_takeWhile]
      | false =>
        by_cases hl : c = '<'
        · rw [hl]
          exact before_less r
        · rw [splitLexeme_other hq hd hw hl]
          by_cases hm : isMark c = true
          · exact .mark (mem_marks.2 ⟨hm, rfl⟩)
          · have hnothing : StartsNothing c := ⟨fun kind h => hm (mem_marks.1 h).1, hl, hq, hd, hw⟩
            rw [hnothing.markKind_eq]
            exact .unknown hnothing

theorem Lexeme.Before.split {l : Lexeme} {c : Char} {r rest : List Char} (h : l.Before rest)
    (e : l.text ++ rest = c :: r) : splitLexeme c r = (l, rest) := by
  obtain ⟨c', r', e', h⟩ := splitLexeme_before h
  obtain ⟨rfl, rfl⟩ := List.cons.inj (e.symm.trans e')
  exact h

/-- A lexeme in front of a text is what is cut off there. -/
theorem before_iff {l : Lexeme} {rest : List Char} :
    l.Before rest ↔ ∃ c r, l.text ++ rest = c :: r ∧ splitLexeme c r = (l, rest) := by
  refine ⟨splitLexeme_before, ?_⟩
  rintro ⟨c, r, -, h⟩
  have hbefore := before_splitLexeme c r
  rwa [h] at hbefore

theorem splitLexeme_text (c : Char) (r : List Char) :
    (splitLexeme c r).1.text = c :: (splitLexeme c r).1.text.tail := by
  have happ := splitLexeme_append c r
  have hlen := splitLexeme_length_lt c r
  have hne : (splitLexeme c r).1.text ≠ [] := by
    intro h
    have := congrArg List.length happ
    rw [h, List.nil_append] at this
    omega
  obtain ⟨d, t, ht⟩ := List.exists_cons_of_ne_nil hne
  rw [ht, List.cons_append] at happ
  rw [ht, (List.cons.inj happ).1]
  rfl

theorem splitLexeme_tail (c : Char) (r : List Char) :
    (splitLexeme c r).1.text.tail ++ (splitLexeme c r).2 = r := by
  have happ := splitLexeme_append c r
  rw [splitLexeme_text] at happ
  exact (List.cons.inj happ).2

/-! ## What ends a lexeme -/

theorem isLexemeChar_eq_false {c : Char} (h : isLexemeChar c = false) :
    isWordChar c = false ∧ c.isDigit = false ∧ c ≠ '.' ∧ c ≠ '>' := by
  simp only [isLexemeChar, isWordChar, Char.isAlphanum, Bool.or_eq_false_iff, beq_eq_false_iff_ne] at h ⊢
  obtain ⟨⟨⟨⟨ha, hd⟩, hu⟩, hp⟩, hg⟩ := h
  exact ⟨⟨⟨ha, hd⟩, hu⟩, hd, hp, hg⟩

namespace EndsAs

/-- More text behind a text that is longer than a point. -/
theorem more {rest : List Char} (h : rest ≠ []) (hpoint : rest ≠ ['.']) (more : List Char) :
    EndsAs rest (rest ++ more) := by
  obtain ⟨c, r, rfl⟩ := List.exists_cons_of_ne_nil h
  refine ⟨fun p _ hp => stopsAt_cons.2 (stopsAt_cons.1 hp), fun hf d r' e => ?_⟩
  rw [List.cons_append] at e
  obtain ⟨rfl, etail⟩ := List.cons.inj e
  obtain ⟨d', r, rfl⟩ := List.exists_cons_of_ne_nil fun hr => hpoint (congrArg _ hr)
  obtain ⟨rfl, -⟩ := List.cons.inj etail
  exact hf _ r rfl

/-- A text that comes to a break sooner. -/
theorem broken {rest x z : List Char} {b : Char} (e : rest = x ++ z) (hb : isLexemeChar b = false) (y : List Char) :
    EndsAs rest (x ++ b :: y) := by
  obtain ⟨-, hdigit, hpoint, -⟩ := isLexemeChar_eq_false hb
  subst e
  refine ⟨fun p hp h => ?_, fun hf d r e => ?_⟩
  · cases x with
    | nil => exact stopsAt_cons.2 (hp b hb)
    | cons c x => exact stopsAt_cons.2 (stopsAt_cons.1 h)
  · -- the first two characters are those that were there, or hold the break
    match x with
    | [] => exact absurd (List.cons.inj e).1 hpoint
    | [c] =>
      rw [← (List.cons.inj (List.cons.inj e).2).1]
      exact hdigit
    | c :: d' :: x =>
      obtain ⟨rfl, etail⟩ := List.cons.inj e
      obtain ⟨rfl, -⟩ := List.cons.inj etail
      exact hf _ (x ++ z) rfl

end EndsAs

/-- A lexeme ends alike in front of another text, unless it is a string that the end of the text ends. -/
theorem Lexeme.Before.endsAs {l : Lexeme} {rest rest' : List Char} (h : l.Before rest)
    (hs : l.kind = .string → rest ≠ []) (he : EndsAs rest rest') : l.Before rest' := by
  have hword (hr : StopsAt isWordChar rest) : StopsAt isWordChar rest' :=
    he.stops _ (fun _ hc => (isLexemeChar_eq_false hc).1) hr
  have hdigit (hr : StopsAt Char.isDigit rest) : StopsAt Char.isDigit rest' :=
    he.stops _ (fun _ hc => (isLexemeChar_eq_false hc).2.1) hr
  cases h with
  | mark h => exact .mark h
  | lessGreater => exact .lessGreater
  | less hr => exact .less (he.stops _ (fun _ hc => beq_eq_false_iff_ne.2 (isLexemeChar_eq_false hc).2.2.2) hr)
  | keyword hw hr hk => exact .keyword hw (hword hr) hk
  | identifier hw hr hk => exact .identifier hw (hword hr) hk
  | whole ne all hr hf => exact .whole ne all (hdigit hr) (he.point hf)
  | fraction ne all fne fall hr => exact .fraction ne all fne fall (hdigit hr)
  | string hq hb => exact .string hq hb
  | openString | openEscape => exact absurd rfl (hs rfl)
  | unknown h => exact .unknown h

/-- What is cut off in front of one text is cut off in front of the other. -/
theorem splitLexeme_endsAs {c : Char} {r rest : List Char}
    (hs : (splitLexeme c r).1.kind = .string → (splitLexeme c r).2 ≠ []) (he : EndsAs (splitLexeme c r).2 rest) :
    splitLexeme c ((splitLexeme c r).1.text.tail ++ rest) = ((splitLexeme c r).1, rest) := by
  refine ((before_splitLexeme c r).endsAs hs he).split ?_
  rw [← List.cons_append, ← splitLexeme_text]

/-! ## What lexemes hold -/

/-- What scanning promises of a terminal: words are words, numbers begin with a digit and a mark is the one
of its kind. -/
structure Terminal.Scanned (t : Terminal) : Prop where
  word : t.kind.isWord = true → IsWord t.value
  kind : t.kind.isWord = true → t.kind = wordKind t.value.toList
  number : t.kind = .number → ∃ d ds, t.value.toList = d :: ds ∧ d.isDigit = true
  mark : ∀ c, isMark c = true → t.kind = markKind c → t = .mark c

theorem Terminal.Scanned.eq_word {t : Terminal} (h : t.Scanned) (hw : t.kind.isWord = true) :
    t = .word t.value := by
  have hk := h.kind hw
  obtain ⟨k, v⟩ := t
  exact congrArg (Terminal.mk · v) hk

theorem wordKind_isWord (w : List Char) : (wordKind w).isWord = true := by
  unfold wordKind keywords
  simp only [List.lookup_cons, List.lookup_nil]
  repeat' split
  all_goals rfl

theorem markKind_not_isWord (c : Char) : (markKind c).isWord = false ∧ markKind c ≠ .number := by
  unfold markKind
  split <;> decide

/-- A kind that marks have belongs to no word, string or number. -/
theorem markKind_ne_string {c : Char} (h : isMark c = true) :
    markKind c ≠ .string ∧ markKind c ≠ .endOfInput ∧ markKind c ≠ .lessGreater := by
  have hc := isMark_cases h
  simp only [List.mem_cons, List.not_mem_nil, or_false] at hc
  rcases hc with rfl | rfl | rfl | rfl | rfl | rfl | rfl | rfl | rfl | rfl | rfl | rfl <;> decide

/-- Marks of one kind are one mark. -/
theorem markKind_inj {c d : Char} (hc : isMark c = true) (h : markKind d = markKind c) : d = c := by
  have hd : isMark d = true := by
    simp only [isMark, Bool.and_eq_true, decide_eq_true_eq] at hc ⊢
    refine ⟨h ▸ hc.1, ?_⟩
    rintro rfl
    have hc' := isMark_cases (show isMark c = true by simpa [isMark] using hc)
    simp only [List.mem_cons, List.not_mem_nil, or_false] at hc'
    rcases hc' with rfl | rfl | rfl | rfl | rfl | rfl | rfl | rfl | rfl | rfl | rfl | rfl <;>
      exact absurd h (by decide)
  have hc := isMark_cases hc
  have hd := isMark_cases hd
  simp only [List.mem_cons, List.not_mem_nil, or_false] at hc hd
  rcases hc with rfl | rfl | rfl | rfl | rfl | rfl | rfl | rfl | rfl | rfl | rfl | rfl <;>
    rcases hd with rfl | rfl | rfl | rfl | rfl | rfl | rfl | rfl | rfl | rfl | rfl | rfl <;>
      first | rfl | exact absurd h (by decide)

/-- A terminal of a kind that says all. -/
theorem Terminal.scanned_of_kind {t : Terminal} (h : t.kind.isWord = false) (h' : t.kind ≠ .number)
    (hm : ∀ c, isMark c = true → t.kind ≠ markKind c) : t.Scanned :=
  ⟨fun hw => absurd (hw.symm.trans h) (by decide), fun hw => absurd (hw.symm.trans h) (by decide),
    fun hn => absurd hn h', fun c hc hk => absurd hk (hm c hc)⟩

theorem Terminal.scanned_endOfText : endOfText.Scanned :=
  scanned_of_kind rfl (by decide) fun _ hc => (markKind_ne_string hc).2.1.symm

/-- What is said of a lexeme's terminal holds of every sort of lexeme. -/
theorem Lexeme.Before.scanned {l : Lexeme} {rest : List Char} (h : l.Before rest) : l.terminal.Scanned := by
  have hword {w : List Char} (hw : isWord w = true) : (Lexeme.plain (wordKind w) w).terminal.Scanned := by
    refine ⟨fun _ => ?_, fun _ => ?_, fun h => ?_, fun d _ h => ?_⟩
    · simpa [IsWord, Lexeme.plain, Lexeme.terminal] using hw
    · simp [Lexeme.plain, Lexeme.terminal]
    · exact absurd (wordKind_isWord w) (by rw [show wordKind w = .number from h]; decide)
    · exact absurd (wordKind_isWord w) (by rw [show wordKind w = markKind d from h, (markKind_not_isWord d).1]; decide)
  have hmark (c : Char) : (Lexeme.plain (markKind c) [c]).terminal.Scanned := by
    obtain ⟨hw, hn⟩ := markKind_not_isWord c
    refine ⟨fun h => ?_, fun h => ?_, fun h => absurd h hn, fun d hd h => ?_⟩
    · exact absurd (hw.symm.trans h) (by decide)
    · exact absurd (hw.symm.trans h) (by decide)
    · rw [← markKind_inj hd h]
      rfl
  have hnumber {ds : List Char} (h : ∃ d ds', ds = d :: ds' ∧ d.isDigit = true) :
      (Lexeme.plain .number ds).terminal.Scanned := by
    refine ⟨fun h => absurd h Bool.false_ne_true, fun h => absurd h Bool.false_ne_true, fun _ => ?_,
      fun d _ hk => absurd hk.symm (markKind_not_isWord d).2⟩
    simpa [Lexeme.plain, Lexeme.terminal] using h
  have hstring {value text : List Char} : (Lexeme.mk .string value text).terminal.Scanned :=
    Terminal.scanned_of_kind rfl (by decide : TokenKind.string ≠ .number) fun _ hc => (markKind_ne_string hc).1.symm
  cases h with
  | mark h =>
    rw [← (mem_marks.1 h).2]
    exact hmark _
  | lessGreater =>
    exact Terminal.scanned_of_kind rfl (by decide : TokenKind.lessGreater ≠ .number)
      fun _ hc => (markKind_ne_string hc).2.2.symm
  | less hr => exact hmark '<'
  | keyword hw hr hk =>
    rw [← wordKind_of_mem hk]
    exact hword hw
  | identifier hw hr hk =>
    rw [← wordKind_of_notMem hk]
    exact hword hw
  | whole ne all =>
    obtain ⟨d, ds, rfl⟩ := List.exists_cons_of_ne_nil ne
    exact hnumber ⟨d, ds, rfl, all d List.mem_cons_self⟩
  | fraction ne all =>
    obtain ⟨d, ds, rfl⟩ := List.exists_cons_of_ne_nil ne
    exact hnumber ⟨d, _, rfl, all d List.mem_cons_self⟩
  | string | openString | openEscape => exact hstring
  | unknown h =>
    rw [← h.markKind_eq]
    exact hmark _

theorem scanned_splitLexeme (c : Char) (r : List Char) : (splitLexeme c r).1.terminal.Scanned :=
  (before_splitLexeme c r).scanned

theorem scanned_terminals (cs : List Char) : ∀ t ∈ terminals cs, t.Scanned := by
  fun_induction terminals cs with
  | case1 cs h => simp
  | case2 cs c r h hlt ih =>
    rintro t ht
    rcases List.mem_cons.1 ht with rfl | ht
    · exact scanned_splitLexeme c r
    · exact ih t ht

theorem scanned_tokenize (text : String) : ∀ t ∈ tokenize text, t.terminal.Scanned := by
  intro t ht
  have hm := List.mem_map_of_mem (f := Token.terminal) ht
  rw [terminal_tokenize, List.mem_append, List.mem_singleton] at hm
  rcases hm with hm | hm
  · exact scanned_terminals _ _ hm
  · rw [hm]
    exact Terminal.scanned_endOfText

end Erd
