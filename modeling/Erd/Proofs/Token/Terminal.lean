import Erd.Token.Scanner

/-!
# Terminals

A terminal is a token without its place: its kind and its value.  The grammar sees nothing else of a
token, and `terminals` gives those of a text without the end.

    s.tokens.map terminal = terminals s.rest ++ [endOfText]                 (terminal_tokens)
    terminals (w ++ rest) = word w :: terminals rest                        (terminals_word)
    terminals (c :: rest) = mark c :: terminals rest                        (terminals_mark)
    terminals (ds ++ rest) = number ds :: terminals rest                    (terminals_number)

A word and a number are read up to the first character that is none of theirs, which `StopsAt` asks of
the text behind them.
-/

namespace Erd

/-- A text that is one word. -/
def IsWord (s : String) : Prop := isWord s.toList = true

instance (s : String) : Decidable (IsWord s) := inferInstanceAs (Decidable (isWord s.toList = true))

/-! ## Definitions -/

/-- A token without its place. -/
structure Terminal where
  kind : TokenKind
  value : String
deriving DecidableEq, Repr

namespace Terminal

def endOfText : Terminal := ⟨.endOfInput, ""⟩

def word (w : String) : Terminal := ⟨wordKind w.toList, w⟩

def string (s : String) : Terminal := ⟨.string, s⟩

def number (ds : List Char) : Terminal := ⟨.number, String.ofList ds⟩

/-- A character that is a token by itself. -/
def mark (c : Char) : Terminal := ⟨markKind c, String.ofList [c]⟩

end Terminal

namespace Token

def terminal (t : Token) : Terminal := ⟨t.kind, t.value⟩

theorem kind_eq {tok : Token} {t : Terminal} (h : tok.terminal = t) : tok.kind = t.kind :=
  congrArg Terminal.kind h

theorem value_eq {tok : Token} {t : Terminal} (h : tok.terminal = t) : tok.value = t.value :=
  congrArg Terminal.value h

end Token

namespace Lexeme

def terminal (l : Lexeme) : Terminal := ⟨l.kind, String.ofList l.value⟩

end Lexeme

/-- What follows a lexeme is shorter than the text with the lexeme and the gap before it. -/
theorem splitLexeme_lt {cs r : List Char} {c : Char} (h : (splitGap .blank cs).2 = c :: r) :
    (splitLexeme c r).2.length < cs.length := by
  have hg := congrArg List.length (splitGap_append .blank cs)
  have hl := splitLexeme_length_lt c r
  rw [List.length_append, h] at hg
  omega

/-- The terminals of a text, without the end. -/
def terminals (cs : List Char) : List Terminal :=
  match h : (splitGap .blank cs).2 with
  | [] => []
  | c :: r =>
    have : (splitLexeme c r).2.length < cs.length := splitLexeme_lt h
    (splitLexeme c r).1.terminal :: terminals (splitLexeme c r).2
termination_by cs.length

/-- The text does not begin with a character of a class. -/
def StopsAt (p : Char → Bool) (rest : List Char) : Prop := ∀ c ∈ rest.head?, p c = false

/-- The marks that are tokens whatever follows them. -/
def isMark (c : Char) : Bool := markKind c ≠ .unknown && c ≠ '<'

/-! ## Texts that stop -/

theorem stopsAt_nil {p : Char → Bool} : StopsAt p [] := nofun

theorem stopsAt_cons {p : Char → Bool} {c : Char} {r : List Char} :
    StopsAt p (c :: r) ↔ p c = false := by
  simp [StopsAt]

theorem takeWhile_stopsAt {p : Char → Bool} {xs rest : List Char} (hx : ∀ c ∈ xs, p c = true)
    (hr : StopsAt p rest) : (xs ++ rest).takeWhile p = xs := by
  rw [List.takeWhile_append_of_pos hx]
  cases rest with
  | nil => simp
  | cons c r => simp [stopsAt_cons.1 hr]

theorem dropWhile_stopsAt {p : Char → Bool} {xs rest : List Char} (hx : ∀ c ∈ xs, p c = true)
    (hr : StopsAt p rest) : (xs ++ rest).dropWhile p = rest := by
  rw [List.dropWhile_append_of_pos hx]
  cases rest with
  | nil => simp
  | cons c r => simp [stopsAt_cons.1 hr]

theorem stopsAt_dropWhile (p : Char → Bool) (cs : List Char) : StopsAt p (cs.dropWhile p) := by
  intro c hc
  have h := List.head?_dropWhile_not p cs
  rw [Option.mem_def.1 hc] at h
  simpa using h

/-! ## Classes of characters -/

theorem wordStart_cases {c : Char} (h : isWordStart c = true) :
    (65 ≤ c.toNat ∧ c.toNat ≤ 90) ∨ (97 ≤ c.toNat ∧ c.toNat ≤ 122) ∨ c.toNat = 95 := by
  have h : (decide (c.val ≥ 65 ∧ c.val ≤ 90) || (decide (c.val ≥ 97) && decide (c.val ≤ 122)) ||
      c == '_') = true := h
  simp only [Bool.or_eq_true, Bool.and_eq_true, decide_eq_true_eq, beq_iff_eq, UInt32.le_iff_toNat_le,
    ge_iff_le] at h
  rcases h with (h | h) | rfl
  · exact Or.inl h
  · exact Or.inr (Or.inl h)
  · exact Or.inr (Or.inr rfl)

theorem digit_bounds {c : Char} (h : c.isDigit = true) : 48 ≤ c.toNat ∧ c.toNat ≤ 57 := by
  simp only [Char.isDigit, Bool.and_eq_true, decide_eq_true_eq, UInt32.le_iff_toNat_le, ge_iff_le] at h
  exact h

theorem isWordStart_isWordChar {c : Char} (h : isWordStart c = true) : isWordChar c = true := by
  simp only [isWordStart, isWordChar, Char.isAlphanum, Bool.or_eq_true] at h ⊢
  rcases h with h | h
  · exact Or.inl (Or.inl h)
  · exact Or.inr h

theorem isWordChar_of_mem {w : String} (hw : IsWord w) {c : Char} (h : c ∈ w.toList) :
    isWordChar c = true := by
  unfold IsWord at hw
  cases hl : w.toList with
  | nil => simp [hl] at h
  | cons d ds =>
    simp only [hl, isWord, Bool.and_eq_true, List.all_eq_true] at hw
    rw [hl] at h
    rcases List.mem_cons.1 h with rfl | h
    · exact isWordStart_isWordChar hw.1
    · exact hw.2 c h

/-- A character of a code other than another's is another. -/
theorem beq_false_of_toNat {c d : Char} (h : c.toNat ≠ d.toNat) : (c == d) = false := by
  rw [beq_eq_false_iff_ne]
  rintro rfl
  exact h rfl

theorem isDigit_eq_false {c : Char} (h : c.toNat < 48 ∨ 57 < c.toNat) : c.isDigit = false := by
  cases hd : c.isDigit with
  | false => rfl
  | true => have := digit_bounds hd; omega

theorem isWordStart_not_isDigit {c : Char} (h : isWordStart c = true) : c.isDigit = false := by
  have := wordStart_cases h
  exact isDigit_eq_false (by omega)

/-- Quotes, blanks and the slash are neither letters nor digits. -/
theorem codes_outside (c : Char) (h : 48 ≤ c.toNat) (hq : c.toNat ≠ 96) :
    isQuote c = false ∧ isSpacing c = false ∧ c ≠ '/' := by
  have e1 : singleQuote.toNat = 39 := rfl
  have e2 : doubleQuote.toNat = 34 := rfl
  have e3 : backQuote.toNat = 96 := rfl
  have e4 : ' '.toNat = 32 ∧ '\t'.toNat = 9 ∧ '\r'.toNat = 13 ∧ '/'.toNat = 47 := by decide
  refine ⟨?_, ?_, ?_⟩
  · simp only [isQuote, Bool.or_eq_false_iff]
    exact ⟨⟨beq_false_of_toNat (by omega), beq_false_of_toNat (by omega)⟩, beq_false_of_toNat (by omega)⟩
  · simp only [isSpacing, Bool.or_eq_false_iff]
    exact ⟨⟨beq_false_of_toNat (by omega), beq_false_of_toNat (by omega)⟩, beq_false_of_toNat (by omega)⟩
  · rintro rfl
    omega

theorem isWordStart_outside {c : Char} (h : isWordStart c = true) :
    isQuote c = false ∧ isSpacing c = false ∧ c ≠ '/' := by
  have := wordStart_cases h
  exact codes_outside c (by omega) (by omega)

theorem isDigit_outside {c : Char} (h : c.isDigit = true) :
    isQuote c = false ∧ isSpacing c = false ∧ c ≠ '/' := by
  have := digit_bounds h
  exact codes_outside c (by omega) (by omega)

/-- The marks, one by one. -/
theorem isMark_cases {c : Char} (h : isMark c = true) :
    c ∈ ['\n', '\x7b', '\x7d', '[', ']', '(', ')', ',', ':', '.', '-', '>'] := by
  simp only [isMark, markKind, Bool.and_eq_true, decide_eq_true_eq] at h
  obtain ⟨h, hl⟩ := h
  split at h <;> simp_all

theorem isMark_outside {c : Char} (h : isMark c = true) :
    isQuote c = false ∧ c.isDigit = false ∧ isWordStart c = false ∧ isSpacing c = false ∧ c ≠ '/' ∧
      c ≠ '<' := by
  have hc := isMark_cases h
  simp only [List.mem_cons, List.not_mem_nil, or_false] at hc
  rcases hc with rfl | rfl | rfl | rfl | rfl | rfl | rfl | rfl | rfl | rfl | rfl | rfl <;> decide

/-! ## Gaps -/

theorem splitGap_lexeme {c : Char} (hs : isSpacing c = false) (hc : c ≠ '/') (r : List Char) :
    splitGap .blank (c :: r) = ([], c :: r) := by
  unfold splitGap
  split <;> simp_all

theorem splitGap_spacing {c : Char} (hs : isSpacing c = true) (r : List Char) :
    (splitGap .blank (c :: r)).2 = (splitGap .blank r).2 := by
  have hc : c ≠ '/' := by
    rintro rfl
    exact absurd hs (by decide)
  conv => lhs; unfold splitGap
  split <;> simp_all [cutMore]

/-- What is behind a gap begins with no other gap. -/
theorem splitGap_rest (m : GapMode) (cs : List Char) :
    splitGap .blank (splitGap m cs).2 = ([], (splitGap m cs).2) := by
  fun_induction splitGap m cs with
  | case1 m => cases m <;> rfl
  | case2 r ih => exact ih
  | case3 r ih => exact ih
  | case4 c r h1 h2 hs ih => exact ih
  | case5 c r h1 h2 hs =>
    unfold splitGap
    split <;> simp_all
  | case6 r => exact splitGap_lexeme (by decide) (by decide) _
  | case7 c r hc ih => exact ih
  | case8 star c r h ih => exact ih
  | case9 star c r h ih => exact ih

/-! ## Steps of `terminals` -/

theorem terminals_nil : terminals [] = [] := by
  unfold terminals
  split
  · rfl
  · next h => simp [splitGap] at h

theorem terminals_of_rest_nil {cs : List Char} (h : (splitGap .blank cs).2 = []) :
    terminals cs = [] := by
  unfold terminals
  split
  · rfl
  · next e => simp [h] at e

theorem terminals_of_rest_cons {cs : List Char} {c : Char} {r : List Char}
    (h : (splitGap .blank cs).2 = c :: r) :
    terminals cs = (splitLexeme c r).1.terminal :: terminals (splitLexeme c r).2 := by
  conv => lhs; unfold terminals
  split
  · next e => simp [h] at e
  · next e =>
    rw [h] at e
    cases e
    rfl

/-- Only what is behind the first gap counts. -/
theorem terminals_congr {cs ds : List Char} (h : (splitGap .blank cs).2 = (splitGap .blank ds).2) :
    terminals cs = terminals ds := by
  cases e : (splitGap .blank ds).2 with
  | nil => rw [terminals_of_rest_nil e, terminals_of_rest_nil (h.trans e)]
  | cons c r => rw [terminals_of_rest_cons e, terminals_of_rest_cons (h.trans e)]

theorem terminals_spacing {c : Char} (h : isSpacing c = true) (r : List Char) :
    terminals (c :: r) = terminals r :=
  terminals_congr (splitGap_spacing h r)

theorem terminals_lexeme {c : Char} (hs : isSpacing c = false) (hc : c ≠ '/') (r : List Char) :
    terminals (c :: r) = (splitLexeme c r).1.terminal :: terminals (splitLexeme c r).2 :=
  terminals_of_rest_cons (by rw [splitGap_lexeme hs hc])

/-! ## Tokens and terminals -/

theorem Position.advance_append (p : Position) (cs ds : List Char) :
    p.advance (cs ++ ds) = (p.advance cs).advance ds := List.foldl_append

/-- The token of a lexeme at a place. -/
def Token.ofLexeme (l : Lexeme) (p : Position) : Token := ⟨l.kind, String.ofList l.value, p⟩

namespace Scanner

theorem next_of_last {s : Scanner} {g : List Char} (h : splitGap .blank s.rest = (g, [])) :
    s.next = (.endAt (s.position.advance g), ⟨s.position.advance g, []⟩) := by
  unfold next
  simp only [h]

theorem next_of_lexeme {s : Scanner} {g : List Char} {c : Char} {r : List Char}
    (h : splitGap .blank s.rest = (g, c :: r)) :
    s.next = (.ofLexeme (splitLexeme c r).1 (s.position.advance g),
      ⟨(s.position.advance g).advance (splitLexeme c r).1.text, (splitLexeme c r).2⟩) := by
  unfold next
  simp only [h, Token.ofLexeme]

theorem tokens_of_rest_nil {s : Scanner} (h : (splitGap .blank s.rest).2 = []) :
    s.tokens = [.endAt (s.position.advance s.rest)] := by
  have hgap := splitGap_append .blank s.rest
  rw [h, List.append_nil] at hgap
  unfold tokens
  simp only [next_of_last (Prod.ext hgap h)]
  rfl

theorem tokens_of_rest_cons {s : Scanner} {g : List Char} {c : Char} {r : List Char}
    (h : splitGap .blank s.rest = (g, c :: r)) :
    s.tokens = .ofLexeme (splitLexeme c r).1 (s.position.advance g) ::
      tokens ⟨(s.position.advance g).advance (splitLexeme c r).1.text, (splitLexeme c r).2⟩ := by
  conv => lhs; unfold tokens
  simp only [next_of_lexeme h, Token.ofLexeme, splitLexeme_kind_ne_endOfInput, dite_false]

theorem tokens_blank (p : Position) (r : List Char) : tokens ⟨p, ' ' :: r⟩ = tokens ⟨p.next ' ', r⟩ := by
  have hgap : splitGap .blank (' ' :: r) = cutMore [' '] (splitGap .blank r) := by
    conv => lhs; unfold splitGap
    rfl
  cases h : splitGap .blank r with
  | mk g rest =>
    rw [h] at hgap
    cases rest with
    | nil =>
      rw [tokens_of_rest_nil (s := ⟨p, ' ' :: r⟩) (by rw [hgap]; rfl), tokens_of_rest_nil (by rw [h])]
      rfl
    | cons c r' =>
      rw [tokens_of_rest_cons (s := ⟨p, ' ' :: r⟩) hgap, tokens_of_rest_cons (s := ⟨p.next ' ', r⟩) h]
      rfl

theorem terminal_tokens (s : Scanner) :
    s.tokens.map Token.terminal = terminals s.rest ++ [.endOfText] := by
  induction hlen : s.rest.length using Nat.strongRecOn generalizing s with
  | ind len ih =>
    subst hlen
    cases h : splitGap .blank s.rest with
    | mk g rest =>
      have hrest : (splitGap .blank s.rest).2 = rest := by rw [h]
      cases rest with
      | nil =>
        rw [tokens_of_rest_nil hrest, terminals_of_rest_nil hrest]
        rfl
      | cons c r =>
        rw [tokens_of_rest_cons h, terminals_of_rest_cons hrest, List.map_cons, ih _ (splitLexeme_lt hrest) _ rfl]
        rfl

end Scanner

theorem terminal_tokenize (text : String) :
    (tokenize text).map Token.terminal = terminals text.toList ++ [.endOfText] :=
  Scanner.terminal_tokens (.ofText text)

/-! ## Lexemes in context -/

theorem splitLexeme_word {c : Char} {w rest : List Char} (hw : isWord (c :: w) = true)
    (hr : StopsAt isWordChar rest) :
    splitLexeme c (w ++ rest) = (.plain (wordKind (c :: w)) (c :: w), rest) := by
  simp only [isWord, Bool.and_eq_true, List.all_eq_true] at hw
  obtain ⟨hc, hw⟩ := hw
  obtain ⟨hq, -, -⟩ := isWordStart_outside hc
  simp [splitLexeme, hq, isWordStart_not_isDigit hc, hc, takeWhile_stopsAt hw hr, dropWhile_stopsAt hw hr]

theorem splitLexeme_mark {c : Char} (h : isMark c = true) (r : List Char) :
    splitLexeme c r = (.plain (markKind c) [c], r) := by
  obtain ⟨hq, hd, hw, -, -, hl⟩ := isMark_outside h
  have hs : ∀ r', c = '<' → r = '>' :: r' → False := fun r' e _ => hl e
  simp only [splitLexeme, hq, hd, hw, Bool.false_eq_true, if_false]

theorem splitLexeme_less {rest : List Char} (hr : StopsAt (· == '>') rest) :
    splitLexeme '<' rest = (.plain .less ['<'], rest) := by
  have hs : ∀ r', rest = '>' :: r' → False := by
    rintro r' rfl
    exact absurd (stopsAt_cons.1 hr) (by decide)
  unfold splitLexeme
  rw [if_neg (by decide), if_neg (by decide), if_neg (by decide)]
  split
  · next r' _ => exact (hs r' rfl).elim
  · rfl

/-- Digits with at most one point, and digits on both of its sides. -/
inductive IsNumeral : List Char → Prop where
  | whole {ds : List Char} (ne : ds ≠ []) (all : ∀ c ∈ ds, c.isDigit = true) : IsNumeral ds
  | fraction {ds fs : List Char} (ne : ds ≠ []) (all : ∀ c ∈ ds, c.isDigit = true) (fne : fs ≠ [])
      (fall : ∀ c ∈ fs, c.isDigit = true) : IsNumeral (ds ++ '.' :: fs)

/-- A character that may belong to a number. -/
def isNumberChar (c : Char) : Bool := c.isDigit || c == '.'

theorem IsNumeral.exists_cons {cs : List Char} (h : IsNumeral cs) :
    ∃ d ds, cs = d :: ds ∧ d.isDigit = true := by
  cases h with
  | whole ne all =>
    obtain ⟨d, ds, rfl⟩ := List.exists_cons_of_ne_nil ne
    exact ⟨d, ds, rfl, all d List.mem_cons_self⟩
  | @fraction cs fs ne all fne fall =>
    obtain ⟨d, ds, rfl⟩ := List.exists_cons_of_ne_nil ne
    exact ⟨d, ds ++ '.' :: fs, rfl, all d List.mem_cons_self⟩

theorem splitNumber_fraction {cs : List Char} {d : Char} {r : List Char}
    (h : cs.dropWhile Char.isDigit = '.' :: d :: r) (hd : d.isDigit = true) :
    splitNumber cs = (cs.takeWhile Char.isDigit ++ '.' :: (d :: r).takeWhile Char.isDigit,
      (d :: r).dropWhile Char.isDigit) := by
  unfold splitNumber
  simp only [h, if_pos hd]

theorem splitNumber_whole {cs : List Char}
    (h : ∀ d r, cs.dropWhile Char.isDigit = '.' :: d :: r → d.isDigit = false) :
    splitNumber cs = (cs.takeWhile Char.isDigit, cs.dropWhile Char.isDigit) := by
  unfold splitNumber
  dsimp only
  split
  · next d r e => rw [if_neg (by simp [h d r e]), e]
  · rfl

/-- Digits end in front of a point that no digit follows. -/
theorem splitNumber_digits {ds rest : List Char} (all : ∀ c ∈ ds, c.isDigit = true)
    (hr : StopsAt Char.isDigit rest) (hf : ∀ d r, rest = '.' :: d :: r → d.isDigit = false) :
    splitNumber (ds ++ rest) = (ds, rest) := by
  have hdrop := dropWhile_stopsAt all hr
  rw [splitNumber_whole (by rwa [hdrop]), takeWhile_stopsAt all hr, hdrop]

theorem splitNumber_point {ds fs rest : List Char} (all : ∀ c ∈ ds, c.isDigit = true) (fne : fs ≠ [])
    (fall : ∀ c ∈ fs, c.isDigit = true) (hr : StopsAt Char.isDigit rest) :
    splitNumber (ds ++ '.' :: (fs ++ rest)) = (ds ++ '.' :: fs, rest) := by
  have htake := takeWhile_stopsAt fall hr
  have hrest := dropWhile_stopsAt fall hr
  obtain ⟨f, fs, rfl⟩ := List.exists_cons_of_ne_nil fne
  have hpoint : StopsAt Char.isDigit ('.' :: (f :: fs ++ rest)) := stopsAt_cons.2 (by decide)
  rw [List.cons_append] at htake hrest hpoint
  rw [List.cons_append, splitNumber_fraction (dropWhile_stopsAt all hpoint) (fall f List.mem_cons_self),
    takeWhile_stopsAt all hpoint, htake, hrest]

theorem splitNumber_numeral {cs rest : List Char} (h : IsNumeral cs) (hr : StopsAt isNumberChar rest) :
    splitNumber (cs ++ rest) = (cs, rest) := by
  have hrd : StopsAt Char.isDigit rest := fun c hc => (Bool.or_eq_false_iff.1 (hr c hc)).1
  cases h with
  | whole ne all =>
    refine splitNumber_digits all hrd ?_
    rintro d r rfl
    exact absurd (stopsAt_cons.1 hr) (by decide)
  | fraction ne all fne fall =>
    rw [List.append_assoc, List.cons_append]
    exact splitNumber_point all fne fall hrd

theorem splitLexeme_number {d : Char} {ds rest : List Char} (h : IsNumeral (d :: ds))
    (hr : StopsAt isNumberChar rest) :
    splitLexeme d (ds ++ rest) = (.plain .number (d :: ds), rest) := by
  obtain ⟨_, _, e, hd⟩ := h.exists_cons
  cases e
  obtain ⟨hq, -, -⟩ := isDigit_outside hd
  have hn := splitNumber_numeral h hr
  rw [List.cons_append] at hn
  simp [splitLexeme, hq, hd, hn]

/-! ## Tokens and terminals in context -/

namespace Scanner

theorem tokens_lexeme {c : Char} (hs : isSpacing c = false) (hc : c ≠ '/') (p : Position) (r : List Char) :
    tokens ⟨p, c :: r⟩ = .ofLexeme (splitLexeme c r).1 p ::
      tokens ⟨p.advance (splitLexeme c r).1.text, (splitLexeme c r).2⟩ :=
  tokens_of_rest_cons (s := ⟨p, c :: r⟩) (splitGap_lexeme hs hc r)

theorem tokens_word {w : String} (hw : IsWord w) {rest : List Char} (hr : StopsAt isWordChar rest) (p : Position) :
    tokens ⟨p, w.toList ++ rest⟩ = ⟨wordKind w.toList, w, p⟩ :: tokens ⟨p.advance w.toList, rest⟩ := by
  unfold IsWord at hw
  obtain ⟨cs, rfl⟩ : ∃ cs, w = String.ofList cs := ⟨w.toList, by simp⟩
  rw [String.toList_ofList] at hw ⊢
  cases cs with
  | nil => simp [isWord] at hw
  | cons c cs =>
    have hc : isWordStart c = true := by
      simp only [isWord, Bool.and_eq_true] at hw
      exact hw.1
    obtain ⟨-, hs, hn⟩ := isWordStart_outside hc
    rw [List.cons_append, tokens_lexeme hs hn, splitLexeme_word hw hr]
    rfl

theorem tokens_mark {c : Char} (h : isMark c = true) (p : Position) (rest : List Char) :
    tokens ⟨p, c :: rest⟩ = ⟨markKind c, String.ofList [c], p⟩ :: tokens ⟨p.next c, rest⟩ := by
  obtain ⟨-, -, -, hs, hn, -⟩ := isMark_outside h
  rw [tokens_lexeme hs hn, splitLexeme_mark h]
  rfl

theorem tokens_number {ds rest : List Char} (h : IsNumeral ds) (hr : StopsAt isNumberChar rest) (p : Position) :
    tokens ⟨p, ds ++ rest⟩ = ⟨.number, String.ofList ds, p⟩ :: tokens ⟨p.advance ds, rest⟩ := by
  obtain ⟨d, ds, rfl, hd⟩ := h.exists_cons
  obtain ⟨-, hs, hn⟩ := isDigit_outside hd
  rw [List.cons_append, tokens_lexeme hs hn, splitLexeme_number h hr]
  rfl

end Scanner

/-- A text whose tokens end in those of another has its terminals, too. -/
theorem terminals_of_tokens {p q : Position} {cs ds : List Char} {ts : List Token}
    (h : Scanner.tokens ⟨p, cs⟩ = ts ++ Scanner.tokens ⟨q, ds⟩) :
    terminals cs = ts.map Token.terminal ++ terminals ds := by
  have h := congrArg (List.map Token.terminal) h
  rw [List.map_append, Scanner.terminal_tokens, Scanner.terminal_tokens, ← List.append_assoc] at h
  exact List.append_cancel_right h

/-- One token in front. -/
theorem terminals_of_token {p q : Position} {cs ds : List Char} {t : Token}
    (h : Scanner.tokens ⟨p, cs⟩ = t :: Scanner.tokens ⟨q, ds⟩) : terminals cs = t.terminal :: terminals ds :=
  have h : Scanner.tokens ⟨p, cs⟩ = [t] ++ Scanner.tokens ⟨q, ds⟩ := h
  terminals_of_tokens h

theorem terminals_word {w : String} (hw : IsWord w) {rest : List Char} (hr : StopsAt isWordChar rest) :
    terminals (w.toList ++ rest) = .word w :: terminals rest :=
  terminals_of_token (Scanner.tokens_word hw hr .start)

theorem terminals_mark {c : Char} (h : isMark c = true) (rest : List Char) :
    terminals (c :: rest) = .mark c :: terminals rest :=
  terminals_of_token (Scanner.tokens_mark h .start rest)

theorem terminals_number {ds rest : List Char} (h : IsNumeral ds) (hr : StopsAt isNumberChar rest) :
    terminals (ds ++ rest) = .number ds :: terminals rest :=
  terminals_of_token (Scanner.tokens_number h hr .start)

/-- The one mark that another may extend. -/
theorem terminals_less {rest : List Char} (hr : StopsAt (· == '>') rest) :
    terminals ('<' :: rest) = .mark '<' :: terminals rest := by
  rw [terminals_lexeme (by decide) (by decide), splitLexeme_less hr]
  rfl

theorem terminals_lessGreater (rest : List Char) :
    terminals ('<' :: '>' :: rest) = ⟨.lessGreater, "<>"⟩ :: terminals rest := by
  rw [terminals_lexeme (by decide) (by decide)]
  rfl

end Erd
