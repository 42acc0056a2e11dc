import Erd.Grammar.Print
import Erd.Proofs.Grammar.Reading
import Erd.Proofs.Token.Lexeme

/-!
# Texts and the terminals they spell

`LexesTo s ts` says that a text is cut into tokens of the terminals `ts` wherever it stands, as long as the
text behind it does not go on with its last word, number or mark, and that the text behind it begins with a
token of its own.  `Spells s ts` says it of terminals alone, and `SpellsLine` asks nothing of the text behind,
since the line break ends whatever came before.

    LexesTo s ts → Spells s ts                                                        (LexesTo.spells)
    LexesTo (quote s) [string s]                                                    (lexesTo_quote)
    (∀ x ∈ xs, Spells (f x) (g x)) →
      Spells (String.intercalate ", " (xs.map f)) (commaTerminals g xs)      (spells_intercalate)
    SpellsLines s lines → terminals (openLine ++ s ++ closeLine) = bodyTerminals lines ++ [newline]
                                                                               (terminals_body)
-/

namespace Erd

open Production (commaTerminals)

/-! ## Definitions -/

/-- The text is cut into tokens of these terminals in front of a text that does not go on with it, whose tokens
come next. -/
def LexesTo (s : String) (ts : List Terminal) : Prop :=
  ∀ p, ∃ toks : List Token, toks.map Token.terminal = ts ∧ ∀ rest, StopsAt isLexemeChar rest →
    Scanner.tokens ⟨p, s.toList ++ rest⟩ = toks ++ Scanner.tokens ⟨p.advance s.toList, rest⟩

/-- The text is read as these terminals in front of a text that does not go on with it. -/
def Spells (s : String) (ts : List Terminal) : Prop :=
  ∀ rest, StopsAt isLexemeChar rest → terminals (s.toList ++ rest) = ts ++ terminals rest

/-- The text is read as these terminals and a line break, whatever follows. -/
def SpellsLine (s : String) (ts : List Terminal) : Prop :=
  ∀ rest, terminals (s.toList ++ rest) = ts ++ .mark '\n' :: terminals rest

/-- The text is read as these lines, whatever follows. -/
def SpellsLines (s : String) (lines : List (List Terminal)) : Prop :=
  ∀ rest, terminals (s.toList ++ rest) = lines.flatMap (· ++ [.mark '\n']) ++ terminals rest

variable {s s' : String} {ts us : List Terminal} {rest : List Char}

/-! ## Where lexemes stop -/

theorem StopsAt.word (h : StopsAt isLexemeChar rest) : StopsAt isWordChar rest := by
  intro c hc
  have := h c hc
  simp only [isLexemeChar, Bool.or_eq_false_iff] at this
  exact this.1.1

theorem StopsAt.number (h : StopsAt isLexemeChar rest) : StopsAt isNumberChar rest := by
  intro c hc
  have := h c hc
  simp only [isLexemeChar, isWordChar, Char.isAlphanum, Bool.or_eq_false_iff] at this
  simp only [isNumberChar, Bool.or_eq_false_iff]
  exact ⟨this.1.1.1.2, this.1.2⟩

theorem StopsAt.greater (h : StopsAt isLexemeChar rest) : StopsAt (· == '>') rest := by
  intro c hc
  have := h c hc
  simp only [isLexemeChar, Bool.or_eq_false_iff] at this
  exact this.2

/-! ## Parts of texts -/

theorem spells_empty : Spells "" [] := fun _ _ => rfl

theorem LexesTo.spells (h : LexesTo s ts) : Spells s ts := by
  intro rest hr
  obtain ⟨toks, rfl, htoks⟩ := h .start
  exact terminals_of_tokens (htoks rest hr)

/-- A text that is one token. -/
theorem lexesTo_token {t : Terminal} (h : ∀ p rest, StopsAt isLexemeChar rest →
    Scanner.tokens ⟨p, s.toList ++ rest⟩ = ⟨t.kind, t.value, p⟩ :: Scanner.tokens ⟨p.advance s.toList, rest⟩) :
    LexesTo s [t] :=
  fun p => ⟨[⟨t.kind, t.value, p⟩], rfl, h p⟩

theorem lexesTo_word {w : String} (h : IsWord w) : LexesTo w [.word w] :=
  lexesTo_token fun p _ hr => Scanner.tokens_word h hr.word p

theorem lexesTo_number {ds : List Char} (h : IsNumeral ds) : LexesTo (String.ofList ds) [.number ds] := by
  refine lexesTo_token fun p rest hr => ?_
  rw [String.toList_ofList]
  exact Scanner.tokens_number h hr.number p

theorem spells_word {w : String} (h : IsWord w) : Spells w [.word w] := (lexesTo_word h).spells

theorem terminals_blank (rest : List Char) : terminals (' ' :: rest) = terminals rest :=
  terminals_spacing rfl rest

/-- A word and a blank. -/
theorem terminals_lead {w : String} (h : s.toList = w.toList ++ [' ']) (hw : IsWord w) (rest : List Char) :
    terminals (s.toList ++ rest) = .word w :: terminals rest := by
  rw [h, List.append_assoc, List.singleton_append, terminals_word hw (stopsAt_cons.2 (by decide)),
    terminals_blank]

/-- A word, a colon and a blank. -/
theorem terminals_key {w : String} (h : s.toList = w.toList ++ [':', ' ']) (hw : IsWord w) (rest : List Char) :
    terminals (s.toList ++ rest) = .word w :: .mark ':' :: terminals rest := by
  rw [h, List.append_assoc, List.cons_append, List.singleton_append,
    terminals_word hw (stopsAt_cons.2 (by decide)), terminals_mark (by decide), terminals_blank]

theorem terminals_space (rest : List Char) : terminals (" ".toList ++ rest) = terminals rest :=
  terminals_blank rest

theorem terminals_indent (rest : List Char) : terminals (indent.toList ++ rest) = terminals rest :=
  (terminals_blank _).trans (terminals_blank rest)

theorem terminals_lineEnd (rest : List Char) :
    terminals ("\n".toList ++ rest) = .mark '\n' :: terminals rest :=
  terminals_mark (by decide) rest

theorem terminals_openLine (rest : List Char) :
    terminals (openLine.toList ++ rest) = .mark '\x7b' :: .mark '\n' :: terminals rest :=
  (terminals_blank _).trans
    ((terminals_mark (by decide) _).trans (congrArg _ (terminals_mark (by decide) rest)))

theorem terminals_closeLine (rest : List Char) :
    terminals (closeLine.toList ++ rest) = .mark '\x7d' :: .mark '\n' :: terminals rest :=
  (terminals_mark (by decide) _).trans (congrArg _ (terminals_mark (by decide) rest))

/-- A text whose first character goes on with no lexeme. -/
theorem stopsAt_literal {c : Char} {cs : List Char} (h : s.toList = c :: cs) (hc : isLexemeChar c = false) :
    StopsAt isLexemeChar (s.toList ++ rest) := by
  rw [h]
  exact stopsAt_cons.2 hc

theorem stopsAt_lineEnd : StopsAt isLexemeChar ("\n".toList ++ rest) := stopsAt_literal rfl (by decide)

theorem stopsAt_space : StopsAt isLexemeChar (" ".toList ++ rest) := stopsAt_literal rfl (by decide)

theorem stopsAt_openLine : StopsAt isLexemeChar (openLine.toList ++ rest) := stopsAt_literal rfl (by decide)

/-- A text without its line break is read alike at the end of a source. -/
theorem Spells.terminals_eq (h : Spells s ts) : terminals s.toList = ts := by
  have := h [] stopsAt_nil
  rwa [List.append_nil, terminals_nil, List.append_nil] at this

/-! ## Strings -/

theorem stringBody_escaped (cs : List Char) : StringBody singleQuote (cs.flatMap escapedInQuotes) cs := by
  induction cs with
  | nil => exact .nil
  | cons c cs ih =>
    rw [List.flatMap_cons]
    by_cases he : (c == singleQuote || c == backslash) = true
    · -- the character stands behind a backslash
      rw [show escapedInQuotes c = [backslash, c] from if_pos he]
      exact .escaped ih
    · rw [show escapedInQuotes c = [c] from if_neg he]
      simp only [Bool.or_eq_true, beq_iff_eq, not_or] at he
      exact .plain he.1 he.2 ih

/-- A string literal is one token, whatever the string holds and whatever stands behind it. -/
theorem tokens_quote (s : String) (p : Position) (rest : List Char) :
    Scanner.tokens ⟨p, (quote s).toList ++ rest⟩ =
      ⟨.string, s, p⟩ :: Scanner.tokens ⟨p.advance (quote s).toList, rest⟩ := by
  have hbefore : Lexeme.Before _ rest := .string (by decide) (stringBody_escaped s.toList)
  rw [quote, String.toList_ofList, List.cons_append, List.cons_append,
    Scanner.tokens_lexeme (by decide) (by decide), hbefore.split (List.cons_append ..), Token.ofLexeme,
    String.ofList_toList]

theorem terminals_quote (s : String) (rest : List Char) :
    terminals ((quote s).toList ++ rest) = .string s :: terminals rest :=
  terminals_of_token (tokens_quote s .start rest)

theorem lexesTo_quote (s : String) : LexesTo (quote s) [.string s] :=
  lexesTo_token fun p rest _ => tokens_quote s p rest

theorem spells_quote (s : String) : Spells (quote s) [.string s] := (lexesTo_quote s).spells

/-- The terminal of a text that is a word or stands between quotes. -/
def wordOrStringTerminal (s : String) : Terminal := if isWord s.toList then .word s else .string s

theorem tokens_wordOrString (s : String) (p : Position) {rest : List Char} (hr : StopsAt isWordChar rest) :
    Scanner.tokens ⟨p, (wordOrString s).toList ++ rest⟩ =
      ⟨(wordOrStringTerminal s).kind, s, p⟩ :: Scanner.tokens ⟨p.advance (wordOrString s).toList, rest⟩ := by
  unfold wordOrString wordOrStringTerminal
  split
  · next h => exact Scanner.tokens_word h hr p
  · exact tokens_quote s p rest

theorem spells_wordOrString (s : String) : Spells (wordOrString s) [wordOrStringTerminal s] := by
  unfold wordOrString wordOrStringTerminal
  split
  · next h => exact spells_word h
  · exact spells_quote s

/-! ## Lists of texts -/

section
variable {ι : Type} {xs : List ι} {f : ι → String} {g : ι → List Terminal}

/-- Texts with a comma and a blank between them. -/
theorem spells_intercalate (h : ∀ x ∈ xs, Spells (f x) (g x)) :
    Spells (String.intercalate ", " (xs.map f)) (commaTerminals g xs) := by
  intro rest hr
  rw [String.toList_intercalate]
  cases xs with
  | nil => rfl
  | cons x xs =>
    induction xs generalizing x with
    | nil => simpa [commaTerminals] using h x List.mem_cons_self rest hr
    | cons y ys ih =>
      have hx := h x List.mem_cons_self
      have ih := ih y fun z hz => h z (List.mem_cons_of_mem x hz)
      have hb : ", ".toList = [',', ' '] := rfl
      simp only [List.map_cons, List.intercalate_cons_cons, List.append_assoc, hb, List.cons_append,
        List.nil_append] at ih ⊢
      rw [hx _ (stopsAt_cons.2 (by decide)), terminals_mark (by decide), terminals_blank, ih]
      simp [commaTerminals]

/-- Lines one after the other. -/
theorem spellsLines_join (h : ∀ x ∈ xs, SpellsLine (f x) (g x)) :
    SpellsLines (String.join (xs.map f)) (xs.map g) := by
  intro rest
  rw [String.toList_join]
  induction xs with
  | nil => rfl
  | cons x xs ih =>
    have ih := ih fun y hy => h y (List.mem_cons_of_mem x hy)
    rw [List.map_cons, List.flatMap_cons, List.append_assoc, h x List.mem_cons_self, ih]
    simp

end

theorem spellsLines_empty : SpellsLines "" [] := fun _ => rfl

theorem SpellsLine.lines (h : SpellsLine s ts) : SpellsLines s [ts] := by
  intro rest
  rw [h]
  simp

theorem SpellsLines.append {ls ms : List (List Terminal)} (h : SpellsLines s ls) (h' : SpellsLines s' ms) :
    SpellsLines (s ++ s') (ls ++ ms) := by
  intro rest
  rw [String.toList_append, List.append_assoc, h, h', List.flatMap_append, List.append_assoc]

/-! ## Parts between brackets and braces -/

section
variable {ι : Type} {xs : List ι} {f : ι → String} {g : ι → List Terminal}

/-- The terminals of settings between brackets, none without settings. -/
def bracketTerminals (g : ι → List Terminal) (xs : List ι) : List Terminal :=
  if xs.isEmpty then [] else .mark '[' :: (commaTerminals g xs ++ [.mark ']'])

theorem spells_bracketed (h : ∀ x ∈ xs, Spells (f x) (g x)) :
    Spells (bracketed (xs.map f)) (bracketTerminals g xs) := by
  intro rest hr
  unfold bracketed bracketTerminals
  rw [List.isEmpty_map]
  split
  · rfl
  · have ho (r : List Char) : terminals (" [".toList ++ r) = .mark '[' :: terminals r :=
      (terminals_blank _).trans (terminals_mark (by decide) r)
    have hc (r : List Char) : terminals ("]".toList ++ r) = .mark ']' :: terminals r :=
      terminals_mark (by decide) r
    simp only [String.toList_append, List.append_assoc]
    rw [ho, spells_intercalate h _ (stopsAt_literal rfl (by decide)), hc]
    simp

theorem stopsAt_bracketed {ss : List String} {rest : List Char} (hr : StopsAt isLexemeChar rest) :
    StopsAt isLexemeChar ((bracketed ss).toList ++ rest) := by
  unfold bracketed
  split
  · exact hr
  · rw [String.append_assoc, String.toList_append, List.append_assoc]
    exact stopsAt_literal rfl (by decide)

end

/-- The terminals of a body between braces, a line for each of its parts. -/
def bodyTerminals (lines : List (List Terminal)) : List Terminal :=
  .mark '\x7b' :: (lines.flatMap (.mark '\n' :: ·) ++ [.mark '\n', .mark '\x7d'])

/-- A line break behind every line is one in front of every line and behind the last. -/
theorem flatMap_lineEnd (lines : List (List Terminal)) :
    .mark '\n' :: lines.flatMap (· ++ [.mark '\n']) = lines.flatMap (.mark '\n' :: ·) ++ [.mark '\n'] := by
  induction lines with
  | nil => rfl
  | cons l ls ih =>
    simp only [List.flatMap_cons, List.append_assoc, List.cons_append, List.nil_append, ← ih]

theorem terminals_body {lines : List (List Terminal)} (h : SpellsLines s lines) (rest : List Char) :
    terminals (openLine.toList ++ (s.toList ++ (closeLine.toList ++ rest))) =
      bodyTerminals lines ++ .mark '\n' :: terminals rest := by
  have hl := flatMap_lineEnd lines
  rw [terminals_openLine, h, terminals_closeLine, ← List.cons_append, hl]
  simp [bodyTerminals]

end Erd
