import Erd.Token.Lexeme

/-!
# Scanning a source

A scanner is a place in a source and the characters after it.  `Scanner.next` takes the next gap and
lexeme off and gives the lexeme's token; at the end it gives the same end token again and again.
Scanning never fails, since a character that starts nothing else is a token of its own.
-/

namespace Erd

structure Scanner where
  position : Position
  rest : List Char
deriving DecidableEq, Repr

namespace Scanner

def ofText (text : String) : Scanner := ⟨.start, text.toList⟩

/-- The next token and the scanner behind it. -/
def next (s : Scanner) : Token × Scanner :=
  let gap := splitGap .blank s.rest
  let start := s.position.advance gap.1
  match gap.2 with
  | [] => (.endAt start, ⟨start, []⟩)
  | c :: r =>
    let lexeme := splitLexeme c r
    (⟨lexeme.1.kind, String.ofList lexeme.1.value, start⟩,
      ⟨start.advance lexeme.1.text, lexeme.2⟩)

/-- The tokens of so many calls of `next`. -/
def take : Nat → Scanner → List Token
  | 0, _ => []
  | n + 1, s => let (t, s) := s.next; t :: take n s

theorem markKind_ne_endOfInput (c : Char) : markKind c ≠ .endOfInput := by
  unfold markKind
  split <;> decide

theorem wordKind_ne_endOfInput (w : List Char) : wordKind w ≠ .endOfInput := by
  unfold wordKind keywords
  simp only [List.lookup_cons, List.lookup_nil]
  repeat' split
  all_goals simp

theorem splitLexeme_kind_ne_endOfInput (c : Char) (r : List Char) :
    (splitLexeme c r).1.kind ≠ .endOfInput := by
  unfold splitLexeme
  repeat' split
  all_goals simp [Lexeme.plain, markKind_ne_endOfInput, wordKind_ne_endOfInput]

/-- Every token before the end takes characters away. -/
theorem rest_length_lt {s : Scanner} (h : s.next.1.kind ≠ .endOfInput) :
    s.next.2.rest.length < s.rest.length := by
  have hg := congrArg List.length (splitGap_append .blank s.rest)
  rw [List.length_append] at hg
  unfold next at h ⊢
  dsimp only at h ⊢
  split at h
  · exact absurd rfl h
  · next c r e =>
    have hl := splitLexeme_length_lt c r
    rw [e] at hg
    dsimp only
    omega

/-- All tokens up to and with the end token. -/
def tokens (s : Scanner) : List Token :=
  let step := s.next
  if h : step.1.kind = .endOfInput then [step.1]
  else
    have : step.2.rest.length < s.rest.length := rest_length_lt h
    step.1 :: step.2.tokens
termination_by s.rest.length

end Scanner

/-- The tokens of a text; the last one, and no other, stands for its end. -/
def tokenize (text : String) : List Token := (Scanner.ofText text).tokens

end Erd
