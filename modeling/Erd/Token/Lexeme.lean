import Erd.Token.Basic
import Erd.Text.Ascii

/-!
# Gaps and lexemes

A source is a sequence of gaps and lexemes: `gap lexeme gap lexeme … gap`.  A gap is the longest run
of blanks and comments.  `splitGap` and `splitLexeme` cut one of them off the front of a text; what
they cut off and what they leave put together is the text again.

    (splitGap m cs).1 ++ (splitGap m cs).2 = cs                                   (splitGap_append)
    (splitLexeme c r).1.text ++ (splitLexeme c r).2 = c :: r                      (splitLexeme_append)
-/

namespace Erd

/-! ## Gaps -/

/-- Where in a gap a character stands. -/
inductive GapMode where
  | blank
  | lineComment
  /-- Inside a block comment, after a star or not. -/
  | blockComment (star : Bool)
deriving DecidableEq, Repr

/-- A blank within a line. -/
def isSpacing (c : Char) : Bool := c == ' ' || c == '\t' || c == '\r'

/-- Adds characters in front of a part that is cut off. -/
def cutMore (front : List Char) (cut : List Char × List Char) : List Char × List Char :=
  (front ++ cut.1, cut.2)

/-- The gap in front of a text, and the rest.  A line comment ends before its line break, and a block
comment that is never closed takes everything. -/
def splitGap : GapMode → List Char → List Char × List Char
  | _, [] => ([], [])
  | .blank, '/' :: '/' :: r => cutMore ['/', '/'] (splitGap .lineComment r)
  | .blank, '/' :: '*' :: r => cutMore ['/', '*'] (splitGap (.blockComment false) r)
  | .blank, c :: r => if isSpacing c then cutMore [c] (splitGap .blank r) else ([], c :: r)
  | .lineComment, c :: r =>
    if c = '\n' then ([], c :: r) else cutMore [c] (splitGap .lineComment r)
  | .blockComment star, c :: r =>
    if star && c == '/' then cutMore [c] (splitGap .blank r)
    else cutMore [c] (splitGap (.blockComment (c == '*')) r)

/-! ## Lexemes -/

/-- The characters of one token: what it is, what it stands for and how it is written. -/
structure Lexeme where
  kind : TokenKind
  value : List Char
  text : List Char
deriving DecidableEq, Repr

/-- A lexeme that stands for itself. -/
def Lexeme.plain (kind : TokenKind) (text : List Char) : Lexeme := ⟨kind, text, text⟩

def keywords : List (String × TokenKind) :=
  [("table", .table), ("Table", .table), ("TABLE", .table),
   ("enum", .enum), ("Enum", .enum), ("ENUM", .enum),
   ("ref", .ref), ("Ref", .ref), ("REF", .ref),
   ("tablegroup", .tableGroup), ("TableGroup", .tableGroup),
   ("as", .asWord),
   ("note", .note), ("Note", .note),
   ("indexes", .indexes), ("Indexes", .indexes)]

/-- The kind of a word. -/
def wordKind (word : List Char) : TokenKind :=
  (keywords.lookup (String.ofList word)).getD .identifier

/-- The kind of a character that is a token by itself. -/
def markKind (c : Char) : TokenKind :=
  match c with
  | '\n' => .newline
  | '\x7b' => .openBrace
  | '\x7d' => .closeBrace
  | '[' => .openBracket
  | ']' => .closeBracket
  | '(' => .openParen
  | ')' => .closeParen
  | ',' => .comma
  | ':' => .colon
  | '.' => .dot
  | '-' => .dash
  | '<' => .less
  | '>' => .greater
  | _ => .unknown

/-- The part of a string after its opening quote: value, text with the closing quote, and rest.  A
backslash is dropped and the character after it kept; a string that is never closed takes
everything. -/
def splitString (quote : Char) : List Char → List Char × List Char × List Char
  | [] => ([], [], [])
  | [c] => if c = backslash ∨ c = quote then ([], [c], []) else ([c], [c], [])
  | c :: d :: r =>
    if c = backslash then
      let (value, text, rest) := splitString quote r
      (d :: value, c :: d :: text, rest)
    else if c = quote then ([], [c], d :: r)
    else
      let (value, text, rest) := splitString quote (d :: r)
      (c :: value, c :: text, rest)

/-- The digits of a number, with a fraction if a digit follows the point. -/
def splitNumber (cs : List Char) : List Char × List Char :=
  let whole := cs.takeWhile Char.isDigit
  match cs.dropWhile Char.isDigit with
  | '.' :: d :: r =>
    if d.isDigit then (whole ++ '.' :: (d :: r).takeWhile Char.isDigit, (d :: r).dropWhile Char.isDigit)
    else (whole, '.' :: d :: r)
  | r => (whole, r)

/-- The lexeme that starts with a character outside a gap, and the rest. -/
def splitLexeme (c : Char) (r : List Char) : Lexeme × List Char :=
  if isQuote c then
    let (value, text, rest) := splitString c r
    (⟨.string, value, c :: text⟩, rest)
  else if c.isDigit then
    let (text, rest) := splitNumber (c :: r)
    (.plain .number text, rest)
  else if isWordStart c then
    let text := c :: r.takeWhile isWordChar
    (.plain (wordKind text) text, r.dropWhile isWordChar)
  else match c, r with
    | '<', '>' :: r => (.plain .lessGreater ['<', '>'], r)
    | c, r => (.plain (markKind c) [c], r)

/-! ## Lemmas -/

theorem splitGap_append (m : GapMode) (cs : List Char) :
    (splitGap m cs).1 ++ (splitGap m cs).2 = cs := by
  fun_induction splitGap m cs <;> simp_all [cutMore]

theorem splitString_append (quote : Char) (cs : List Char) :
    (splitString quote cs).2.1 ++ (splitString quote cs).2.2 = cs := by
  fun_induction splitString quote cs <;> simp_all

theorem splitNumber_append (cs : List Char) : (splitNumber cs).1 ++ (splitNumber cs).2 = cs := by
  have h := List.takeWhile_append_dropWhile (p := Char.isDigit) (l := cs)
  unfold splitNumber
  split
  · next d r e =>
    rw [e] at h
    split
    · rw [List.append_assoc, List.cons_append, List.takeWhile_append_dropWhile, h]
    · exact h
  · exact h

theorem splitLexeme_append (c : Char) (r : List Char) :
    (splitLexeme c r).1.text ++ (splitLexeme c r).2 = c :: r := by
  unfold splitLexeme
  split
  · have h := splitString_append c r
    simpa using h
  · split
    · exact splitNumber_append (c :: r)
    · split
      · simp [Lexeme.plain]
      · split <;> simp [Lexeme.plain]

theorem splitNumber_ne_nil {c : Char} (r : List Char) (h : c.isDigit = true) :
    (splitNumber (c :: r)).1 ≠ [] := by
  unfold splitNumber
  split
  · split <;> simp [h]
  · simp [h]

/-- A lexeme has at least one character. -/
theorem splitLexeme_length_lt (c : Char) (r : List Char) :
    (splitLexeme c r).2.length < (c :: r).length := by
  have h := congrArg List.length (splitLexeme_append c r)
  have ht : (splitLexeme c r).1.text ≠ [] := by
    unfold splitLexeme
    split
    · simp
    · split
      · next hd => exact splitNumber_ne_nil r hd
      · split
        · simp [Lexeme.plain]
        · split <;> simp [Lexeme.plain]
  have := List.length_pos_iff.2 ht
  rw [List.length_append] at h
  omega

end Erd
