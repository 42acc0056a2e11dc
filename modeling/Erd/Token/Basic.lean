/-!
# Tokens of a schema source

A token is a kind, the text it stands for and the position where it starts.  Keywords double as plain
words wherever a name is expected, so a column may be called `note`.
-/

namespace Erd

inductive TokenKind where
  | table
  | enum
  | ref
  | tableGroup
  | asWord
  | note
  | indexes
  | openBrace
  | closeBrace
  | openBracket
  | closeBracket
  | openParen
  | closeParen
  | comma
  | colon
  | dot
  /-- One to one, and the sign of a negative number. -/
  | dash
  /-- One to many. -/
  | less
  /-- Many to one. -/
  | greater
  /-- Many to many. -/
  | lessGreater
  | identifier
  | string
  | number
  | newline
  | endOfInput
  | unknown
deriving DecidableEq, Repr, Inhabited

namespace TokenKind

/-- Words: identifiers and keywords. -/
def isWord : TokenKind → Bool
  | identifier | table | enum | ref | tableGroup | asWord | note | indexes => true
  | _ => false

/-- How messages call a token of this kind. -/
def description : TokenKind → String
  | table => "'Table'"
  | enum => "'Enum'"
  | ref => "'Ref'"
  | tableGroup => "'TableGroup'"
  | asWord => "'as'"
  | note => "'Note'"
  | indexes => "'indexes'"
  | openBrace => "'\x7b'"
  | closeBrace => "'\x7d'"
  | openBracket => "'['"
  | closeBracket => "']'"
  | openParen => "'('"
  | closeParen => "')'"
  | comma => "','"
  | colon => "':'"
  | dot => "'.'"
  | dash => "'-'"
  | less => "'<'"
  | greater => "'>'"
  | lessGreater => "'<>'"
  | identifier => "identifier"
  | string => "string"
  | number => "number"
  | newline => "newline"
  | endOfInput => "end of input"
  | unknown => "unknown character"

end TokenKind

/-- A place in a text: lines and columns count from one, columns in characters. -/
structure Position where
  line : Nat
  column : Nat
deriving DecidableEq, Repr, Inhabited

namespace Position

def start : Position := ⟨1, 1⟩

/-- The place after a character. -/
def next (p : Position) (c : Char) : Position :=
  if c = '\n' then ⟨p.line + 1, 1⟩ else ⟨p.line, p.column + 1⟩

/-- The place after a text. -/
def advance (p : Position) (cs : List Char) : Position := cs.foldl next p

end Position

structure Token where
  kind : TokenKind
  value : String
  start : Position
deriving DecidableEq, Repr, Inhabited

namespace Token

/-- The token that stands for the end of a text. -/
def endAt (p : Position) : Token := ⟨.endOfInput, "", p⟩

end Token

end Erd
