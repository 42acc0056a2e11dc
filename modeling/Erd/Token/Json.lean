import Erd.Json.Record
import Erd.Token.Basic

/-!
# Tokens as JSON

A token is written with its kind in capitals, its text and its position.
-/

namespace Erd

namespace TokenKind

def all : List TokenKind :=
  [table, enum, ref, tableGroup, asWord, note, indexes, openBrace, closeBrace, openBracket,
   closeBracket, openParen, closeParen, comma, colon, dot, dash, less, greater, lessGreater,
   identifier, string, number, newline, endOfInput, unknown]

def name : TokenKind → String
  | table => "TABLE"
  | enum => "ENUM"
  | ref => "REF"
  | tableGroup => "TABLE_GROUP"
  | asWord => "AS"
  | note => "NOTE"
  | indexes => "INDEXES"
  | openBrace => "L_BRACE"
  | closeBrace => "R_BRACE"
  | openBracket => "L_BRACKET"
  | closeBracket => "R_BRACKET"
  | openParen => "L_PAREN"
  | closeParen => "R_PAREN"
  | comma => "COMMA"
  | colon => "COLON"
  | dot => "DOT"
  | dash => "REL_ONE_TO_ONE"
  | less => "REL_ONE_TO_MANY"
  | greater => "REL_MANY_TO_ONE"
  | lessGreater => "REL_MANY_TO_MANY"
  | identifier => "IDENTIFIER"
  | string => "STRING"
  | number => "NUMBER"
  | newline => "NEWLINE"
  | endOfInput => "EOF"
  | unknown => "UNKNOWN"

def ofName? (s : String) : Option TokenKind := all.find? (·.name == s)

end TokenKind

namespace Token

def toJson (t : Token) : Json :=
  .record
    [Json.field "type" (.str t.kind.name), Json.field "value" (.str t.value),
     Json.field "line" (.ofCount t.start.line), Json.field "column" (.ofCount t.start.column)]

def ofJson? (x : Json) : Option Token := do
  let fs ← x.fields? ["type", "value", "line", "column"]
  let kind ← Record.required fs "type" (Json.variant? TokenKind.ofName?)
  let value ← Record.required fs "value" Json.string?
  let line ← Record.required fs "line" Json.count?
  let column ← Record.required fs "column" Json.count?
  return ⟨kind, value, ⟨line, column⟩⟩

end Token

end Erd
