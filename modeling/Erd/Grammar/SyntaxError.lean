import Erd.Token.Basic

/-!
# Syntax errors

An error is a cause and the token at which reading stopped.  Its message, position and offending text
are functions of the two.
-/

namespace Erd

/-- What the grammar asks for at a place. -/
inductive Expectation where
  | kind (k : TokenKind)
  | tableName
  | tableAlias
  | columnName
  | columnType
  | columnSetting
  | nullWord
  | defaultValue
  | indexSetting
  | indexSettingValue
  | enumName
  | enumValue
  | noteWord
  | relationName
  | relationOperator
  | groupName
  | groupMember
deriving DecidableEq, Repr

namespace Expectation

def text : Expectation → String
  | kind k => k.description
  | tableName => "table name"
  | tableAlias => "table alias"
  | columnName => "column name"
  | columnType => "column type"
  | columnSetting => "column setting"
  | nullWord => "'null'"
  | defaultValue => "default value"
  | indexSetting => "index setting"
  | indexSettingValue => "index setting value"
  | enumName => "enum name"
  | enumValue => "enum value or '\x7d'"
  | noteWord => "'note'"
  | relationName => "relation name or ':'"
  | relationOperator => "relation operator (-, <, >, <>)"
  | groupName => "group name"
  | groupMember => "table name or '\x7d'"

end Expectation

inductive SyntaxError.Cause where
  | expected (what : Expectation)
  /-- A token that starts no statement. -/
  | statement
  /-- A number that is no column size. -/
  | size
  /-- A text that is no number. -/
  | number
deriving DecidableEq, Repr

structure SyntaxError where
  cause : SyntaxError.Cause
  token : Token
deriving DecidableEq, Repr

namespace SyntaxError

/-- How messages call the token that was found. -/
def found (t : Token) : String :=
  match t.kind with
  | .endOfInput | .newline => t.kind.description
  | _ => "'" ++ t.value ++ "'"

def message (e : SyntaxError) : String :=
  match e.cause with
  | .expected what => "Expected " ++ what.text ++ ", found " ++ found e.token
  | .statement =>
    "Unexpected token '" ++ e.token.value ++ "', expected Table, Enum, Ref or TableGroup"
  | .size => "Invalid size '" ++ e.token.value ++ "'"
  | .number => "Invalid number '" ++ e.token.value ++ "'"

def line (e : SyntaxError) : Nat := e.token.start.line

def column (e : SyntaxError) : Nat := e.token.start.column

/-- The text of the offending token; the end of a source has none. -/
def value? (e : SyntaxError) : Option String :=
  if e.token.kind = .endOfInput then none else some e.token.value

/-- The message with its position. -/
def text (e : SyntaxError) : String :=
  e.message ++ " at line " ++ toString e.line ++ ", column " ++ toString e.column

end SyntaxError

end Erd
