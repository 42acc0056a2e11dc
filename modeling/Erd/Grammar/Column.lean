import Erd.Decimal.Literal
import Erd.Grammar.Production
import Erd.Schema.Basic

/-!
# Columns

    column  := word word ("(" number ("," number)? ")")? ("[" setting ("," setting)* "]")?
    setting := word …

A column's settings are read as a list of items and then put into the column one after the other, so
that a later item overrides an earlier one of the same field.
-/

namespace Erd

/-! ## Settings as data -/

inductive ColumnSize where
  | length (n : UInt32)
  | precision (digits scale : UInt32)
deriving DecidableEq, Repr

/-- One item between the brackets of a column. -/
inductive SettingItem where
  | primaryKey
  | unique
  | notNull
  | nullable
  | autoIncrement
  | default (value : DefaultValue)
  | note (text : String)
  | reference (type : RelationType) (target : Endpoint)
  /-- An item that says nothing about the column. -/
  | ignored
deriving DecidableEq, Repr

/-- The far side of a relation declared at its column. -/
abbrev InlineReference := RelationType × Endpoint

namespace ColumnSettings

def withSize (s : ColumnSettings) : ColumnSize → ColumnSettings
  | .length n => { s with length := some n }
  | .precision p q => { s with precision := some p, scale := some q }

def withItem (s : ColumnSettings) : SettingItem → ColumnSettings
  | .primaryKey => { s with primaryKey := true }
  | .unique => { s with unique := true }
  | .notNull => { s with notNull := true }
  | .nullable => { s with notNull := false }
  | .autoIncrement => { s with autoIncrement := true }
  | .default v => { s with default := some v }
  | .note t => { s with note := some t }
  | .reference _ _ => s
  | .ignored => s

end ColumnSettings

namespace SettingItem

def reference? : SettingItem → Option InlineReference
  | reference type target => some (type, target)
  | _ => none

end SettingItem

/-- The part of the settings that an item may write. -/
inductive SettingField where
  | primaryKey
  | unique
  | notNull
  | autoIncrement
  | default
  | note
deriving DecidableEq, Repr

/-- What a field holds. -/
abbrev SettingField.Value : SettingField → Type
  | primaryKey | unique | notNull | autoIncrement => Bool
  | default => Option DefaultValue
  | note => Option String

/-- What an item writes into a field, if it writes it. -/
def SettingItem.value? : SettingItem → (f : SettingField) → Option f.Value
  | primaryKey, .primaryKey => some true
  | unique, .unique => some true
  | notNull, .notNull => some true
  | nullable, .notNull => some false
  | autoIncrement, .autoIncrement => some true
  | default v, .default => some (some v)
  | note t, .note => some (some t)
  | _, _ => none

namespace ColumnSettings

def get (s : ColumnSettings) : (f : SettingField) → f.Value
  | .primaryKey => s.primaryKey
  | .unique => s.unique
  | .notNull => s.notNull
  | .autoIncrement => s.autoIncrement
  | .default => s.default
  | .note => s.note

/-- What no item writes. -/
def unwritten (s : ColumnSettings) : ColumnSettings :=
  { length := s.length, precision := s.precision, scale := s.scale, enumValues := s.enumValues }

/-- A field that an item writes gets its value, and every other one is kept. -/
theorem get_withItem (s : ColumnSettings) (i : SettingItem) (f : SettingField) :
    (s.withItem i).get f = (i.value? f).getD (s.get f) := by
  cases i <;> cases f <;> rfl

theorem unwritten_withItem (s : ColumnSettings) (i : SettingItem) : (s.withItem i).unwritten = s.unwritten := by
  cases i <;> rfl

end ColumnSettings

/-- A column as declared, with the relations declared at it. -/
structure ColumnDeclaration where
  column : Column
  references : List InlineReference
deriving DecidableEq, Repr

namespace ColumnDeclaration

/-- The column of a name, a type, a size and setting items. -/
def ofItems (name type : String) (size : Option ColumnSize) (items : List SettingItem) :
    ColumnDeclaration :=
  let sized := match size with
    | none => {}
    | some size => ColumnSettings.withSize {} size
  { column := ⟨name, .ofTypeName type, some type, items.foldl ColumnSettings.withItem sized⟩
    references := items.filterMap SettingItem.reference? }

end ColumnDeclaration

namespace Production

/-! ## Endpoints -/

/-- The relation type that a kind of token writes. -/
def relationTypeOf? : TokenKind → Option RelationType
  | .dash => some .oneToOne
  | .less => some .oneToMany
  | .greater => some .manyToOne
  | .lessGreater => some .manyToMany
  | _ => none

def relationType : Production RelationType := do
  match relationTypeOf? (← peek).kind with
  | some type => advance; return type
  | none => expected .relationOperator

def endpoint : Production Endpoint := do
  let table ← word .tableName
  let _ ← expect .dot
  let column ← word .columnName
  return ⟨table, column⟩

/-! ## Default values -/

/-- The number that a token writes. -/
def numberOf (t : Token) : Production Binary64 := do
  match Binary64.ofText? t.value with
  | some x => return x
  | none => throw ⟨.number, t⟩

/-- One piece of the text of a call up to its closing parenthesis: a comma is followed by a blank and a
string stands between quotes, without escapes. -/
def callPiece : Production (Option String) := do
  let t ← peek
  match t.kind with
  | .closeParen => advance; return none
  | .endOfInput | .newline | .closeBracket => expected (.kind .closeParen)
  | .comma => advance; return some ", "
  | .string => advance; return some ("'" ++ t.value ++ "'")
  | _ => advance; return some t.value

/-- The text of the arguments of a call, with its parentheses. -/
def callArguments : Production String := do
  let _ ← expect .openParen
  return "(" ++ String.join (← many callPiece) ++ ")"

/-- The value of a word that is not in quotes. -/
def wordValue (w : String) : Production DefaultValue := do
  if w == "null" || w == "NULL" then return .null
  else if w == "true" || w == "TRUE" then return .boolean true
  else if w == "false" || w == "FALSE" then return .boolean false
  else if ← check .openParen then return .string (w ++ (← callArguments))
  else return .string w

def defaultValue : Production DefaultValue := do
  let t ← peek
  match t.kind with
  | .string => advance; return .string t.value
  | .number => advance; return .number (← numberOf t)
  | .dash =>
    if (← second).kind = .number then
      advance
      return .number (← numberOf (← next)).neg
    else expected .defaultValue
  | k =>
    if k.isWord then
      advance
      wordValue t.value
    else expected .defaultValue

/-! ## Settings -/

/-- The rest of a setting that begins with a word of no meaning: a colon and at most one token. -/
def ignoredSetting : Production SettingItem := do
  if ← accept .colon then
    let k := (← peek).kind
    if k = .comma ∨ k = .closeBracket then return .ignored
    else
      advance
      return .ignored
  else return .ignored

/-- The rest of a setting that begins with a given word in lower case. -/
def settingAfter (key : String) : Production SettingItem := do
  match key with
  | "pk" | "primary" | "primary_key" =>
    let _ ← acceptWord "key"
    return .primaryKey
  | "unique" => return .unique
  | "notnull" | "not_null" => return .notNull
  | "not" => if ← acceptWord "null" then return .notNull else expected .nullWord
  | "null" => return .nullable
  | "increment" | "auto_increment" => return .autoIncrement
  | "default" => if ← accept .colon then return .default (← defaultValue) else return .ignored
  | "note" =>
    let _ ← expect .colon
    return .note (← string)
  | "ref" =>
    let _ ← expect .colon
    let type ← relationType
    return .reference type (← endpoint)
  | _ => ignoredSetting

def setting : Production SettingItem := do
  settingAfter (asciiLower (← word .columnSetting))

/-! ## Columns -/

def sizeNumber : Production UInt32 := do
  let t ← expect .number
  match sizeOfText? t.value with
  | some n => return n
  | none => throw ⟨.size, t⟩

/-- The part of a size after its opening parenthesis. -/
def size : Production ColumnSize := do
  let first ← sizeNumber
  if ← accept .comma then
    let second ← sizeNumber
    let _ ← expect .closeParen
    return .precision first second
  else
    let _ ← expect .closeParen
    return .length first

def sizePart : Production (Option ColumnSize) := do
  if ← accept .openParen then return some (← size) else return none

def settingPart : Production (List SettingItem) := do
  if ← accept .openBracket then
    let items ← commaList setting
    let _ ← expect .closeBracket
    return items
  else return []

def column : Production ColumnDeclaration := do
  let name ← word .columnName
  let type ← word .columnType
  let size ← sizePart
  let items ← settingPart
  return .ofItems name type size items

end Production

end Erd
