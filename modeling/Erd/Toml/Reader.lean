import Erd.Toml.Literal
import Erd.Toml.Tree

/-!
# Reading TOML

`Toml.parse?` reads a document as the table of all its entries, or gives nothing if there is a fault
anywhere.  A key has at most `maxDepth` names, and a value lies within at most so many brackets.  Lines and
items are followed with a budget of one step per character, which no document can use up.
-/

namespace Erd.Toml

/-! ## Blanks and comments -/

def skipSpaces (cs : List Char) : List Char := cs.dropWhile isSpace

/-- The rest behind a comment, if there is one. -/
def skipComment : List Char → List Char
  | '#' :: r => r.dropWhile isPlain
  | r => r

/-- The start of the next line, with nothing but blanks and a comment before it. -/
def nextLine? (cs : List Char) : Option (List Char) :=
  match skipComment (skipSpaces cs) with
  | [] => some []
  | '\n' :: r => some r
  | '\r' :: '\n' :: r => some r
  | _ => none

/-- The rest behind blanks, comments and line breaks. -/
def skipLines : Nat → List Char → List Char
  | 0, cs => cs
  | n + 1, cs =>
    match skipComment (skipSpaces cs) with
    | '\n' :: r => skipLines n r
    | '\r' :: '\n' :: r => skipLines n r
    | r => r

/-- The greatest number of names in a key, and of brackets around a value. -/
def maxDepth : Nat := 79

/-! ## Keys -/

def isBareKeyChar (c : Char) : Bool := c.isAlphanum || c == '_' || c == '-'

/-- One name of a key. -/
def name? : List Char → Option (String × List Char)
  | [] => none
  | c :: r =>
    if c == doubleQuote then basicString [] r
    else if c == singleQuote then literalString [] r
    else if isBareKeyChar c then
      some (String.ofList (c :: r.takeWhile isBareKeyChar), r.dropWhile isBareKeyChar)
    else none

/-- As many names as given or fewer, with dots between them: the names before the last dot, and the last
name. -/
def names? : Nat → List Char → Option ((List String × String) × List Char)
  | 0, _ => none
  | n + 1, cs =>
    match name? (skipSpaces cs) with
    | none => none
    | some (name, r) =>
      match skipSpaces r with
      | '.' :: r => (names? n r).map fun ((path, last), r) => ((name :: path, last), r)
      | r => some (([], name), r)

def key? (cs : List Char) : Option ((List String × String) × List Char) := names? maxDepth cs

/-! ## Values -/

mutual

/-- One value, which stands where the text begins and has at most `depth` brackets around any value
in it. -/
def value? : Nat → Nat → List Char → Option (Value × List Char)
  | 0, _, _ => none
  | n + 1, depth, cs =>
    match cs with
    | '\x22' :: '\x22' :: '\x22' :: r =>
      (basicLines [] false (dropFirstBreak r)).map fun (s, r) => (.str s, r)
    | '\x22' :: r => (basicString [] r).map fun (s, r) => (.str s, r)
    | '\x27' :: '\x27' :: '\x27' :: r =>
      (literalLines [] (dropFirstBreak r)).map fun (s, r) => (.str s, r)
    | '\x27' :: r => (literalString [] r).map fun (s, r) => (.str s, r)
    | '[' :: r =>
      match depth with
      | 0 => none
      | depth + 1 => (items? n depth r).map fun (xs, r) => (.array xs, r)
    | '\x7b' :: r =>
      match depth with
      | 0 => none
      | depth + 1 =>
        match skipSpaces r with
        | '\x7d' :: r => some (.table [], r)
        | r => (members? n depth [] r).map fun (es, r) => (.table (entryValues es), r)
    | cs =>
      let (w, r) := splitBareValue cs
      (bareValue? w).map fun x => (x, r)

/-- Values up to the closing bracket, on one line or several. -/
def items? : Nat → Nat → List Char → Option (List Value × List Char)
  | 0, _, _ => none
  | n + 1, depth, cs =>
    match skipLines cs.length cs with
    | ']' :: r => some ([], r)
    | cs =>
      match value? n depth cs with
      | none => none
      | some (x, r) =>
        match skipLines r.length r with
        | ',' :: r => (items? n depth r).map fun (xs, r) => (x :: xs, r)
        | ']' :: r => some ([x], r)
        | _ => none

/-- Pairs of an inline table up to the closing brace, behind those read so far. -/
def members? : Nat → Nat → Entries → List Char → Option (Entries × List Char)
  | 0, _, _, _ => none
  | n + 1, depth, es, cs =>
    match key? cs with
    | none => none
    | some ((path, name), r) =>
      match skipSpaces r with
      | '=' :: r =>
        match value? n depth (skipSpaces r) with
        | none => none
        | some (x, r) =>
          match es.addDotted name (.value x) path with
          | none => none
          | some es =>
            match skipSpaces r with
            | ',' :: r => members? n depth es r
            | '\x7d' :: r => some (es, r)
            | _ => none
      | _ => none

end

/-! ## Documents -/

/-- The tables so far and the path of the header above the line. -/
structure DocumentState where
  entries : Entries
  header : List String

namespace DocumentState

/-- A pair under the header. -/
def addPair (s : DocumentState) (path : List String) (name : String) (x : Value) :
    Option DocumentState :=
  (s.entries.underHeader (fun es => es.addDotted name (.value x) path) s.header).map fun entries =>
    { s with entries }

end DocumentState

/-- A header in brackets, single or double. -/
def header? (s : DocumentState) (cs : List Char) : Option (DocumentState × List Char) :=
  let (double, r) := match cs with
    | '[' :: r => (true, r)
    | r => (false, r)
  match key? r with
  | none => none
  | some ((path, name), r) =>
    if double then
      match skipSpaces r with
      | ']' :: ']' :: r => (s.entries.openNext path name).map fun es => (⟨es, path ++ [name]⟩, r)
      | _ => none
    else
      match skipSpaces r with
      | ']' :: r => (s.entries.openTable path name).map fun es => (⟨es, path ++ [name]⟩, r)
      | _ => none

/-- A key and its value. -/
def pair? (s : DocumentState) (cs : List Char) : Option (DocumentState × List Char) :=
  match key? cs with
  | none => none
  | some ((path, name), r) =>
    match skipSpaces r with
    | '=' :: r =>
      match value? (r.length + 1) maxDepth (skipSpaces r) with
      | none => none
      | some (x, r) => (s.addPair path name x).map fun s => (s, r)
    | _ => none

/-- What a line holds, without its end. -/
def line? (s : DocumentState) (cs : List Char) : Option (DocumentState × List Char) :=
  match skipSpaces cs with
  | [] => some (s, [])
  | '[' :: r => header? s r
  | c :: r => if c == '#' || c == '\n' || c == '\r' then some (s, c :: r) else pair? s (c :: r)

def lines? : Nat → DocumentState → List Char → Option Entries
  | 0, _, _ => none
  | n + 1, s, cs =>
    match line? s cs with
    | none => none
    | some (s, r) =>
      match nextLine? r with
      | none => none
      | some [] => some s.entries
      | some r => lines? n s r

/-- The table of a whole document. -/
def parse? (text : String) : Option Value :=
  let cs := match text.toList with
    | '\ufeff' :: r => r
    | r => r
  (lines? (cs.length + 1) ⟨[], []⟩ cs).map fun es => .table (entryValues es)

end Erd.Toml
