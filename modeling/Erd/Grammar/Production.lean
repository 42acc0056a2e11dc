import Erd.Grammar.SyntaxError
import Erd.Text.Ascii

/-!
# Productions

A production reads from a cursor: it gives a value or an error, and in either case the cursor where it
stopped.  Past the last token a cursor reads an end token at that token's position, and does not move.

    many step      values of `step` until it gives none, at most one round for each token left
    commaList item one or more values with commas between them
-/

namespace Erd

/-- The tokens still to be read, and the token read when there are none. -/
structure Cursor where
  rest : List Token
  beyond : Token
deriving DecidableEq, Repr

namespace Cursor

def ofTokens (ts : List Token) : Cursor :=
  ⟨ts, .endAt ((ts.getLast?.map (·.start)).getD .start)⟩

def peek (c : Cursor) : Token := c.rest.headD c.beyond

/-- The token behind the next one. -/
def second (c : Cursor) : Token := c.rest.tail.headD c.beyond

def advance (c : Cursor) : Cursor := ⟨c.rest.tail, c.beyond⟩

end Cursor

abbrev Production := EStateM SyntaxError Cursor

namespace Production

/-! ## Single tokens -/

def peek : Production Token := return (← get).peek

def second : Production Token := return (← get).second

def advance : Production Unit := modify Cursor.advance

/-- Takes the next token. -/
def next : Production Token := do
  let t ← peek
  advance
  return t

/-- Fails at the next token. -/
def expected (what : Expectation) : Production α := do
  throw ⟨.expected what, ← peek⟩

def check (k : TokenKind) : Production Bool := return (← peek).kind = k

/-- Takes the next token if it is of a kind, and says whether it was. -/
def accept (k : TokenKind) : Production Bool := do
  if ← check k then
    advance
    return true
  else return false

/-- Takes the next token if it is a given word in any letter case. -/
def acceptWord (word : String) : Production Bool := do
  let t ← peek
  if t.kind.isWord && asciiLower t.value == word then
    advance
    return true
  else return false

def expect (k : TokenKind) : Production Token := do
  if ← check k then next else expected (.kind k)

/-- Takes a word, which may be a keyword. -/
def word (what : Expectation) : Production String := do
  if (← peek).kind.isWord then return (← next).value else expected what

/-- Takes a string. -/
def string : Production String := return (← expect .string).value

/-- Steps over line breaks. -/
def skipNewlines : Production Unit :=
  modify fun c => ⟨c.rest.dropWhile (·.kind == .newline), c.beyond⟩

/-! ## Repetition -/

/-- Values of `step` until it gives none or the rounds are used up. -/
def manyAtMost (step : Production (Option α)) : Nat → Production (List α)
  | 0 => return []
  | n + 1 => do
    match ← step with
    | none => return []
    | some a => return a :: (← manyAtMost step n)

/-- Values of `step` until it gives none.  A step that gives a value takes a token, so the rounds
suffice. -/
def many (step : Production (Option α)) : Production (List α) := do
  manyAtMost step ((← get).rest.length + 1)

/-- The value after a comma, if there is a comma. -/
def afterComma (item : Production α) : Production (Option α) := do
  if ← accept .comma then return some (← item) else return none

def commaList (item : Production α) : Production (List α) := do
  let first ← item
  return first :: (← many (afterComma item))

end Production

end Erd
