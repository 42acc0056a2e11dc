/-!
# ASCII letters, words and the marks of the language

Letter case is folded for ASCII letters only, and a word is an ASCII identifier: a letter or an
underscore, then letters, digits and underscores.  Everything else in a text is left as it is.
-/

namespace Erd

/-- ASCII letters in lower case, other characters unchanged. -/
def asciiLower (s : String) : String := String.ofList (s.toList.map Char.toLower)

/-- ASCII letters in upper case, other characters unchanged. -/
def asciiUpper (s : String) : String := String.ofList (s.toList.map Char.toUpper)

def isWordStart (c : Char) : Bool := c.isAlpha || c == '_'

def isWordChar (c : Char) : Bool := c.isAlphanum || c == '_'

/-- Whether the characters form one word. -/
def isWord : List Char → Bool
  | [] => false
  | c :: r => isWordStart c && r.all isWordChar

def singleQuote : Char := '\x27'

def doubleQuote : Char := '\x22'

def backQuote : Char := '\x60'

def backslash : Char := '\x5c'

def isQuote (c : Char) : Bool := c == singleQuote || c == doubleQuote || c == backQuote

/-- The value of a hexadecimal digit. -/
def hexDigit? (c : Char) : Option Nat :=
  if c.isDigit then some (c.toNat - 48)
  else if 'a' ≤ c && c ≤ 'f' then some (c.toNat - 87)
  else if 'A' ≤ c && c ≤ 'F' then some (c.toNat - 55)
  else none

end Erd
