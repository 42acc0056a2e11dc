import Erd.Text.WidthRanges

/-!
# Letters that are drawn as one

In some scripts neighbouring letters share their columns.  A text is measured from its end: an `Onset` says what
the measured part begins with, as far as the letter before it may join it, and `Onset.join?` says what becomes
of the columns when it does.

Marks that are not shown may stand between the letters.  So may a zero-width joiner, except in Arabic, and some
letters join only if it does.
-/

namespace Erd

/-- The letters and signs that may share columns with what stands before them. -/
inductive Joint where
  | hebrewLamed
  | bugineseYa
  /-- The Buginese vowel sign I with a joined letter YA behind it. -/
  | bugineseIYa
  | tifinagh
  /-- The Tifinagh consonant joiner with a consonant behind it. -/
  | tifinaghJoiner
  | lisuTone
  | orkhonI
  /-- A Khmer letter that has a form below other letters. -/
  | khmerLetter
  | kiratRaiE
  | kiratRaiAi
deriving DecidableEq, Repr

/-- What a text begins with. -/
inductive Onset where
  | plain
  | lineFeed
  | arabicAlef
  /-- A letter, and whether a zero-width joiner stands before it. -/
  | joint (letter : Joint) (joiner : Bool)
deriving DecidableEq, Repr

/-- The columns of a text and what it begins with. -/
structure Extent where
  columns : Nat
  onset : Onset
deriving DecidableEq, Repr

/-! ## Classes of letters -/

def isArabicLam (c : Char) : Bool :=
  inRanges [(0x644, 0x644), (0x6b5, 0x6b8), (0x76a, 0x76a), (0x8a6, 0x8a6), (0x8c7, 0x8c7)] c

def isArabicAlef (c : Char) : Bool :=
  inRanges
    [(0x622, 0x623), (0x625, 0x625), (0x627, 0x627), (0x671, 0x673), (0x675, 0x675), (0x773, 0x774),
     (0x870, 0x882)] c

def isTifinaghConsonant (c : Char) : Bool := inRanges [(0x2d31, 0x2d65), (0x2d6f, 0x2d6f)] c

/-- The Khmer letters that may stand below another one. -/
def isKhmerSubscript (c : Char) : Bool :=
  inRanges
    [(0x1780, 0x1782), (0x1784, 0x1787), (0x1789, 0x178c), (0x178e, 0x1793), (0x1795, 0x1798),
     (0x179b, 0x179d), (0x17a0, 0x17a0), (0x17a2, 0x17a2), (0x17a7, 0x17a7), (0x17ab, 0x17ac),
     (0x17af, 0x17af)] c

/-- Marks that are not shown, but for the zero-width joiner. -/
def isHiddenMark (c : Char) : Bool :=
  inRanges
    [(0x34f, 0x34f), (0x17b4, 0x17b5), (0x180b, 0x180d), (0x180f, 0x180f), (0xfe00, 0xfe0f),
     (0xe0100, 0xe01ef)] c

def isZeroWidthJoiner (c : Char) : Bool := c.toNat = 0x200d

/-- Marks that Arabic letters join across. -/
def isArabicTransparent (c : Char) : Bool := inRanges zeroRanges c && !inRanges separatingRanges c

/-! ## Joining -/

namespace Onset

/-- What a text begins with if this is its first character. -/
def ofChar (c : Char) : Onset :=
  if isArabicAlef c then arabicAlef
  else if isTifinaghConsonant c then joint .tifinagh false
  else if isKhmerSubscript c then joint .khmerLetter false
  else match c.toNat with
    | 0x5dc => joint .hebrewLamed false
    | 0x1a10 => joint .bugineseYa false
    | 0xa4fc => joint .lisuTone false
    | 0xa4fd => joint .lisuTone false
    | 0x10c03 => joint .orkhonI false
    | 0x16d67 => joint .kiratRaiE false
    | 0x16d68 => joint .kiratRaiAi false
    | _ => plain

end Onset

/-- A character joined to a letter behind it, if the two are drawn as one. -/
def Joint.join? (letter : Joint) (joiner : Bool) (columns : Nat) (c : Char) : Option Extent :=
  match letter with
  | hebrewLamed => if joiner && c.toNat = 0x5d0 then some ⟨columns, .plain⟩ else none
  | bugineseYa => if joiner && c.toNat = 0x1a17 then some ⟨columns, .joint .bugineseIYa false⟩ else none
  | bugineseIYa => if c.toNat = 0x1a15 then some ⟨columns, .plain⟩ else none
  | tifinagh =>
    if c.toNat = 0x2d7f then some ⟨columns + 1, .joint .tifinaghJoiner false⟩
    else if joiner && isTifinaghConsonant c then some ⟨columns, .plain⟩
    else none
  | tifinaghJoiner => if isTifinaghConsonant c then some ⟨columns - 1, .plain⟩ else none
  | lisuTone => if inRanges [(0xa4f8, 0xa4fb)] c then some ⟨columns, .plain⟩ else none
  | orkhonI => if joiner && c.toNat = 0x10c32 then some ⟨columns, .plain⟩ else none
  | khmerLetter => if c.toNat = 0x17d2 then some ⟨columns - 1, .plain⟩ else none
  | kiratRaiE =>
    match c.toNat with
    | 0x16d63 => some ⟨columns, .plain⟩
    | 0x16d67 => some ⟨columns, .joint .kiratRaiAi false⟩
    | 0x16d68 => some ⟨columns + 1, .joint .kiratRaiE false⟩
    | 0x16d69 => some ⟨columns, .plain⟩
    | _ => none
  | kiratRaiAi => if c.toNat = 0x16d63 then some ⟨columns, .plain⟩ else none

/-- A text with a character before it that joins its first one, or that joining passes over. -/
def Extent.join? (text : Extent) (c : Char) : Option Extent :=
  match text.onset with
  | .plain => none
  | .lineFeed => if c == '\r' then some ⟨text.columns, .plain⟩ else none
  | .arabicAlef =>
    if isArabicLam c then some ⟨text.columns, .plain⟩
    else if isArabicTransparent c then some text
    else none
  | .joint letter joiner =>
    if isZeroWidthJoiner c then some ⟨text.columns, .joint letter true⟩
    else if isHiddenMark c then some text
    else letter.join? joiner text.columns c

end Erd
