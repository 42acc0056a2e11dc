import Erd.Text.Ligature

/-!
# Display width

The width of a text counts the columns that it takes in a fixed-width font.  Wide and fullwidth
characters take two, combining and invisible ones none, all others one; letters that are drawn as one, and
a carriage return with a line feed behind it, count once.
-/

namespace Erd

/-- The columns of one character.  Two old Khmer characters stand for as many as they are long. -/
def charWidth (c : Char) : Nat :=
  if c.toNat ≤ 0xa0 then 1
  else if inRanges zeroRanges c then 0
  else if c.toNat = 0x17a4 then 2
  else if c.toNat = 0x17d8 then 3
  else if inRanges wideRanges c then 2
  else 1

/-- A text with one more character before it. -/
def Extent.cons (c : Char) (text : Extent) : Extent :=
  match text.join? c with
  | some joined => joined
  | none => ⟨charWidth c + text.columns, if c == '\n' then .lineFeed else .ofChar c⟩

/-- The extent of a sequence of characters, measured from its end. -/
def extentOf (cs : List Char) : Extent := cs.foldr Extent.cons ⟨0, .plain⟩

def displayWidth (s : String) : Nat := (extentOf s.toList).columns

end Erd
