import Walkthrough.Text.CharRanges

/-!
# Classes of characters

Where a word ends and what is blank is decided by the standard properties of
characters. For ASCII the classes are spelled out; the tables serve the rest.
-/

namespace Walkthrough.Text

/-- Whether a character lies in one of the ranges. -/
def inRanges (ranges : List (Nat × Nat)) (c : Char) : Bool :=
  ranges.any fun range => range.1 ≤ c.toNat && c.toNat ≤ range.2

/-- Whether a character is ASCII. -/
def isAscii (c : Char) : Bool := c.toNat < 128

/-- A letter or a number of any script. -/
def isAlphanumeric (c : Char) : Bool :=
  if isAscii c then c.isAlphanum
  else inRanges lettersAndNumbers c

/-- A character that belongs to a word: a letter, mark or digit of any script, or
a character that joins words, such as the underscore. -/
def isWordChar (c : Char) : Bool :=
  if isAscii c then c.isAlphanum || c == '_' else inRanges wordCharacters c

/-- A character that leaves its place empty: a space, a tab or a line break of any
script. -/
def isBlank (c : Char) : Bool :=
  if isAscii c then c == ' ' || (9 ≤ c.toNat && c.toNat ≤ 13) else inRanges blanks c

end Walkthrough.Text
