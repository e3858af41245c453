import Walkthrough.Text.CharClass
import Walkthrough.Text.Cluster
import Walkthrough.Text.WidthRanges

/-!
# Widths of clusters

Each cluster of characters takes so many cells in a row. The characters of a cluster
take the cells that they take by themselves, with three exceptions: a letter below
another takes none, a sign may ask for a character to be drawn as a picture or as
text, and pictographs that are joined are drawn as one picture.
-/

namespace Walkthrough.Text

/-- The cells that a character takes by itself. A line feed takes none, and the sign
for "and so on" in Khmer is as wide as the three letters that it stands for. -/
def charWidth (c : Char) : Nat :=
  if c == '\n' then 0
  else if isAscii c then 1
  else if inRanges widthless c then 0
  else if inRanges wide c then 2
  else if c == '\u17d8' then 3
  else 1

/-- The sign that asks for the character before it to be drawn as a picture. -/
def pictureSign : Char := '\ufe0f'

/-- The sign that asks for the character before it to be drawn as text. -/
def textSign : Char := '\ufe0e'

/-- Whether a character is a skin tone for the pictograph before it. -/
def isSkinTone (c : Char) : Bool := 0x1f3fb ≤ c.toNat && c.toNat ≤ 0x1f3ff

/-- Whether a character before the rest of a text is drawn as a picture because of the
sign after it. -/
def asksPicture (rest : List Char) (c : Char) : Bool :=
  rest.head? == some pictureSign && inRanges pictureVariants c

/-- Whether a picture before the rest of a text is drawn as text because of the sign
after it. -/
def asksText (rest : List Char) (c : Char) : Bool :=
  rest.head? == some textSign && inRanges textVariants c

/-- Whether a pictograph before the rest of a text has a skin tone. -/
def isToned (rest : List Char) (c : Char) : Bool :=
  rest.head?.any isSkinTone && inRanges tonedPictures c

/-- Whether a text begins with a picture. -/
def startsPicture : List Char → Bool
  | [] => false
  | c :: rest =>
    (inRanges pictures c && !asksText rest c) || asksPicture rest c || isToned rest c

/-- Whether the rest of a text joins another picture to the one before it, which may
be followed by the sign that asks for it. -/
def joinsPicture (rest : List Char) : Bool :=
  let after := if rest.head? == some pictureSign then rest.tail else rest
  after.head? == some joiner && startsPicture after.tail

/-- The cells that a character takes before the rest of its cluster. A picture takes
two, but none before another that it is joined to. -/
def widthBefore (rest : List Char) (c : Char) : Nat :=
  if asksText rest c then 1
  else if isToned rest c then 0
  else if joinsPicture rest && (inRanges pictures c || isSkinTone c || asksPicture rest c) then 0
  else if asksPicture rest c then 2
  else charWidth c

/-- The sign in Khmer that puts the letter after it below the one before it. -/
def stackingSign : Char := '\u17d2'

/-- The cells that the characters of a cluster take, where the stacking sign may stand
just before them. -/
def widthFrom (stacked : Bool) : List Char → Nat
  | [] => 0
  | c :: rest =>
    let width := if stacked && inRanges subscriptLetters c then 0 else widthBefore rest c
    width + widthFrom (c == stackingSign || (stacked && inRanges transparentSigns c)) rest

/-- The cells that a cluster takes. A carriage return before a line feed takes none. -/
def clusterWidth : List Char → Nat
  | ['\r', '\n'] => 0
  | cluster => widthFrom false cluster

end Walkthrough.Text
