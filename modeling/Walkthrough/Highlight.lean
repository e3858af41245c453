import Walkthrough.Text.Runs

/-!
# Changed characters

Two texts that follow each other as stages of one expression are compared from
left to right. Where they differ, the character of the earlier text is taken for
a replaced name, and the later text is marked up to the character that followed
that name. A list of positions then cuts a text into marked and unmarked runs.
-/

namespace Walkthrough

/-- Positions of marked characters in a text, counted from zero. -/
abbrev Highlight := List Nat

namespace Highlight

/-- The positions of the changed characters from here on, where the later text has
come to a position. The last character of the earlier text is never taken for a
name. -/
def changedFrom (position : Nat) : List Char → List Char → Highlight
  | x :: y :: earlier, c :: later =>
    if x = c then changedFrom (position + 1) (y :: earlier) later
    else
      let replaced := (c :: later).takeWhile (· != y)
      List.range' position replaced.length ++
        changedFrom (position + replaced.length) (y :: earlier) ((c :: later).dropWhile (· != y))
  | _, _ => []

/-- The positions of the characters of the later text that changed. -/
def changed (earlier later : String) : Highlight :=
  changedFrom 0 earlier.toList later.toList

/-- All positions of a text. -/
def full (text : String) : Highlight := List.range text.length

/-- The changes of each of the stages after one, the last stage being marked in
full. -/
def following (previous : String) : List String → List Highlight
  | [] => []
  | [last] => [full last]
  | text :: others => changed previous text :: following text others

/-- The changes of each stage. The first is compared with itself. -/
def sequence (stages : List String) : List Highlight :=
  following (stages.headD "") stages

/-- The characters of a text, each with whether it is marked. -/
def marks (text : String) (highlight : Highlight) : List (Char × Bool) :=
  text.toList.zipIdx.map fun (c, index) => (c, highlight.contains index)

/-- The marked characters of a text. -/
def render (text : String) (highlight : Highlight) : String :=
  String.ofList (((marks text highlight).filter Prod.snd).map Prod.fst)

/-- A text cut into runs that are marked or not. -/
def segments (text : String) (highlight : Highlight) : List (String × Bool) :=
  (Text.runsBy Prod.snd (marks text highlight)).map fun (marked, run) =>
    (String.ofList (run.map Prod.fst), marked)

end Highlight

end Walkthrough
