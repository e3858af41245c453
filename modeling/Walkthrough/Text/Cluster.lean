import Walkthrough.Text.CharClass
import Walkthrough.Text.ClusterRanges

/-!
# Clusters of characters

What is seen as one character may be spelled by several: a letter with its marks, a
conjunct of consonants, a syllable block, a pictograph made of others, a flag, or a
carriage return before a line feed. A text is cut into such clusters, which together
are the text.
-/

namespace Walkthrough.Text

/-- The sign that joins what stands on both sides of it. -/
def joiner : Char := '\u200d'

/-- The sign that keeps apart what stands on both sides of it. -/
def nonJoiner : Char := '\u200c'

/-- Whether a character attaches to the one before it. -/
def attaches (c : Char) : Bool := inRanges extenders c || inRanges spacingMarks c

/-- Whether a cluster, from its end backwards, is a consonant with a linking sign, so
that a further consonant forms a conjunct with it. A sign may have been seen already. -/
def endsLinked (linked : Bool) : List Char → Bool
  | [] => false
  | c :: before =>
    if inRanges conjunctLinkers c then endsLinked true before
    else if inRanges extenders c && c != nonJoiner then endsLinked linked before
    else linked && inRanges conjunctConsonants c

/-- Whether a character is a whole syllable block. -/
def isBlock (c : Char) : Bool := 0xac00 ≤ c.toNat && c.toNat ≤ 0xd7a3

/-- Whether a character is a syllable block that ends with its vowel. Such a block
stands before the 27 that have its consonant and vowel and end with a consonant. -/
def isOpenBlock (c : Char) : Bool := isBlock c && (c.toNat - 0xac00) % 28 == 0

/-- Whether a character goes on with the syllable block that another one ends. -/
def continuesBlock (last c : Char) : Bool :=
  if inRanges leadingParts last then inRanges leadingParts c || inRanges vowelParts c || isBlock c
  else if inRanges vowelParts last || isOpenBlock last then
    inRanges vowelParts c || inRanges trailingParts c
  else (inRanges trailingParts last || isBlock last) && inRanges trailingParts c

/-- Whether a cluster, from its end backwards, is a pictograph with the signs that
extend it. -/
def endsPictograph : List Char → Bool
  | [] => false
  | c :: before =>
    inRanges pictographs c || (inRanges extenders c && c != joiner && endsPictograph before)

/-- Whether a character is one of the letters that spell a flag by two. -/
def isFlagLetter (c : Char) : Bool := 0x1f1e6 ≤ c.toNat && c.toNat ≤ 0x1f1ff

/-- Whether a cluster, from its end backwards, is the first letter of a flag. -/
def endsHalfFlag : List Char → Bool
  | [] => false
  | c :: before => isFlagLetter c && !endsHalfFlag before

/-- Whether a character goes on with a cluster, which is given from its end backwards. -/
def joins (cluster : List Char) (c : Char) : Bool :=
  match cluster with
  | [] => false
  | last :: before =>
    if isAscii last && isAscii c then last == '\r' && c == '\n'
    else if inRanges controls last || inRanges controls c then false
    else attaches c || inRanges prependedMarks last || continuesBlock last c ||
      (inRanges conjunctConsonants c && endsLinked false cluster) ||
      (inRanges pictographs c && last == joiner && endsPictograph before) ||
      (isFlagLetter c && endsHalfFlag cluster)

/-- The clusters of a text after the beginning of one, which is given from its end
backwards. -/
def clustersFrom (cluster : List Char) : List Char → List (List Char)
  | [] => [cluster.reverse]
  | c :: rest =>
    if joins cluster c then clustersFrom (c :: cluster) rest
    else cluster.reverse :: clustersFrom [c] rest

/-- The clusters of a text. -/
def clusters : List Char → List (List Char)
  | [] => []
  | c :: rest => clustersFrom [c] rest

/-- The clusters after the beginning of one spell it and the rest of the text. -/
theorem flatten_clustersFrom (cluster rest : List Char) :
    (clustersFrom cluster rest).flatten = cluster.reverse ++ rest := by
  induction rest generalizing cluster with
  | nil => simp [clustersFrom]
  | cons c rest ih =>
    unfold clustersFrom
    split
    · rw [ih, List.reverse_cons, List.append_assoc, List.singleton_append]
    · rw [List.flatten_cons, ih, List.reverse_singleton, List.singleton_append]

/-- The clusters of a text are the text. -/
theorem flatten_clusters (text : List Char) : (clusters text).flatten = text := by
  cases text with
  | nil => rfl
  | cons c rest => exact flatten_clustersFrom [c] rest

end Walkthrough.Text
