import Walkthrough.Pane.Source

/-!
# The coloured text of a line

A line is coloured while it is read, and the beginning of a word is held back until the word is
over. What comes out can be described without that. The line is cut into words that are as long as
they can be, single characters between them, and a comment at the end. There is one such cut only,
so nothing that was held back is lost, and nothing changes its place.
-/

namespace Walkthrough.Pane

/-- A text in which every character goes on with the word before it. -/
inductive Word : List Char → Prop where
  | nil : Word []
  | snoc {word : List Char} {c : Char} (start : Word word) (more : continuesWord word c = true) :
    Word (word ++ [c])

/-- What follows a word does not go on with it. -/
def Ends (word rest : List Char) : Prop :=
  ∀ c, rest.head? = some c → continuesWord word c = false

theorem ends_nil (word : List Char) : Ends word [] := by
  intro c hc
  cases hc

theorem ends_cons {word rest : List Char} {c : Char} :
    Ends word (c :: rest) ↔ continuesWord word c = false := by
  simp [Ends]

/-- A comment is never part of a word. -/
@[simp] theorem continuesWord_hash (word : List Char) : continuesWord word '#' = false := rfl

/-- The character that ends a word does not begin another. -/
theorem not_begins_of_not_continues {word : List Char} {c : Char}
    (h : continuesWord word c = false) : continuesWord [] c = false := by
  simp only [continuesWord, Bool.or_eq_false_iff] at h
  simp [continuesWord, isNumeric, h.1]

/-- The span of a comment, from its first character on. -/
def commentSpan (rest : List Char) : Span := ⟨String.ofList ('#' :: rest), Theme.faint⟩

/-- The span of a character outside words. -/
def markSpan (c : Char) : Span := ⟨String.singleton c, markStyle c⟩

/-- A line and its cut into words, characters between words, and a comment. A word is called if a
parenthesis opens behind it. -/
inductive Colored : List Char → List Span → Prop where
  | nil : Colored [] []
  | comment (rest : List Char) : Colored ('#' :: rest) [commentSpan rest]
  | mark {c : Char} {rest : List Char} {spans : List Span} (outside : continuesWord [] c = false)
    (plain : c ≠ '#') (others : Colored rest spans) : Colored (c :: rest) (markSpan c :: spans)
  | word {word rest : List Char} {spans : List Span} (isWord : Word word) (nonempty : word ≠ [])
    (ends : Ends word rest) (others : Colored rest spans) :
    Colored (word ++ rest)
      (⟨String.ofList word, wordStyle word (rest.head? == some '(')⟩ :: spans)

/-- A character that goes on with a word is held back with it. -/
theorem colorFrom_of_continues {word rest : List Char} {c : Char}
    (h : continuesWord word c = true) :
    colorFrom word (c :: rest) = colorFrom (word ++ [c]) rest := by
  have hc : c ≠ '#' := by
    rintro rfl
    simp at h
  rw [colorFrom, if_neg hc, if_pos h]

/-- Where no word has begun, a character outside words comes out at once. -/
theorem colorFrom_nil_of_mark {rest : List Char} {c : Char} (h : continuesWord [] c = false)
    (hc : c ≠ '#') : colorFrom [] (c :: rest) = markSpan c :: colorFrom [] rest := by
  rw [colorFrom, if_neg hc, if_neg (by simp [h])]
  rfl

/-- Where a word is over, its span comes out and a new word may begin. -/
theorem colorFrom_of_ends {word rest : List Char} (h : Ends word rest) :
    colorFrom word rest = wordSpan word (rest.head? == some '(') ++ colorFrom [] rest := by
  cases rest with
  | nil => simp [colorFrom, wordSpan]
  | cons c rest =>
    have hends := ends_cons.mp h
    by_cases hc : c = '#'
    · subst hc
      simp [colorFrom, wordSpan]
    · rw [colorFrom_nil_of_mark (not_begins_of_not_continues hends) hc, colorFrom, if_neg hc,
        if_neg (by simp [hends])]
      rfl

/-- The characters of a word are held back. -/
theorem colorFrom_word {word : List Char} (h : Word word) (rest : List Char) :
    colorFrom [] (word ++ rest) = colorFrom word rest := by
  induction h generalizing rest with
  | nil => rfl
  | snoc _ more ih =>
    rw [List.append_assoc, ih, List.singleton_append, colorFrom_of_continues more]

/-- A word that is over, if it has begun, comes before the cut of what follows. -/
theorem Colored.flush {word rest : List Char} {spans : List Span} (hword : Word word)
    (hends : Ends word rest) (h : Colored rest spans) :
    Colored (word ++ rest) (wordSpan word (rest.head? == some '(') ++ spans) := by
  by_cases hne : word = []
  · subst hne
    exact h
  · rw [wordSpan, if_neg hne]
    exact .word hword hne hends h

/-- Colouring cuts a line, whatever word has begun before it. -/
theorem colored_colorFrom {word : List Char} (hword : Word word) (rest : List Char) :
    Colored (word ++ rest) (colorFrom word rest) := by
  -- The word that is held back changes from one character to the next.
  induction rest generalizing word with
  | nil =>
    rw [colorFrom_of_ends (ends_nil word)]
    exact .flush hword (ends_nil word) .nil
  | cons c rest ih =>
    cases hmore : continuesWord word c with
    | true =>
      rw [colorFrom_of_continues hmore, List.append_cons]
      exact ih (hword.snoc hmore)
    | false =>
      have hends : Ends word (c :: rest) := ends_cons.mpr hmore
      have hbegin := not_begins_of_not_continues hmore
      rw [colorFrom_of_ends hends]
      refine .flush hword hends ?_
      by_cases hc : c = '#'
      · subst hc
        exact .comment rest
      · rw [colorFrom_nil_of_mark hbegin hc]
        exact .mark hbegin hc (ih .nil)

/-- There is one cut of a line, the one that colouring finds. -/
theorem colored_iff {line : List Char} {spans : List Span} :
    Colored line spans ↔ spans = colorLine line := by
  constructor
  · intro h
    induction h with
    | nil => rfl
    | comment rest => rfl
    | mark outside plain _ ih => rw [ih, colorLine, colorLine, colorFrom_nil_of_mark outside plain]
    | word isWord nonempty ends _ ih =>
      rw [ih, colorLine, colorLine, colorFrom_word isWord, colorFrom_of_ends ends, wordSpan,
        if_neg nonempty]
      rfl
  · rintro rfl
    exact colored_colorFrom .nil line

/-- The words and characters are those of the line. -/
theorem Colored.flatMap_text {line : List Char} {spans : List Span} (h : Colored line spans) :
    spans.flatMap (·.text.toList) = line := by
  induction h with
  | nil => rfl
  | comment rest => simp [commentSpan]
  | mark _ _ _ ih => simp [markSpan, ih]
  | word _ _ _ _ ih => simp [ih]

theorem Colored.text_ne_empty {line : List Char} {spans : List Span} (h : Colored line spans) :
    ∀ span ∈ spans, span.text ≠ "" := by
  induction h with
  | nil => simp
  | comment rest => simp [commentSpan]
  | mark _ _ _ ih => exact List.forall_mem_cons.mpr ⟨by simp [markSpan], ih⟩
  | word _ nonempty _ _ ih => exact List.forall_mem_cons.mpr ⟨by simpa using nonempty, ih⟩

theorem wordStyle_ne_faint (word : List Char) (isCalled : Bool) :
    wordStyle word isCalled ≠ Theme.faint := by
  unfold wordStyle
  dsimp only
  split
  · decide
  · split
    · decide
    · split <;> decide

theorem markStyle_ne_faint (c : Char) : markStyle c ≠ Theme.faint := by
  unfold markStyle
  split <;> decide

/-- Only comments look like comments. -/
theorem Colored.style_ne_faint {line : List Char} {spans : List Span} (h : Colored line spans)
    (hline : '#' ∉ line) : ∀ span ∈ spans, span.style ≠ Theme.faint := by
  induction h with
  | nil => simp
  | comment rest => simp at hline
  | @mark c _ _ _ _ _ ih =>
    exact List.forall_mem_cons.mpr
      ⟨markStyle_ne_faint c, ih fun hrest => hline (List.mem_cons_of_mem _ hrest)⟩
  | word _ _ _ _ ih =>
    exact List.forall_mem_cons.mpr
      ⟨wordStyle_ne_faint _ _, ih fun hrest => hline (List.mem_append_right _ hrest)⟩

/-- A comment behind a line without one does not change the cut of the line. -/
theorem Colored.append_comment {line : List Char} {spans : List Span} (h : Colored line spans)
    (hline : '#' ∉ line) (rest : List Char) :
    Colored (line ++ '#' :: rest) (spans ++ [commentSpan rest]) := by
  induction h with
  | nil => exact .comment rest
  | comment others => simp at hline
  | mark outside plain _ ih =>
    exact .mark outside plain (ih fun hrest => hline (List.mem_cons_of_mem _ hrest))
  | @word word others _ isWord nonempty ends _ ih =>
    have hcut := ih fun hrest => hline (List.mem_append_right _ hrest)
    -- Nothing that is read at the end of a word tells a comment from the end of the line.
    have hcalled : ((others ++ '#' :: rest).head? == some '(') = (others.head? == some '(') := by
      cases others <;> rfl
    have hends : Ends word (others ++ '#' :: rest) := by
      cases others with
      | nil => exact ends_cons.mpr (continuesWord_hash word)
      | cons c others => exact ends_cons.mpr (ends_cons.mp ends)
    rw [List.append_assoc, ← hcalled]
    exact .word isWord nonempty hends hcut

/-- Colouring keeps the text. The spans of a line are the line, one after another, and none is
empty. If there is a comment, it is the last span, the only one in its style, and the spans before
it are those of the line without the comment. -/
theorem coloring_keeps_text (line : String) :
    String.join ((colorLine line.toList).map Span.text) = line ∧
    ('#' ∈ line.toList → ∃ before rest, line.toList = before ++ '#' :: rest ∧ '#' ∉ before ∧
      colorLine line.toList =
        colorLine before ++ [⟨String.ofList ('#' :: rest), Theme.faint⟩] ∧
      ∀ span ∈ colorLine before, span.style ≠ Theme.faint) ∧
    ∀ span ∈ colorLine line.toList, span.text ≠ "" := by
  have hcut : Colored line.toList (colorLine line.toList) := colored_iff.mpr rfl
  refine ⟨?_, fun hcomment => ?_, hcut.text_ne_empty⟩
  · rw [← String.toList_inj, String.toList_join, List.flatMap_map, hcut.flatMap_text]
  · obtain ⟨before, rest, hsplit, hbefore⟩ := List.eq_append_cons_of_mem hcomment
    have hcutBefore : Colored before (colorLine before) := colored_iff.mpr rfl
    refine ⟨before, rest, hsplit, hbefore, ?_, hcutBefore.style_ne_faint hbefore⟩
    rw [hsplit]
    exact (colored_iff.mp (hcutBefore.append_comment hbefore rest)).symm

theorem commented_call_keeps_text :
    ('#' ∈ "f(2.5) # a # b".toList ∧
      ∃ before rest, "f(2.5) # a # b".toList = before ++ '#' :: rest ∧ '#' ∉ before ∧
        colorLine "f(2.5) # a # b".toList =
          colorLine before ++ [⟨String.ofList ('#' :: rest), Theme.faint⟩] ∧
        ∀ span ∈ colorLine before, span.style ≠ Theme.faint) ∧
    (⟨"2.5", .colored Theme.number⟩ ∈ colorLine "f(2.5) # a # b".toList ∧ "2.5" ≠ "") := by
  have hmem : ⟨"2.5", .colored Theme.number⟩ ∈ colorLine "f(2.5) # a # b".toList := by decide
  exact ⟨⟨by decide, (coloring_keeps_text "f(2.5) # a # b").2.1 (by decide)⟩, hmem,
    (coloring_keeps_text "f(2.5) # a # b").2.2 _ hmem⟩

example : (colorLine "for i in range(3):  # loop".toList).map Span.text =
    ["for", " ", "i", " ", "in", " ", "range", "(", "3", ")", ":", " ", " ", "# loop"] := by
  decide

end Walkthrough.Pane
