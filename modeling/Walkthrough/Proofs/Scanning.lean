import Mathlib.Data.List.TakeWhile
import Walkthrough.Proofs.Positions

/-!
# The steps of the scanner

The scanner goes through a text step by step. It stands at the start of a logical line or
inside one, and with each step it passes over some characters and may give some tokens. What
it can do is told here once: `Ends` has one rule for each way of coming to an end, `Step` one
for each way of going on. A property that holds wherever the scanner ends, and that a step hands
back from the state after it to the state before it, holds of every state.
-/

namespace Walkthrough

namespace Token

/-- A mark is told by the first two characters. -/
theorem symbolAt?_of_two {c d : Char} {rest : List Char} {mark : Symbol}
    (h : symbolAt? (c :: d :: rest) = some mark) (rest' : List Char) :
    symbolAt? (c :: d :: rest') = some mark := by
  unfold symbolAt? at h
  split at h <;> cases h
  case h_2 | h_4 | h_6 | h_9 | h_11 =>
    next hother heq =>
      cases heq
      rw [symbolAt?]
      rintro tail htail
      cases htail
      exact hother rest rfl
  all_goals
    next heq =>
      cases heq
      rfl

/-- A character that goes on no mark might as well not be there. -/
theorem symbolAt?_of_alone {c : Char} {mark : Symbol} (h : symbolAt? [c] = some mark) {d : Char}
    (hd : d ∉ ['*', '/', '=']) (rest : List Char) : symbolAt? (c :: d :: rest) = some mark := by
  simp only [List.mem_cons, List.not_mem_nil, or_false, not_or] at hd
  unfold symbolAt? at h
  split at h <;> cases h
  case h_1 | h_3 | h_5 | h_7 | h_8 | h_10 => next heq => cases heq
  case h_2 | h_4 | h_6 | h_9 | h_11 =>
    next hother heq =>
      cases heq
      rw [symbolAt?]
      rintro tail htail
      cases htail
      simp at hd
  all_goals
    next heq =>
      cases heq
      rfl

theorem symbolAt?_alone {c d : Char} (hd : d ∉ ['*', '/', '=']) {rest : List Char} {mark : Symbol}
    (h : symbolAt? (c :: d :: rest) = some mark) : symbolAt? [c] = some mark := by
  simp only [List.mem_cons, List.not_mem_nil, or_false, not_or] at hd
  unfold symbolAt? at h
  split at h <;> cases h
  all_goals
    next heq =>
      cases heq
      first
      | rfl
      | simp at hd

theorem symbolAt?_spelled {text : List Char} {mark : Symbol} (h : symbolAt? text = some mark) :
    ∃ rest, text = mark.text.toList ++ rest := by
  unfold symbolAt? at h
  split at h <;> cases h
  all_goals exact ⟨_, rfl⟩

/-- The text is at its end or at a line break, before which a carriage return may stand. -/
def Halts (text : List Char) : Prop := ∀ c ∈ text.head?, c = '\n' ∨ c = '\r'

theorem numberTail_halts {tail : List Char} (h : Halts tail) (pointed : Bool) :
    numberTail pointed tail = ([], tail) := by
  cases tail with
  | nil => rw [numberTail.eq_def]
  | cons c cs =>
    rw [numberTail.eq_def]
    rcases h c rfl with rfl | rfl <;> simp

theorem numberTail_append_halts {tail : List Char} (h : Halts tail) (pointed : Bool)
    (line : List Char) :
    numberTail pointed (line ++ tail) =
      ((numberTail pointed line).1, (numberTail pointed line).2 ++ tail) := by
  fun_induction numberTail pointed line with
  | case1 => exact numberTail_halts h _
  | case4 pointed c hdigit hpoint hmark =>
    have hrest := numberTail_halts h true
    rw [List.singleton_append, numberTail.eq_def]
    cases tail with
    | nil => simp_all
    | cons x xs =>
      rcases h x rfl with rfl | rfl
      · simp_all
      · simp_all
  | _ =>
    rw [List.cons_append, numberTail.eq_def]
    simp_all

/-- A mark does not reach over the end of a line. -/
theorem symbolAt?_append_halts {tail : List Char} (h : Halts tail) (c : Char) (line : List Char) :
    symbolAt? (c :: (line ++ tail)) = symbolAt? (c :: line) := by
  refine Option.ext fun mark => ?_
  cases line with
  | nil =>
    cases tail with
    | nil => rfl
    | cons x xs =>
      have hx : x ∉ ['*', '/', '='] := by
        rcases h x rfl with rfl | rfl <;> decide
      exact ⟨symbolAt?_alone hx, fun hmark => symbolAt?_of_alone hmark hx xs⟩
  | cons d ds =>
    exact ⟨fun hmark => symbolAt?_of_two hmark ds, fun hmark => symbolAt?_of_two hmark _⟩

/-- A name does not reach over the end of a line. -/
theorem span_append_halts {tail : List Char} (h : Halts tail) (line : List Char) :
    (line ++ tail).takeWhile continuesName = line.takeWhile continuesName ∧
      (line ++ tail).dropWhile continuesName = line.dropWhile continuesName ++ tail := by
  induction line with
  | nil =>
    cases tail with
    | nil => exact ⟨rfl, rfl⟩
    | cons x xs => rcases h x rfl with rfl | rfl <;> exact ⟨rfl, rfl⟩
  | cons c cs ih =>
    by_cases hc : continuesName c = true
    · simp [hc, ih]
    · simp [hc]

/-- The reading of a token with more text after it. -/
def Reading.before (r : Reading) (tail : List Char) : Reading := { r with rest := r.rest ++ tail }

/-- A token does not reach over the end of a line, so it is read in the same way whatever comes
after that. -/
theorem read_append_halts {tail : List Char} (h : Halts tail) (c : Char) (line : List Char) :
    read c (line ++ tail) = (read c line).map (·.before tail) := by
  have hstarts : startsNumber c (line ++ tail) = startsNumber c line := by
    cases line with
    | nil =>
      cases tail with
      | nil => rfl
      | cons x xs => rcases h x rfl with rfl | rfl <;> simp [startsNumber]
    | cons d ds => rfl
  have hnumber := numberTail_append_halts h (c == '.') line
  have hname := span_append_halts h line
  have hmark := symbolAt?_append_halts h c line
  unfold read
  rw [hstarts, hnumber, hname.1, hname.2, hmark]
  split
  · dsimp only
    cases ofNumber (c :: (numberTail (c == '.') line).1) <;> rfl
  · split
    · rfl
    · split
      · rfl
      · split
        · next mark hmark =>
          obtain ⟨rest, hrest⟩ := symbolAt?_spelled hmark
          have hlength : mark.text.length ≤ (c :: line).length := by
            rw [hrest, List.length_append, String.length_toList]
            omega
          dsimp only
          rw [← List.cons_append, List.take_append_of_le_length hlength,
            List.drop_append_of_le_length hlength]
          rfl
        · rfl

end Token

namespace Lexeme

/-- A result with some tokens before its tokens. -/
def prepend (ts : List Lexeme) (result : Except SyntaxError (List Lexeme)) :
    Except SyntaxError (List Lexeme) := result.map (ts ++ ·)

@[simp] theorem prepend_ok (ts others : List Lexeme) :
    prepend ts (.ok others) = .ok (ts ++ others) := rfl

@[simp] theorem prepend_error (ts : List Lexeme) (e : SyntaxError) :
    prepend ts (.error e) = .error e := rfl

@[simp] theorem prepend_nil (result : Except SyntaxError (List Lexeme)) :
    prepend [] result = result := by
  cases result <;> rfl

theorem prepend_append (as bs : List Lexeme) (result : Except SyntaxError (List Lexeme)) :
    prepend (as ++ bs) result = prepend as (prepend bs result) := by
  cases result with
  | error e => rfl
  | ok ts => simp only [prepend_ok, List.append_assoc]

/-- Where a scanner stands in a logical line. -/
inductive Phase where
  /-- At its start. -/
  | start
  /-- Inside it, where so many parentheses are open and it has a token already or not. -/
  | inside (parens : Nat) (lineOpen : Bool)

/-- A scanner on its way through a text. -/
structure Scanner where
  /-- Where it stands in a logical line. -/
  phase : Phase
  /-- Where it stands in the text. -/
  place : Location
  /-- The widths of the open blocks. -/
  blocks : List Nat
  /-- The text that is left. -/
  text : List Char

/-- The tokens of the text that is left. -/
def Scanner.tokens (s : Scanner) : Except SyntaxError (List Lexeme) :=
  match s.phase with
  | .start => scanLine s.place s.blocks s.text
  | .inside parens lineOpen => scanInner s.place s.blocks parens lineOpen s.text

theorem Scanner.tokens_start (place : Location) (blocks : List Nat) (text : List Char) :
    Scanner.tokens ⟨.start, place, blocks, text⟩ = scanLine place blocks text := rfl

theorem Scanner.tokens_inside (parens : Nat) (lineOpen : Bool) (place : Location)
    (blocks : List Nat) (text : List Char) :
    Scanner.tokens ⟨.inside parens lineOpen, place, blocks, text⟩ =
      scanInner place blocks parens lineOpen text := rfl

/-- A character that is no blank and starts neither a comment nor a new line. -/
def isSolid (c : Char) : Bool := !isBlank c && c != '#' && c != '\n'

theorem isSolid_iff {c : Char} :
    isSolid c = true ↔ isBlank c = false ∧ c ≠ '#' ∧ c ≠ '\n' := by
  simp [isSolid, and_assoc]

/-- The text has come to its end or to the end of a line. -/
def AtLineEnd (text : List Char) : Prop := ∀ c ∈ text.head?, c = '\n'

/-- A character with the text after it is a backslash at the end of a line. -/
def IsContinuation (c : Char) (rest : List Char) : Prop := c = '\\' ∧ rest.head? = some '\n'

/-- The marks before a line stand at its place: one for an indentation, or some for the ends of
blocks. -/
theorem layout_marks {place : Location} {width : Nat} {blocks nested : List Nat}
    {marks : List Lexeme} (h : layout place width blocks = .ok (marks, nested)) :
    marks = [⟨.indent, place⟩] ∨ ∀ t ∈ marks, t = ⟨.dedent, place⟩ := by
  unfold layout at h
  split at h
  · cases h
    exact .inl rfl
  · dsimp only at h
    split at h
    · cases h
      exact .inr fun t ht => (List.mem_replicate.mp ht).2
    · cases h

namespace Scanner

/-- A scanner comes to its end with a result. -/
inductive Ends : Scanner → Except SyntaxError (List Lexeme) → Prop where
  /-- No token is left on the last line. -/
  | blank {place : Location} {blocks : List Nat} {blanks : List Char}
    (hblanks : ∀ c ∈ blanks, isBlank c = true) :
    Ends ⟨.start, place, blocks, blanks⟩ (.ok (closing (place.afterAll blanks) blocks false))
  /-- A line does not stand under any line before it. -/
  | unindent {place : Location} {blocks : List Nat} {blanks rest : List Char} {c : Char}
    {e : SyntaxError} (hblanks : ∀ c ∈ blanks, isBlank c = true) (hsolid : isSolid c = true)
    (hlayout : layout (place.afterAll blanks) (indentWidth blanks) blocks = .error e) :
    Ends ⟨.start, place, blocks, blanks ++ c :: rest⟩ (.error e)
  /-- The text ends inside a line. -/
  | finished {parens : Nat} {lineOpen : Bool} {place : Location} {blocks : List Nat} :
    Ends ⟨.inside parens lineOpen, place, blocks, []⟩ (.ok (closing place blocks lineOpen))
  /-- There is no token to read. -/
  | unreadable {parens : Nat} {lineOpen : Bool} {place : Location} {blocks : List Nat} {c : Char}
    {rest : List Char} {fault : SyntaxFault} (hsolid : isSolid c = true)
    (hends : ¬ IsContinuation c rest) (hread : Token.read c rest = .error fault) :
    Ends ⟨.inside parens lineOpen, place, blocks, c :: rest⟩ (.error ⟨fault, place⟩)

/-- A scanner gives some tokens and goes on. -/
inductive Step : Scanner → List Lexeme → Scanner → Prop where
  /-- A line without a token. -/
  | emptyLine {place : Location} {blocks : List Nat} {blanks rest : List Char}
    (hblanks : ∀ c ∈ blanks, isBlank c = true) :
    Step ⟨.start, place, blocks, blanks ++ '\n' :: rest⟩ []
      ⟨.start, place.afterAll (blanks ++ ['\n']), blocks, rest⟩
  /-- A line with a comment only, up to its end. -/
  | commentLine {place : Location} {blocks : List Nat} {blanks comment rest : List Char}
    (hblanks : ∀ c ∈ blanks, isBlank c = true) (hcomment : '\n' ∉ comment)
    (hrest : AtLineEnd rest) :
    Step ⟨.start, place, blocks, blanks ++ '#' :: (comment ++ rest)⟩ []
      ⟨.start, place.afterAll (blanks ++ '#' :: comment), blocks, rest⟩
  /-- The blanks before a line that is not empty, which tell its block. -/
  | indentation {place : Location} {blocks nested : List Nat} {blanks rest : List Char} {c : Char}
    {marks : List Lexeme} (hblanks : ∀ c ∈ blanks, isBlank c = true) (hsolid : isSolid c = true)
    (hlayout : layout (place.afterAll blanks) (indentWidth blanks) blocks = .ok (marks, nested)) :
    Step ⟨.start, place, blocks, blanks ++ c :: rest⟩ marks
      ⟨.inside 0 false, place.afterAll blanks, nested, c :: rest⟩
  /-- A blank inside a line. -/
  | blank {parens : Nat} {lineOpen : Bool} {place : Location} {blocks : List Nat} {c : Char}
    {rest : List Char} (hblank : isBlank c = true) :
    Step ⟨.inside parens lineOpen, place, blocks, c :: rest⟩ []
      ⟨.inside parens lineOpen, place.after c, blocks, rest⟩
  /-- A comment behind a line, up to its end. -/
  | comment {parens : Nat} {lineOpen : Bool} {place : Location} {blocks : List Nat}
    {comment rest : List Char} (hcomment : '\n' ∉ comment) (hrest : AtLineEnd rest) :
    Step ⟨.inside parens lineOpen, place, blocks, '#' :: (comment ++ rest)⟩ []
      ⟨.inside parens lineOpen, place.afterAll ('#' :: comment), blocks, rest⟩
  /-- The end of a logical line. -/
  | lineBreak {lineOpen : Bool} {place : Location} {blocks : List Nat} {rest : List Char} :
    Step ⟨.inside 0 lineOpen, place, blocks, '\n' :: rest⟩
      (if lineOpen then [⟨.newline, place⟩] else []) ⟨.start, place.after '\n', blocks, rest⟩
  /-- The end of a line inside parentheses. -/
  | innerBreak {parens : Nat} {lineOpen : Bool} {place : Location} {blocks : List Nat}
    {rest : List Char} (hparens : parens ≠ 0) :
    Step ⟨.inside parens lineOpen, place, blocks, '\n' :: rest⟩ []
      ⟨.inside parens lineOpen, place.after '\n', blocks, rest⟩
  /-- The end of a line after a backslash. -/
  | continuation {parens : Nat} {lineOpen : Bool} {place : Location} {blocks : List Nat}
    {rest : List Char} :
    Step ⟨.inside parens lineOpen, place, blocks, '\\' :: '\n' :: rest⟩ []
      ⟨.inside parens lineOpen, place.afterAll ['\\', '\n'], blocks, rest⟩
  /-- A token. -/
  | token {parens : Nat} {lineOpen : Bool} {place : Location} {blocks : List Nat} {c : Char}
    {rest : List Char} {reading : Token.Reading} (hsolid : isSolid c = true)
    (hends : ¬ IsContinuation c rest) (hread : Token.read c rest = .ok reading) :
    Step ⟨.inside parens lineOpen, place, blocks, c :: rest⟩ [⟨reading.token, place⟩]
      ⟨.inside (parensAfter parens reading.token) true, place.afterAll reading.spelling, blocks,
        reading.rest⟩

/-- Characters of a kind are taken up to the first other one. -/
theorem span_append {p : Char → Bool} {taken rest : List Char} (htaken : ∀ c ∈ taken, p c = true)
    (hrest : ∀ c ∈ rest.head?, p c = false) :
    (taken ++ rest).takeWhile p = taken ∧ (taken ++ rest).dropWhile p = rest := by
  have hstop : rest.takeWhile p = [] ∧ rest.dropWhile p = rest := by
    cases rest with
    | nil => exact ⟨rfl, rfl⟩
    | cons c cs => simp [hrest c rfl]
  rw [List.takeWhile_append_of_pos htaken, List.dropWhile_append_of_pos htaken, hstop.1, hstop.2,
    List.append_nil]
  exact ⟨rfl, rfl⟩

/-- A comment is passed over up to the end of its line. -/
theorem span_comment {comment rest : List Char} (hcomment : '\n' ∉ comment)
    (hrest : AtLineEnd rest) :
    (comment ++ rest).takeWhile (· != '\n') = comment ∧ lineEnd (comment ++ rest) = rest := by
  have hall : ∀ c ∈ comment, (c != '\n') = true := by
    intro c hc
    have hne : c ≠ '\n' := fun heq => hcomment (heq ▸ hc)
    simpa using hne
  exact span_append hall fun c hc => by simp [hrest c hc]

/-- What the scanner does at the first character of a line that is no blank. -/
theorem scanLine_solid {blanks : List Char} (hblanks : ∀ c ∈ blanks, isBlank c = true) {c : Char}
    (hc : isBlank c = false) (place : Location) (blocks : List Nat) (rest : List Char) :
    scanLine place blocks (blanks ++ c :: rest) =
      if c = '\n' then scanLine ((place.afterAll blanks).after c) blocks rest
      else if c = '#' then
        scanLine (((place.afterAll blanks).after c).afterAll (rest.takeWhile (· != '\n'))) blocks
          (lineEnd rest)
      else
        layout (place.afterAll blanks) (indentWidth blanks) blocks >>= fun (marks, nested) =>
          prepend marks (scanInner (place.afterAll blanks) nested 0 false (c :: rest)) := by
  have hspan := span_append hblanks (show ∀ d ∈ (c :: rest).head?, isBlank d = false by simpa)
  rw [scanLine, hspan.1]
  split
  · next hnone =>
    rw [hspan.2] at hnone
    cases hnone
  · next found after hsome =>
    rw [hspan.2] at hsome
    cases hsome
    rfl

/-- What the scanner does inside a line at a character that starts a token or none. -/
theorem scanInner_solid {c : Char} {rest : List Char} (hsolid : isSolid c = true)
    (hends : ¬ IsContinuation c rest) (place : Location) (blocks : List Nat) (parens : Nat)
    (lineOpen : Bool) :
    scanInner place blocks parens lineOpen (c :: rest) =
      match Token.read c rest with
      | .error fault => .error ⟨fault, place⟩
      | .ok reading => prepend [⟨reading.token, place⟩]
          (scanInner (place.afterAll reading.spelling) blocks (parensAfter parens reading.token)
            true reading.rest) := by
  obtain ⟨hblank, hcomment, hbreak⟩ := isSolid_iff.mp hsolid
  unfold IsContinuation at hends
  rw [scanInner, hblank, if_neg Bool.false_ne_true, if_neg hcomment, if_neg hbreak, if_neg hends]
  split
  · next fault hfault => rw [hfault]
  · next reading hreading =>
    simp only [hreading]
    rfl

/-- At its end the scanner has the result that the rule tells. -/
theorem Ends.tokens_eq {s : Scanner} {result : Except SyntaxError (List Lexeme)}
    (h : Ends s result) : s.tokens = result := by
  cases h with
  | @blank place blocks blanks hblanks =>
    have hspan := span_append hblanks (show ∀ d ∈ [].head?, isBlank d = false by simp)
    rw [List.append_nil] at hspan
    rw [tokens_start, scanLine, hspan.1]
    split
    · rfl
    · next hsome =>
      rw [hspan.2] at hsome
      cases hsome
  | unindent hblanks hsolid hlayout =>
    obtain ⟨hblank, hcomment, hbreak⟩ := isSolid_iff.mp hsolid
    rw [tokens_start, scanLine_solid hblanks hblank, if_neg hbreak, if_neg hcomment, hlayout]
    rfl
  | finished => rw [tokens_inside, scanInner]
  | unreadable hsolid hends hread => rw [tokens_inside, scanInner_solid hsolid hends, hread]

/-- A scanner that goes on has the tokens of the step and those that it has then. -/
theorem Step.tokens_eq {s s' : Scanner} {ts : List Lexeme} (h : Step s ts s') :
    s.tokens = prepend ts s'.tokens := by
  cases h with
  | emptyLine hblanks =>
    rw [tokens_start, scanLine_solid hblanks rfl, if_pos rfl, prepend_nil, tokens_start,
      Location.afterAll_append]
    rfl
  | commentLine hblanks hcomment hrest =>
    have hspan := span_comment hcomment hrest
    rw [tokens_start, scanLine_solid hblanks rfl, if_neg (by decide), if_pos rfl, hspan.1, hspan.2,
      prepend_nil, tokens_start, Location.afterAll_append]
    rfl
  | indentation hblanks hsolid hlayout =>
    obtain ⟨hblank, hcomment, hbreak⟩ := isSolid_iff.mp hsolid
    rw [tokens_start, scanLine_solid hblanks hblank, if_neg hbreak, if_neg hcomment, hlayout]
    rfl
  | blank hblank =>
    rw [tokens_inside, scanInner, if_pos hblank, prepend_nil]
    rfl
  | comment hcomment hrest =>
    have hspan := span_comment hcomment hrest
    rw [tokens_inside, scanInner, if_neg (by decide), if_pos rfl, hspan.1, hspan.2, prepend_nil]
    rfl
  | @lineBreak lineOpen place blocks rest =>
    rw [tokens_inside, scanInner, if_neg (by decide), if_neg (by decide), if_pos rfl, if_pos rfl]
    cases lineOpen <;> rfl
  | innerBreak hparens =>
    rw [tokens_inside, scanInner, if_neg (by decide), if_neg (by decide), if_pos rfl,
      if_neg hparens, prepend_nil]
    rfl
  | continuation =>
    rw [tokens_inside, scanInner, if_neg (by decide), if_neg (by decide), if_neg (by decide),
      if_pos ⟨rfl, rfl⟩, prepend_nil]
    rfl
  | token hsolid hends hread =>
    rw [tokens_inside, scanInner_solid hsolid hends, hread]
    rfl

/-- The work that is left: two for each character, and one more at the start of a line, where
a step may pass over no character. -/
def work (s : Scanner) : Nat :=
  2 * s.text.length + match s.phase with
    | .start => 1
    | .inside _ _ => 0

/-- A step leaves less work. -/
theorem Step.work_lt {s s' : Scanner} {ts : List Lexeme} (h : Step s ts s') : s'.work < s.work := by
  cases h with
  | token hsolid hends hread =>
    have hrest := Token.length_rest_of_read hread
    simp only [work, List.length_cons]
    omega
  | _ =>
    simp only [work, List.length_append, List.length_cons]
    omega

/-- A step passes over some characters and moves the place on by them. -/
theorem Step.consumes {s s' : Scanner} {ts : List Lexeme} (h : Step s ts s') :
    ∃ passed, s.text = passed ++ s'.text ∧ s'.place = s.place.afterAll passed := by
  cases h with
  | @emptyLine place blocks blanks rest _ => exact ⟨blanks ++ ['\n'], by simp, rfl⟩
  | @commentLine place blocks blanks comment rest _ _ _ =>
    exact ⟨blanks ++ '#' :: comment, by simp, rfl⟩
  | @indentation place blocks nested blanks rest c marks _ _ _ => exact ⟨blanks, rfl, rfl⟩
  | @blank parens lineOpen place blocks c rest _ => exact ⟨[c], rfl, rfl⟩
  | @comment parens lineOpen place blocks comment rest _ _ => exact ⟨'#' :: comment, rfl, rfl⟩
  | lineBreak => exact ⟨['\n'], rfl, rfl⟩
  | innerBreak _ => exact ⟨['\n'], rfl, rfl⟩
  | continuation => exact ⟨['\\', '\n'], rfl, rfl⟩
  | @token parens lineOpen place blocks c rest reading _ _ hread =>
    obtain ⟨_, cs, hspelling, hrest⟩ := Token.read_ok hread
    refine ⟨reading.spelling, ?_, rfl⟩
    rw [hspelling, List.cons_append, hrest]

/-- Every text is a comment's rest of a line and what follows it. -/
theorem exists_comment (text : List Char) :
    ∃ comment rest, text = comment ++ rest ∧ '\n' ∉ comment ∧ AtLineEnd rest := by
  refine ⟨text.takeWhile (· != '\n'), text.dropWhile (· != '\n'),
    List.takeWhile_append_dropWhile.symm, fun hmem => ?_, fun c hc => ?_⟩
  · have hne := List.mem_takeWhile_imp hmem
    simp at hne
  · have hhead := List.head?_dropWhile_not (· != '\n') text
    rw [Option.mem_def.mp hc] at hhead
    simpa using hhead

/-- Every scanner comes to its end or goes on. -/
theorem ends_or_step (s : Scanner) : (∃ result, Ends s result) ∨ ∃ ts s', Step s ts s' := by
  obtain ⟨phase, place, blocks, text⟩ := s
  cases phase with
  | start =>
    have hblanks : ∀ c ∈ text.takeWhile isBlank, isBlank c = true :=
      fun c hc => List.mem_takeWhile_imp hc
    rw [← List.takeWhile_append_dropWhile (p := isBlank) (l := text)]
    cases hrest : text.dropWhile isBlank with
    | nil =>
      rw [List.append_nil]
      exact .inl ⟨_, .blank hblanks⟩
    | cons c rest =>
      have hblank : isBlank c = false := by
        have hhead := List.head?_dropWhile_not isBlank text
        rw [hrest] at hhead
        simpa using hhead
      by_cases hbreak : c = '\n'
      · subst hbreak
        exact .inr ⟨_, _, .emptyLine hblanks⟩
      · by_cases hcomment : c = '#'
        · subst hcomment
          obtain ⟨comment, after, rfl, hcomment, hafter⟩ := exists_comment rest
          exact .inr ⟨_, _, .commentLine hblanks hcomment hafter⟩
        · have hsolid := isSolid_iff.mpr ⟨hblank, hcomment, hbreak⟩
          cases hlayout : layout (place.afterAll (text.takeWhile isBlank))
              (indentWidth (text.takeWhile isBlank)) blocks with
          | error e => exact .inl ⟨_, .unindent hblanks hsolid hlayout⟩
          | ok found => exact .inr ⟨_, _, .indentation hblanks hsolid hlayout⟩
  | inside parens lineOpen =>
    cases text with
    | nil => exact .inl ⟨_, .finished⟩
    | cons c rest =>
      by_cases hblank : isBlank c = true
      · exact .inr ⟨_, _, .blank hblank⟩
      · by_cases hcomment : c = '#'
        · subst hcomment
          obtain ⟨comment, after, rfl, hcomment, hafter⟩ := exists_comment rest
          exact .inr ⟨_, _, .comment hcomment hafter⟩
        · by_cases hbreak : c = '\n'
          · subst hbreak
            by_cases hparens : parens = 0
            · subst hparens
              exact .inr ⟨_, _, .lineBreak⟩
            · exact .inr ⟨_, _, .innerBreak hparens⟩
          · have hsolid := isSolid_iff.mpr ⟨by simpa using hblank, hcomment, hbreak⟩
            by_cases hends : IsContinuation c rest
            · obtain ⟨rfl, hhead⟩ := hends
              obtain ⟨after, rfl⟩ := List.head?_eq_some_iff.mp hhead
              exact .inr ⟨_, _, .continuation⟩
            · cases hread : Token.read c rest with
              | error fault => exact .inl ⟨_, .unreadable hsolid hends hread⟩
              | ok reading => exact .inr ⟨_, _, .token hsolid hends hread⟩

/-- What holds of a scanner at its end, and before a step if it holds after it, holds always. -/
theorem induction {motive : Scanner → Prop}
    (ends : ∀ s result, Ends s result → motive s)
    (step : ∀ s ts s', Step s ts s' → motive s' → motive s) (s : Scanner) : motive s := by
  rcases ends_or_step s with ⟨result, hends⟩ | ⟨ts, s', hstep⟩
  · exact ends s result hends
  · have hless := hstep.work_lt
    exact step s ts s' hstep (Scanner.induction ends step s')
termination_by s.work

end Scanner

end Lexeme

end Walkthrough
