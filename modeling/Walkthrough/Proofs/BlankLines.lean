import Walkthrough.Proofs.Scanning

/-!
# Lines without tokens

What the scanner makes of a text up to the end of a line does not depend on the text after it.
What it makes of the rest depends on where the rest stands only by the places of its tokens. So
a line that is blank or holds nothing but a comment may stand between any two lines, inside a
block or inside parentheses as well: the tokens before it stay as they are, and those after it
are found one line further down.
-/

namespace Walkthrough

namespace Location

/-- Each line break leads to the next line. -/
theorem line_afterAll (place : Location) (text : List Char) :
    (place.afterAll text).line = place.line + text.count '\n' := by
  induction text generalizing place with
  | nil => rfl
  | cons c cs ih =>
    have hstep : (place.after c).line = place.line + if c = '\n' then 1 else 0 := by
      unfold after
      split <;> rfl
    rw [afterAll_cons, ih, hstep, List.count_cons]
    simp only [beq_iff_eq]
    omega

/-- A line break leads to the first column of the next line. -/
theorem afterAll_break (place : Location) (text : List Char) :
    place.afterAll (text ++ ['\n']) = ⟨(place.afterAll text).line + 1, 1⟩ := by
  rw [afterAll_append]
  rfl

/-- A place after a line was put in before a line, the first of those that move down. -/
def lowered (first : Nat) (place : Location) : Location :=
  if first ≤ place.line then ⟨place.line + 1, place.column⟩ else place

theorem lowered_of_le {first : Nat} {place : Location} (h : first ≤ place.line) :
    place.lowered first = ⟨place.line + 1, place.column⟩ := if_pos h

theorem lowered_of_lt {first : Nat} {place : Location} (h : place.line < first) :
    place.lowered first = place := if_neg (by omega)

end Location

namespace Lexeme

/-- A token at the place to which its place moves. -/
def moved (move : Location → Location) (t : Lexeme) : Lexeme := ⟨t.token, move t.location⟩

/-- Tokens above the line before which a line is put in stay at their places. -/
theorem map_moved_above {first : Nat} {ts : List Lexeme}
    (h : ∀ t ∈ ts, t.location.line < first) : ts.map (moved (Location.lowered first)) = ts := by
  have hstay : ∀ t ∈ ts, moved (Location.lowered first) t = id t := by
    intro t ht
    rw [moved, Location.lowered_of_lt (h t ht), id]
  rw [List.map_congr_left hstay, List.map_id]

/-- A result whose tokens, or whose error, move to other places. -/
def relocated (move : Location → Location) :
    Except SyntaxError (List Lexeme) → Except SyntaxError (List Lexeme)
  | .ok ts => .ok (ts.map (moved move))
  | .error e => .error ⟨e.fault, move e.location⟩

@[simp] theorem relocated_ok (move : Location → Location) (ts : List Lexeme) :
    relocated move (.ok ts) = .ok (ts.map (moved move)) := rfl

@[simp] theorem relocated_error (move : Location → Location) (e : SyntaxError) :
    relocated move (.error e) = .error ⟨e.fault, move e.location⟩ := rfl

theorem relocated_prepend (move : Location → Location) (ts : List Lexeme)
    (result : Except SyntaxError (List Lexeme)) :
    relocated move (prepend ts result) = prepend (ts.map (moved move)) (relocated move result) := by
  cases result with
  | error e => rfl
  | ok others => simp only [prepend_ok, relocated, List.map_append]

theorem map_moved_closing (move : Location → Location) (place : Location) (blocks : List Nat)
    (lineOpen : Bool) :
    (closing place blocks lineOpen).map (moved move) = closing (move place) blocks lineOpen := by
  cases lineOpen <;> simp [closing, moved]

/-- The marks before a line are at its place, and so is the error. -/
theorem layout_moved (move : Location → Location) (place : Location) (width : Nat)
    (blocks : List Nat) :
    layout (move place) width blocks =
      match layout place width blocks with
      | .ok (marks, nested) => .ok (marks.map (moved move), nested)
      | .error e => .error ⟨e.fault, move e.location⟩ := by
  unfold layout
  split
  · rfl
  · dsimp only
    split
    · simp [moved]
    · rfl

/-- The marks before a line are at its place. -/
theorem location_layout {place : Location} {width : Nat} {blocks nested : List Nat}
    {marks : List Lexeme} (h : layout place width blocks = .ok (marks, nested)) :
    ∀ t ∈ marks, t.location = place := by
  intro t ht
  rcases layout_marks h with rfl | hdedent
  · rw [List.mem_singleton.mp ht]
  · rw [hdedent t ht]

/-- So is the error. -/
theorem location_layout_error {place : Location} {width : Nat} {blocks : List Nat}
    {e : SyntaxError} (h : layout place width blocks = .error e) : e.location = place := by
  unfold layout at h
  split at h
  · cases h
  · dsimp only at h
    split at h
    · cases h
    · cases h
      rfl

/-- A move takes one place to another, and takes the way through any text along. -/
def Tracks (move : Location → Location) (place other : Location) : Prop :=
  ∀ text, move (place.afterAll text) = other.afterAll text

theorem Tracks.here {move : Location → Location} {place other : Location}
    (h : Tracks move place other) : move place = other := h []

theorem Tracks.afterAll {move : Location → Location} {place other : Location}
    (h : Tracks move place other) (passed : List Char) :
    Tracks move (place.afterAll passed) (other.afterAll passed) := by
  intro text
  rw [← Location.afterAll_append, ← Location.afterAll_append]
  exact h (passed ++ text)

/-- Places from a line on are lowered along with the text. -/
theorem tracks_lowered {first : Nat} {place : Location} (h : first ≤ place.line) :
    Tracks (Location.lowered first) place ⟨place.line + 1, place.column⟩ := by
  intro text
  induction text generalizing place with
  | nil => exact Location.lowered_of_le h
  | cons c cs ih =>
    have hafter : first ≤ (place.after c).line := by
      unfold Location.after
      split
      · dsimp only
        omega
      · exact h
    have hlower : (⟨place.line + 1, place.column⟩ : Location).after c =
        ⟨(place.after c).line + 1, (place.after c).column⟩ := by
      unfold Location.after
      split <;> rfl
    rw [Location.afterAll_cons, Location.afterAll_cons, ih hafter, hlower]

namespace Scanner

/-- The scanner at another place. -/
def movedTo (s : Scanner) (place : Location) : Scanner := { s with place }

variable {s s' : Scanner} {ts : List Lexeme} {move : Location → Location} {other : Location}

theorem Ends.relocated {result : Except SyntaxError (List Lexeme)} (h : Ends s result)
    (hmove : Tracks move s.place other) : Ends (s.movedTo other) (relocated move result) := by
  cases h with
  | @blank place blocks blanks hblanks =>
    have hend : move (place.afterAll blanks) = other.afterAll blanks := hmove blanks
    rw [relocated_ok, map_moved_closing, hend]
    exact .blank hblanks
  | @unindent place blocks blanks rest c e hblanks hsolid hlayout =>
    have hmoved := layout_moved move (place.afterAll blanks) (indentWidth blanks) blocks
    rw [hlayout, hmove blanks] at hmoved
    exact .unindent hblanks hsolid hmoved
  | finished =>
    rw [relocated_ok, map_moved_closing, hmove.here]
    exact .finished
  | unreadable hsolid hends hread =>
    rw [relocated_error, hmove.here]
    exact .unreadable hsolid hends hread

theorem Step.relocated (h : Step s ts s') (hmove : Tracks move s.place other) :
    ∃ other', Tracks move s'.place other' ∧
      Step (s.movedTo other) (ts.map (moved move)) (s'.movedTo other') := by
  cases h with
  | emptyLine hblanks => exact ⟨_, hmove.afterAll _, .emptyLine hblanks⟩
  | commentLine hblanks hcomment hrest =>
    exact ⟨_, hmove.afterAll _, .commentLine hblanks hcomment hrest⟩
  | @indentation place blocks nested blanks rest c marks hblanks hsolid hlayout =>
    have hmoved := layout_moved move (place.afterAll blanks) (indentWidth blanks) blocks
    rw [hlayout, hmove blanks] at hmoved
    exact ⟨_, hmove.afterAll blanks, .indentation hblanks hsolid hmoved⟩
  | @blank _ _ _ _ c _ hblank => exact ⟨_, hmove.afterAll [c], .blank hblank⟩
  | comment hcomment hrest => exact ⟨_, hmove.afterAll _, .comment hcomment hrest⟩
  | @lineBreak lineOpen place blocks rest =>
    have hmarks : (if lineOpen then [(⟨.newline, place⟩ : Lexeme)] else []).map (moved move) =
        if lineOpen then [⟨.newline, other⟩] else [] := by
      cases lineOpen with
      | false => rfl
      | true => exact congrArg (fun here => [(⟨.newline, here⟩ : Lexeme)]) hmove.here
    rw [hmarks]
    exact ⟨_, hmove.afterAll ['\n'], .lineBreak⟩
  | innerBreak hparens => exact ⟨_, hmove.afterAll ['\n'], .innerBreak hparens⟩
  | continuation => exact ⟨_, hmove.afterAll ['\\', '\n'], .continuation⟩
  | token hsolid hends hread =>
    rw [List.map_singleton, moved, hmove.here]
    exact ⟨_, hmove.afterAll _, .token hsolid hends hread⟩

/-- A text that stands somewhere else has the same tokens, which move along with it. -/
theorem tokens_movedTo (s : Scanner) {move : Location → Location} {other : Location}
    (hmove : Tracks move s.place other) : (s.movedTo other).tokens = relocated move s.tokens := by
  induction s using Scanner.induction generalizing other with
  | ends s result h => rw [(h.relocated hmove).tokens_eq, h.tokens_eq]
  | step s ts s' h ih =>
    obtain ⟨other', hthere, hstep⟩ := h.relocated hmove
    rw [hstep.tokens_eq, h.tokens_eq, ih hthere, relocated_prepend]

end Scanner

/-- A text ends with a line break that is not after a backslash. -/
def EndsLine (text : List Char) : Prop := ['\n'] <:+ text ∧ ¬ ['\\', '\n'] <:+ text

namespace EndsLine

variable {passed text : List Char}

/-- So does what is left of the text, if something is. -/
theorem of_append (h : EndsLine (passed ++ text)) (htext : text ≠ []) : EndsLine text := by
  have hsuffix := List.suffix_append passed text
  have hlength : 1 ≤ text.length := List.length_pos_iff.mpr htext
  exact ⟨List.suffix_of_suffix_length_le h.1 hsuffix hlength, fun hend => h.2 (hend.trans hsuffix)⟩

theorem mem (h : EndsLine text) : '\n' ∈ text := h.1.subset List.mem_cons_self

/-- Something is left after characters that are no line breaks. -/
theorem ne_nil (h : EndsLine (passed ++ text)) (hpassed : '\n' ∉ passed) : text ≠ [] := by
  rintro rfl
  rw [List.append_nil] at h
  exact hpassed h.mem

end EndsLine

/-- No line break is a blank. -/
theorem break_not_mem {blanks : List Char} (hblanks : ∀ c ∈ blanks, isBlank c = true) :
    '\n' ∉ blanks := fun hmem => by cases hblanks _ hmem

/-- A comment goes on up to the same line break whatever follows. -/
theorem AtLineEnd.append {text : List Char} (h : AtLineEnd text) (htext : text ≠ [])
    (more : List Char) : AtLineEnd (text ++ more) := by
  rw [AtLineEnd, List.head?_append_of_ne_nil _ htext]
  exact h

/-- A token before the end of a line is read in the same way whatever follows, and something is
left after it. -/
theorem read_append {rest : List Char} (hrest : '\n' ∈ rest) (c : Char) (more : List Char) :
    Token.read c (rest ++ more) = (Token.read c rest).map (·.before more) ∧
      ∀ reading, Token.read c rest = .ok reading → reading.rest ≠ [] := by
  obtain ⟨line, tail, rfl⟩ := List.append_of_mem hrest
  have hhalts : ∀ text, Token.Halts ('\n' :: text) := by
    intro text c hc
    exact .inl (Option.some.inj hc).symm
  have hread := Token.read_append_halts (hhalts tail) c line
  have hmore := Token.read_append_halts (hhalts (tail ++ more)) c line
  rw [List.append_assoc, List.cons_append, hread, hmore]
  cases Token.read c line with
  | error fault => exact ⟨rfl, nofun⟩
  | ok found =>
    constructor
    · simp [Except.map, Token.Reading.before]
    · rintro reading hreading
      cases hreading
      simp [Token.Reading.before]

/-- A line break comes after a character of a token. -/
theorem EndsLine.mem_of_solid {c : Char} {rest : List Char} (h : EndsLine (c :: rest))
    (hsolid : isSolid c = true) : '\n' ∈ rest :=
  (List.mem_cons.mp h.mem).resolve_left fun heq => (isSolid_iff.mp hsolid).2.2 heq.symm

/-- Whether a backslash continues its line does not depend on the text after that line. -/
theorem isContinuation_append {c : Char} {rest : List Char} (hrest : '\n' ∈ rest)
    (more : List Char) : IsContinuation c (rest ++ more) ↔ IsContinuation c rest := by
  unfold IsContinuation
  rw [List.head?_append_of_ne_nil _ (List.ne_nil_of_mem hrest)]

/-- A new line may start here: at the start of a logical line, or inside parentheses. -/
def Phase.Resumes : Phase → Prop
  | start => True
  | inside parens _ => parens ≠ 0

namespace Scanner

/-- The scanner with more text behind its text. -/
def followedBy (s : Scanner) (more : List Char) : Scanner := { s with text := s.text ++ more }

variable {s s' : Scanner} {ts : List Lexeme}

/-- A scanner that comes to an end before the end of a line has found an error, which it finds
whatever follows. -/
theorem Ends.followedBy {result : Except SyntaxError (List Lexeme)} (h : Ends s result)
    (hline : EndsLine s.text) (more : List Char) :
    Ends (s.followedBy more) result ∧ ∃ e, result = .error e := by
  cases h with
  | blank hblanks => cases hblanks _ hline.mem
  | @unindent place blocks blanks rest c e hblanks hsolid hlayout =>
    refine ⟨?_, e, rfl⟩
    unfold Scanner.followedBy
    rw [List.append_assoc]
    exact .unindent hblanks hsolid hlayout
  | finished => cases hline.mem
  | @unreadable parens lineOpen place blocks c rest fault hsolid hends hread =>
    have hmem := hline.mem_of_solid hsolid
    have hmore := (read_append hmem c more).1
    rw [hread] at hmore
    rw [← isContinuation_append hmem more] at hends
    exact ⟨.unreadable hsolid hends hmore, _, rfl⟩

/-- A step before the end of a line is made whatever follows. After a step that comes to the end
of the text a new line may start. -/
theorem Step.followedBy (h : Step s ts s') (hline : EndsLine s.text) (more : List Char) :
    Step (s.followedBy more) ts (s'.followedBy more) ∧ (s'.text = [] → s'.phase.Resumes) := by
  unfold Scanner.followedBy
  cases h with
  | emptyLine hblanks =>
    rw [List.append_assoc]
    exact ⟨.emptyLine hblanks, fun _ => trivial⟩
  | @commentLine place blocks blanks comment rest hblanks hcomment hrest =>
    have hpassed : '\n' ∉ blanks ++ '#' :: comment := by
      simp [break_not_mem hblanks, hcomment]
    have hleft : rest ≠ [] := by
      rw [← List.cons_append, ← List.append_assoc] at hline
      exact hline.ne_nil hpassed
    rw [List.append_assoc, List.cons_append, List.append_assoc]
    exact ⟨.commentLine hblanks hcomment (hrest.append hleft more), fun _ => trivial⟩
  | indentation hblanks hsolid hlayout =>
    rw [List.append_assoc]
    exact ⟨.indentation hblanks hsolid hlayout, nofun⟩
  | @blank _ _ _ _ c rest hblank =>
    have hc : '\n' ∉ [c] := break_not_mem (by simpa using hblank)
    have hleft : rest ≠ [] := (show EndsLine ([c] ++ rest) from hline).ne_nil hc
    exact ⟨.blank hblank, fun hnone => absurd hnone hleft⟩
  | @comment _ _ _ _ comment rest hcomment hrest =>
    have hpassed : '\n' ∉ '#' :: comment := by simp [hcomment]
    have hleft : rest ≠ [] := by
      rw [← List.cons_append] at hline
      exact hline.ne_nil hpassed
    rw [List.cons_append, List.append_assoc]
    exact ⟨.comment hcomment (hrest.append hleft more), fun hnone => absurd hnone hleft⟩
  | lineBreak => exact ⟨.lineBreak, fun _ => trivial⟩
  | innerBreak hparens => exact ⟨.innerBreak hparens, fun _ => hparens⟩
  | @continuation _ _ _ _ rest =>
    have hleft : rest ≠ [] := by
      rintro rfl
      exact hline.2 List.suffix_rfl
    exact ⟨.continuation, fun hnone => absurd hnone hleft⟩
  | @token parens lineOpen place blocks c rest reading hsolid hends hread =>
    have hmem := hline.mem_of_solid hsolid
    obtain ⟨hmore, hleft⟩ := read_append hmem c more
    rw [hread] at hmore
    rw [← isContinuation_append hmem more] at hends
    exact ⟨.token hsolid hends hmore, fun hnone => absurd hnone (hleft reading hread)⟩

/-- A place of the text that is left, before its end. -/
def Ahead (s : Scanner) (place : Location) : Prop :=
  ∃ passed rest, s.text = passed ++ rest ∧ rest ≠ [] ∧ place = s.place.afterAll passed

/-- The tokens of a step stand in the text that is left. -/
theorem Step.ahead (h : Step s ts s') : ∀ t ∈ ts, s.Ahead t.location := by
  intro t ht
  cases h with
  | @indentation place blocks nested blanks rest c marks hblanks hsolid hlayout =>
    exact ⟨blanks, c :: rest, rfl, nofun, location_layout hlayout t ht⟩
  | @lineBreak lineOpen place blocks rest =>
    have hplace : t = ⟨.newline, place⟩ := by
      cases lineOpen with
      | false => cases ht
      | true => exact List.mem_singleton.mp ht
    exact ⟨[], _, rfl, nofun, congrArg Lexeme.location hplace⟩
  | token hsolid hends hread =>
    exact ⟨[], _, rfl, nofun, congrArg Lexeme.location (List.mem_singleton.mp ht)⟩
  | _ => cases ht

/-- An error stands in the text that is left. -/
theorem Ends.ahead {e : SyntaxError} (h : Ends s (.error e)) : s.Ahead e.location := by
  cases h with
  | @unindent place blocks blanks rest c e hblanks hsolid hlayout =>
    exact ⟨blanks, c :: rest, rfl, nofun, location_layout_error hlayout⟩
  | unreadable hsolid hends hread => exact ⟨[], _, rfl, nofun, rfl⟩

/-- Where the text ends with a line break, a place in it is above the place after it. -/
theorem Ahead.line_lt {place : Location} (h : s.Ahead place) (hline : EndsLine s.text) :
    place.line < (s.place.afterAll s.text).line := by
  obtain ⟨passed, rest, htext, hrest, rfl⟩ := h
  rw [htext] at hline ⊢
  have hbreak : 0 < rest.count '\n' := List.count_pos_iff.mpr (hline.of_append hrest).mem
  rw [Location.line_afterAll, Location.line_afterAll, List.count_append]
  omega

/-- Where no text is left, the scanner goes on with whatever follows. -/
theorem tokens_followedBy_nil (hnone : s.text = []) (hphase : s.phase.Resumes) :
    ∃ (own : List Lexeme) (phase : Phase) (blocks : List Nat), phase.Resumes ∧
      (∀ t ∈ own, t.location.line < (s.place.afterAll s.text).line) ∧
      ∀ more, (s.followedBy more).tokens =
        prepend own (tokens ⟨phase, s.place.afterAll s.text, blocks, more⟩) := by
  refine ⟨[], s.phase, s.blocks, hphase, by simp, fun more => ?_⟩
  rw [prepend_nil, followedBy, hnone]
  rfl

/-- What a scanner makes of a text up to the end of a line is the same whatever follows: an error
above that line, or tokens above it, after which it goes on in the same way. -/
theorem tokens_followedBy (s : Scanner)
    (hline : s.text = [] ∧ s.phase.Resumes ∨ EndsLine s.text) :
    (∃ e : SyntaxError, e.location.line < (s.place.afterAll s.text).line ∧
      ∀ more, (s.followedBy more).tokens = .error e) ∨
    ∃ (own : List Lexeme) (phase : Phase) (blocks : List Nat), phase.Resumes ∧
      (∀ t ∈ own, t.location.line < (s.place.afterAll s.text).line) ∧
      ∀ more, (s.followedBy more).tokens =
        prepend own (tokens ⟨phase, s.place.afterAll s.text, blocks, more⟩) := by
  induction s using Scanner.induction with
  | ends s result h =>
    rcases hline with ⟨hnone, hphase⟩ | hline
    · exact .inr (tokens_followedBy_nil hnone hphase)
    · obtain ⟨_, e, rfl⟩ := h.followedBy hline []
      exact .inl ⟨e, h.ahead.line_lt hline, fun more => (h.followedBy hline more).1.tokens_eq⟩
  | step s ts s' h ih =>
    rcases hline with ⟨hnone, hphase⟩ | hline
    · exact .inr (tokens_followedBy_nil hnone hphase)
    · obtain ⟨passed, htext, hplace⟩ := h.consumes
      have hend : s'.place.afterAll s'.text = s.place.afterAll s.text := by
        rw [hplace, htext, Location.afterAll_append]
      have habove : ∀ t ∈ ts, t.location.line < (s.place.afterAll s.text).line :=
        fun t ht => (h.ahead t ht).line_lt hline
      have hstep : ∀ more, (s.followedBy more).tokens = prepend ts (s'.followedBy more).tokens :=
        fun more => (h.followedBy hline more).1.tokens_eq
      have hleft : s'.text = [] ∧ s'.phase.Resumes ∨ EndsLine s'.text := by
        by_cases hdone : s'.text = []
        · exact .inl ⟨hdone, (h.followedBy hline []).2 hdone⟩
        · rw [htext] at hline
          exact .inr (hline.of_append hdone)
      rw [← hend] at habove ⊢
      rcases ih hleft with ⟨e, he, herror⟩ | ⟨own, phase, blocks, hphase, hown, hothers⟩
      · refine .inl ⟨e, he, fun more => ?_⟩
        rw [hstep, herror, prepend_error]
      · refine .inr ⟨ts ++ own, phase, blocks, hphase, fun t ht => ?_, fun more => ?_⟩
        · rcases List.mem_append.mp ht with hfirst | hlater
          · exact habove t hfirst
          · exact hown t hlater
        · rw [hstep, hothers, prepend_append]

end Scanner

/-- A line that is blank, or that holds nothing but a comment. -/
inductive IsEmptyLine : List Char → Prop where
  | blank {blanks : List Char} (hblanks : ∀ c ∈ blanks, isBlank c = true) :
    IsEmptyLine (blanks ++ ['\n'])
  | comment {blanks comment : List Char} (hblanks : ∀ c ∈ blanks, isBlank c = true)
    (hcomment : '\n' ∉ comment) : IsEmptyLine (blanks ++ '#' :: (comment ++ ['\n']))

namespace Scanner

/-- Blanks inside a line are passed over. -/
theorem tokens_blanks {blanks : List Char} (hblanks : ∀ c ∈ blanks, isBlank c = true)
    (parens : Nat) (lineOpen : Bool) (place : Location) (blocks : List Nat) (rest : List Char) :
    tokens ⟨.inside parens lineOpen, place, blocks, blanks ++ rest⟩ =
      tokens ⟨.inside parens lineOpen, place.afterAll blanks, blocks, rest⟩ := by
  induction blanks generalizing place with
  | nil => rfl
  | cons c cs ih =>
    obtain ⟨hc, hcs⟩ := List.forall_mem_cons.mp hblanks
    have hstep : Step ⟨.inside parens lineOpen, place, blocks, c :: (cs ++ rest)⟩ [] _ := .blank hc
    rw [List.cons_append, hstep.tokens_eq, prepend_nil, ih hcs, Location.afterAll_cons]

/-- Where a new line may start, the rest of a blank line is passed over. -/
theorem tokens_lineBreak {phase : Phase} (hphase : phase.Resumes) {blanks : List Char}
    (hblanks : ∀ c ∈ blanks, isBlank c = true) (place : Location) (blocks : List Nat)
    (rest : List Char) :
    tokens ⟨phase, place, blocks, blanks ++ '\n' :: rest⟩ =
      tokens ⟨phase, place.afterAll (blanks ++ ['\n']), blocks, rest⟩ := by
  cases phase with
  | start => rw [(Step.emptyLine hblanks).tokens_eq, prepend_nil]
  | inside parens lineOpen =>
    rw [tokens_blanks hblanks, (Step.innerBreak hphase).tokens_eq, prepend_nil,
      Location.afterAll_append]
    rfl

/-- A comment is passed over, up to the end of its line. -/
theorem tokens_comment (phase : Phase) {blanks comment rest : List Char}
    (hblanks : ∀ c ∈ blanks, isBlank c = true) (hcomment : '\n' ∉ comment)
    (hrest : AtLineEnd rest) (place : Location) (blocks : List Nat) :
    tokens ⟨phase, place, blocks, blanks ++ '#' :: (comment ++ rest)⟩ =
      tokens ⟨phase, place.afterAll (blanks ++ '#' :: comment), blocks, rest⟩ := by
  cases phase with
  | start => rw [(Step.commentLine hblanks hcomment hrest).tokens_eq, prepend_nil]
  | inside parens lineOpen =>
    rw [tokens_blanks hblanks, (Step.comment hcomment hrest).tokens_eq, prepend_nil,
      Location.afterAll_append]

/-- Where a new line may start, a line without tokens is passed over. -/
theorem tokens_emptyLine {phase : Phase} (hphase : phase.Resumes) {line : List Char}
    (hline : IsEmptyLine line) (place : Location) (blocks : List Nat) (rest : List Char) :
    tokens ⟨phase, place, blocks, line ++ rest⟩ =
      tokens ⟨phase, place.afterAll line, blocks, rest⟩ := by
  cases hline with
  | blank hblanks =>
    rw [List.append_assoc]
    exact tokens_lineBreak hphase hblanks place blocks rest
  | @comment blanks comment hblanks hcomment =>
    have hend : AtLineEnd ('\n' :: rest) := fun c hc => (Option.some.inj hc).symm
    have hsplit : blanks ++ '#' :: (comment ++ ['\n']) = blanks ++ '#' :: comment ++ ['\n'] := by
      simp
    have hbreak := tokens_lineBreak hphase (List.forall_mem_nil _)
      (place.afterAll (blanks ++ '#' :: comment)) blocks rest
    calc tokens ⟨phase, place, blocks, blanks ++ '#' :: (comment ++ ['\n']) ++ rest⟩
      _ = tokens ⟨phase, place, blocks, blanks ++ '#' :: (comment ++ '\n' :: rest)⟩ := by simp
      _ = tokens ⟨phase, place.afterAll (blanks ++ '#' :: comment), blocks, '\n' :: rest⟩ :=
        tokens_comment phase hblanks hcomment hend place blocks
      _ = _ := by
        rw [hsplit, Location.afterAll_append _ _ ['\n']]
        exact hbreak

end Scanner

/-- The text after some whole lines starts in the first column. -/
theorem afterAll_lines {before : List Char} (h : before = [] ∨ EndsLine before) :
    Location.origin.afterAll before = ⟨before.count '\n' + 1, 1⟩ := by
  rcases h with rfl | ⟨⟨lines, rfl⟩, _⟩
  · rfl
  · rw [Location.afterAll_break, Location.line_afterAll, List.count_append]
    simp [Location.origin, Nat.add_comm]

/-- A line without tokens leads to the line after it. -/
theorem IsEmptyLine.afterAll {line : List Char} (h : IsEmptyLine line) (place : Location) :
    place.afterAll line = ⟨place.line + 1, 1⟩ := by
  have hbody : ∃ body, '\n' ∉ body ∧ line = body ++ ['\n'] := by
    cases h with
    | @blank blanks hblanks => exact ⟨blanks, break_not_mem hblanks, rfl⟩
    | @comment blanks comment hblanks hcomment =>
      exact ⟨blanks ++ '#' :: comment, by simp [break_not_mem hblanks, hcomment], by simp⟩
  obtain ⟨body, hnone, rfl⟩ := hbody
  rw [Location.afterAll_break, Location.line_afterAll, List.count_eq_zero_of_not_mem hnone]

/-- A line that is blank or holds nothing but a comment is invisible, wherever it stands: between
statements, in a block or inside parentheses. The text with the line has the tokens of the text
without it, or fails for the same reason; what stands before the line stays at its place, and
what stands after it is found one line further down in the same column. -/
theorem empty_line_invisible {before line after : String}
    (hbefore : before.toList = [] ∨ EndsLine before.toList) (hline : IsEmptyLine line.toList) :
    scan (before ++ line ++ after) =
      relocated (Location.lowered (before.toList.count '\n' + 1)) (scan (before ++ after)) := by
  let first := before.toList.count '\n' + 1
  let start : Scanner := ⟨.start, .origin, [], before.toList⟩
  have hscan : ∀ rest : String, scan (before ++ rest) = (start.followedBy rest.toList).tokens := by
    intro rest
    rw [scan, String.toList_append]
    rfl
  have hplace : start.place.afterAll start.text = ⟨first, 1⟩ := afterAll_lines hbefore
  have hready : start.text = [] ∧ start.phase.Resumes ∨ EndsLine start.text :=
    hbefore.imp_left fun hnone => ⟨hnone, trivial⟩
  rw [String.append_assoc, hscan, hscan, String.toList_append]
  rcases start.tokens_followedBy hready with
    ⟨e, he, herror⟩ | ⟨own, phase, blocks, hphase, hown, hrest⟩
  · rw [hplace] at he
    rw [herror, herror, relocated_error, Location.lowered_of_lt he]
  · rw [hplace] at hown hrest
    have hstay : own.map (moved (Location.lowered first)) = own := map_moved_above hown
    have hlower : Tracks (Location.lowered first) ⟨first, 1⟩ ⟨first + 1, 1⟩ :=
      tracks_lowered (Nat.le_refl first)
    have hmoved := Scanner.tokens_movedTo ⟨phase, ⟨first, 1⟩, blocks, after.toList⟩ hlower
    rw [hrest, hrest, Scanner.tokens_emptyLine hphase hline, hline.afterAll, relocated_prepend,
      hstay, ← hmoved]
    rfl

/-- A comment with parentheses of its own between the arguments of a call in a block. -/
theorem empty_line_invisible_in_call :
    EndsLine "if a:\n  f(a,\n".toList ∧ IsEmptyLine " \t# b)\r\n".toList ∧
      scan ("if a:\n  f(a,\n" ++ " \t# b)\r\n" ++ "b)\n") =
        relocated (Location.lowered 3) (scan ("if a:\n  f(a,\n" ++ "b)\n")) ∧
      (scan ("if a:\n  f(a,\n" ++ "b)\n")).toOption.map (fun ts => ts.map (·.location.line)) =
        some [1, 1, 1, 1, 2, 2, 2, 2, 2, 3, 3, 3, 4, 4] := by
  have hbefore : EndsLine "if a:\n  f(a,\n".toList := ⟨by decide, by decide⟩
  have hline : IsEmptyLine ([' ', '\t'] ++ '#' :: ([' ', 'b', ')', '\r'] ++ ['\n'])) :=
    .comment (by simp [isBlank]) (by decide)
  exact ⟨hbefore, hline, empty_line_invisible (.inr hbefore) hline, by decide +kernel⟩

end Lexeme

end Walkthrough
