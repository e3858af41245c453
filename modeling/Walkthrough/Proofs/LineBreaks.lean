import Walkthrough.Proofs.BlankLines
import Walkthrough.Proofs.Spelling

/-!
# Line breaks of two characters

A line may end with a carriage return and a line feed. The scanner takes the carriage return for
a blank, so a text with such line breaks has the tokens that it has with plain ones, at other
places. There is one exception: a backslash continues its line only if the line feed comes right
after it. Where a line is continued, the carriage return stands between the two, and the
backslash is a character that starts no token.
-/

namespace Walkthrough

namespace Lexeme

/-- The text with a carriage return before each line feed. -/
def withReturns (text : List Char) : List Char :=
  text.flatMap fun c => if c = '\n' then ['\r', '\n'] else [c]

@[simp] theorem withReturns_nil : withReturns [] = [] := rfl

@[simp] theorem withReturns_break (rest : List Char) :
    withReturns ('\n' :: rest) = '\r' :: '\n' :: withReturns rest := rfl

theorem withReturns_cons {c : Char} (hc : c ≠ '\n') (rest : List Char) :
    withReturns (c :: rest) = c :: withReturns rest := by
  simp [withReturns, hc]

/-- Inside a line nothing changes. -/
theorem withReturns_line {line : List Char} (h : '\n' ∉ line) (rest : List Char) :
    withReturns (line ++ rest) = line ++ withReturns rest := by
  induction line with
  | nil => rfl
  | cons c cs ih =>
    obtain ⟨hc, hcs⟩ := List.ne_and_not_mem_of_not_mem_cons h
    rw [List.cons_append, withReturns_cons hc.symm, ih hcs, List.cons_append]

/-- No line feed comes first. -/
theorem head_withReturns (text : List Char) : (withReturns text).head? ≠ some '\n' := by
  cases text with
  | nil => simp
  | cons c cs =>
    by_cases hc : c = '\n'
    · subst hc
      simp
    · simp [withReturns_cons hc, hc]

/-- With carriage returns no line is continued. -/
theorem not_isContinuation_withReturns (c : Char) (rest : List Char) :
    ¬ IsContinuation c (withReturns rest) := fun h => head_withReturns rest h.2

/-- Some line is continued after a backslash at its end. In a comment a backslash means
nothing. -/
def continues (inComment : Bool) : List Char → Bool
  | [] => false
  | c :: rest =>
    (!inComment && c == '\\' && rest.head? == some '\n') ||
      continues (c != '\n' && (inComment || c == '#')) rest

@[simp] theorem continues_continuation (rest : List Char) :
    continues false ('\\' :: '\n' :: rest) = true := by
  simp [continues]

/-- Characters that neither continue a line nor start a comment do not matter. -/
theorem continues_append {passed : List Char} (h : ∀ c ∈ passed, c ≠ '\\' ∧ c ≠ '#')
    (rest : List Char) : continues false (passed ++ rest) = continues false rest := by
  induction passed with
  | nil => rfl
  | cons c cs ih =>
    obtain ⟨⟨hslash, hcomment⟩, hcs⟩ := List.forall_mem_cons.mp h
    have hno : (c == '\\') = false ∧ (c == '#') = false := by simp [hslash, hcomment]
    simp [continues, hno, ih hcs]

/-- A comment does not matter either. -/
theorem continues_comment {comment rest : List Char} (hcomment : '\n' ∉ comment)
    (hrest : AtLineEnd rest) :
    continues false ('#' :: (comment ++ rest)) = continues false rest := by
  have hend : continues true rest = continues false rest := by
    cases rest with
    | nil => rfl
    | cons c cs =>
      cases hrest c rfl
      simp [continues]
  have hinside : continues true (comment ++ rest) = continues true rest := by
    induction comment with
    | nil => rfl
    | cons c cs ih =>
      obtain ⟨hc, hcs⟩ := List.ne_and_not_mem_of_not_mem_cons hcomment
      have hno : (c != '\n') = true := by simp [hc.symm]
      simp [continues, hno, ih hcs]
  rw [← hend, ← hinside]
  simp [continues]

end Lexeme

namespace Token

open Lexeme (withReturns withReturns_line isPlain)

/-- A mark is spelled without blanks, comments and backslashes. -/
theorem plain_symbol (mark : Symbol) : ∀ c ∈ mark.text.toList, isPlain c = true :=
  List.all_eq_true.mp (by cases mark <;> decide)

/-- So is a number. -/
theorem plain_numberTail (pointed : Bool) (text : List Char) :
    ∀ c ∈ (numberTail pointed text).1, isPlain c = true := by
  have hmarks : isPlain '_' = true ∧ isPlain '.' = true ∧ isPlain 'e' = true ∧
      isPlain 'E' = true ∧ isPlain '+' = true ∧ isPlain '-' = true := by decide
  fun_induction numberTail pointed text <;> grind [isPlain_of_isDigit]

/-- And so is every token. -/
theorem plain_of_read {c : Char} {rest : List Char} {r : Reading} (h : read c rest = .ok r) :
    ∀ d ∈ r.spelling, isPlain d = true := by
  unfold read at h
  split at h
  · next hstarts =>
    obtain ⟨token, _, rfl⟩ := except_map_ok.mp h
    have hc : isPlain c = true := by
      rcases Bool.or_eq_true_iff.mp hstarts with hdigit | hpoint
      · exact isPlain_of_isDigit hdigit
      · cases eq_of_beq (Bool.and_eq_true_iff.mp hpoint).1
        decide
    exact List.forall_mem_cons.mpr ⟨hc, plain_numberTail _ rest⟩
  · split at h
    · next hstarts =>
      cases h
      refine List.forall_mem_cons.mpr ⟨isPlain_of_startsName hstarts, fun d hd => ?_⟩
      exact isPlain_of_continuesName (List.mem_takeWhile_imp hd)
    · split at h
      · cases h
      · split at h
        · next mark hmark =>
          cases h
          obtain ⟨after, hafter⟩ := symbolAt?_spelled hmark
          rw [hafter, ← String.length_toList, List.take_left]
          exact plain_symbol mark
        · cases h

/-- A token is read in the same way where carriage returns are put in. -/
theorem read_withReturns (c : Char) (rest : List Char) :
    read c (withReturns rest) =
      (read c rest).map fun r => { r with rest := withReturns r.rest } := by
  obtain ⟨line, tail, rfl, hline, htail⟩ := Lexeme.Scanner.exists_comment rest
  have hhalts : Halts tail := fun d hd => .inl (htail d hd)
  have hreturns : Halts (withReturns tail) := by
    cases tail with
    | nil => exact nofun
    | cons d ds =>
      cases htail d rfl
      exact fun d hd => .inr (Option.some.inj hd).symm
  rw [withReturns_line hline, read_append_halts hhalts, read_append_halts hreturns]
  cases hread : read c line with
  | error fault => rfl
  | ok r =>
    obtain ⟨_, cs, _, hsplit⟩ := read_ok hread
    have hrest : '\n' ∉ r.rest := by
      rw [← hsplit] at hline
      exact fun hmem => hline (List.mem_append_right cs hmem)
    simp only [Except.map, Reading.before, withReturns_line hrest]

end Token

namespace Lexeme

/-- What the scanner finds, wherever it finds it: tokens, or a fault. -/
def outcome (result : Except SyntaxError (List Lexeme)) : Except SyntaxFault (List Token) :=
  match result with
  | .ok ts => .ok (ts.map (·.token))
  | .error e => .error e.fault

@[simp] theorem outcome_ok (ts : List Lexeme) : outcome (.ok ts) = .ok (ts.map (·.token)) := rfl

@[simp] theorem outcome_error (e : SyntaxError) : outcome (.error e) = .error e.fault := rfl

theorem outcome_prepend (ts : List Lexeme) (result : Except SyntaxError (List Lexeme)) :
    outcome (prepend ts result) = (outcome result).map (ts.map (·.token) ++ ·) := by
  cases result with
  | error e => rfl
  | ok others => simp [Except.map]

@[simp] theorem map_token_moved (move : Location → Location) (ts : List Lexeme) :
    (ts.map (moved move)).map (·.token) = ts.map (·.token) := by
  simp [moved]

/-- The tokens at the end of a text are the same wherever it ends. -/
theorem map_token_closing (place other : Location) (blocks : List Nat) (lineOpen : Bool) :
    (closing place blocks lineOpen).map (·.token) =
      (closing other blocks lineOpen).map (·.token) := by
  rw [← map_moved_closing (fun _ => place) other, map_token_moved]

/-- Blanks do not continue a line. -/
theorem continues_blanks {blanks : List Char} (hblanks : ∀ c ∈ blanks, isBlank c = true)
    (rest : List Char) : continues false (blanks ++ rest) = continues false rest := by
  refine continues_append (fun c hc => ?_) rest
  have hblank := hblanks c hc
  constructor <;> rintro rfl <;> cases hblank

namespace Scanner

variable {s s' : Scanner} {ts : List Lexeme}

/-- The scanner at the same point of the text with carriage returns. -/
def returned (s : Scanner) (place : Location) : Scanner :=
  ⟨s.phase, place, s.blocks, withReturns s.text⟩

/-- The scanner has come to a backslash that continues its line. -/
def AtContinuation (s : Scanner) : Prop :=
  s.phase ≠ .start ∧ ∃ rest, s.text = '\\' :: '\n' :: rest

/-- A carriage return before a line feed is passed over. -/
theorem tokens_return (phase : Phase) (place : Location) (blocks : List Nat) (rest : List Char) :
    tokens ⟨phase, place, blocks, '\r' :: '\n' :: rest⟩ =
      tokens ⟨phase, place.after '\r', blocks, '\n' :: rest⟩ := by
  cases phase with
  | start =>
    have hreturn : Step ⟨.start, place, blocks, ['\r'] ++ '\n' :: rest⟩ [] _ :=
      .emptyLine (List.forall_mem_singleton.mpr rfl)
    have hbreak : Step ⟨.start, place.after '\r', blocks, [] ++ '\n' :: rest⟩ [] _ :=
      .emptyLine (List.forall_mem_nil _)
    exact hreturn.tokens_eq.trans hbreak.tokens_eq.symm
  | inside parens lineOpen =>
    have hreturn : Step ⟨.inside parens lineOpen, place, blocks, '\r' :: '\n' :: rest⟩ [] _ :=
      .blank rfl
    rw [hreturn.tokens_eq, prepend_nil]

/-- A comment is passed over, up to the carriage return at the end of its line. -/
theorem tokens_comment_returned (phase : Phase) {blanks comment rest : List Char}
    (hblanks : ∀ c ∈ blanks, isBlank c = true) (hcomment : '\n' ∉ comment)
    (hrest : AtLineEnd rest) (place : Location) (blocks : List Nat) :
    tokens ⟨phase, place, blocks, withReturns (blanks ++ '#' :: (comment ++ rest))⟩ =
      tokens ⟨phase, place.afterAll (blanks ++ '#' :: comment), blocks, withReturns rest⟩ := by
  rw [withReturns_line (break_not_mem hblanks), withReturns_cons (by decide),
    withReturns_line hcomment]
  cases rest with
  | nil => exact tokens_comment phase hblanks hcomment hrest place blocks
  | cons c cs =>
    cases hrest c rfl
    have hlonger : '\n' ∉ comment ++ ['\r'] := by simpa using hcomment
    have hend : AtLineEnd ('\n' :: withReturns cs) := fun c hc => (Option.some.inj hc).symm
    have hpass := tokens_comment phase hblanks hlonger hend place blocks
    rw [withReturns_break, tokens_return]
    simpa [Location.afterAll_append] using hpass

/-- A scanner that has come to its end comes to it with carriage returns as well. -/
theorem Ends.returned {result : Except SyntaxError (List Lexeme)} (h : Ends s result)
    (place : Location) :
    ∃ found, Ends (s.returned place) found ∧ outcome found = outcome result := by
  unfold Scanner.returned
  cases h with
  | @blank _ blocks blanks hblanks =>
    have htext : withReturns blanks = blanks := by
      simpa using withReturns_line (break_not_mem hblanks) []
    rw [htext]
    exact ⟨_, .blank hblanks, congrArg Except.ok (map_token_closing ..)⟩
  | @unindent first blocks blanks rest c e hblanks hsolid hlayout =>
    have hmoved := layout_moved (fun _ => place.afterAll blanks) (first.afterAll blanks)
      (indentWidth blanks) blocks
    rw [hlayout] at hmoved
    rw [withReturns_line (break_not_mem hblanks), withReturns_cons (isSolid_iff.mp hsolid).2.2]
    exact ⟨_, .unindent hblanks hsolid hmoved, rfl⟩
  | finished => exact ⟨_, .finished, congrArg Except.ok (map_token_closing ..)⟩
  | @unreadable parens lineOpen _ blocks c rest fault hsolid _ hread =>
    have hends := not_isContinuation_withReturns c rest
    have hreturns := Token.read_withReturns c rest
    rw [hread] at hreturns
    rw [withReturns_cons (isSolid_iff.mp hsolid).2.2]
    exact ⟨_, .unreadable hsolid hends hreturns, rfl⟩

/-- Where a scanner ends with tokens, no line is continued. -/
theorem Ends.continues_eq (h : Ends s (.ok ts)) : continues false s.text = false := by
  cases h with
  | @blank _ _ blanks hblanks =>
    have hnone := continues_blanks hblanks []
    rwa [List.append_nil] at hnone
  | finished => rfl

/-- The lines that are continued after a step are those that were before it. -/
theorem Step.continues_eq (h : Step s ts s') :
    s.AtContinuation ∨ continues false s.text = continues false s'.text := by
  cases h with
  | emptyLine hblanks => exact .inr ((continues_blanks hblanks _).trans (by simp [continues]))
  | commentLine hblanks hcomment hrest =>
    exact .inr ((continues_blanks hblanks _).trans (continues_comment hcomment hrest))
  | indentation hblanks _ _ => exact .inr (continues_blanks hblanks _)
  | @blank _ _ _ _ c rest hblank =>
    have hblanks : ∀ d ∈ [c], isBlank d = true := by simpa using hblank
    exact .inr (continues_blanks hblanks rest)
  | comment hcomment hrest => exact .inr (continues_comment hcomment hrest)
  | lineBreak => exact .inr (by simp [continues])
  | innerBreak _ => exact .inr (by simp [continues])
  | continuation => exact .inl ⟨nofun, _, rfl⟩
  | @token _ _ _ _ c rest reading _ _ hread =>
    obtain ⟨_, cs, hspelling, rfl⟩ := Token.read_ok hread
    have hplain : ∀ d ∈ c :: cs, d ≠ '\\' ∧ d ≠ '#' := by
      rw [← hspelling]
      intro d hd
      have hd := Token.plain_of_read hread d hd
      simp only [isPlain, Bool.and_eq_true, bne_iff_ne, ne_eq] at hd
      exact ⟨hd.2, hd.1.1.2⟩
    exact .inr (continues_append hplain reading.rest)

/-- A step that is not over the end of a continued line is made with carriage returns as well. -/
theorem Step.returned (h : Step s ts s') (place : Location) :
    s.AtContinuation ∨ ∃ found place', found.map (·.token) = ts.map (·.token) ∧
      (s.returned place).tokens = prepend found (s'.returned place').tokens := by
  unfold Scanner.returned
  cases h with
  | @emptyLine _ blocks blanks rest hblanks =>
    have hreturn : ∀ c ∈ blanks ++ ['\r'], isBlank c = true :=
      List.forall_mem_append.mpr ⟨hblanks, List.forall_mem_singleton.mpr rfl⟩
    have hstep : Step ⟨.start, place, blocks, blanks ++ ['\r'] ++ '\n' :: withReturns rest⟩ [] _ :=
      .emptyLine hreturn
    rw [withReturns_line (break_not_mem hblanks), withReturns_break]
    rw [List.append_assoc] at hstep
    exact .inr ⟨[], _, rfl, hstep.tokens_eq⟩
  | @commentLine _ _ blanks comment _ hblanks hcomment hrest =>
    refine .inr ⟨[], place.afterAll (blanks ++ '#' :: comment), rfl, ?_⟩
    rw [tokens_comment_returned _ hblanks hcomment hrest, prepend_nil]
  | @indentation first blocks _ blanks _ _ _ hblanks hsolid hlayout =>
    have hmoved := layout_moved (fun _ => place.afterAll blanks) (first.afterAll blanks)
      (indentWidth blanks) blocks
    rw [hlayout] at hmoved
    rw [withReturns_line (break_not_mem hblanks), withReturns_cons (isSolid_iff.mp hsolid).2.2]
    exact .inr ⟨ts.map (moved fun _ => place.afterAll blanks), place.afterAll blanks,
      map_token_moved _ ts, (Step.indentation hblanks hsolid hmoved).tokens_eq⟩
  | blank hblank =>
    rw [withReturns_cons (by rintro rfl; cases hblank)]
    exact .inr ⟨[], _, rfl, (Step.blank hblank).tokens_eq⟩
  | @comment parens lineOpen _ blocks comment _ hcomment hrest =>
    have hpass := tokens_comment_returned (.inside parens lineOpen) (List.forall_mem_nil _)
      hcomment hrest place blocks
    exact .inr ⟨[], place.afterAll ('#' :: comment), rfl, hpass.trans (prepend_nil _).symm⟩
  | @lineBreak lineOpen _ _ _ =>
    rw [withReturns_break, tokens_return]
    refine .inr ⟨_, _, ?_, Step.lineBreak.tokens_eq⟩
    cases lineOpen <;> rfl
  | innerBreak hparens =>
    rw [withReturns_break, tokens_return]
    exact .inr ⟨[], _, rfl, (Step.innerBreak hparens).tokens_eq⟩
  | continuation => exact .inl ⟨nofun, _, rfl⟩
  | @token _ _ _ _ c rest reading hsolid _ hread =>
    have hends := not_isContinuation_withReturns c rest
    have hreturns := Token.read_withReturns c rest
    rw [hread] at hreturns
    rw [withReturns_cons (isSolid_iff.mp hsolid).2.2]
    exact .inr ⟨[⟨reading.token, place⟩], place.afterAll reading.spelling, rfl,
      (Step.token hsolid hends hreturns).tokens_eq⟩

/-- With a carriage return behind it, a backslash at the end of a line starts no token. -/
theorem AtContinuation.returned (h : s.AtContinuation) (place : Location) :
    (s.returned place).tokens = .error ⟨.unexpectedCharacter '\\', place⟩ := by
  obtain ⟨phase, _, blocks, text⟩ := s
  obtain ⟨hphase, rest, rfl⟩ := h
  cases phase with
  | start => cases hphase rfl
  | inside parens lineOpen => exact (Ends.unreadable rfl (by simp [IsContinuation]) rfl).tokens_eq

/-- Up to places, carriage returns change nothing where no line is continued. Where one is, they
leave a backslash that starts no token. -/
theorem outcome_returned (s : Scanner) (place : Location) :
    (continues false s.text = false → outcome (s.returned place).tokens = outcome s.tokens) ∧
      (continues false s.text = true → ∀ ts, s.tokens = .ok ts →
        outcome (s.returned place).tokens = .error (.unexpectedCharacter '\\')) := by
  induction s using Scanner.induction generalizing place with
  | ends s result h =>
    obtain ⟨found, hfound, houtcome⟩ := h.returned place
    refine ⟨fun _ => by rw [hfound.tokens_eq, h.tokens_eq, houtcome], fun hcont ts hts => ?_⟩
    rw [h.tokens_eq] at hts
    subst hts
    rw [h.continues_eq] at hcont
    cases hcont
  | step s ts s' h ih =>
    by_cases hhere : s.AtContinuation
    · refine ⟨fun hnone => ?_, fun _ _ _ => by rw [hhere.returned place, outcome_error]⟩
      obtain ⟨_, rest, htext⟩ := hhere
      rw [htext, continues_continuation] at hnone
      cases hnone
    · obtain ⟨found, place', hmarks, hstep⟩ := (h.returned place).resolve_left hhere
      rw [h.continues_eq.resolve_left hhere, hstep, h.tokens_eq, outcome_prepend, outcome_prepend,
        hmarks]
      refine ⟨fun hnone => by rw [(ih place').1 hnone], fun hsome all hall => ?_⟩
      cases hleft : s'.tokens with
      | error e =>
        rw [hleft] at hall
        cases hall
      | ok others =>
        rw [(ih place').2 hsome others hleft]
        rfl

end Scanner

/-- A text with carriage returns before its line feeds has the tokens of the text without them,
or fails for the same reason, if no line is continued after a backslash. If one is, the tokens
are lost: the scanner stops at a backslash. -/
theorem scan_withReturns (source : String) :
    (continues false source.toList = false →
      outcome (scan (String.ofList (withReturns source.toList))) = outcome (scan source)) ∧
    (continues false source.toList = true → ∀ ts, scan source = .ok ts →
      outcome (scan (String.ofList (withReturns source.toList))) =
        .error (.unexpectedCharacter '\\')) := by
  have hrun := Scanner.outcome_returned ⟨.start, .origin, [], source.toList⟩ .origin
  rw [scan, String.toList_ofList]
  exact hrun

/-- A call in a block, over two lines that the parentheses hold together, with a backslash in
a comment. -/
theorem scan_withReturns_call :
    outcome (scan "if a:\r\n  f(a, # \\\r\n b)\r\n") = outcome (scan "if a:\n  f(a, # \\\n b)\n") ∧
      (outcome (scan "if a:\n  f(a, # \\\n b)\n")).toOption.map List.length = some 14 :=
  ⟨(scan_withReturns "if a:\n  f(a, # \\\n b)\n").1 (by decide +kernel), by decide +kernel⟩

/-- A continued line has tokens with plain line breaks and none with carriage returns. -/
theorem returns_break_continuation :
    outcome (scan "x = 1 + \\\n2\n") =
        .ok [.name "x", .symbol .assign, .int 1, .symbol .plus, .int 2, .newline, .endOfFile] ∧
      scan "x = 1 + \\\r\n2\r\n" = .error ⟨.unexpectedCharacter '\\', ⟨1, 9⟩⟩ := by
  decide +kernel

end Lexeme

end Walkthrough
