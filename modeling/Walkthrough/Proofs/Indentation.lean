import Walkthrough.Proofs.Blocks
import Walkthrough.Proofs.RoundTrip

/-!
# Layout tokens mirror the indentation

The widths of the open blocks are a stack that grows by one where a line is indented further, and
shrinks by some where a line stands under an earlier one. The tokens for indentations and for the
ends of blocks record this, so they pair up like brackets, and at any time there are as many of
the first more than of the second as there are open blocks. Lines inside parentheses and after a
backslash belong to the line before them and leave the stack as it is.
-/

namespace Walkthrough

namespace Lexeme

/-- How often a token occurs. -/
def occurrences (token : Token) (ts : List Lexeme) : Nat := (ts.map Lexeme.token).count token

theorem occurrences_cons (token : Token) (t : Lexeme) (ts : List Lexeme) :
    occurrences token (t :: ts) = occurrences token ts + if t.token = token then 1 else 0 := by
  simp [occurrences, List.count_cons]

/-- The number of open blocks after a token. No block ends where none is open. -/
def levelAfter (level : Nat) (t : Lexeme) : Option Nat :=
  match t.token with
  | .indent => some (level + 1)
  | .dedent => if level = 0 then none else some (level - 1)
  | _ => some level

/-- The number of open blocks after some tokens. -/
def levelsAfter (level : Nat) (ts : List Lexeme) : Option Nat := ts.foldlM levelAfter level

theorem levelsAfter_cons (level : Nat) (t : Lexeme) (ts : List Lexeme) :
    levelsAfter level (t :: ts) = (levelAfter level t).bind (levelsAfter · ts) := rfl

theorem levelsAfter_append (level : Nat) (ts us : List Lexeme) :
    levelsAfter level (ts ++ us) = (levelsAfter level ts).bind (levelsAfter · us) :=
  List.foldlM_append

/-- One token changes the number of open blocks by what it counts. -/
theorem levelAfter_some {level level' : Nat} {t : Lexeme} (h : levelAfter level t = some level') :
    level + (if t.token = .indent then 1 else 0) =
      level' + (if t.token = .dedent then 1 else 0) := by
  unfold levelAfter at h
  split at h
  · next hindent =>
    cases h
    simp [hindent]
  · next hdedent =>
    split at h
    · cases h
    · cases h
      simp [hdedent]
      omega
  · next hindent hdedent =>
    cases h
    rw [if_neg hindent, if_neg hdedent]

/-- The blocks that are open after some tokens are those that were open before and those that
were opened and have not ended. -/
theorem occurrences_of_levelsAfter {level level' : Nat} {ts : List Lexeme}
    (h : levelsAfter level ts = some level') :
    level + occurrences .indent ts = level' + occurrences .dedent ts := by
  induction ts generalizing level with
  | nil =>
    cases h
    rfl
  | cons t ts ih =>
    rw [levelsAfter_cons, Option.bind_eq_some_iff] at h
    obtain ⟨next, hnext, hrest⟩ := h
    have hstep := levelAfter_some hnext
    have hothers := ih hrest
    rw [occurrences_cons, occurrences_cons]
    omega

/-- Tokens that are no layout of blocks leave the open blocks as they are. -/
theorem levelsAfter_others {ts : List Lexeme}
    (h : ∀ t ∈ ts, t.token ≠ .indent ∧ t.token ≠ .dedent) (level : Nat) :
    levelsAfter level ts = some level := by
  induction ts with
  | nil => rfl
  | cons t ts ih =>
    obtain ⟨ht, hts⟩ := List.forall_mem_cons.mp h
    have hlevel : levelAfter level t = some level := by
      unfold levelAfter
      split
      · next hindent => exact absurd hindent ht.1
      · next hdedent => exact absurd hdedent ht.2
      · rfl
    rw [levelsAfter_cons, hlevel, Option.bind_some, ih hts]

/-- As many blocks can end as are open. -/
theorem levelsAfter_dedents (place : Location) (level count : Nat) :
    levelsAfter (level + count) (List.replicate count ⟨.dedent, place⟩) = some level := by
  induction count with
  | zero => rfl
  | succ count ih =>
    have hlevel : levelAfter (level + (count + 1)) ⟨.dedent, place⟩ = some (level + count) := by
      simp [levelAfter]
    rw [List.replicate_succ, levelsAfter_cons, hlevel, Option.bind_some, ih]

/-- At the end of a text all open blocks end. -/
theorem levelsAfter_closing (place : Location) (blocks : List Nat) (lineOpen : Bool) :
    levelsAfter blocks.length (closing place blocks lineOpen) = some 0 := by
  have hline : levelsAfter blocks.length (if lineOpen then [⟨.newline, place⟩] else []) =
      some blocks.length := by
    cases lineOpen <;> rfl
  have hblocks := levelsAfter_dedents place 0 blocks.length
  rw [Nat.zero_add] at hblocks
  rw [closing, levelsAfter_append, hline, Option.bind_some, levelsAfter_append, hblocks]
  rfl

/-- The widths of open blocks, from the innermost to the one around all others, which has width
zero, get smaller and smaller. -/
def Nested (blocks : List Nat) : Prop := (blocks ++ [0]).Pairwise (· > ·)

/-- The innermost block is the widest. -/
theorem Nested.le_head {blocks : List Nat} (h : Nested blocks) :
    ∀ width ∈ blocks ++ [0], width ≤ blocks.headD 0 := by
  intro width hwidth
  cases blocks with
  | nil => exact Nat.le_of_eq (List.mem_singleton.mp hwidth)
  | cons block others =>
    rcases List.mem_cons.mp hwidth with rfl | hwidth
    · exact Nat.le_refl width
    · exact Nat.le_of_lt (List.rel_of_pairwise_cons h hwidth)

/-- Some outer blocks are nested as all are. -/
theorem Nested.dropWhile {blocks : List Nat} (h : Nested blocks) (p : Nat → Bool) :
    Nested (blocks.dropWhile p) :=
  List.Pairwise.sublist ((List.dropWhile_sublist p).append_right [0]) h

theorem headD_mem (blocks : List Nat) : blocks.headD 0 ∈ blocks ++ [0] := by
  cases blocks <;> simp

/-- A line stands under an open block of its width, and then this block is the innermost that is
not wider. -/
theorem Nested.head_dropWhile {blocks : List Nat} {width : Nat} (h : Nested blocks)
    (hwidth : width ∈ blocks ++ [0]) : (blocks.dropWhile (width < ·)).headD 0 = width := by
  induction blocks with
  | nil => exact (List.mem_singleton.mp hwidth).symm
  | cons block others ih =>
    by_cases hless : width < block
    · have hothers : width ∈ others ++ [0] := by
        rcases List.mem_cons.mp hwidth with rfl | hothers
        · omega
        · exact hothers
      rw [List.dropWhile_cons_of_pos (by simpa using hless)]
      exact ih h.of_cons hothers
    · rw [List.dropWhile_cons_of_neg (by simpa using hless)]
      rcases List.mem_cons.mp hwidth with rfl | hothers
      · rfl
      · exact absurd (List.rel_of_pairwise_cons h hothers) hless

/-- What the layout before a line does: the innermost block gets the width of the line, the marks
record the change of the open blocks, and these stay nested. -/
theorem layout_ok {place : Location} {width : Nat} {blocks nested : List Nat} {marks : List Lexeme}
    (h : layout place width blocks = .ok (marks, nested)) :
    nested.headD 0 = width ∧ levelsAfter blocks.length marks = some nested.length ∧
      (Nested blocks → Nested nested) := by
  unfold layout at h
  split at h
  · next hdeeper =>
    cases h
    refine ⟨rfl, rfl, fun hblocks => List.pairwise_cons.mpr ⟨fun other hother => ?_, hblocks⟩⟩
    exact Nat.lt_of_le_of_lt (hblocks.le_head other hother) hdeeper
  · dsimp only at h
    split at h
    · next hunder =>
      cases h
      have hless : (blocks.dropWhile (width < ·)).length ≤ blocks.length :=
        (List.dropWhile_sublist _).length_le
      have hlevels := levelsAfter_dedents place (blocks.dropWhile (width < ·)).length
        (blocks.length - (blocks.dropWhile (width < ·)).length)
      rw [Nat.add_sub_cancel' hless] at hlevels
      exact ⟨hunder, hlevels, fun hblocks => hblocks.dropWhile _⟩
    · cases h

/-- There is no layout before a line exactly if it is less wide than its block and as wide as none
around it. -/
theorem layout_error {place : Location} {width : Nat} {blocks : List Nat} (hblocks : Nested blocks)
    {e : SyntaxError} :
    layout place width blocks = .error e ↔
      e = ⟨.unmatchedUnindent, place⟩ ∧ width < blocks.headD 0 ∧ width ∉ blocks ++ [0] := by
  unfold layout
  split
  · next hdeeper =>
    refine ⟨nofun, ?_⟩
    rintro ⟨-, hless, -⟩
    omega
  · next hnot =>
    dsimp only
    split
    · next hunder =>
      refine ⟨nofun, ?_⟩
      rintro ⟨-, -, hnone⟩
      refine absurd ?_ hnone
      rw [← hunder]
      exact ((List.dropWhile_sublist _).append_right [0]).subset (headD_mem _)
    · next hother =>
      have hnone : width ∉ blocks ++ [0] := fun hwidth => hother (hblocks.head_dropWhile hwidth)
      have hless : width < blocks.headD 0 := by
        have hne : width ≠ blocks.headD 0 := fun heq => hnone (heq ▸ headD_mem blocks)
        omega
      constructor
      · rintro ⟨⟩
        exact ⟨rfl, hless, hnone⟩
      · rintro ⟨rfl, -, -⟩
        rfl

/-- The width of blanks counts one for a space and four for a tab. -/
theorem indentWidth_eq (blanks : List Char) :
    indentWidth blanks = blanks.count ' ' + 4 * blanks.count '\t' := by
  induction blanks with
  | nil => rfl
  | cons c cs ih =>
    have hcons : indentWidth (c :: cs) = blankWidth c + indentWidth cs := rfl
    rw [hcons, ih, List.count_cons, List.count_cons, blankWidth]
    by_cases hspace : c = ' '
    · subst hspace
      simp
      omega
    · by_cases htab : c = '\t'
      · subst htab
        simp
        omega
      · simp [hspace, htab]

theorem isBlank_iff {c : Char} : isBlank c = true ↔ c ∈ [' ', '\t', '\r'] := by
  simp [isBlank, or_assoc]

theorem isSolid_iff_not_mem {c : Char} :
    isSolid c = true ↔ c ∉ [' ', '\t', '\r', '\n', '#'] := by
  simp only [isSolid_iff, ← Bool.not_eq_true, isBlank_iff, List.mem_cons, List.not_mem_nil,
    or_false, not_or]
  tauto

namespace Scanner

variable {s s' : Scanner} {ts : List Lexeme}

/-- The widths of the open blocks from the outermost, which has width zero, to the innermost. -/
def stack (s : Scanner) : List Nat := 0 :: s.blocks.reverse

/-- The open blocks are nested as a stack that goes up. -/
theorem pairwise_stack (h : Nested s.blocks) : s.stack.Pairwise (· < ·) := by
  have hreverse : s.stack = (s.blocks ++ [0]).reverse := by simp [stack]
  rw [hreverse, List.pairwise_reverse]
  exact h

theorem getLast?_stack (s : Scanner) : s.stack.getLast? = some (s.blocks.headD 0) := by
  rw [stack, List.getLast?_cons, List.getLast?_reverse, List.headD_eq_head?_getD]

/-- A step changes the open blocks as its tokens tell, and keeps them nested. -/
theorem Step.levels (h : Step s ts s') :
    levelsAfter s.blocks.length ts = some s'.blocks.length ∧
      (Nested s.blocks → Nested s'.blocks) := by
  cases h with
  | indentation _ _ hlayout => exact (layout_ok hlayout).2
  | @lineBreak lineOpen _ _ _ =>
    refine ⟨levelsAfter_others ?_ _, id⟩
    cases lineOpen <;> simp
  | @token _ _ _ _ _ _ reading _ _ hread =>
    obtain ⟨hindent, hdedent, _⟩ := Token.ne_of_isWritten (Token.read_ok hread).1
    refine ⟨levelsAfter_others (fun t ht => ?_) _, id⟩
    rw [List.mem_singleton.mp ht]
    exact ⟨hindent, hdedent⟩
  | _ => exact ⟨rfl, id⟩

/-- Inside a line the open blocks stay the same. -/
theorem Step.blocks_eq (h : Step s ts s') (hphase : s.phase ≠ .start) : s'.blocks = s.blocks := by
  cases h with
  | emptyLine _ => exact absurd rfl hphase
  | commentLine _ _ _ => exact absurd rfl hphase
  | indentation _ _ _ => exact absurd rfl hphase
  | _ => rfl

/-- The tokens of a text that is left end the open blocks. -/
theorem levels_tokens (s : Scanner) (h : s.tokens = .ok ts) :
    levelsAfter s.blocks.length ts = some 0 := by
  induction s using Scanner.induction generalizing ts with
  | ends s result hends =>
    rw [hends.tokens_eq] at h
    subst h
    cases hends with
    | blank _ => exact levelsAfter_closing _ _ _
    | finished => exact levelsAfter_closing _ _ _
  | step s own s' hstep ih =>
    rw [hstep.tokens_eq] at h
    obtain ⟨others, hothers, rfl⟩ := except_map_ok.mp h
    rw [levelsAfter_append, hstep.levels.1, Option.bind_some, ih hothers]

/-- The scanner of a text has given some tokens and come to a state. -/
inductive Reached (source : String) : List Lexeme → Scanner → Prop where
  /-- It starts at the first line, with no open block. -/
  | start : Reached source [] ⟨.start, .origin, [], source.toList⟩
  /-- It takes a step. -/
  | step {given ts : List Lexeme} {s s' : Scanner} (hreached : Reached source given s)
    (hstep : Step s ts s') : Reached source (given ++ ts) s'

/-- The scanner is at the start of a logical line of some width that is neither blank nor a
comment and has its first character at a place. -/
def OpensLine (s : Scanner) (width : Nat) (place : Location) : Prop :=
  ∃ blanks c rest, s.phase = .start ∧ s.text = blanks ++ c :: rest ∧
    (∀ b ∈ blanks, b ∈ [' ', '\t', '\r']) ∧ c ∉ [' ', '\t', '\r', '\n', '#'] ∧
    width = blanks.count ' ' + 4 * blanks.count '\t' ∧ place = s.place.afterAll blanks

/-- The scanner of a text has given some tokens and is inside a logical line of some width: it
has come to this line and has not left it. -/
inductive Inside (source : String) (width : Nat) : List Lexeme → Scanner → Prop where
  /-- It enters the line. -/
  | enter {given marks : List Lexeme} {s s' : Scanner} {place : Location}
    (hreached : Reached source given s) (hopens : s.OpensLine width place)
    (hstep : Step s marks s') : Inside source width (given ++ marks) s'
  /-- It goes on inside the line. -/
  | go {given ts : List Lexeme} {s s' : Scanner} (hinside : Inside source width given s)
    (hstep : Step s ts s') (hphase : s'.phase ≠ .start) : Inside source width (given ++ ts) s'

variable {source : String} {width : Nat} {given : List Lexeme}

/-- The tokens of a text are those that the scanner has given and those of the text that is
left. -/
theorem Reached.scan_eq (h : Reached source given s) : scan source = prepend given s.tokens := by
  induction h with
  | start => exact (prepend_nil _).symm
  | step _ hstep ih => rw [ih, hstep.tokens_eq, prepend_append]

/-- The tokens that were given tell the number of open blocks, and these are nested. -/
theorem Reached.levels (h : Reached source given s) :
    levelsAfter 0 given = some s.blocks.length ∧ Nested s.blocks := by
  induction h with
  | start => exact ⟨rfl, List.pairwise_singleton _ _⟩
  | step _ hstep ih =>
    obtain ⟨hlevels, hnested⟩ := hstep.levels
    rw [levelsAfter_append, ih.1, Option.bind_some, hlevels]
    exact ⟨rfl, hnested ih.2⟩

/-- Blanks before another character are the same however a text is cut. -/
theorem blanks_unique {blanks blanks' rest rest' : List Char} {c c' : Char}
    (hblanks : ∀ b ∈ blanks, isBlank b = true) (hblanks' : ∀ b ∈ blanks', isBlank b = true)
    (hc : isBlank c = false) (hc' : isBlank c' = false)
    (h : blanks ++ c :: rest = blanks' ++ c' :: rest') : blanks = blanks' ∧ c = c' := by
  have hspan := span_append hblanks (show ∀ d ∈ (c :: rest).head?, isBlank d = false by simpa)
  have hspan' := span_append hblanks' (show ∀ d ∈ (c' :: rest').head?, isBlank d = false by simpa)
  rw [h] at hspan
  have hrest := hspan.2.symm.trans hspan'.2
  exact ⟨hspan.1.symm.trans hspan'.1, (List.cons.inj hrest).1⟩

/-- At the start of a line the scanner can only take the step into the line, with the marks of its
layout. -/
theorem OpensLine.enters {place : Location} (h : s.OpensLine width place) (hstep : Step s ts s') :
    layout place width s.blocks = .ok (ts, s'.blocks) ∧ s'.phase ≠ .start := by
  obtain ⟨blanks, c, rest, hphase, htext, hblanks, hc, rfl, rfl⟩ := h
  have hblanks : ∀ b ∈ blanks, isBlank b = true := fun b hb => isBlank_iff.mpr (hblanks b hb)
  obtain ⟨hblank, hcomment, hbreak⟩ := isSolid_iff.mp (isSolid_iff_not_mem.mpr hc)
  cases hstep with
  | emptyLine hblanks' =>
    exact absurd (blanks_unique hblanks hblanks' hblank rfl htext.symm).2 hbreak
  | commentLine hblanks' _ _ =>
    exact absurd (blanks_unique hblanks hblanks' hblank rfl htext.symm).2 hcomment
  | indentation hblanks' hsolid hlayout =>
    have hblank' := (isSolid_iff.mp hsolid).1
    rw [(blanks_unique hblanks hblanks' hblank hblank' htext.symm).1, ← indentWidth_eq]
    exact ⟨hlayout, nofun⟩
  | _ => cases hphase

/-- Where the scanner tells the layout of a line, a line starts. -/
theorem opensLine {place : Location} {blocks : List Nat} {blanks rest : List Char} {c : Char}
    (hblanks : ∀ c ∈ blanks, isBlank c = true) (hsolid : isSolid c = true) :
    OpensLine ⟨.start, place, blocks, blanks ++ c :: rest⟩ (indentWidth blanks)
      (place.afterAll blanks) :=
  ⟨blanks, c, rest, rfl, rfl, fun b hb => isBlank_iff.mp (hblanks b hb),
    isSolid_iff_not_mem.mp hsolid, indentWidth_eq blanks, rfl⟩

/-- Where the scanner is inside a line it was reached. -/
theorem Inside.reached (h : Inside source width given s) : Reached source given s := by
  induction h with
  | enter hreached _ hstep => exact .step hreached hstep
  | go _ hstep _ ih => exact .step ih hstep

/-- Inside a line the innermost block has the width of the line. -/
theorem Inside.head_blocks (h : Inside source width given s) :
    s.blocks.headD 0 = width ∧ s.phase ≠ .start := by
  induction h with
  | enter _ hopens hstep =>
    obtain ⟨hlayout, hphase⟩ := hopens.enters hstep
    exact ⟨(layout_ok hlayout).1, hphase⟩
  | go _ hstep hphase ih => exact ⟨hstep.blocks_eq ih.2 ▸ ih.1, hphase⟩

/-- A scanner that is not at the start of a line is inside one. -/
theorem Reached.inside (h : Reached source given s) (hphase : s.phase ≠ .start) :
    ∃ width, Inside source width given s := by
  induction h with
  | start => exact absurd rfl hphase
  | @step given ts s s' hreached hstep ih =>
    by_cases hstart : s.phase = .start
    · cases hstep with
      | emptyLine _ => exact absurd rfl hphase
      | commentLine _ _ _ => exact absurd rfl hphase
      | indentation hblanks hsolid hlayout =>
        exact ⟨_, .enter hreached (opensLine hblanks hsolid) (.indentation hblanks hsolid hlayout)⟩
      | _ => cases hstart
    · obtain ⟨width, hinside⟩ := ih hstart
      exact ⟨width, .go hinside hstep hphase⟩

/-- A token that is written in the text is given alone, inside a line. -/
theorem Step.eq_of_isWritten {t : Lexeme} (h : Step s ts s') (ht : t ∈ ts)
    (hwritten : t.token.isWritten = true) : ts = [t] ∧ s.phase ≠ .start := by
  cases h with
  | indentation _ _ hlayout =>
    rcases layout_marks hlayout with rfl | hdedent
    · cases List.mem_singleton.mp ht
      cases hwritten
    · rw [hdedent t ht] at hwritten
      cases hwritten
  | @lineBreak lineOpen _ _ _ =>
    cases lineOpen with
    | true =>
      cases List.mem_singleton.mp ht
      cases hwritten
    | false => cases ht
  | token _ _ _ =>
    cases List.mem_singleton.mp ht
    exact ⟨rfl, nofun⟩
  | _ => cases ht

/-- No token at the end of a text is written in it. -/
theorem Ends.not_isWritten {t : Lexeme} (h : Ends s (.ok ts)) (ht : t ∈ ts) :
    t.token.isWritten = false := by
  have hclosing : ∀ place blocks lineOpen, t ∈ closing place blocks lineOpen →
      t.token.isWritten = false := by
    intro place blocks lineOpen hmem
    simp only [closing, List.mem_append, List.mem_replicate, List.mem_singleton] at hmem
    rcases hmem with hline | ⟨-, rfl⟩ | rfl
    · split at hline
      · cases List.mem_singleton.mp hline
        rfl
      · cases hline
    · rfl
    · rfl
  cases h with
  | blank _ => exact hclosing _ _ _ ht
  | finished => exact hclosing _ _ _ ht

/-- Each token that is written in the text is given by the scanner in some state inside a line,
when it has given all tokens before it. -/
theorem Reached.exists_inside (hreached : Reached source given s) (htokens : s.tokens = .ok ts)
    {before after : List Lexeme} {t : Lexeme} (hts : ts = before ++ t :: after)
    (hwritten : t.token.isWritten = true) :
    ∃ width s' s'', Inside source width (given ++ before) s' ∧ Step s' [t] s'' := by
  induction s using Scanner.induction generalizing given ts before with
  | ends s result hends =>
    rw [hends.tokens_eq] at htokens
    subst htokens
    have hmem : t ∈ ts := by simp [hts]
    rw [hends.not_isWritten hmem] at hwritten
    cases hwritten
  | step s own s' hstep ih =>
    rw [hstep.tokens_eq] at htokens
    obtain ⟨others, hothers, rfl⟩ := except_map_ok.mp htokens
    -- The token is one of this step, or one of those that are left after it.
    rcases List.append_eq_append_iff.mp hts with ⟨later, rfl, hlater⟩ | ⟨first, hown, hfirst⟩
    · obtain ⟨width, found, next, hinside, hnext⟩ := ih (.step hreached hstep) hothers hlater
      rw [List.append_assoc] at hinside
      exact ⟨width, found, next, hinside, hnext⟩
    · cases first with
      | nil =>
        rw [List.append_nil] at hown
        subst hown
        have hlater : others = [] ++ t :: after := hfirst.symm
        obtain ⟨width, found, next, hinside, hnext⟩ := ih (.step hreached hstep) hothers hlater
        rw [List.append_nil] at hinside
        exact ⟨width, found, next, hinside, hnext⟩
      | cons u us =>
        obtain ⟨rfl, -⟩ := List.cons.inj hfirst
        have hmem : t ∈ own := by simp [hown]
        obtain ⟨rfl, hphase⟩ := hstep.eq_of_isWritten hmem hwritten
        have hbefore : before = [] := by
          cases before with
          | nil => rfl
          | cons b bs => simp at hown
        obtain ⟨width, hinside⟩ := hreached.inside hphase
        rw [hbefore, List.append_nil]
        exact ⟨width, s, s', hinside, hstep⟩

/-- No token that cannot be read is an indentation that does not match. -/
theorem read_ne_unmatched {c : Char} {rest : List Char} :
    Token.read c rest ≠ .error .unmatchedUnindent := by
  unfold Token.read
  split
  · dsimp only
    unfold Token.ofNumber
    dsimp only
    split
    · split <;> nofun
    · split <;> nofun
  · split
    · nofun
    · split
      · nofun
      · split <;> nofun

/-- If the rest of a text fails for an indentation that does not match, the scanner comes to a line
that is less wide than its block and as wide as none around it. -/
theorem Reached.exists_unmatched {place : Location} (hreached : Reached source given s)
    (h : s.tokens = .error ⟨.unmatchedUnindent, place⟩) :
    ∃ given' width s', Reached source given' s' ∧ s'.OpensLine width place ∧
      width < s'.blocks.headD 0 ∧ width ∉ s'.blocks ++ [0] := by
  induction s using Scanner.induction generalizing given with
  | ends s result hends =>
    rw [hends.tokens_eq] at h
    subst h
    generalize hresult : Except.error (⟨.unmatchedUnindent, place⟩ : SyntaxError) = result at hends
    cases hends with
    | blank _ => cases hresult
    | unindent hblanks hsolid hlayout =>
      cases hresult
      obtain ⟨hfault, hless, hnone⟩ := (layout_error hreached.levels.2).mp hlayout
      cases hfault
      exact ⟨given, _, _, hreached, opensLine hblanks hsolid, hless, hnone⟩
    | finished => cases hresult
    | unreadable _ _ hread =>
      cases hresult
      exact absurd hread read_ne_unmatched
  | step s own s' hstep ih =>
    rw [hstep.tokens_eq] at h
    cases hrest : s'.tokens with
    | ok others =>
      rw [hrest] at h
      cases h
    | error e =>
      rw [hrest, prepend_error] at h
      exact ih (.step hreached hstep) (hrest.trans h)

/-- At such a line the scanner stops. -/
theorem OpensLine.tokens_eq {place : Location} (h : s.OpensLine width place)
    (hblocks : Nested s.blocks) (hless : width < s.blocks.headD 0)
    (hnone : width ∉ s.blocks ++ [0]) : s.tokens = .error ⟨.unmatchedUnindent, place⟩ := by
  obtain ⟨blanks, c, rest, hphase, htext, hblanks, hc, rfl, rfl⟩ := h
  obtain ⟨phase, here, blocks, text⟩ := s
  dsimp only at hphase htext hblocks hless hnone
  subst hphase htext
  have hlayout : layout (here.afterAll blanks) (indentWidth blanks) blocks =
      .error ⟨.unmatchedUnindent, here.afterAll blanks⟩ := by
    rw [indentWidth_eq]
    exact (layout_error hblocks).mpr ⟨rfl, hless, hnone⟩
  exact (Ends.unindent (fun b hb => isBlank_iff.mpr (hblanks b hb)) (isSolid_iff_not_mem.mpr hc)
    hlayout).tokens_eq

theorem mem_stack : width ∈ s.stack ↔ width ∈ s.blocks ++ [0] := by
  simp [stack, or_comm]

end Scanner

open Scanner

/-- Layout tokens mirror the indentation. The tokens of a text end with the only one for the end of
the text; the ends of blocks pair up with indentations, and none comes before its indentation.
Each token that is written in the text is given inside a logical line. Wherever the scanner is
inside a line, the widths of the open blocks go up from zero to the width of that line, and there
is one block besides the outermost for each indentation that has not ended. The scanner stops for
an indentation that does not match exactly if it comes to a line that is less wide than the
innermost block and as wide as none. -/
theorem layout_mirrors_indentation (source : String) :
    (∀ ts, scan source = .ok ts →
      (∃ body place, ts = body ++ [⟨.endOfFile, place⟩] ∧ ∀ t ∈ body, t.token ≠ .endOfFile) ∧
      (∀ before, before <+: ts → occurrences .dedent before ≤ occurrences .indent before) ∧
      occurrences .indent ts = occurrences .dedent ts ∧
      (∀ before t after, ts = before ++ t :: after → t.token.isWritten = true →
        ∃ width s s', Inside source width before s ∧ Scanner.Step s [t] s')) ∧
    (∀ width given s, Inside source width given s →
      s.stack.Pairwise (· < ·) ∧ s.stack.head? = some 0 ∧ s.stack.getLast? = some width ∧
      occurrences .indent given = occurrences .dedent given + (s.stack.length - 1)) ∧
    (∀ place, scan source = .error ⟨.unmatchedUnindent, place⟩ ↔
      ∃ given width top s, Reached source given s ∧ s.OpensLine width place ∧
        s.stack.getLast? = some top ∧ width < top ∧ width ∉ s.stack) := by
  refine ⟨fun ts h => ?_, fun width given s hinside => ?_, fun place => ?_⟩
  · have hlevels : levelsAfter 0 ts = some 0 :=
      levels_tokens ⟨.start, .origin, [], source.toList⟩ h
    obtain ⟨body, ⟨_, place⟩, hts, rfl, hbody⟩ :=
      tokens_end ⟨.start, .origin, [], source.toList⟩ h
    refine ⟨⟨body, place, hts, hbody⟩, ?_, ?_, fun before t after hsplit hwritten => ?_⟩
    · rintro before ⟨after, rfl⟩
      rw [levelsAfter_append, Option.bind_eq_some_iff] at hlevels
      obtain ⟨level, hbefore, -⟩ := hlevels
      have hcount := occurrences_of_levelsAfter hbefore
      omega
    · have hcount := occurrences_of_levelsAfter hlevels
      omega
    · obtain ⟨width, s, s', hinside, hstep⟩ := Reached.start.exists_inside h hsplit hwritten
      exact ⟨width, s, s', hinside, hstep⟩
  · obtain ⟨hlevels, hnested⟩ := hinside.reached.levels
    have hcount := occurrences_of_levelsAfter hlevels
    refine ⟨pairwise_stack hnested, rfl, ?_, ?_⟩
    · rw [getLast?_stack, hinside.head_blocks.1]
    · rw [stack, List.length_cons, List.length_reverse]
      omega
  · constructor
    · intro h
      have hstart : Reached source [] ⟨.start, .origin, [], source.toList⟩ := .start
      obtain ⟨given, width, s, hreached, hopens, hless, hnone⟩ := hstart.exists_unmatched h
      exact ⟨given, width, _, s, hreached, hopens, s.getLast?_stack, hless, mt mem_stack.mp hnone⟩
    · rintro ⟨given, width, top, s, hreached, hopens, htop, hless, hnone⟩
      rw [getLast?_stack, Option.some.injEq] at htop
      subst htop
      rw [hreached.scan_eq, hopens.tokens_eq hreached.levels.2 hless (mt mem_stack.mpr hnone)]
      rfl

/-- Two blocks that end with the same line. The first one is indented by a tab and then by spaces;
lines in parentheses, comments and continued lines stand anywhere. -/
def Sample.indented : String :=
  "if a:\n\tf(b,\n c)\n  # note\n\n    if d:\n      \r e = 1 + \\\n2\nf()\n"

/-- The token `e` is read inside two blocks, the inner one as wide as its line. A line between the
widths of two open blocks stops the scanner. -/
theorem indented_mirrored :
    (∃ ts, scan Sample.indented = .ok ts ∧ occurrences .indent ts = 2 ∧
      occurrences .dedent ts = 2 ∧
      ∃ before place after width s, ts = before ++ ⟨.name "e", place⟩ :: after ∧
        Inside Sample.indented width before s ∧ s.stack.Pairwise (· < ·) ∧
        s.stack.getLast? = some width ∧ s.stack.length = 3) ∧
    scan "if a:\n    b\n  c\n" = .error ⟨.unmatchedUnindent, ⟨3, 3⟩⟩ ∧
    ∃ given width top s, Reached "if a:\n    b\n  c\n" given s ∧ s.OpensLine width ⟨3, 3⟩ ∧
      s.stack.getLast? = some top ∧ width < top ∧ width ∉ s.stack := by
  have hunmatched : scan "if a:\n    b\n  c\n" = .error ⟨.unmatchedUnindent, ⟨3, 3⟩⟩ := by
    decide +kernel
  refine ⟨?_, hunmatched, ((layout_mirrors_indentation _).2.2 _).mp hunmatched⟩
  have heval : (scan Sample.indented).toOption.map (fun ts => ts.map Lexeme.token) = some
      ([.keyword .ifWord, .name "a", .symbol .colon, .newline, .indent, .name "f",
        .symbol .leftParen, .name "b", .symbol .comma, .name "c", .symbol .rightParen, .newline,
        .keyword .ifWord, .name "d", .symbol .colon, .newline, .indent] ++
      .name "e" :: [.symbol .assign, .int 1, .symbol .plus, .int 2, .newline, .dedent, .dedent,
        .name "f", .symbol .leftParen, .symbol .rightParen, .newline, .endOfFile]) := by
    decide +kernel
  obtain ⟨ts, hsome, htokens⟩ := Option.map_eq_some_iff.mp heval
  have hscan := except_toOption_some.mp hsome
  obtain ⟨before, place, after, hts, hbefore, -⟩ := Expr.map_token_eq_append_cons htokens
  obtain ⟨⟨-, -, -, hinside⟩, hstack⟩ :=
    And.imp (fun hall => hall ts hscan) And.left (layout_mirrors_indentation Sample.indented)
  obtain ⟨width, s, -, hs, -⟩ := hinside before _ after hts rfl
  obtain ⟨hsorted, -, htop, hcount⟩ := hstack width before s hs
  have hindents : occurrences .indent before = 2 := by
    rw [occurrences, hbefore]
    decide
  have hdedents : occurrences .dedent before = 0 := by
    rw [occurrences, hbefore]
    decide
  refine ⟨ts, hscan, by rw [occurrences, htokens]; decide, by rw [occurrences, htokens]; decide,
    before, place, after, width, s, hts, hs, hsorted, htop, ?_⟩
  omega

end Lexeme

end Walkthrough
