import Walkthrough.Proofs.Emitters
import Walkthrough.Proofs.Scanning

/-!
# Blocks without statements

The reader of a block takes the statements up to its end, and there may be none. A block without
statements is read exactly where the token for an indentation comes right before the token for
its end. An indentation is told before the first character of a line that is no blank. If that
character starts a token, the token comes next; it starts none only if it is a backslash at the
end of the line. So a program has an empty block only if its text has a line with nothing on it
but a backslash that continues it.
-/

namespace Walkthrough

open Lexeme

namespace Stmt

/-- The bodies of branches. -/
def branchBodies (branches : List Branch) : List (List Stmt) :=
  branches.map fun | .mk _ body _ => body

/-- The body of an alternative. -/
def otherwiseBodies : Option Otherwise → List (List Stmt)
  | none => []
  | some (.mk body _) => [body]

/-- The blocks of a statement, without those of the statements inside it. -/
def bodies : Stmt → List (List Stmt)
  | .loop _ _ body _ | .define _ _ body _ => [body]
  | .choose branches alternative _ => branchBodies branches ++ otherwiseBodies alternative
  | .assign .. | .giveBack .. | .expression .. => []

/-- How many of some blocks have no statement. -/
def empties (blocks : List (List Stmt)) : Nat := blocks.countP List.isEmpty

/-- How many blocks of some statements have no statement. -/
def emptyBodies (statements : List Stmt) : Nat := empties (statements.flatMap bodies)

theorem empties_append (blocks others : List (List Stmt)) :
    empties (blocks ++ others) = empties blocks + empties others := List.countP_append

@[simp] theorem emptyBodies_nil : emptyBodies [] = 0 := rfl

@[simp] theorem emptyBodies_cons (s : Stmt) (others : List Stmt) :
    emptyBodies (s :: others) = empties s.bodies + emptyBodies others := by
  rw [emptyBodies, List.flatMap_cons, empties_append, emptyBodies]

@[simp] theorem emptyBodies_append (statements others : List Stmt) :
    emptyBodies (statements ++ others) = emptyBodies statements + emptyBodies others := by
  rw [emptyBodies, List.flatMap_append, empties_append, emptyBodies, emptyBodies]

/-- How many blocks are empty from a block on, the block itself and those inside it. -/
def blockEmpties (body : List Stmt) : Nat := empties [body] + emptyBodies (allParts body)

/-- How many blocks are empty among those of branches and an alternative and inside them. -/
def choiceEmpties (branches : List Branch) (alternative : Option Otherwise) : Nat :=
  empties (branchBodies branches ++ otherwiseBodies alternative) +
    emptyBodies (branchParts branches ++ otherwiseParts alternative)

theorem choiceEmpties_cons (condition : Expr) (body : List Stmt) (place : Location)
    (others : List Branch) (alternative : Option Otherwise) :
    choiceEmpties (.mk condition body place :: others) alternative =
      blockEmpties body + choiceEmpties others alternative := by
  have hbodies : branchBodies (.mk condition body place :: others) =
      [body] ++ branchBodies others := rfl
  simp only [choiceEmpties, blockEmpties, hbodies, branchParts, empties_append, emptyBodies_append]
  omega

/-- No block is empty if the number of empty ones is zero. -/
theorem emptyBodies_eq_zero {statements : List Stmt} :
    emptyBodies statements = 0 ↔ ∀ s ∈ statements, ∀ body ∈ s.bodies, body ≠ [] := by
  simp only [emptyBodies, empties, List.countP_eq_zero, List.mem_flatMap, List.isEmpty_iff]
  exact ⟨fun h s hs body hbody => h body ⟨s, hs, hbody⟩,
    fun h body ⟨s, hs, hbody⟩ => h s hs body hbody⟩

end Stmt

/-- A token that is written is no token of the layout. -/
theorem Token.ne_of_isWritten {t : Token} (h : t.isWritten = true) :
    t ≠ .indent ∧ t ≠ .dedent ∧ t ≠ .endOfFile := by
  refine ⟨?_, ?_, ?_⟩ <;> rintro rfl <;> cases h

namespace Lexeme

/-- How many indentations end at once. -/
def hollows : List Lexeme → Nat
  | [] => 0
  | t :: rest =>
    (if t.token = .indent ∧ (next rest).token = .dedent then 1 else 0) + hollows rest

@[simp] theorem hollows_nil : hollows [] = 0 := rfl

@[simp] theorem hollows_indent (place : Location) (rest : List Lexeme) :
    hollows (⟨.indent, place⟩ :: rest) =
      (if (next rest).token = .dedent then 1 else 0) + hollows rest := by
  simp [hollows]

theorem hollows_cons {t : Lexeme} (ht : t.token ≠ .indent) (rest : List Lexeme) :
    hollows (t :: rest) = hollows rest := by
  simp [hollows, ht]

theorem hollows_append {taken : List Lexeme} (h : ∀ t ∈ taken, t.token ≠ .indent)
    (rest : List Lexeme) : hollows (taken ++ rest) = hollows rest := by
  induction taken with
  | nil => rfl
  | cons t ts ih =>
    obtain ⟨ht, hts⟩ := List.forall_mem_cons.mp h
    rw [List.cons_append, hollows_cons ht, ih hts]

/-- There are so many empty blocks in some tokens, whatever follows them. -/
def Hollow (count : Nat) (ts : List Lexeme) : Prop :=
  ∀ rest, hollows (ts ++ rest) = count + hollows rest

namespace Hollow

variable {count more : Nat} {ts us : List Lexeme}

theorem nil : Hollow 0 [] := fun rest => (Nat.zero_add (hollows rest)).symm

/-- A token that starts no block. -/
theorem cons {t : Lexeme} (h : Hollow count ts) (ht : t.token ≠ .indent) :
    Hollow count (t :: ts) := by
  intro rest
  rw [List.cons_append, hollows_cons ht, h rest]

theorem append (h : Hollow count ts) (h' : Hollow more us) : Hollow (count + more) (ts ++ us) := by
  intro rest
  rw [List.append_assoc, h, h', Nat.add_assoc]

/-- Tokens without blocks before those with blocks. -/
theorem after (h : Hollow count us) (h' : Hollow 0 ts) : Hollow count (ts ++ us) := by
  have hall := h'.append h
  rwa [Nat.zero_add] at hall

/-- Tokens that are written start no block. -/
theorem of_written (h : ∀ t ∈ ts, t.token.isWritten = true) : Hollow 0 ts := by
  intro rest
  have hindent : ∀ t ∈ ts, t.token ≠ .indent := fun t ht => (Token.ne_of_isWritten (h t ht)).1
  rw [hollows_append hindent, Nat.zero_add]

end Hollow

end Lexeme

/-- A simple statement has no block. -/
theorem Stmt.bodies_ofSides (first : Expr) (others : List Expr) (place : Location) :
    (ofSides first others place).bodies = [] := by
  unfold ofSides
  split <;> rfl

/-- There are as many empty blocks in the tokens as in what is made of them. -/
def Rule.Counts : (r : Rule) → List Lexeme → r.Meaning → Prop
  | ending, ts, _ => Hollow 0 ts
  | sides, ts, _ => Hollow 0 ts
  | simple, ts, s => Hollow (Stmt.emptyBodies s.parts) ts
  | parameters, ts, _ => Hollow 0 ts
  | moreParameters, ts, _ => Hollow 0 ts
  | statement, ts, s => Hollow (Stmt.emptyBodies s.parts) ts
  | block, ts, statements => Hollow (Stmt.blockEmpties statements) ts
  | body, ts, statements => Hollow (Stmt.emptyBodies (Stmt.allParts statements)) ts
  | branch, ts, made => ∀ word, Hollow (Stmt.choiceEmpties (made word).1 (made word).2) ts
  | otherwise, ts, made => Hollow (Stmt.choiceEmpties made.1 made.2) ts
  | program, ts, statements => Hollow (Stmt.emptyBodies (Stmt.allParts statements)) ts

namespace Outline

/-- A statement starts with a token that is written. -/
theorem exists_first (d : Outline .statement) :
    ∃ t others, d.tokens = t :: others ∧ t.token.isWritten = true := by
  cases d with
  | plain only =>
    cases only with
    | simple first others ending =>
      obtain ⟨t, after, htokens, hwritten⟩ := first.exists_first
      exact ⟨t, after ++ (others.tokens ++ ending.tokens), by rw [tokens, tokens, htokens]; rfl,
        hwritten⟩
  | _ => exact ⟨_, _, rfl, rfl⟩

/-- A block has no statements where its end comes at once. -/
theorem meaning_eq_nil_iff (d : Outline .body) (dedent : Location) (rest : List Lexeme) :
    d.meaning = [] ↔ (next (d.tokens ++ ⟨.dedent, dedent⟩ :: rest)).token = .dedent := by
  cases d with
  | noStatement => exact ⟨fun _ => rfl, fun _ => rfl⟩
  | oneStatement first others =>
    obtain ⟨t, after, htokens, hwritten⟩ := first.exists_first
    rw [tokens, htokens]
    exact ⟨nofun, fun hend => absurd hend (Token.ne_of_isWritten hwritten).2.1⟩

/-- A block is empty where its indentation ends at once. -/
theorem counts_indented (lineEnd indent : Location) {body : Outline .body} (dedent : Location)
    (hbody : Rule.body.Counts body.tokens body.meaning) :
    Rule.block.Counts (indented lineEnd indent body dedent).tokens body.meaning := by
  intro rest
  have hline : (⟨.newline, lineEnd⟩ : Lexeme).token ≠ .indent := nofun
  have hend : (⟨.dedent, dedent⟩ : Lexeme).token ≠ .indent := nofun
  have hempty : Stmt.empties [body.meaning] =
      if (next (body.tokens ++ ⟨.dedent, dedent⟩ :: rest)).token = .dedent then 1 else 0 := by
    simp [Stmt.empties, List.countP_cons, ← meaning_eq_nil_iff]
  rw [tokens, List.cons_append, List.cons_append, List.append_assoc, List.singleton_append,
    hollows_cons hline, hollows_indent, hbody, hollows_cons hend, Stmt.blockEmpties, hempty,
    Nat.add_assoc]

/-- There are as many empty blocks in the tokens of an outline as in what it makes. -/
theorem counts {r : Rule} (d : Outline r) : r.Counts d.tokens d.meaning := by
  induction d with
  | line place => exact Hollow.nil.cons (by nofun)
  | lastLine | noSide | noParameters | noMoreParameters | noStatement | nothing | finished =>
    exact Hollow.nil
  | oneSide sign side others hothers =>
    exact (Hollow.after hothers (.of_written side.isWritten_tokens)).cons (by nofun)
  | simple first others ending hothers hending =>
    change Hollow (Stmt.emptyBodies (Stmt.ofSides _ _ _).parts) _
    rw [Stmt.parts_ofSides, Stmt.emptyBodies_cons, Stmt.bodies_ofSides]
    exact (Hollow.of_written first.isWritten_tokens).append (Hollow.append hothers hending)
  | parameters id place others hothers => exact Hollow.cons hothers (by nofun)
  | oneMoreParameter comma id place others hothers =>
    exact (Hollow.cons hothers (by nofun)).cons (by nofun)
  | loop word target inWord iterable colon body hbody =>
    change Hollow (Stmt.emptyBodies (_ :: Stmt.allParts body.meaning)) _
    rw [Stmt.emptyBodies_cons]
    have hblock := Hollow.cons (t := ⟨.symbol .colon, colon⟩) hbody nofun
    have hafter := hblock.after (.of_written iterable.isWritten_tokens)
    exact ((hafter.cons (by nofun)).after (.of_written target.isWritten_tokens)).cons (by nofun)
  | choose word first hfirst =>
    change Hollow (Stmt.emptyBodies (_ :: (Stmt.branchParts _ ++ Stmt.otherwiseParts _))) _
    rw [Stmt.emptyBodies_cons]
    exact (hfirst word).cons (by nofun)
  | define word name place opening params closing colon body hparams hbody =>
    change Hollow (Stmt.emptyBodies (_ :: Stmt.allParts body.meaning)) _
    rw [Stmt.emptyBodies_cons]
    have hblock := Hollow.cons (t := ⟨.symbol .colon, colon⟩) hbody nofun
    have hafter := (hblock.cons (t := ⟨.symbol .rightParen, closing⟩) nofun).after hparams
    exact ((hafter.cons (by nofun)).cons (by nofun)).cons (by nofun)
  | giveNothing word lineEnd => exact (Hollow.nil.cons (by nofun)).cons (by nofun)
  | giveBack word value ending hending =>
    exact (Hollow.after hending (.of_written value.isWritten_tokens)).cons (by nofun)
  | plain only honly => exact honly
  | inline only honly =>
    change Hollow (Stmt.blockEmpties [only.meaning]) _
    have hcount : Stmt.blockEmpties [only.meaning] = Stmt.emptyBodies only.meaning.parts := by
      simp [Stmt.blockEmpties, Stmt.allParts, Stmt.empties]
    rw [hcount]
    exact honly
  | indented lineEnd indent body dedent hbody => exact counts_indented lineEnd indent dedent hbody
  | oneStatement first others hfirst hothers | nextStatement first others hfirst hothers =>
    change Hollow (Stmt.emptyBodies (Stmt.allParts (first.meaning :: others.meaning))) _
    rw [Stmt.allParts, Stmt.emptyBodies_append]
    exact Hollow.append hfirst hothers
  | branch condition colon body others hbody hothers =>
    intro word
    change Hollow (Stmt.choiceEmpties (.mk _ _ word :: others.meaning.1) others.meaning.2) _
    rw [Stmt.choiceEmpties_cons]
    exact ((Hollow.append hbody hothers).cons (by nofun)).after
      (.of_written condition.isWritten_tokens)
  | further word inner hinner => exact (hinner word).cons (by nofun)
  | alternative word colon body hbody => exact (Hollow.cons hbody (by nofun)).cons (by nofun)
  | emptyLine place others hothers => exact Hollow.cons hothers (by nofun)

end Outline

/-- A program has as many empty blocks as indentations end at once, if its tokens end with the
text. -/
theorem Program.hollows_of_ofLexemes {ts : List Lexeme} {program : Program}
    (hend : ∀ place rest, ⟨.endOfFile, place⟩ :: rest <:+ ts → rest = [])
    (h : ofLexemes ts = .ok program) : hollows ts = Stmt.emptyBodies (Stmt.allParts program) := by
  obtain ⟨rest, hlast, d, rfl, rfl⟩ := takes_ofLexemes h
  have hrest : hollows rest = 0 := by
    rcases rest with _ | ⟨⟨token, place⟩, after⟩
    · rfl
    · cases hlast
      cases hend place after (List.suffix_append _ _)
      rfl
  have hcounts := d.counts rest
  rw [hcounts, hrest, Nat.add_zero]

namespace Lexeme

/-- Some line has nothing on it but a backslash at its end. The flag tells whether there were
only blanks on the line before. -/
def bareContinuation (onlyBlanks : Bool) : List Char → Bool
  | [] => false
  | c :: rest =>
    (onlyBlanks && c == '\\' && rest.head? == some '\n') ||
      bareContinuation (c == '\n' || onlyBlanks && isBlank c) rest

/-- Such a line may come after any text. -/
theorem bareContinuation_append (passed rest : List Char) (onlyBlanks : Bool) :
    ∃ still, bareContinuation still rest = true →
      bareContinuation onlyBlanks (passed ++ rest) = true := by
  induction passed generalizing onlyBlanks with
  | nil => exact ⟨onlyBlanks, id⟩
  | cons c cs ih =>
    obtain ⟨still, hstill⟩ := ih (c == '\n' || onlyBlanks && isBlank c)
    refine ⟨still, fun h => ?_⟩
    rw [List.cons_append, bareContinuation, hstill h, Bool.or_true]

/-- After a line break there are only blanks. -/
theorem bareContinuation_break (line rest : List Char) (onlyBlanks : Bool)
    (h : bareContinuation true rest = true) :
    bareContinuation onlyBlanks (line ++ '\n' :: rest) = true := by
  induction line generalizing onlyBlanks with
  | nil => simp [bareContinuation, h]
  | cons c cs ih => rw [List.cons_append, bareContinuation, ih, Bool.or_true]

/-- Blanks and a backslash at the end of the line. -/
theorem bareContinuation_blanks {blanks : List Char} (hblanks : ∀ c ∈ blanks, isBlank c = true)
    (rest : List Char) : bareContinuation true (blanks ++ '\\' :: '\n' :: rest) = true := by
  induction blanks with
  | nil => simp [bareContinuation]
  | cons c cs ih =>
    obtain ⟨hc, hcs⟩ := List.forall_mem_cons.mp hblanks
    simp [bareContinuation, hc, ih hcs]

namespace Scanner

variable {s s' : Scanner} {ts : List Lexeme}

/-- A step gives no token for an indentation, unless it is over the blanks before a line, and
none for the end of the text. -/
theorem Step.given (h : Step s ts s') :
    (∀ t ∈ ts, t.token ≠ .indent ∧ t.token ≠ .endOfFile) ∨
    ∃ (blanks : List Char) (c : Char) (rest : List Char) (place : Location) (blocks : List Nat),
      (∀ c ∈ blanks, isBlank c = true) ∧ isSolid c = true ∧ ts = [⟨.indent, place⟩] ∧
      s.phase = .start ∧ s.text = blanks ++ c :: rest ∧
      s' = ⟨.inside 0 false, place, blocks, c :: rest⟩ := by
  cases h with
  | @indentation place blocks nested blanks rest c _ hblanks hsolid hlayout =>
    rcases layout_marks hlayout with rfl | hdedent
    · exact .inr ⟨blanks, c, rest, _, nested, hblanks, hsolid, rfl, rfl, rfl, rfl⟩
    · refine .inl fun t ht => ?_
      rw [hdedent t ht]
      exact ⟨nofun, nofun⟩
  | @lineBreak lineOpen _ _ _ => cases lineOpen <;> simp
  | @token _ _ _ _ _ _ reading _ _ hread =>
    obtain ⟨hindent, _, hend⟩ := Token.ne_of_isWritten (Token.read_ok hread).1
    refine .inl fun t ht => ?_
    rw [List.mem_singleton.mp ht]
    exact ⟨hindent, hend⟩
  | _ => exact .inl (by simp)

/-- A line with something on it is not at its end. -/
theorem not_atLineEnd {blanks : List Char} (hblanks : ∀ c ∈ blanks, isBlank c = true) {c : Char}
    (hsolid : isSolid c = true) (rest : List Char) : ¬ AtLineEnd (blanks ++ c :: rest) := by
  intro hend
  cases blanks with
  | nil => exact (isSolid_iff.mp hsolid).2.2 (hend c rfl)
  | cons d ds =>
    cases hend d rfl
    cases hblanks '\n' List.mem_cons_self

/-- At a character that is no blank and does not continue a line, a token comes next. -/
theorem next_isWritten {parens : Nat} {lineOpen : Bool} {place : Location} {blocks : List Nat}
    {c : Char} {rest : List Char} (hsolid : isSolid c = true) (hends : ¬ IsContinuation c rest)
    (h : tokens ⟨.inside parens lineOpen, place, blocks, c :: rest⟩ = .ok ts) :
    (next ts).token.isWritten = true := by
  cases hread : Token.read c rest with
  | error fault =>
    rw [(Ends.unreadable hsolid hends hread).tokens_eq] at h
    cases h
  | ok reading =>
    rw [(Step.token hsolid hends hread).tokens_eq] at h
    obtain ⟨others, -, rfl⟩ := except_map_ok.mp h
    exact (Token.read_ok hread).1

/-- At its end the scanner gives no token for an indentation, and one for the end of the text. -/
theorem Ends.given (h : Ends s (.ok ts)) :
    ∃ before last, ts = before ++ [last] ∧ last.token = .endOfFile ∧
      ∀ t ∈ before, t.token ≠ .indent ∧ t.token ≠ .endOfFile := by
  have hclosing : ∃ place blocks lineOpen, ts = closing place blocks lineOpen := by
    cases h with
    | blank _ => exact ⟨_, _, _, rfl⟩
    | finished => exact ⟨_, _, _, rfl⟩
  obtain ⟨place, blocks, lineOpen, rfl⟩ := hclosing
  refine ⟨(if lineOpen then [⟨.newline, place⟩] else []) ++
    List.replicate blocks.length ⟨.dedent, place⟩, ⟨.endOfFile, place⟩, ?_, rfl, ?_⟩
  · rw [closing, List.append_assoc]
  · cases lineOpen <;> simp +contextual

/-- The token for the end of the text comes last. -/
theorem tokens_end (s : Scanner) (h : s.tokens = .ok ts) :
    ∃ before last, ts = before ++ [last] ∧ last.token = .endOfFile ∧
      ∀ t ∈ before, t.token ≠ .endOfFile := by
  induction s using Scanner.induction generalizing ts with
  | ends s result hends =>
    rw [hends.tokens_eq] at h
    subst h
    obtain ⟨before, last, hts, hlast, hbefore⟩ := hends.given
    exact ⟨before, last, hts, hlast, fun t ht => (hbefore t ht).2⟩
  | step s own s' hstep ih =>
    rw [hstep.tokens_eq] at h
    obtain ⟨others, hothers, rfl⟩ := except_map_ok.mp h
    obtain ⟨before, last, rfl, hlast, hbefore⟩ := ih hothers
    have hown : ∀ t ∈ own, t.token ≠ .endOfFile := by
      rcases hstep.given with hown | ⟨_, _, _, place, _, _, _, rfl, _⟩
      · exact fun t ht => (hown t ht).2
      · simp
    exact ⟨own ++ before, last, (List.append_assoc ..).symm, hlast,
      List.forall_mem_append.mpr ⟨hown, hbefore⟩⟩

/-- After a step the scanner stands at the start of a line only if it has come to its end or to
the next one. -/
theorem Step.bareContinuation (h : Step s ts s') (onlyBlanks : Bool) :
    ∃ still, (s'.phase = .start → still = true ∨ AtLineEnd s'.text) ∧
      (Lexeme.bareContinuation still s'.text = true →
        Lexeme.bareContinuation onlyBlanks s.text = true) := by
  have hother : (s'.phase = .start → AtLineEnd s'.text) → ∃ still,
      (s'.phase = .start → still = true ∨ AtLineEnd s'.text) ∧
        (Lexeme.bareContinuation still s'.text = true →
          Lexeme.bareContinuation onlyBlanks s.text = true) := by
    intro hphase
    obtain ⟨passed, htext, _⟩ := h.consumes
    obtain ⟨still, hstill⟩ := bareContinuation_append passed s'.text onlyBlanks
    rw [htext]
    exact ⟨still, fun hstart => .inr (hphase hstart), hstill⟩
  cases h with
  | @emptyLine _ _ blanks rest _ =>
    exact ⟨true, fun _ => .inl rfl, bareContinuation_break blanks rest onlyBlanks⟩
  | @lineBreak _ _ _ rest =>
    exact ⟨true, fun _ => .inl rfl, bareContinuation_break [] rest onlyBlanks⟩
  | commentLine _ _ hrest => exact hother fun _ => hrest
  | _ => exact hother nofun

/-- An indentation ends at once only on a line with nothing on it but a backslash. -/
theorem bareContinuation_of_hollows (s : Scanner) (onlyBlanks : Bool)
    (hline : s.phase = .start → onlyBlanks = true ∨ AtLineEnd s.text) (h : s.tokens = .ok ts)
    (hhollow : hollows ts ≠ 0) : Lexeme.bareContinuation onlyBlanks s.text = true := by
  induction s using Scanner.induction generalizing ts onlyBlanks with
  | ends s result hends =>
    rw [hends.tokens_eq] at h
    subst h
    obtain ⟨before, last, rfl, hlast, hbefore⟩ := hends.given
    rw [hollows_append fun t ht => (hbefore t ht).1, hollows_cons (by simp [hlast])] at hhollow
    exact absurd rfl hhollow
  | step s own s' hstep ih =>
    rw [hstep.tokens_eq] at h
    obtain ⟨others, hothers, rfl⟩ := except_map_ok.mp h
    obtain ⟨still, hstill, hback⟩ := hstep.bareContinuation onlyBlanks
    by_cases hlater : hollows others = 0
    · rcases hstep.given with hown |
        ⟨blanks, c, rest, place, blocks, hblanks, hsolid, rfl, hphase, htext, rfl⟩
      · rw [hollows_append fun t ht => (hown t ht).1] at hhollow
        exact absurd hlater hhollow
      · have hdedent : (next others).token = .dedent := by
          rw [List.singleton_append, hollows_indent, hlater] at hhollow
          simpa using hhollow
        have hcontinued : IsContinuation c rest := by
          by_contra hends
          exact (Token.ne_of_isWritten (next_isWritten hsolid hends hothers)).2.1 hdedent
        obtain ⟨rfl, hhead⟩ := hcontinued
        obtain ⟨after, rfl⟩ := List.head?_eq_some_iff.mp hhead
        rw [htext] at hline ⊢
        rcases hline hphase with rfl | hend
        · exact bareContinuation_blanks hblanks after
        · exact absurd hend (not_atLineEnd hblanks hsolid _)
    · exact hback (ih still hstill hothers hlater)

end Scanner

end Lexeme

namespace Program

/-- The token for the end of a text that is scanned comes last. -/
theorem eq_nil_of_end_suffix {source : String} {ts : List Lexeme} (h : scan source = .ok ts) :
    ∀ place rest, ⟨.endOfFile, place⟩ :: rest <:+ ts → rest = [] := by
  rintro place rest ⟨before, hbefore⟩
  have hrun : Scanner.tokens ⟨.start, .origin, [], source.toList⟩ = .ok ts := h
  obtain ⟨init, last, rfl, -, hinit⟩ := Scanner.tokens_end _ hrun
  rcases List.eq_nil_or_concat rest with hnil | ⟨others, t, rfl⟩
  · exact hnil
  · rw [List.concat_eq_append, ← List.cons_append, ← List.append_assoc] at hbefore
    have hmem : ⟨.endOfFile, place⟩ ∈ init := by
      rw [← (List.append_inj' hbefore rfl).1]
      simp
    exact absurd rfl (hinit _ hmem)

/-- If no line of a text has nothing on it but a backslash that continues it, then the body of
every loop, branch, alternative and definition of its program has a statement. In any case the
program has exactly as many empty bodies as there are indentations that end at once. -/
theorem bodies_nonempty {source : String} {program : Program} (h : parse source = .ok program) :
    (bareContinuation true source.toList = false →
      ∀ s ∈ Stmt.allParts program, ∀ body ∈ s.bodies, body ≠ []) ∧
    ∃ ts, scan source = .ok ts ∧ Stmt.emptyBodies (Stmt.allParts program) = hollows ts := by
  obtain ⟨ts, hscan, hprogram⟩ := except_bind_ok.mp h
  have hcount := hollows_of_ofLexemes (eq_nil_of_end_suffix hscan) hprogram
  refine ⟨fun hline => ?_, ts, hscan, hcount.symm⟩
  rw [← Stmt.emptyBodies_eq_zero, ← hcount]
  by_contra hhollow
  have hbare := Scanner.bareContinuation_of_hollows ⟨.start, .origin, [], source.toList⟩ true
    (fun _ => .inl rfl) hscan hhollow
  rw [hline] at hbare
  cases hbare

/-- A definition with a loop and a choice inside it, and with a line that goes on after
a backslash. -/
def Sample.nestedBlocks : String :=
  "def f(a):\n  for i in range(a):\n    if i > 1:\n      x = 1 + \\\n 2\n" ++
  "    elif i < 0: x = 3\n    else:\n      x = 4\n  return a\nf(2)\n"

/-- Its five blocks have statements. -/
theorem bodies_nonempty_nested : ∃ program,
    parse Sample.nestedBlocks = .ok program ∧
      ((Stmt.allParts program).flatMap Stmt.bodies).map List.length = [2, 1, 1, 1, 1] ∧
      ∀ s ∈ Stmt.allParts program, ∀ body ∈ s.bodies, body ≠ [] := by
  have heval : (parse Sample.nestedBlocks).toOption.map
      (fun program => ((Stmt.allParts program).flatMap Stmt.bodies).map List.length) =
        some [2, 1, 1, 1, 1] := by
    decide +kernel
  obtain ⟨program, hsome, hlengths⟩ := Option.map_eq_some_iff.mp heval
  have hparse := except_toOption_some.mp hsome
  exact ⟨program, hparse, hlengths, (bodies_nonempty hparse).1 (by decide +kernel)⟩

/-- The body of a branch is empty where its only line is a backslash. -/
theorem backslash_body_empty : ∃ program, parse "if a:\n    \\\n" = .ok program ∧
    ∃ s ∈ Stmt.allParts program, [] ∈ s.bodies := by
  have heval : (parse "if a:\n    \\\n").toOption.map
      (fun program => Stmt.emptyBodies (Stmt.allParts program)) = some 1 := by
    decide +kernel
  obtain ⟨program, hsome, hcount⟩ := Option.map_eq_some_iff.mp heval
  refine ⟨program, except_toOption_some.mp hsome, ?_⟩
  by_contra hnone
  push Not at hnone
  have hzero : Stmt.emptyBodies (Stmt.allParts program) = 0 :=
    Stmt.emptyBodies_eq_zero.mpr fun s hs body hbody heq => hnone s hs (heq ▸ hbody)
  omega

end Program

end Walkthrough
