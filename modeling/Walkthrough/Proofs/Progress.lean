import Walkthrough.Proofs.Blocks

/-!
# Readers move on and stay inside the tokens

Tokens end with the one for the end of the text, which stands nowhere else. A reader that starts
at some position fails or comes to a later one, never beyond the end, and it does the same
whatever stands after the end, so it looks at nothing outside the tokens. The loop over the
statements of a program therefore ends after at most as many passes as there are tokens.
-/

namespace Walkthrough

open Lexeme

variable {α β : Type} {m m' n n' : Nat} {more ts : List Lexeme}

namespace Lexeme

/-- The tokens end with the one for the end of the text, which stands nowhere else. -/
def Terminated (ts : List Lexeme) : Prop :=
  ∃ body place, ts = body ++ [⟨.endOfFile, place⟩] ∧ ∀ t ∈ body, t.token ≠ .endOfFile

namespace Terminated

theorem ne_nil (h : Terminated ts) : ts ≠ [] := by
  obtain ⟨body, place, rfl, -⟩ := h
  simp

/-- After a token that is not the end the end is still to come. -/
theorem tail {t : Lexeme} (h : Terminated (t :: ts)) (ht : t.token ≠ .endOfFile) :
    Terminated ts := by
  obtain ⟨body, place, heq, hbody⟩ := h
  cases body with
  | nil =>
    cases heq
    exact absurd rfl ht
  | cons first others =>
    obtain ⟨rfl, rfl⟩ := List.cons.inj heq
    exact ⟨others, place, rfl, (List.forall_mem_cons.mp hbody).2⟩

/-- What stands after the end does not change the next token. -/
theorem next_append (h : Terminated ts) (more : List Lexeme) : next (ts ++ more) = next ts := by
  cases ts with
  | nil => exact absurd rfl h.ne_nil
  | cons t rest => rfl

/-- A token other than the end is missing, whatever stands after the end, or it comes next and is
followed by tokens with an end. -/
theorem take?_cases (h : Terminated ts) (more : List Lexeme) {token : Token}
    (hend : token ≠ .endOfFile) :
    (take? token ts = none ∧ take? token (ts ++ more) = none) ∨
      ∃ place rest, ts = ⟨token, place⟩ :: rest ∧ Terminated rest := by
  rcases Walkthrough.take?_cases hend ts with ⟨hnone, hnext⟩ | ⟨place, rest, rfl⟩
  · rcases Walkthrough.take?_cases hend (ts ++ more) with ⟨hnone', -⟩ | ⟨place, rest, hmore⟩
    · exact .inl ⟨hnone, hnone'⟩
    · have hsame := h.next_append more
      rw [hmore] at hsame
      exact absurd (congrArg Lexeme.token hsame).symm hnext
  · exact .inr ⟨place, rest, rfl, h.tail hend⟩

/-- The same for a token with a meaning, which the end has not. -/
theorem takeMap?_cases (h : Terminated ts) (more : List Lexeme) {meaning : Token → Option α}
    (hend : meaning .endOfFile = none) :
    (takeMap? meaning ts = none ∧ takeMap? meaning (ts ++ more) = none) ∨
      ∃ token place rest a,
        ts = ⟨token, place⟩ :: rest ∧ meaning token = some a ∧ Terminated rest := by
  rcases Walkthrough.takeMap?_cases hend ts with ⟨hnone, hnext⟩ | ⟨token, place, rest, a, rfl, ha⟩
  · rcases Walkthrough.takeMap?_cases hend (ts ++ more) with
      ⟨hnone', -⟩ | ⟨token, place, rest, a, hmore, ha⟩
    · exact .inl ⟨hnone, hnone'⟩
    · have hsame := h.next_append more
      rw [hmore] at hsame
      rw [← hsame] at hnext
      cases ha.symm.trans hnext
  · have hsome : token ≠ .endOfFile := by
      rintro rfl
      cases ha.symm.trans hend
    exact .inr ⟨token, place, rest, a, rfl, ha, h.tail hsome⟩

end Terminated

end Lexeme

/-- The outcomes of reading some tokens with nothing after their end and with something after it
are alike: the same error, or the same thing read and the same tokens left up to the end. -/
inductive Alike (more ts : List Lexeme) :
    Except SyntaxError (Parsed α m) → Except SyntaxError (Parsed α n) → Prop where
  | error (e : SyntaxError) : Alike more ts (.error e) (.error e)
  | ok {a : α} {rest : List Lexeme} {h : rest.length < m} {h' : (rest ++ more).length < n}
    (suffix : rest <:+ ts) (terminated : Terminated rest) :
    Alike more ts (.ok ⟨a, rest, h⟩) (.ok ⟨a, rest ++ more, h'⟩)

namespace Alike

/-- Reading on from tokens that are left. -/
theorem widen {rest : List Lexeme} {x : Except SyntaxError (Parsed α m)}
    {y : Except SyntaxError (Parsed α n)} (h : Alike more rest x y) (hrest : rest <:+ ts) :
    Alike more ts x y := by
  cases h with
  | error e => exact .error e
  | ok suffix terminated => exact .ok (suffix.trans hrest) terminated

theorem eq_error {e : SyntaxError} {y : Except SyntaxError (Parsed α n)}
    (h : Alike more ts (.error e : Except SyntaxError (Parsed α m)) y) : y = .error e := by
  cases h
  rfl

theorem reads {p : Parsed α m} {y : Except SyntaxError (Parsed α n)}
    (h : Alike more ts (.ok p) y) :
    p.rest <:+ ts ∧ Terminated p.rest ∧ Reads y p.value (p.rest ++ more) := by
  cases h with
  | @ok _ _ _ h' suffix terminated => exact ⟨suffix, terminated, h', rfl⟩

/-- Reading on after one token. -/
theorem skip {t : Lexeme} {x : Except SyntaxError (Parsed α m)}
    {y : Except SyntaxError (Parsed α n)} (h : Alike more ts x y) : Alike more (t :: ts) x y :=
  h.widen (List.suffix_cons t ts)

/-- Something is there without any token being read. -/
theorem here {a : α} {h : ts.length < m} {h' : (ts ++ more).length < n} (hts : Terminated ts) :
    Alike more ts (.ok ⟨a, ts, h⟩) (.ok ⟨a, ts ++ more, h'⟩) :=
  .ok List.suffix_rfl hts

/-- One reader after another. -/
theorem bind {x : Except SyntaxError (Parsed α m)} {y : Except SyntaxError (Parsed α n)}
    {k : Parsed α m → Except SyntaxError (Parsed β m')}
    {k' : Parsed α n → Except SyntaxError (Parsed β n')} (h : Alike more ts x y)
    (hk : ∀ a rest hlt hlt', Terminated rest →
      Alike more rest (k ⟨a, rest, hlt⟩) (k' ⟨a, rest ++ more, hlt'⟩)) :
    Alike more ts (x >>= k) (y >>= k') := by
  cases h with
  | error e => exact .error e
  | ok suffix terminated => exact (hk _ _ _ _ terminated).widen suffix

end Alike

theorem alike_expected {what : String} (h : Terminated ts) :
    Alike more ts (expected what ts : Except SyntaxError (Parsed α m))
      (expected what (ts ++ more) : Except SyntaxError (Parsed α n)) := by
  unfold expected
  rw [h.next_append]
  exact .error _

theorem alike_require {token : Token} (hend : token ≠ .endOfFile) (what : String)
    (h : Terminated ts) :
    Alike more ts (require token what ts) (require token what (ts ++ more)) := by
  unfold require
  rcases h.take?_cases more hend with ⟨hnone, hnone'⟩ | ⟨place, rest, rfl, hrest⟩
  · rw [hnone, hnone']
    exact alike_expected h
  · rw [List.cons_append, take?_self, take?_self]
    exact (Alike.here hrest).skip

namespace Expr

-- Each lemma follows its reader with the reader's own measure. What carries the induction is that
-- the tokens a reader leaves still have their end, which is all that the next reader asks for.
mutual

theorem alike_parseList {ts : List Lexeme} (h : Terminated ts) :
    Alike more ts (parseList ts) (parseList (ts ++ more)) := by
  rw [parseList, parseList, h.next_append]
  refine (alike_parse h).bind fun first rest hlt _ hrest => ?_
  rcases hrest.take?_cases more (by decide : Token.symbol .comma ≠ .endOfFile) with
    ⟨hnone, hnone'⟩ | ⟨place, after, rfl, -⟩
  · simp only [hnone, hnone']
    exact .here hrest
  · simp only [List.cons_append, take?_self]
    exact (alike_parseMore hrest).bind fun _ _ _ _ => .here
termination_by 9 * ts.length + 8
decreasing_by all_goals subst_vars; simp only [List.length_cons] at *; omega

theorem alike_parseMore {ts : List Lexeme} (h : Terminated ts) :
    Alike more ts (parseMore ts) (parseMore (ts ++ more)) := by
  rw [parseMore, parseMore]
  rcases h.take?_cases more (by decide : Token.symbol .comma ≠ .endOfFile) with
    ⟨hnone, hnone'⟩ | ⟨place, after, rfl, hafter⟩
  · simp only [hnone, hnone']
    exact .here h
  · simp only [List.cons_append, take?_self, hafter.next_append]
    refine Alike.skip ?_
    split
    · refine (alike_parse hafter).bind fun item rest hlt _ hrest => ?_
      exact (alike_parseMore hrest).bind fun _ _ _ _ => .here
    · exact .here hafter
termination_by 9 * ts.length
decreasing_by all_goals subst_vars; simp only [List.length_cons] at *; omega

theorem alike_parse {ts : List Lexeme} (h : Terminated ts) :
    Alike more ts (parse ts) (parse (ts ++ more)) := by
  rw [parse, parse]
  refine (alike_parseChain .sum h).bind fun left rest hlt _ hrest => ?_
  rcases hrest.takeMap?_cases more (rfl : Token.comparison? .endOfFile = none) with
    ⟨hnone, hnone'⟩ | ⟨token, place, after, op, rfl, hop, hafter⟩
  · simp only [hnone, hnone']
    exact .here hrest
  · simp only [List.cons_append, takeMap?_self hop]
    refine Alike.skip ?_
    refine (alike_parseChain .sum hafter).bind fun right last _ _ hlast => ?_
    simp only [hlast.next_append]
    split
    · exact .error _
    · exact .here hlast
termination_by 9 * ts.length + 7
decreasing_by all_goals subst_vars; simp only [List.length_cons, Tier.height_sum] at *; omega

theorem alike_parseChain (tier : Tier) {ts : List Lexeme} (h : Terminated ts) :
    Alike more ts (parseChain tier ts) (parseChain tier (ts ++ more)) := by
  rw [parseChain, parseChain]
  refine (alike_parseOperand tier h).bind fun first rest hlt _ hrest => ?_
  exact (alike_parseChainTail tier first hrest).bind fun _ _ _ _ => .here
termination_by 9 * ts.length + tier.height + 1

theorem alike_parseOperand (tier : Tier) {ts : List Lexeme} (h : Terminated ts) :
    Alike more ts (parseOperand tier ts) (parseOperand tier (ts ++ more)) := by
  cases tier with
  | sum =>
    rw [parseOperand, parseOperand]
    exact alike_parseChain .product h
  | product =>
    rw [parseOperand, parseOperand]
    exact alike_parseFactor h
termination_by 9 * ts.length + tier.height

theorem alike_parseChainTail (tier : Tier) (left : Expr) {ts : List Lexeme} (h : Terminated ts) :
    Alike more ts (parseChainTail tier left ts) (parseChainTail tier left (ts ++ more)) := by
  rw [parseChainTail, parseChainTail]
  have hheight := tier.height_le
  rcases h.takeMap?_cases more (by cases tier <;> rfl : tier.operator? .endOfFile = none) with
    ⟨hnone, hnone'⟩ | ⟨token, place, after, op, rfl, hop, hafter⟩
  · simp only [hnone, hnone']
    exact .here h
  · simp only [List.cons_append, takeMap?_self hop]
    refine Alike.skip ?_
    refine (alike_parseOperand tier hafter).bind fun right rest hlt _ hrest => ?_
    exact (alike_parseChainTail tier _ hrest).bind fun _ _ _ _ => .here
termination_by 9 * ts.length
decreasing_by all_goals subst_vars; simp only [List.length_cons] at *; omega

theorem alike_parseFactor {ts : List Lexeme} (h : Terminated ts) :
    Alike more ts (parseFactor ts) (parseFactor (ts ++ more)) := by
  rw [parseFactor, parseFactor]
  rcases h.take?_cases more (by decide : Token.symbol .minus ≠ .endOfFile) with
    ⟨hnone, hnone'⟩ | ⟨place, after, rfl, hafter⟩
  · simp only [hnone, hnone']
    exact alike_parsePower h
  · simp only [List.cons_append, take?_self]
    refine Alike.skip ?_
    rcases hafter.takeMap?_cases more (rfl : Token.negated? .endOfFile = none) with
      ⟨hnone, hnone'⟩ | ⟨token, here, rest, value, rfl, hvalue, hrest⟩
    · simp only [hnone, hnone', hafter.next_append]
      exact .error _
    · simp only [List.cons_append, takeMap?_self hvalue]
      exact (Alike.here hrest).skip
termination_by 9 * ts.length + 2

theorem alike_parsePower {ts : List Lexeme} (h : Terminated ts) :
    Alike more ts (parsePower ts) (parsePower (ts ++ more)) := by
  rw [parsePower, parsePower]
  refine (alike_parseAtom h).bind fun base rest hlt _ hrest => ?_
  rcases hrest.take?_cases more (by decide : Token.symbol .doubleStar ≠ .endOfFile) with
    ⟨hnone, hnone'⟩ | ⟨place, after, rfl, hafter⟩
  · simp only [hnone, hnone']
    exact .here hrest
  · simp only [List.cons_append, take?_self]
    refine Alike.skip ?_
    exact (alike_parseFactor hafter).bind fun _ _ _ _ => .here
termination_by 9 * ts.length + 1
decreasing_by all_goals subst_vars; simp only [List.length_cons] at *; omega

theorem alike_parseAtom {ts : List Lexeme} (h : Terminated ts) :
    Alike more ts (parseAtom ts) (parseAtom (ts ++ more)) := by
  obtain ⟨⟨token, place⟩, after, rfl⟩ := List.exists_cons_of_ne_nil h.ne_nil
  have hafter : token ≠ .endOfFile → Terminated after := h.tail
  rw [List.cons_append, parseAtom, parseAtom]
  cases hliteral : token.literal? with
  | some value =>
    have hend : token ≠ .endOfFile := by rintro rfl; cases hliteral
    exact (Alike.here (hafter hend)).skip
  | none =>
    cases hname : token.name? with
    | some id =>
      have hend : token ≠ .endOfFile := by rintro rfl; cases hname
      refine Alike.skip ?_
      rcases (hafter hend).take?_cases more (by decide : Token.symbol .leftParen ≠ .endOfFile) with
        ⟨hnone, hnone'⟩ | ⟨here, inside, rfl, hinside⟩
      · simp only [hnone, hnone']
        exact .here (hafter hend)
      · simp only [List.cons_append, take?_self]
        refine Alike.skip ?_
        exact (alike_parseArgs hinside).bind fun _ _ _ _ => .here
    | none =>
      dsimp only
      split
      · next hparen =>
        have hend : token ≠ .endOfFile := by rintro rfl; cases hparen
        refine Alike.skip ?_
        rcases (hafter hend).take?_cases more (by decide : Token.symbol .rightParen ≠ .endOfFile)
          with ⟨hnone, hnone'⟩ | ⟨here, inside, rfl, hinside⟩
        · simp only [hnone, hnone']
          refine (alike_parseList (hafter hend)).bind fun inner rest _ _ hrest => ?_
          exact (alike_require (by decide) _ hrest).bind fun _ _ _ _ => .here
        · simp only [List.cons_append, take?_self]
          exact (Alike.here hinside).skip
      · exact alike_expected h
termination_by 9 * ts.length
decreasing_by all_goals subst_vars; simp only [List.length_cons] at *; omega

theorem alike_parseArgs {ts : List Lexeme} (h : Terminated ts) :
    Alike more ts (parseArgs ts) (parseArgs (ts ++ more)) := by
  rw [parseArgs, parseArgs]
  rcases h.take?_cases more (by decide : Token.symbol .rightParen ≠ .endOfFile) with
    ⟨hnone, hnone'⟩ | ⟨place, after, rfl, hafter⟩
  · simp only [hnone, hnone']
    refine (alike_parse h).bind fun arg rest hlt _ hrest => ?_
    rcases hrest.take?_cases more (by decide : Token.symbol .comma ≠ .endOfFile) with
      ⟨hlast, hlast'⟩ | ⟨place, after, rfl, hafter⟩
    · simp only [hlast, hlast']
      exact (alike_require (by decide) _ hrest).bind fun _ _ _ _ => .here
    · simp only [List.cons_append, take?_self]
      refine Alike.skip ?_
      exact (alike_parseArgs hafter).bind fun _ _ _ _ => .here
  · simp only [List.cons_append, take?_self]
    exact (Alike.here hafter).skip
termination_by 9 * ts.length + 8
decreasing_by all_goals subst_vars; simp only [List.length_cons] at *; omega

end

end Expr

namespace Stmt

open Walkthrough.Expr (alike_parseList)

theorem alike_parseEnd (h : Terminated ts) :
    Alike more ts (parseEnd ts) (parseEnd (ts ++ more)) := by
  unfold parseEnd
  rcases h.take?_cases more (by decide : Token.newline ≠ .endOfFile) with
    ⟨hnone, hnone'⟩ | ⟨place, after, rfl, hafter⟩
  · simp only [hnone, hnone', h.next_append]
    split
    · exact .here h
    · exact alike_expected h
  · simp only [List.cons_append, take?_self]
    exact (Alike.here hafter).skip

theorem alike_parseSides {ts : List Lexeme} (h : Terminated ts) :
    Alike more ts (parseSides ts) (parseSides (ts ++ more)) := by
  rw [parseSides, parseSides]
  rcases h.take?_cases more (by decide : Token.symbol .assign ≠ .endOfFile) with
    ⟨hnone, hnone'⟩ | ⟨place, after, rfl, hafter⟩
  · simp only [hnone, hnone']
    exact .here h
  · simp only [List.cons_append, take?_self]
    refine Alike.skip ?_
    refine (alike_parseList hafter).bind fun side rest hlt _ hrest => ?_
    exact (alike_parseSides hrest).bind fun _ _ _ _ => .here
termination_by ts.length
decreasing_by subst_vars; simp only [List.length_cons] at *; omega

theorem alike_parseSimple (h : Terminated ts) :
    Alike more ts (parseSimple ts) (parseSimple (ts ++ more)) := by
  unfold parseSimple
  rw [h.next_append]
  refine (alike_parseList h).bind fun first rest _ _ hrest => ?_
  refine (alike_parseSides hrest).bind fun others last _ _ hlast => ?_
  exact (alike_parseEnd hlast).bind fun _ _ _ _ => .here

theorem alike_parseGiveBack (location : Location) (h : Terminated ts) :
    Alike more ts (parseGiveBack location ts) (parseGiveBack location (ts ++ more)) := by
  unfold parseGiveBack
  rw [h.next_append]
  split
  · exact (alike_parseEnd h).bind fun _ _ _ _ => .here
  · refine (alike_parseList h).bind fun value rest _ _ hrest => ?_
    exact (alike_parseEnd hrest).bind fun _ _ _ _ => .here

theorem alike_parseName (h : Terminated ts) :
    Alike more ts (parseName ts) (parseName (ts ++ more)) := by
  unfold parseName
  rcases h.takeMap?_cases more (rfl : Token.name? .endOfFile = none) with
    ⟨hnone, hnone'⟩ | ⟨token, place, after, text, rfl, htext, hafter⟩
  · simp only [hnone, hnone']
    exact alike_expected h
  · simp only [List.cons_append, takeMap?_self htext]
    exact (Alike.here hafter).skip

theorem alike_parseParams (before : List String) {ts : List Lexeme} (h : Terminated ts) :
    Alike more ts (parseParams before ts) (parseParams before (ts ++ more)) := by
  rw [parseParams, parseParams]
  refine (alike_parseName h).bind fun found rest hlt _ hrest => ?_
  obtain ⟨param, here⟩ := found
  dsimp only
  split
  · exact .error _
  · rcases hrest.take?_cases more (by decide : Token.symbol .comma ≠ .endOfFile) with
      ⟨hnone, hnone'⟩ | ⟨place, after, rfl, hafter⟩
    · simp only [hnone, hnone']
      exact .here hrest
    · simp only [List.cons_append, take?_self]
      refine Alike.skip ?_
      exact (alike_parseParams _ hafter).bind fun _ _ _ _ => .here
termination_by ts.length
decreasing_by subst_vars; simp only [List.length_cons] at *; omega

theorem alike_parseSignature (h : Terminated ts) :
    Alike more ts (parseSignature ts) (parseSignature (ts ++ more)) := by
  unfold parseSignature
  refine (alike_parseName h).bind fun found rest _ _ hrest => ?_
  refine (alike_require (by decide) _ hrest).bind fun _ inside _ _ hinside => ?_
  dsimp only
  rw [hinside.next_append]
  split
  · refine Alike.bind (.here hinside) fun params closing _ _ hclosing => ?_
    refine (alike_require (by decide) _ hclosing).bind fun _ colon _ _ hcolon => ?_
    exact (alike_require (by decide) _ hcolon).bind fun _ _ _ _ => .here
  · refine (alike_parseParams [] hinside).bind fun params closing _ _ hclosing => ?_
    refine (alike_require (by decide) _ hclosing).bind fun _ colon _ _ hcolon => ?_
    exact (alike_require (by decide) _ hcolon).bind fun _ _ _ _ => .here

theorem alike_parseHeader (h : Terminated ts) :
    Alike more ts (parseHeader ts) (parseHeader (ts ++ more)) := by
  unfold parseHeader
  refine (alike_parseList h).bind fun target rest _ _ hrest => ?_
  refine (alike_require (by decide) _ hrest).bind fun _ after _ _ hafter => ?_
  refine (Expr.alike_parse hafter).bind fun iterable colon _ _ hcolon => ?_
  exact (alike_require (by decide) _ hcolon).bind fun _ _ _ _ => .here

theorem alike_parseCondition (h : Terminated ts) :
    Alike more ts (parseCondition ts) (parseCondition (ts ++ more)) := by
  unfold parseCondition Parsed.followedBy
  refine (Expr.alike_parse h).bind fun condition rest _ _ hrest => ?_
  exact (alike_require (by decide) _ hrest).bind fun _ _ _ _ => .here

mutual

theorem alike_parse {ts : List Lexeme} (h : Terminated ts) :
    Alike more ts (parse ts) (parse (ts ++ more)) := by
  rw [parse, parse]
  rcases h.takeMap?_cases more (rfl : Token.keyword? .endOfFile = none) with
    ⟨hnone, hnone'⟩ | ⟨token, place, after, word, rfl, hword, hafter⟩
  · simp only [hnone, hnone']
    exact alike_parseSimple h
  · simp only [List.cons_append, takeMap?_self hword]
    cases word with
    | forWord =>
      refine Alike.skip ?_
      refine (alike_parseHeader hafter).bind fun header rest hlt _ hrest => ?_
      exact (alike_parseBlock hrest).bind fun _ _ _ _ => .here
    | ifWord =>
      refine Alike.skip ?_
      exact (alike_parseBranches place hafter).bind fun _ _ _ _ => .here
    | defWord =>
      refine Alike.skip ?_
      refine (alike_parseSignature hafter).bind fun signature rest hlt _ hrest => ?_
      exact (alike_parseBlock hrest).bind fun _ _ _ _ => .here
    | returnWord =>
      refine Alike.skip ?_
      exact (alike_parseGiveBack place hafter).bind fun _ _ _ _ => .here
    | _ => exact alike_parseSimple h
termination_by 2 * ts.length
decreasing_by all_goals subst_vars; simp only [List.length_cons] at *; omega

theorem alike_parseBlock {ts : List Lexeme} (h : Terminated ts) :
    Alike more ts (parseBlock ts) (parseBlock (ts ++ more)) := by
  rw [parseBlock, parseBlock]
  rcases h.take?_cases more (by decide : Token.newline ≠ .endOfFile) with
    ⟨hnone, hnone'⟩ | ⟨place, after, rfl, hafter⟩
  · simp only [hnone, hnone']
    exact (alike_parseSimple h).bind fun _ _ _ _ => .here
  · simp only [List.cons_append, take?_self]
    refine Alike.skip ?_
    refine (alike_require (by decide) _ hafter).bind fun _ inside hlt _ hinside => ?_
    refine (alike_parseBody hinside).bind fun body rest _ _ hrest => ?_
    exact (alike_require (by decide) _ hrest).bind fun _ _ _ _ => .here
termination_by 2 * ts.length
decreasing_by subst_vars; simp only [List.length_cons] at *; omega

theorem alike_parseBody {ts : List Lexeme} (h : Terminated ts) :
    Alike more ts (parseBody ts) (parseBody (ts ++ more)) := by
  rw [parseBody, parseBody, h.next_append]
  split
  · exact .here h
  · refine (alike_parse h).bind fun s rest hlt _ hrest => ?_
    exact (alike_parseBody hrest).bind fun _ _ _ _ => .here
termination_by 2 * ts.length + 1

theorem alike_parseBranches (location : Location) {ts : List Lexeme} (h : Terminated ts) :
    Alike more ts (parseBranches location ts) (parseBranches location (ts ++ more)) := by
  rw [parseBranches, parseBranches]
  refine (alike_parseCondition h).bind fun condition after hltAfter _ hafter => ?_
  refine (alike_parseBlock hafter).bind fun body rest hlt _ hrest => ?_
  rcases hrest.take?_cases more (by decide : Token.keyword .elifWord ≠ .endOfFile) with
    ⟨helif, helif'⟩ | ⟨here, inside, rfl, hinside⟩
  · rcases hrest.take?_cases more (by decide : Token.keyword .elseWord ≠ .endOfFile) with
      ⟨helse, helse'⟩ | ⟨here, inside, rfl, hinside⟩
    · simp only [helif, helif', helse, helse']
      exact .here hrest
    · rw [List.cons_append] at helif'
      simp only [List.cons_append, helif, helif', take?_self]
      refine Alike.skip ?_
      refine (alike_require (by decide) _ hinside).bind fun _ colon hltColon _ hcolon => ?_
      exact (alike_parseBlock hcolon).bind fun _ _ _ _ => .here
  · simp only [List.cons_append, take?_self]
    refine Alike.skip ?_
    exact (alike_parseBranches here hinside).bind fun _ _ _ _ => .here
termination_by 2 * ts.length
decreasing_by all_goals subst_vars; simp only [List.length_cons] at *; omega

end

end Stmt

/-- From any position of tokens with an end, a reader fails, or it reads something and comes to a
position that is larger by a number at least and not beyond the end; and it does so whatever
stands after the end. -/
def Advances {bound : List Lexeme → Nat} (least : Nat)
    (reader : ∀ ts, Except SyntaxError (Parsed α (bound ts))) : Prop :=
  ∀ tokens position, Terminated tokens → position < tokens.length →
    (∃ error, ∀ more, reader ((tokens ++ more).drop position) = .error error) ∨
    ∃ value later, position + least ≤ later ∧ later < tokens.length ∧
      ∀ more, Reads (reader ((tokens ++ more).drop position)) value ((tokens ++ more).drop later)

/-- From any position on the tokens have an end. -/
theorem Lexeme.Terminated.drop (h : Terminated ts) {position : Nat}
    (hposition : position < ts.length) : Terminated (ts.drop position) := by
  obtain ⟨body, place, rfl, hbody⟩ := h
  have hle : position ≤ body.length := by simpa using Nat.le_of_lt_succ (by simpa using hposition)
  exact ⟨body.drop position, place, List.drop_append_of_le_length hle,
    fun t ht => hbody t (List.mem_of_mem_drop ht)⟩

/-- A reader whose outcomes are alike has one error, or reads one thing and leaves the same tokens
up to the end. -/
theorem settled_of_alike {bound : List Lexeme → Nat}
    {reader : ∀ ts, Except SyntaxError (Parsed α (bound ts))}
    (h : ∀ more, Alike more ts (reader ts) (reader (ts ++ more))) :
    (∃ e, ∀ more, reader (ts ++ more) = .error e) ∨
      ∃ a rest, rest <:+ ts ∧ Terminated rest ∧ Reads (reader ts) a rest ∧
        ∀ more, Reads (reader (ts ++ more)) a (rest ++ more) := by
  cases hreader : reader ts with
  | error e =>
    simp only [hreader] at h
    exact .inl ⟨e, fun more => (h more).eq_error⟩
  | ok p =>
    simp only [hreader] at h
    obtain ⟨hsuffix, hrest, -⟩ := (h []).reads
    exact .inr ⟨p.value, p.rest, hsuffix, hrest, ⟨p.rest_lt, rfl⟩, fun more => (h more).reads.2.2⟩

/-- A reader that does not depend on what stands after the end advances by as much as it takes. -/
theorem advances_of_alike {bound : List Lexeme → Nat} {least : Nat}
    {reader : ∀ ts, Except SyntaxError (Parsed α (bound ts))}
    (halike : ∀ more ts, Terminated ts → Alike more ts (reader ts) (reader (ts ++ more)))
    (htakes : ∀ ts a rest, Reads (reader ts) a rest → rest.length + least ≤ ts.length) :
    Advances least reader := by
  intro tokens position htokens hposition
  have hts := htokens.drop hposition
  have hdrop : ∀ more, (tokens ++ more).drop position = tokens.drop position ++ more :=
    fun more => List.drop_append_of_le_length (Nat.le_of_lt hposition)
  rcases settled_of_alike fun more => halike more _ hts with
    ⟨e, herror⟩ | ⟨a, rest, hsuffix, hrest, hreads, hmore⟩
  · refine .inl ⟨e, fun more => ?_⟩
    rw [hdrop]
    exact herror more
  · have htaken := htakes _ _ _ hreads
    obtain ⟨before, hbefore⟩ := hsuffix.trans (List.drop_suffix position tokens)
    have hlength := congrArg List.length hbefore
    have hsome := List.length_pos_of_ne_nil hrest.ne_nil
    rw [List.length_drop] at htaken
    rw [List.length_append] at hlength
    refine .inr ⟨a, before.length, by omega, by omega, fun more => ?_⟩
    have hafter : (tokens ++ more).drop before.length = rest ++ more := by
      rw [← hbefore, List.append_assoc, List.drop_left]
    rw [hdrop, hafter]
    exact hmore more

/-- A reader that leaves fewer tokens than there were advances. -/
theorem advances_of_lt {reader : (ts : List Lexeme) → Except SyntaxError (Parsed α ts.length)}
    (halike : ∀ more ts, Terminated ts → Alike more ts (reader ts) (reader (ts ++ more))) :
    Advances 1 reader :=
  advances_of_alike halike fun _ _ _ h => h.fst

/-- A reader that leaves no more tokens than there were does not go back. -/
theorem advances_of_le {reader : (ts : List Lexeme) → Except SyntaxError (Parsed α (ts.length + 1))}
    (halike : ∀ more ts, Terminated ts → Alike more ts (reader ts) (reader (ts ++ more))) :
    Advances 0 reader :=
  advances_of_alike halike fun _ _ _ h => Nat.le_of_lt_succ h.fst

/-- A return statement is not empty: what is returned is read, or the end of the line. -/
theorem Stmt.length_lt_of_parseGiveBack {location : Location} {rest : List Lexeme} {s : Stmt}
    (h : Reads (parseGiveBack location ts) s rest) : rest.length + 1 ≤ ts.length := by
  rcases reads_parseGiveBack.mp h with ⟨hline, hend, -⟩ | ⟨-, value, mid, hvalue, hend, -⟩
  · rcases reads_parseEnd.mp hend with ⟨place, rfl⟩ | ⟨hlast, -⟩
    · simp
    · cases hline.symm.trans hlast
  · have hvalueLt := hvalue.fst
    have hendLe := hend.fst
    omega

/-- The tokens of a text have an end. -/
theorem Lexeme.terminated_scan {text : String} {tokens : List Lexeme} (h : scan text = .ok tokens) :
    Terminated tokens := by
  have hrun : Scanner.tokens ⟨.start, .origin, [], text.toList⟩ = .ok tokens := h
  obtain ⟨body, ⟨token, place⟩, rfl, rfl, hbody⟩ := Scanner.tokens_end _ hrun
  exact ⟨body, place, rfl, hbody⟩

namespace Program

/-- The loop over the statements of a program, from a position of its tokens on: the number of its
passes, and what comes of it. Each pass passes over the end of a line or reads a statement; the
loop ends at the end of the text, at an indentation, or with a statement that cannot be read. -/
inductive Sweep (tokens : List Lexeme) : Nat → Nat → Except SyntaxError Program → Prop where
  | finished {position : Nat} {place : Location}
    (here : tokens[position]? = some ⟨.endOfFile, place⟩) : Sweep tokens position 0 (.ok [])
  | indented {position : Nat} {place : Location}
    (here : tokens[position]? = some ⟨.indent, place⟩) :
    Sweep tokens position 0 (.error ⟨.unexpectedIndent, place⟩)
  | blank {position passes : Nat} {place : Location} {outcome : Except SyntaxError Program}
    (here : tokens[position]? = some ⟨.newline, place⟩)
    (others : Sweep tokens (position + 1) passes outcome) :
    Sweep tokens position (passes + 1) outcome
  | refused {position : Nat} {t : Lexeme} {error : SyntaxError}
    (here : tokens[position]? = some t) (starts : t.token ∉ [.endOfFile, .newline, .indent])
    (read : Stmt.parse (tokens.drop position) = .error error) :
    Sweep tokens position 0 (.error error)
  | statement {position later passes : Nat} {t : Lexeme} {s : Stmt}
    {outcome : Except SyntaxError Program}
    (here : tokens[position]? = some t) (starts : t.token ∉ [.endOfFile, .newline, .indent])
    (read : Reads (Stmt.parse (tokens.drop position)) s (tokens.drop later))
    (others : Sweep tokens later passes outcome) :
    Sweep tokens position (passes + 1) (outcome.map (s :: ·))

/-- From any position on, the loop over the statements makes fewer passes than there are tokens
left, and what stands after the end changes nothing of what comes of it. -/
theorem exists_sweep {tokens : List Lexeme} (h : Terminated tokens) {position : Nat}
    (hposition : position < tokens.length) :
    ∃ passes outcome, passes + position < tokens.length ∧ Sweep tokens position passes outcome ∧
      ∀ more, ofLexemes ((tokens ++ more).drop position) = outcome := by
  obtain ⟨t, hhere⟩ : ∃ t, tokens[position]? = some t := ⟨_, List.getElem?_eq_getElem hposition⟩
  have hdrop : ∀ more,
      (tokens ++ more).drop position = t :: (tokens ++ more).drop (position + 1) := by
    intro more
    have hfirst : (tokens ++ more)[position]? = some t := by
      rw [List.getElem?_append_left hposition, hhere]
    obtain ⟨hlt, rfl⟩ := List.getElem?_eq_some_iff.mp hfirst
    exact List.drop_eq_getElem_cons hlt
  by_cases hlayout : t.token ∉ [.endOfFile, .newline, .indent]
  · have hbind : ∀ more, ofLexemes ((tokens ++ more).drop position) =
        Stmt.parse ((tokens ++ more).drop position) >>=
          fun p => (ofLexemes p.rest).map (p.value :: ·) :=
      fun more => ofLexemes_eq_bind (by rwa [hdrop])
    rcases advances_of_lt (fun _ _ => Stmt.alike_parse) tokens position h hposition with
      ⟨e, herror⟩ | ⟨s, later, hlater, hinside, hreads⟩
    · have hself := herror []
      rw [List.append_nil] at hself
      refine ⟨0, .error e, by omega, .refused hhere hlayout hself, fun more => ?_⟩
      rw [hbind, herror]
      rfl
    · obtain ⟨passes, outcome, hpasses, hsweep, hothers⟩ := exists_sweep h hinside
      have hself := hreads []
      rw [List.append_nil] at hself
      refine ⟨passes + 1, outcome.map (s :: ·), by omega,
        .statement hhere hlayout hself hsweep, fun more => ?_⟩
      obtain ⟨hlt, hread⟩ := hreads more
      rw [hbind, hread, ← hothers more]
      rfl
  · obtain ⟨token, place⟩ := t
    simp only [Decidable.not_not, List.mem_cons, List.not_mem_nil, or_false] at hlayout
    rcases hlayout with rfl | rfl | rfl
    · refine ⟨0, .ok [], by omega, .finished hhere, fun more => ?_⟩
      exact ofLexemes_end (by rw [hdrop]; rfl)
    · have hinside : position + 1 < tokens.length := by
        have hrest := h.drop hposition
        have hcons := hdrop []
        simp only [List.append_nil] at hcons
        rw [hcons] at hrest
        exact Nat.lt_of_not_le (mt List.drop_eq_nil_of_le (hrest.tail nofun).ne_nil)
      obtain ⟨passes, outcome, hpasses, hsweep, hothers⟩ := exists_sweep h hinside
      refine ⟨passes + 1, outcome, by omega, .blank hhere hsweep, fun more => ?_⟩
      rw [hdrop, ofLexemes_newline]
      exact hothers more
    · refine ⟨0, .error ⟨.unexpectedIndent, place⟩, by omega, .indented hhere, fun more => ?_⟩
      rw [hdrop, ofLexemes_indent]
termination_by tokens.length - position

/-- A text has an error in its tokens, or the loop over its statements ends, after fewer passes
than there are tokens. -/
theorem parse_sweeps (text : String) :
    (∃ error, scan text = .error error ∧ parse text = .error error) ∨
      ∃ tokens, scan text = .ok tokens ∧ Terminated tokens ∧
        ∃ passes < tokens.length, Sweep tokens 0 passes (parse text) ∧
          ∀ more, ofLexemes (tokens ++ more) = parse text := by
  rw [parse]
  cases hscan : scan text with
  | error e => exact .inl ⟨e, rfl, rfl⟩
  | ok tokens =>
    have htokens := terminated_scan hscan
    obtain ⟨passes, outcome, hpasses, hsweep, hmore⟩ :=
      exists_sweep htokens (List.length_pos_of_ne_nil htokens.ne_nil)
    obtain rfl : ofLexemes tokens = outcome := by simpa using hmore []
    exact .inr ⟨tokens, rfl, htokens, passes, hpasses, hsweep, hmore⟩

end Program

/-- Every reader of statements and expressions moves on if it succeeds, and every loop inside one,
with the end of a statement, at least stays where it is; none goes beyond the end of the tokens or
depends on anything after it. So a text whose tokens can be read has a program, or an error, after
fewer passes over its statements than it has tokens. -/
theorem readers_advance :
    (Advances 1 Stmt.parse ∧ Advances 1 Stmt.parseBlock ∧ Advances 1 Stmt.parseSimple ∧
      (∀ location, Advances 1 (Stmt.parseBranches location)) ∧
      (∀ location, Advances 1 (Stmt.parseGiveBack location)) ∧
      Advances 1 Stmt.parseHeader ∧ Advances 1 Stmt.parseCondition ∧
      Advances 1 Stmt.parseSignature ∧ (∀ before, Advances 1 (Stmt.parseParams before)) ∧
      Advances 1 Stmt.parseName ∧
      ∀ token what, token ≠ .endOfFile → Advances 1 (require token what)) ∧
    (Advances 1 Expr.parseList ∧ Advances 1 Expr.parse ∧
      (∀ tier, Advances 1 (Expr.parseChain tier)) ∧
      (∀ tier, Advances 1 (Expr.parseOperand tier)) ∧
      Advances 1 Expr.parseFactor ∧ Advances 1 Expr.parsePower ∧ Advances 1 Expr.parseAtom ∧
      Advances 1 Expr.parseArgs) ∧
    (Advances 0 Stmt.parseBody ∧ Advances 0 Stmt.parseSides ∧ Advances 0 Stmt.parseEnd ∧
      Advances 0 Expr.parseMore ∧ ∀ tier left, Advances 0 (Expr.parseChainTail tier left)) ∧
    ∀ text, (∃ error, scan text = .error error ∧ Program.parse text = .error error) ∨
      ∃ tokens, scan text = .ok tokens ∧ Terminated tokens ∧
        ∃ passes < tokens.length, Program.Sweep tokens 0 passes (Program.parse text) ∧
          ∀ more, Program.ofLexemes (tokens ++ more) = Program.parse text := by
  refine ⟨⟨?_, ?_, ?_, fun location => ?_, fun location => ?_, ?_, ?_, ?_, fun before => ?_, ?_,
      fun token what hend => ?_⟩,
    ⟨?_, ?_, fun tier => ?_, fun tier => ?_, ?_, ?_, ?_, ?_⟩,
    ⟨?_, ?_, ?_, ?_, fun tier left => ?_⟩, Program.parse_sweeps⟩
  · exact advances_of_lt fun _ _ => Stmt.alike_parse
  · exact advances_of_lt fun _ _ => Stmt.alike_parseBlock
  · exact advances_of_lt fun _ _ => Stmt.alike_parseSimple
  · exact advances_of_lt fun _ _ => Stmt.alike_parseBranches location
  · exact advances_of_alike (fun _ _ => Stmt.alike_parseGiveBack location)
      fun _ _ _ => Stmt.length_lt_of_parseGiveBack
  · exact advances_of_lt fun _ _ => Stmt.alike_parseHeader
  · exact advances_of_lt fun _ _ => Stmt.alike_parseCondition
  · exact advances_of_lt fun _ _ => Stmt.alike_parseSignature
  · exact advances_of_lt fun _ _ => Stmt.alike_parseParams before
  · exact advances_of_lt fun _ _ => Stmt.alike_parseName
  · exact advances_of_lt fun _ _ => alike_require hend what
  · exact advances_of_lt fun _ _ => Expr.alike_parseList
  · exact advances_of_lt fun _ _ => Expr.alike_parse
  · exact advances_of_lt fun _ _ => Expr.alike_parseChain tier
  · exact advances_of_lt fun _ _ => Expr.alike_parseOperand tier
  · exact advances_of_lt fun _ _ => Expr.alike_parseFactor
  · exact advances_of_lt fun _ _ => Expr.alike_parsePower
  · exact advances_of_lt fun _ _ => Expr.alike_parseAtom
  · exact advances_of_lt fun _ _ => Expr.alike_parseArgs
  · exact advances_of_le fun _ _ => Stmt.alike_parseBody
  · exact advances_of_le fun _ _ => Stmt.alike_parseSides
  · exact advances_of_le fun _ _ => Stmt.alike_parseEnd
  · exact advances_of_le fun _ _ => Expr.alike_parseMore
  · exact advances_of_le fun _ _ => Expr.alike_parseChainTail tier left

/-- The tokens of a call, with nothing after it but the end of the text. -/
def Sample.callTokens : List Lexeme :=
  [⟨.name "f", ⟨1, 1⟩⟩, ⟨.symbol .leftParen, ⟨1, 2⟩⟩, ⟨.name "x", ⟨1, 3⟩⟩,
    ⟨.symbol .rightParen, ⟨1, 4⟩⟩, ⟨.endOfFile, ⟨1, 5⟩⟩]

/-- Its statement is read up to the end and no further. -/
theorem call_read_to_end : Terminated Sample.callTokens ∧ 0 < Sample.callTokens.length ∧
    ∃ value, ∀ more, Reads (Stmt.parse (Sample.callTokens ++ more)) value
      ((Sample.callTokens ++ more).drop 4) := by
  have hterminated : Terminated Sample.callTokens :=
    ⟨Sample.callTokens.take 4, ⟨1, 5⟩, rfl, by decide⟩
  have heval : (Stmt.parse Sample.callTokens).toOption.map (·.rest.length) = some 1 := by
    decide +kernel
  refine ⟨hterminated, by decide, ?_⟩
  rcases readers_advance.1.1 Sample.callTokens 0 hterminated (by decide) with
    ⟨e, herror⟩ | ⟨value, later, -, hinside, hreads⟩
  · have hself : Stmt.parse Sample.callTokens = .error e := herror []
    rw [hself] at heval
    cases heval
  · obtain ⟨hlt, hself⟩ :
        Reads (Stmt.parse Sample.callTokens) value (Sample.callTokens.drop later) := hreads []
    rw [hself] at heval
    have hleft : Sample.callTokens.length - later = 1 := by
      simpa [Except.toOption] using heval
    have hlater : later = 4 := by
      change 5 - later = 1 at hleft
      omega
    rw [hlater] at hreads
    exact ⟨value, hreads⟩

end Walkthrough
