import Walkthrough.Proofs.Derivations

/-!
# The grammar of statements

The grammar of statements is told apart from its readers, as that of expressions is: one rule for
each kind of thing that is read, one constructor for each of its alternatives. An outline holds
the derivations of its expressions and the places of its other tokens, so its tokens and what
they make are computed from it. Whatever a reader reads is what an outline of the tokens that it
took makes. So what tokens hand on to the statements made of them is proved by induction on
outlines, without a walk through the readers.
-/

namespace Walkthrough

open Lexeme

/-- The rules of the grammar of statements. -/
inductive Rule where
  /-- The end of a statement. -/
  | ending
  /-- The further sides of an assignment. -/
  | sides
  | simple
  /-- What stands between the parentheses of a definition. -/
  | parameters
  /-- What follows the first parameter. -/
  | moreParameters
  | statement
  | block
  /-- The statements of a block. -/
  | body
  /-- A branch without its word, and what follows it. -/
  | branch
  /-- What follows a branch. -/
  | otherwise
  | program

/-- What is made of the tokens of a rule. A branch is at the place of its word, which is read
before it. -/
abbrev Rule.Meaning : Rule → Type
  | ending => Unit
  | sides => List Expr
  | simple => Stmt
  | parameters => List String
  | moreParameters => List String
  | statement => Stmt
  | block => List Stmt
  | body => List Stmt
  | branch => Location → List Branch × Option Otherwise
  | otherwise => List Branch × Option Otherwise
  | program => Program

/-- An outline of tokens from a rule. -/
inductive Outline : Rule → Type where
  /-- ending: end of line, or nothing before the end of the text -/
  | line (place : Location) : Outline .ending
  | lastLine : Outline .ending
  /-- sides: (`=` list)* -/
  | noSide : Outline .sides
  | oneSide (sign : Location) (side : Derivation .list) (others : Outline .sides) : Outline .sides
  /-- simple: list sides ending -/
  | simple (first : Derivation .list) (others : Outline .sides) (ending : Outline .ending) :
    Outline .simple
  /-- parameters: [name (`,` name)*] -/
  | noParameters : Outline .parameters
  | parameters (id : String) (place : Location) (others : Outline .moreParameters) :
    Outline .parameters
  | noMoreParameters : Outline .moreParameters
  | oneMoreParameter (comma : Location) (id : String) (place : Location)
    (others : Outline .moreParameters) : Outline .moreParameters
  /-- statement: `for` list `in` expression `:` block -/
  | loop (word : Location) (target : Derivation .list) (inWord : Location)
    (iterable : Derivation .expression) (colon : Location) (body : Outline .block) :
    Outline .statement
  /-- statement: `if` branch -/
  | choose (word : Location) (first : Outline .branch) : Outline .statement
  /-- statement: `def` name `(` parameters `)` `:` block -/
  | define (word : Location) (name : String) (place opening : Location)
    (params : Outline .parameters) (closing colon : Location) (body : Outline .block) :
    Outline .statement
  /-- statement: `return` end of line | `return` list ending -/
  | giveNothing (word lineEnd : Location) : Outline .statement
  | giveBack (word : Location) (value : Derivation .list) (ending : Outline .ending) :
    Outline .statement
  /-- statement: simple -/
  | plain (only : Outline .simple) : Outline .statement
  /-- block: simple | end of line, indent, body, dedent -/
  | inline (only : Outline .simple) : Outline .block
  | indented (lineEnd indent : Location) (body : Outline .body) (dedent : Location) : Outline .block
  /-- body: statement* -/
  | noStatement : Outline .body
  | oneStatement (first : Outline .statement) (others : Outline .body) : Outline .body
  /-- branch: expression `:` block otherwise -/
  | branch (condition : Derivation .expression) (colon : Location) (body : Outline .block)
    (others : Outline .otherwise) : Outline .branch
  /-- otherwise: [`elif` branch | `else` `:` block] -/
  | nothing : Outline .otherwise
  | further (word : Location) (inner : Outline .branch) : Outline .otherwise
  | alternative (word colon : Location) (body : Outline .block) : Outline .otherwise
  /-- program: (statement | end of line)* -/
  | finished : Outline .program
  | emptyLine (place : Location) (others : Outline .program) : Outline .program
  | nextStatement (first : Outline .statement) (others : Outline .program) : Outline .program

namespace Outline

/-- The tokens of an outline. -/
def tokens : {r : Rule} → Outline r → List Lexeme
  | _, line place => [⟨.newline, place⟩]
  | _, lastLine => []
  | _, noSide => []
  | _, oneSide sign side others => ⟨.symbol .assign, sign⟩ :: (side.tokens ++ others.tokens)
  | _, simple first others ending => first.tokens ++ (others.tokens ++ ending.tokens)
  | _, noParameters => []
  | _, parameters id place others => ⟨.name id, place⟩ :: others.tokens
  | _, noMoreParameters => []
  | _, oneMoreParameter comma id place others =>
    ⟨.symbol .comma, comma⟩ :: ⟨.name id, place⟩ :: others.tokens
  | _, loop word target inWord iterable colon body =>
    ⟨.keyword .forWord, word⟩ :: (target.tokens ++ ⟨.keyword .inWord, inWord⟩ ::
      (iterable.tokens ++ ⟨.symbol .colon, colon⟩ :: body.tokens))
  | _, choose word first => ⟨.keyword .ifWord, word⟩ :: first.tokens
  | _, define word name place opening params closing colon body =>
    ⟨.keyword .defWord, word⟩ :: ⟨.name name, place⟩ :: ⟨.symbol .leftParen, opening⟩ ::
      (params.tokens ++ ⟨.symbol .rightParen, closing⟩ :: ⟨.symbol .colon, colon⟩ :: body.tokens)
  | _, giveNothing word lineEnd => [⟨.keyword .returnWord, word⟩, ⟨.newline, lineEnd⟩]
  | _, giveBack word value ending => ⟨.keyword .returnWord, word⟩ :: (value.tokens ++ ending.tokens)
  | _, plain only => only.tokens
  | _, inline only => only.tokens
  | _, indented lineEnd indent body dedent =>
    ⟨.newline, lineEnd⟩ :: ⟨.indent, indent⟩ :: (body.tokens ++ [⟨.dedent, dedent⟩])
  | _, noStatement => []
  | _, oneStatement first others => first.tokens ++ others.tokens
  | _, branch condition colon body others =>
    condition.tokens ++ ⟨.symbol .colon, colon⟩ :: (body.tokens ++ others.tokens)
  | _, nothing => []
  | _, further word inner => ⟨.keyword .elifWord, word⟩ :: inner.tokens
  | _, alternative word colon body =>
    ⟨.keyword .elseWord, word⟩ :: ⟨.symbol .colon, colon⟩ :: body.tokens
  | _, finished => []
  | _, emptyLine place others => ⟨.newline, place⟩ :: others.tokens
  | _, nextStatement first others => first.tokens ++ others.tokens

/-- What an outline makes. A simple statement is at the place of its first token, any other one at
that of its word. -/
def meaning : {r : Rule} → Outline r → r.Meaning
  | _, line _ => ()
  | _, lastLine => ()
  | _, noSide => []
  | _, oneSide _ side others => side.meaning :: others.meaning
  | _, simple first others _ =>
    Stmt.ofSides first.meaning others.meaning (next first.tokens).location
  | _, noParameters => []
  | _, parameters id _ others => id :: others.meaning
  | _, noMoreParameters => []
  | _, oneMoreParameter _ id _ others => id :: others.meaning
  | _, loop word target _ iterable _ body =>
    .loop target.meaning iterable.meaning body.meaning word
  | _, choose word first => .choose (first.meaning word).1 (first.meaning word).2 word
  | _, define word name _ _ params _ _ body => .define name params.meaning body.meaning word
  | _, giveNothing word _ => .giveBack none word
  | _, giveBack word value _ => .giveBack (some value.meaning) word
  | _, plain only => only.meaning
  | _, inline only => [only.meaning]
  | _, indented _ _ body _ => body.meaning
  | _, noStatement => []
  | _, oneStatement first others => first.meaning :: others.meaning
  | _, branch condition _ body others => fun word =>
    (.mk condition.meaning body.meaning word :: others.meaning.1, others.meaning.2)
  | _, nothing => ([], none)
  | _, further word inner => inner.meaning word
  | _, alternative word _ body => ([], some (.mk body.meaning word))
  | _, finished => []
  | _, emptyLine _ others => others.meaning
  | _, nextStatement first others => first.meaning :: others.meaning

end Outline

/-- Some tokens start with those of an outline that makes this, and these are left. -/
def Rule.Takes (r : Rule) (ts : List Lexeme) (made : r.Meaning) (rest : List Lexeme) : Prop :=
  ∃ d : Outline r, ts = d.tokens ++ rest ∧ d.meaning = made

namespace Stmt

open Walkthrough.Expr (takes_parseList next_of_taken)

/-- The end of a statement has an outline. -/
theorem takes_parseEnd {ts rest : List Lexeme} (h : Reads (parseEnd ts) () rest) :
    Rule.ending.Takes ts () rest := by
  rcases reads_parseEnd.mp h with ⟨place, rfl⟩ | ⟨-, rfl⟩
  · exact ⟨.line place, rfl, rfl⟩
  · exact ⟨.lastLine, rfl, rfl⟩

/-- Further sides of an assignment that are read have an outline. -/
theorem takes_parseSides {ts rest : List Lexeme} {sides : List Expr}
    (h : Reads (parseSides ts) sides rest) : Rule.sides.Takes ts sides rest := by
  rcases reads_parseSides.mp h with
    ⟨-, rfl, rfl⟩ | ⟨place, after, rfl, side, mid, hside, others, hothers, rfl⟩
  · exact ⟨.noSide, rfl, rfl⟩
  · have hlt := hside.fst
    obtain ⟨first, hafter, rfl⟩ := takes_parseList hside
    obtain ⟨more, rfl, rfl⟩ := takes_parseSides hothers
    refine ⟨.oneSide place first more, ?_, rfl⟩
    rw [hafter, ← List.append_assoc]
    rfl
termination_by ts.length
decreasing_by subst_vars; simp only [List.length_cons] at *; omega

/-- A simple statement that is read has an outline. -/
theorem takes_parseSimple {ts rest : List Lexeme} {s : Stmt} (h : Reads (parseSimple ts) s rest) :
    Rule.simple.Takes ts s rest := by
  obtain ⟨first, mid, hfirst, others, after, hothers, hend, rfl⟩ := reads_parseSimple.mp h
  have hlt := hfirst.fst
  obtain ⟨left, hts, rfl⟩ := takes_parseList hfirst
  obtain ⟨more, rfl, rfl⟩ := takes_parseSides hothers
  obtain ⟨ending, rfl, -⟩ := takes_parseEnd hend
  refine ⟨.simple left more ending, ?_, ?_⟩
  · simp only [hts, Outline.tokens, List.append_assoc]
  · rw [Outline.meaning, next_of_taken hts hlt]

/-- Parameters that are read have an outline. -/
theorem takes_parseParams {before params : List String} {ts rest : List Lexeme}
    (h : Reads (parseParams before ts) params rest) : ∃ id place,
      ∃ more : Outline .moreParameters,
        ts = ⟨.name id, place⟩ :: (more.tokens ++ rest) ∧ id :: more.meaning = params := by
  obtain ⟨⟨id, place⟩, mid, hname, -, hkind⟩ := reads_parseParams.mp h
  obtain ⟨token, rfl, hid⟩ := reads_parseName.mp hname
  cases Token.name?_eq_some.mp hid
  rcases hkind with ⟨-, rfl, rfl⟩ | ⟨comma, after, rfl, others, hothers, rfl⟩
  · exact ⟨id, place, .noMoreParameters, rfl, rfl⟩
  · obtain ⟨second, secondPlace, more, rfl, rfl⟩ := takes_parseParams hothers
    exact ⟨id, place, .oneMoreParameter comma second secondPlace more, rfl, rfl⟩
termination_by ts.length
decreasing_by subst_vars; simp only [List.length_cons] at *; omega

/-- The head of a definition that is read is a name, parameters with an outline in parentheses
and a colon. -/
theorem takes_parseSignature {ts rest : List Lexeme} {name : String} {params : List String}
    (h : Reads (parseSignature ts) (name, params) rest) : ∃ place opening closing colon,
      ∃ given : Outline .parameters,
        ts = ⟨.name name, place⟩ :: ⟨.symbol .leftParen, opening⟩ :: (given.tokens ++
          ⟨.symbol .rightParen, closing⟩ :: ⟨.symbol .colon, colon⟩ :: rest) ∧
        given.meaning = params := by
  obtain ⟨place, opening, inside, hname, closing, colon, after, rfl, hkind⟩ :=
    reads_parseSignature.mp h
  obtain ⟨token, rfl, hid⟩ := reads_parseName.mp hname
  cases Token.name?_eq_some.mp hid
  rcases hkind with ⟨-, rfl, rfl⟩ | ⟨-, hparams⟩
  · exact ⟨place, opening, closing, colon, .noParameters, rfl, rfl⟩
  · obtain ⟨id, idPlace, more, rfl, rfl⟩ := takes_parseParams hparams
    exact ⟨place, opening, closing, colon, .parameters id idPlace more, rfl, rfl⟩

/-- A return that is read has an outline with its word. -/
theorem takes_parseGiveBack {word : Location} {ts rest : List Lexeme} {s : Stmt}
    (h : Reads (parseGiveBack word ts) s rest) :
    Rule.statement.Takes (⟨.keyword .returnWord, word⟩ :: ts) s rest := by
  rcases reads_parseGiveBack.mp h with ⟨hline, hend, rfl⟩ | ⟨-, value, mid, hvalue, hend, rfl⟩
  · rcases reads_parseEnd.mp hend with ⟨place, rfl⟩ | ⟨hlast, -⟩
    · exact ⟨.giveNothing word place, rfl, rfl⟩
    · cases hline.symm.trans hlast
  · obtain ⟨given, rfl, rfl⟩ := takes_parseList hvalue
    obtain ⟨ending, rfl, -⟩ := takes_parseEnd hend
    refine ⟨.giveBack word given ending, ?_, rfl⟩
    simp only [Outline.tokens, List.cons_append, List.append_assoc]

mutual

/-- A statement that is read has an outline. -/
theorem takes_parse {ts rest : List Lexeme} {s : Stmt} (h : Reads (parse ts) s rest) :
    Rule.statement.Takes ts s rest := by
  rcases reads_parse.mp h with
    ⟨word, after, rfl, target, iterable, mid, hheader, body, hbody, rfl⟩ |
    ⟨word, after, rfl, branches, alternative, hbranches, rfl⟩ |
    ⟨word, after, rfl, name, params, mid, hsignature, body, hbody, rfl⟩ |
    ⟨word, after, rfl, hvalue⟩ | ⟨-, hsimple⟩
  · have hlt := hheader.fst
    obtain ⟨block, rfl, rfl⟩ := takes_parseBlock hbody
    obtain ⟨inWord, mid, htarget, colon, hiterable⟩ := reads_parseHeader.mp hheader
    obtain ⟨left, rfl, rfl⟩ := takes_parseList htarget
    obtain ⟨range, rfl, rfl⟩ := Expr.takes_parse hiterable
    refine ⟨.loop word left inWord range colon block, ?_, rfl⟩
    simp only [Outline.tokens, List.cons_append, List.append_assoc]
  · obtain ⟨first, rfl, hmade⟩ := takes_parseBranches hbranches
    refine ⟨.choose word first, rfl, ?_⟩
    rw [Outline.meaning, hmade]
  · have hlt := hsignature.fst
    obtain ⟨block, rfl, rfl⟩ := takes_parseBlock hbody
    obtain ⟨place, opening, closing, colon, given, rfl, rfl⟩ := takes_parseSignature hsignature
    refine ⟨.define word name place opening given closing colon block, ?_, rfl⟩
    simp only [Outline.tokens, List.cons_append, List.append_assoc]
  · exact takes_parseGiveBack hvalue
  · obtain ⟨only, rfl, rfl⟩ := takes_parseSimple hsimple
    exact ⟨.plain only, rfl, rfl⟩
termination_by 2 * ts.length
decreasing_by all_goals subst_vars; simp only [List.length_cons] at *; omega

/-- A block that is read has an outline. -/
theorem takes_parseBlock {ts rest : List Lexeme} {body : List Stmt}
    (h : Reads (parseBlock ts) body rest) : Rule.block.Takes ts body rest := by
  rcases reads_parseBlock.mp h with ⟨-, s, hs, rfl⟩ | ⟨lineEnd, indent, inside, rfl, dedent, hbody⟩
  · obtain ⟨only, rfl, rfl⟩ := takes_parseSimple hs
    exact ⟨.inline only, rfl, rfl⟩
  · obtain ⟨statements, rfl, rfl⟩ := takes_parseBody hbody
    refine ⟨.indented lineEnd indent statements dedent, ?_, rfl⟩
    simp only [Outline.tokens, List.cons_append, List.append_assoc, List.nil_append]
termination_by 2 * ts.length
decreasing_by subst_vars; simp only [List.length_cons] at *; omega

/-- The statements of a block that are read have an outline. -/
theorem takes_parseBody {ts rest : List Lexeme} {body : List Stmt}
    (h : Reads (parseBody ts) body rest) : Rule.body.Takes ts body rest := by
  rcases reads_parseBody.mp h with ⟨-, rfl, rfl⟩ | ⟨-, s, mid, hs, others, hothers, rfl⟩
  · exact ⟨.noStatement, rfl, rfl⟩
  · have hlt := hs.fst
    obtain ⟨more, rfl, rfl⟩ := takes_parseBody hothers
    obtain ⟨first, rfl, rfl⟩ := takes_parse hs
    refine ⟨.oneStatement first more, ?_, rfl⟩
    rw [Outline.tokens, List.append_assoc]
termination_by 2 * ts.length + 1

/-- The branches of a choice that are read have an outline. -/
theorem takes_parseBranches {word : Location} {ts rest : List Lexeme} {branches : List Branch}
    {alternative : Option Otherwise}
    (h : Reads (parseBranches word ts) (branches, alternative) rest) :
    ∃ d : Outline .branch, ts = d.tokens ++ rest ∧ d.meaning word = (branches, alternative) := by
  obtain ⟨condition, after, hcondition, body, mid, hbody, hkind⟩ := reads_parseBranches.mp h
  have hltAfter := hcondition.fst
  have hltMid := hbody.fst
  obtain ⟨block, rfl, rfl⟩ := takes_parseBlock hbody
  obtain ⟨colon, hcondition⟩ := reads_parseCondition.mp hcondition
  obtain ⟨test, rfl, rfl⟩ := Expr.takes_parse hcondition
  rcases hkind with ⟨here, inside, rfl, others, hothers, rfl⟩ |
    ⟨here, colonPlace, inside, rfl, otherwise, hotherwise, rfl, rfl⟩ | ⟨-, -, rfl, rfl, rfl⟩
  · obtain ⟨inner, rfl, hmade⟩ := takes_parseBranches hothers
    refine ⟨.branch test colon block (.further here inner), ?_, ?_⟩
    · simp only [Outline.tokens, List.cons_append, List.append_assoc]
    · simp only [Outline.meaning, hmade]
  · obtain ⟨last, rfl, rfl⟩ := takes_parseBlock hotherwise
    refine ⟨.branch test colon block (.alternative here colonPlace last), ?_, rfl⟩
    simp only [Outline.tokens, List.cons_append, List.append_assoc]
  · refine ⟨.branch test colon block .nothing, ?_, rfl⟩
    simp only [Outline.tokens, List.cons_append, List.append_assoc, List.nil_append]
termination_by 2 * ts.length
decreasing_by all_goals subst_vars; simp only [List.length_cons, List.length_append] at *; omega

end

end Stmt

namespace Program

/-- A program that is read has an outline, and the end of the text comes after it. -/
theorem takes_ofLexemes {ts : List Lexeme} {program : Program} (h : ofLexemes ts = .ok program) :
    ∃ rest, (next rest).token = .endOfFile ∧ Rule.program.Takes ts program rest := by
  by_cases hlayout : (next ts).token ∉ [.endOfFile, .newline, .indent]
  · obtain ⟨s, mid, hs, others, hothers, rfl⟩ := (ofLexemes_statement hlayout).mp h
    have hlt := hs.fst
    obtain ⟨rest, hend, more, rfl, rfl⟩ := takes_ofLexemes hothers
    obtain ⟨first, rfl, rfl⟩ := Stmt.takes_parse hs
    refine ⟨rest, hend, .nextStatement first more, ?_, rfl⟩
    rw [Outline.tokens, List.append_assoc]
  · simp only [Decidable.not_not, List.mem_cons, List.not_mem_nil, or_false] at hlayout
    rcases hlayout with hend | hline | hindent
    · cases (ofLexemes_end hend).symm.trans h
      exact ⟨ts, hend, .finished, rfl, rfl⟩
    · obtain ⟨place, after, rfl⟩ :=
        (take?_cases (by decide : Token.newline ≠ .endOfFile) ts).resolve_left (·.2 hline)
      rw [ofLexemes_newline] at h
      obtain ⟨rest, hend, more, rfl, rfl⟩ := takes_ofLexemes h
      exact ⟨rest, hend, .emptyLine place more, rfl, rfl⟩
    · obtain ⟨place, after, rfl⟩ :=
        (take?_cases (by decide : Token.indent ≠ .endOfFile) ts).resolve_left (·.2 hindent)
      rw [ofLexemes_indent] at h
      cases h
termination_by ts.length
decreasing_by all_goals subst_vars; simp only [List.length_cons] at *; omega

end Program

end Walkthrough
