import Walkthrough.Proofs.Results
import Walkthrough.Stmt.Parser

/-!
# What the readers read

Each reader of the grammar succeeds exactly as its rule says: what it read and which
tokens are left is told by what the readers it calls read. Later proofs put readings
together and take them apart with these statements and never unfold a reader.
-/

namespace Walkthrough

open Lexeme

variable {α β : Type} {m n : Nat}

/-- A reader has read something and left these tokens. -/
def Reads (result : Except SyntaxError (Parsed α n)) (a : α) (rest : List Lexeme) : Prop :=
  ∃ h, result = .ok ⟨a, rest, h⟩

/-- One reader after another reads what both do. -/
theorem reads_bind {x : Except SyntaxError (Parsed α m)}
    {k : Parsed α m → Except SyntaxError (Parsed β n)} {b : β} {rest : List Lexeme} :
    Reads (x >>= k) b rest ↔
      ∃ a mid, ∃ h : Reads x a mid, Reads (k ⟨a, mid, h.fst⟩) b rest := by
  constructor
  · rintro ⟨h, hbind⟩
    obtain ⟨⟨a, mid, hmid⟩, hx, hk⟩ := except_bind_ok.mp hbind
    exact ⟨a, mid, ⟨hmid, hx⟩, h, hk⟩
  · rintro ⟨a, mid, ⟨hmid, hx⟩, h, hk⟩
    exact ⟨h, except_bind_ok.mpr ⟨_, hx, hk⟩⟩

/-- One reader after another, where it is known what the second one reads. -/
theorem reads_bind_iff {x : Except SyntaxError (Parsed α m)}
    {k : Parsed α m → Except SyntaxError (Parsed β n)} {b : β} {rest : List Lexeme}
    {p : α → List Lexeme → Prop} (h : ∀ a mid hmid, Reads (k ⟨a, mid, hmid⟩) b rest ↔ p a mid) :
    Reads (x >>= k) b rest ↔ ∃ a mid, Reads x a mid ∧ p a mid := by
  simp only [reads_bind, h, exists_prop]

/-- What is returned is read. -/
theorem reads_ok {p : Parsed α n} {a : α} {rest : List Lexeme} :
    Reads (.ok p) a rest ↔ p.value = a ∧ p.rest = rest := by
  obtain ⟨value, left, h⟩ := p
  constructor
  · rintro ⟨_, heq⟩
    cases heq
    exact ⟨rfl, rfl⟩
  · rintro ⟨rfl, rfl⟩
    exact ⟨h, rfl⟩

theorem reads_pure {p : Parsed α n} {a : α} {rest : List Lexeme} :
    Reads (pure p) a rest ↔ p.value = a ∧ p.rest = rest := reads_ok

/-- An error reads nothing. -/
theorem not_reads_error {e : SyntaxError} {a : α} {rest : List Lexeme} :
    ¬ Reads (.error e : Except SyntaxError (Parsed α n)) a rest := by
  rintro ⟨_, h⟩
  cases h

/-- A choice between readers reads what the chosen one does. -/
theorem reads_ite {c : Prop} [Decidable c] {x y : Except SyntaxError (Parsed α n)} {a : α}
    {rest : List Lexeme} :
    Reads (if c then x else y) a rest ↔ (c ∧ Reads x a rest) ∨ (¬c ∧ Reads y a rest) := by
  by_cases h : c
  · simp only [h, if_true, true_and, not_true_eq_false, false_and, or_false]
  · simp only [h, if_false, false_and, not_false_eq_true, true_and, false_or]

/-- Tokens that start with another token than a given one, or the given one and the others. -/
theorem take?_cases {token : Token} (hend : token ≠ .endOfFile) (ts : List Lexeme) :
    (take? token ts = none ∧ (next ts).token ≠ token) ∨
      ∃ place rest, ts = ⟨token, place⟩ :: rest := by
  cases ts with
  | nil => exact .inl ⟨rfl, fun h => hend h.symm⟩
  | cons lexeme rest =>
    by_cases h : lexeme.token = token
    · subst h
      exact .inr ⟨lexeme.location, rest, rfl⟩
    · exact .inl ⟨if_neg h, h⟩

theorem take?_self (token : Token) (place : Location) (rest : List Lexeme) :
    take? token (⟨token, place⟩ :: rest) = some ⟨place, rest, Nat.lt_succ_self _⟩ := if_pos rfl

/-- Tokens that start with one of no meaning, or with one that has a meaning. -/
theorem takeMap?_cases {meaning : Token → Option α} (hend : meaning .endOfFile = none)
    (ts : List Lexeme) :
    (takeMap? meaning ts = none ∧ meaning (next ts).token = none) ∨
      ∃ token place rest a, ts = ⟨token, place⟩ :: rest ∧ meaning token = some a := by
  cases ts with
  | nil => exact .inl ⟨rfl, hend⟩
  | cons lexeme rest =>
    cases h : meaning lexeme.token with
    | none => exact .inl ⟨by rw [takeMap?, h]; rfl, h⟩
    | some a => exact .inr ⟨lexeme.token, lexeme.location, rest, a, rfl, h⟩

theorem takeMap?_self {meaning : Token → Option α} {token : Token} {a : α}
    (h : meaning token = some a) (place : Location) (rest : List Lexeme) :
    takeMap? meaning (⟨token, place⟩ :: rest) =
      some ⟨(a, place), rest, Nat.lt_succ_self _⟩ := by
  rw [takeMap?, h]
  rfl

/-- A required token is the next one. -/
theorem reads_require {token : Token} {what : String} {ts rest : List Lexeme} {place : Location} :
    Reads (require token what ts) place rest ↔ ts = ⟨token, place⟩ :: rest := by
  unfold require
  cases ts with
  | nil =>
    constructor
    · exact fun h => absurd h not_reads_error
    · intro h
      cases h
  | cons lexeme after =>
    obtain ⟨found, here⟩ := lexeme
    by_cases h : found = token
    · subst h
      rw [take?_self]
      simp only [reads_ok]
      grind
    · rw [take?, if_neg h]
      constructor
      · exact fun h => absurd h not_reads_error
      · intro heq
        cases heq
        exact absurd rfl h

namespace Expr

/-- A list is one expression, or several with commas after them. -/
theorem reads_parseList {ts rest : List Lexeme} {e : Expr} :
    Reads (parseList ts) e rest ↔ ∃ first mid, Reads (parse ts) first mid ∧
      (((next mid).token ≠ .symbol .comma ∧ first = e ∧ mid = rest) ∨
        ((next mid).token = .symbol .comma ∧ ∃ others, Reads (parseMore mid) others rest ∧
          tuple (first :: others) (next ts).location = e)) := by
  rw [parseList]
  refine reads_bind_iff fun first mid _ => ?_
  rcases take?_cases (by decide : Token.symbol .comma ≠ .endOfFile) mid with
    ⟨hnone, hnext⟩ | ⟨place, after, rfl⟩
  · simp only [hnone, reads_pure]
    grind
  · simp only [take?_self, reads_bind, reads_pure, exists_prop]
    grind [next]

/-- The further parts of a list are none, a comma alone, or a part after a comma and the
parts after it. -/
theorem reads_parseMore {ts rest : List Lexeme} {items : List Expr} :
    Reads (parseMore ts) items rest ↔
      ((next ts).token ≠ .symbol .comma ∧ [] = items ∧ ts = rest) ∨
        ∃ place after, ts = ⟨.symbol .comma, place⟩ :: after ∧
          (((next after).token.startsExpr = false ∧ [] = items ∧ after = rest) ∨
            ((next after).token.startsExpr = true ∧ ∃ item mid, Reads (parse after) item mid ∧
              ∃ others, Reads (parseMore mid) others rest ∧ item :: others = items)) := by
  rw [parseMore]
  rcases take?_cases (by decide : Token.symbol .comma ≠ .endOfFile) ts with
    ⟨hnone, hnext⟩ | ⟨place, after, rfl⟩
  · simp only [hnone, reads_pure, Parsed.unmoved]
    grind [next]
  · simp only [take?_self, reads_ite, reads_bind, reads_pure, exists_prop]
    grind [next]

/-- An expression is a sum, or a comparison of two sums that no other comparison
follows. -/
theorem reads_parse {ts rest : List Lexeme} {e : Expr} :
    Reads (parse ts) e rest ↔ ∃ left mid, Reads (parseChain .sum ts) left mid ∧
      (((next mid).token.comparison? = none ∧ left = e ∧ mid = rest) ∨
        ∃ token place after op, mid = ⟨token, place⟩ :: after ∧ token.comparison? = some op ∧
          ∃ right, Reads (parseChain .sum after) right rest ∧
            (next rest).token.comparison? = none ∧ compare op left right place = e) := by
  rw [parse]
  refine reads_bind_iff fun left mid _ => ?_
  rcases takeMap?_cases (rfl : Token.comparison? .endOfFile = none) mid with
    ⟨hnone, hnext⟩ | ⟨token, place, after, op, rfl, hop⟩
  · simp only [hnone, reads_pure]
    grind [next]
  · simp only [takeMap?_self hop, reads_bind, reads_ite, not_reads_error, reads_pure, exists_prop,
      Option.not_isSome_iff_eq_none]
    grind [next]

/-- A chain is an operand and what follows it. -/
theorem reads_parseChain {tier : Tier} {ts rest : List Lexeme} {e : Expr} :
    Reads (parseChain tier ts) e rest ↔ ∃ first mid, Reads (parseOperand tier ts) first mid ∧
      Reads (parseChainTail tier first mid) e rest := by
  rw [parseChain, reads_bind]
  simp only [reads_bind, reads_pure, exists_prop]
  grind

/-- An expression goes on as a chain with no operator, or with one and its right operand. -/
theorem reads_parseChainTail {tier : Tier} {left e : Expr} {ts rest : List Lexeme} :
    Reads (parseChainTail tier left ts) e rest ↔
      (tier.operator? (next ts).token = none ∧ left = e ∧ ts = rest) ∨
        ∃ token place after op, ts = ⟨token, place⟩ :: after ∧ tier.operator? token = some op ∧
          ∃ right mid, Reads (parseOperand tier after) right mid ∧
            Reads (parseChainTail tier (binary op left right place) mid) e rest := by
  rw [parseChainTail]
  rcases takeMap?_cases (by cases tier <;> rfl : tier.operator? .endOfFile = none) ts with
    ⟨hnone, hnext⟩ | ⟨token, place, after, op, rfl, hop⟩
  · simp only [hnone, reads_pure, Parsed.unmoved]
    grind [next]
  · simp only [takeMap?_self hop, reads_bind, reads_pure, exists_prop]
    grind [next]

/-- A factor is a negative number, or a power. -/
theorem reads_parseFactor {ts rest : List Lexeme} {e : Expr} :
    Reads (parseFactor ts) e rest ↔
      ((next ts).token ≠ .symbol .minus ∧ Reads (parsePower ts) e rest) ∨
        ∃ place token here value, ts = ⟨.symbol .minus, place⟩ :: ⟨token, here⟩ :: rest ∧
          token.negated? = some value ∧ literal value place = e := by
  rw [parseFactor]
  rcases take?_cases (by decide : Token.symbol .minus ≠ .endOfFile) ts with
    ⟨hnone, hnext⟩ | ⟨place, after, rfl⟩
  · simp only [hnone]
    grind [next]
  · rcases takeMap?_cases (rfl : Token.negated? .endOfFile = none) after with
      ⟨hnone, hnext⟩ | ⟨token, here, after, value, rfl, hvalue⟩
    · simp only [take?_self, hnone, not_reads_error]
      grind [next]
    · simp only [take?_self, takeMap?_self hvalue, reads_ok]
      grind [next]

/-- A power is an atom, or an atom raised to a factor. -/
theorem reads_parsePower {ts rest : List Lexeme} {e : Expr} :
    Reads (parsePower ts) e rest ↔ ∃ base mid, Reads (parseAtom ts) base mid ∧
      (((next mid).token ≠ .symbol .doubleStar ∧ base = e ∧ mid = rest) ∨
        ∃ place after, mid = ⟨.symbol .doubleStar, place⟩ :: after ∧
          ∃ exponent, Reads (parseFactor after) exponent rest ∧
            binary .pow base exponent place = e) := by
  rw [parsePower]
  refine reads_bind_iff fun base mid _ => ?_
  rcases take?_cases (by decide : Token.symbol .doubleStar ≠ .endOfFile) mid with
    ⟨hnone, hnext⟩ | ⟨place, after, rfl⟩
  · simp only [hnone, reads_pure]
    grind [next]
  · simp only [take?_self, reads_bind, reads_pure, exists_prop]
    grind [next]

/-- The arguments of a call are none, or one after another with commas between them, up to
the closing parenthesis. -/
theorem reads_parseArgs {ts rest : List Lexeme} {args : List Expr} :
    Reads (parseArgs ts) args rest ↔
      (∃ place, ts = ⟨.symbol .rightParen, place⟩ :: rest ∧ [] = args) ∨
        ((next ts).token ≠ .symbol .rightParen ∧ ∃ arg mid, Reads (parse ts) arg mid ∧
          ((∃ place, mid = ⟨.symbol .rightParen, place⟩ :: rest ∧ [arg] = args) ∨
            ∃ place after, mid = ⟨.symbol .comma, place⟩ :: after ∧
              ∃ others, Reads (parseArgs after) others rest ∧ arg :: others = args)) := by
  rw [parseArgs]
  rcases take?_cases (by decide : Token.symbol .rightParen ≠ .endOfFile) ts with
    ⟨hnone, hnext⟩ | ⟨place, after, rfl⟩
  · have hfirst : ¬∃ place, ts = ⟨.symbol .rightParen, place⟩ :: rest ∧ [] = args := by
      rintro ⟨place, rfl, -⟩
      exact hnext rfl
    rw [or_iff_right hfirst, and_iff_right hnext]
    simp only [hnone]
    refine reads_bind_iff fun arg mid _ => ?_
    rcases take?_cases (by decide : Token.symbol .comma ≠ .endOfFile) mid with
      ⟨hlast, hcomma⟩ | ⟨place, after, rfl⟩
    · simp only [hlast, reads_bind, reads_require, reads_pure, exists_prop]
      grind [next]
    · simp only [take?_self, reads_bind, reads_pure, exists_prop]
      grind [next]
  · simp only [take?_self, reads_pure]
    grind [next]

/-- An atom is a constant, a name, a call, the empty tuple, or a list in parentheses. -/
theorem reads_parseAtom {ts rest : List Lexeme} {e : Expr} :
    Reads (parseAtom ts) e rest ↔ ∃ token place after, ts = ⟨token, place⟩ :: after ∧
      ((∃ value, token.literal? = some value ∧ literal value place = e ∧ after = rest) ∨
        (∃ id, token.name? = some id ∧
          (((next after).token ≠ .symbol .leftParen ∧ name id place = e ∧ after = rest) ∨
            ∃ here inside, after = ⟨.symbol .leftParen, here⟩ :: inside ∧
              ∃ args, Reads (parseArgs inside) args rest ∧ call id args place = e)) ∨
        (token = .symbol .leftParen ∧
          ((∃ here, after = ⟨.symbol .rightParen, here⟩ :: rest ∧ tuple [] place = e) ∨
            ((next after).token ≠ .symbol .rightParen ∧ ∃ inner here,
              Reads (parseList after) inner (⟨.symbol .rightParen, here⟩ :: rest) ∧
                inner.grouped place = e)))) := by
  rcases ts with _ | ⟨⟨token, place⟩, after⟩
  · rw [parseAtom, expected]
    simp only [not_reads_error]
    grind
  · rw [parseAtom]
    cases hliteral : token.literal? with
    | some value =>
      have hname : token.name? = none := by
        cases token with
        | name text => cases hliteral
        | _ => rfl
      have hparen : token ≠ .symbol .leftParen := by
        rintro rfl
        cases hliteral
      simp only [reads_ok]
      grind
    | none =>
      cases hname : token.name? with
      | some id =>
        have hparen : token ≠ .symbol .leftParen := by
          rintro rfl
          cases hname
        rcases take?_cases (by decide : Token.symbol .leftParen ≠ .endOfFile) after with
          ⟨hnone, hnext⟩ | ⟨here, inside, rfl⟩
        · simp only [hnone, reads_ok]
          grind [next]
        · simp only [take?_self, reads_bind, reads_pure, exists_prop]
          grind [next]
      | none =>
        rcases take?_cases (by decide : Token.symbol .rightParen ≠ .endOfFile) after with
          ⟨hnone, hnext⟩ | ⟨here, inside, rfl⟩
        · simp only [hnone, expected, reads_ite, not_reads_error, reads_bind, reads_require,
            reads_pure, exists_prop]
          grind [next]
        · simp only [take?_self, expected, reads_ite, not_reads_error, reads_ok]
          grind [next]

end Expr

/-- Whether a token starts a statement that is not simple. -/
def Token.opensStatement : Token → Bool
  | .keyword .forWord | .keyword .ifWord | .keyword .defWord | .keyword .returnWord => true
  | _ => false

namespace Stmt

open Walkthrough.Expr (parseList)

/-- A statement ends with its line, or before the end of the text. -/
theorem reads_parseEnd {ts rest : List Lexeme} :
    Reads (parseEnd ts) () rest ↔
      (∃ place, ts = ⟨.newline, place⟩ :: rest) ∨
        ((next ts).token = .endOfFile ∧ ts = rest) := by
  unfold parseEnd
  rcases take?_cases (by decide : Token.newline ≠ .endOfFile) ts with
    ⟨hnone, hnext⟩ | ⟨place, after, rfl⟩
  · simp only [hnone, expected, reads_ite, not_reads_error, reads_ok, Parsed.unmoved]
    grind [next]
  · simp only [take?_self, reads_ok, Parsed.map, Parsed.loosen]
    grind [next]

/-- The further sides of an assignment are none, or one after its sign and those after it. -/
theorem reads_parseSides {ts rest : List Lexeme} {sides : List Expr} :
    Reads (parseSides ts) sides rest ↔
      ((next ts).token ≠ .symbol .assign ∧ [] = sides ∧ ts = rest) ∨
        ∃ place after, ts = ⟨.symbol .assign, place⟩ :: after ∧
          ∃ side mid, Reads (parseList after) side mid ∧
            ∃ others, Reads (parseSides mid) others rest ∧ side :: others = sides := by
  rw [parseSides]
  rcases take?_cases (by decide : Token.symbol .assign ≠ .endOfFile) ts with
    ⟨hnone, hnext⟩ | ⟨place, after, rfl⟩
  · simp only [hnone, reads_pure, Parsed.unmoved]
    grind [next]
  · simp only [take?_self, reads_bind, reads_pure, exists_prop]
    grind [next]

/-- A simple statement is a list, further sides and the end of the statement. -/
theorem reads_parseSimple {ts rest : List Lexeme} {s : Stmt} :
    Reads (parseSimple ts) s rest ↔ ∃ first mid, Reads (parseList ts) first mid ∧
      ∃ others after, Reads (parseSides mid) others after ∧ Reads (parseEnd after) () rest ∧
        ofSides first others (next ts).location = s := by
  unfold parseSimple
  simp only [reads_bind, reads_pure, exists_prop]
  grind

/-- A returned value is left out before the end of the line, and read elsewhere. -/
theorem reads_parseGiveBack {place : Location} {ts rest : List Lexeme} {s : Stmt} :
    Reads (parseGiveBack place ts) s rest ↔
      ((next ts).token = .newline ∧ Reads (parseEnd ts) () rest ∧ giveBack none place = s) ∨
        ((next ts).token ≠ .newline ∧ ∃ value mid, Reads (parseList ts) value mid ∧
          Reads (parseEnd mid) () rest ∧ giveBack (some value) place = s) := by
  unfold parseGiveBack
  simp only [reads_ite, reads_bind, reads_pure, exists_prop]
  grind

/-- A name is one token. -/
theorem reads_parseName {ts rest : List Lexeme} {id : String} {place : Location} :
    Reads (parseName ts) (id, place) rest ↔
      ∃ token, ts = ⟨token, place⟩ :: rest ∧ token.name? = some id := by
  unfold parseName
  rcases takeMap?_cases (rfl : Token.name? .endOfFile = none) ts with
    ⟨hnone, hnext⟩ | ⟨token, here, after, text, rfl, htext⟩
  · simp only [hnone, expected, not_reads_error]
    grind [next]
  · simp only [takeMap?_self htext, reads_ok]
    grind

/-- The parameters of a definition are one, or one and others after a comma. -/
theorem reads_parseParams {before params : List String} {ts rest : List Lexeme} :
    Reads (parseParams before ts) params rest ↔
      ∃ found mid, Reads (parseName ts) found mid ∧ found.1 ∉ before ∧
        (((next mid).token ≠ .symbol .comma ∧ [found.1] = params ∧ mid = rest) ∨
          ∃ place after, mid = ⟨.symbol .comma, place⟩ :: after ∧
            ∃ others, Reads (parseParams (before ++ [found.1]) after) others rest ∧
              found.1 :: others = params) := by
  rw [parseParams]
  refine reads_bind_iff fun found mid _ => ?_
  obtain ⟨param, here⟩ := found
  rcases take?_cases (by decide : Token.symbol .comma ≠ .endOfFile) mid with
    ⟨hnone, hnext⟩ | ⟨place, after, rfl⟩
  · simp only [hnone, reads_ite, not_reads_error, reads_pure]
    grind [next]
  · simp only [take?_self, reads_ite, not_reads_error, reads_bind, reads_pure, exists_prop]
    grind [next]

/-- The head of a definition is a name, parameters in parentheses and a colon. -/
theorem reads_parseSignature {ts rest : List Lexeme} {name : String} {params : List String} :
    Reads (parseSignature ts) (name, params) rest ↔
      ∃ here paren inside,
        Reads (parseName ts) (name, here) (⟨.symbol .leftParen, paren⟩ :: inside) ∧
        ∃ closing colon after,
          after = ⟨.symbol .rightParen, closing⟩ :: ⟨.symbol .colon, colon⟩ :: rest ∧
          (((next inside).token = .symbol .rightParen ∧ [] = params ∧ inside = after) ∨
            ((next inside).token ≠ .symbol .rightParen ∧
              Reads (parseParams [] inside) params after)) := by
  unfold parseSignature
  simp only [reads_bind, reads_require, reads_ite, reads_pure, exists_prop, Parsed.unmoved,
    Parsed.loosen, Prod.exists]
  grind

/-- The head of a loop is its target, its range and a colon. -/
theorem reads_parseHeader {ts rest : List Lexeme} {target iterable : Expr} :
    Reads (parseHeader ts) (target, iterable) rest ↔
      ∃ wordPlace after, Reads (parseList ts) target (⟨.keyword .inWord, wordPlace⟩ :: after) ∧
        ∃ colonPlace, Reads (Expr.parse after) iterable (⟨.symbol .colon, colonPlace⟩ :: rest) := by
  unfold parseHeader
  simp only [reads_bind, reads_require, reads_pure, exists_prop]
  grind

/-- A condition stands before a colon. -/
theorem reads_parseCondition {ts rest : List Lexeme} {condition : Expr} :
    Reads (parseCondition ts) condition rest ↔
      ∃ place, Reads (Expr.parse ts) condition (⟨.symbol .colon, place⟩ :: rest) := by
  unfold parseCondition Parsed.followedBy
  simp only [reads_bind, reads_require, reads_pure, exists_prop]
  grind

/-- A statement is a loop, a choice, a definition or a return after its word, or simple. -/
theorem reads_parse {ts rest : List Lexeme} {s : Stmt} :
    Reads (parse ts) s rest ↔
      (∃ place after, ts = ⟨.keyword .forWord, place⟩ :: after ∧
        ∃ target iterable mid, Reads (parseHeader after) (target, iterable) mid ∧
          ∃ body, Reads (parseBlock mid) body rest ∧ loop target iterable body place = s) ∨
      (∃ place after, ts = ⟨.keyword .ifWord, place⟩ :: after ∧
        ∃ branches alternative, Reads (parseBranches place after) (branches, alternative) rest ∧
          choose branches alternative place = s) ∨
      (∃ place after, ts = ⟨.keyword .defWord, place⟩ :: after ∧
        ∃ name params mid, Reads (parseSignature after) (name, params) mid ∧
          ∃ body, Reads (parseBlock mid) body rest ∧ define name params body place = s) ∨
      (∃ place after, ts = ⟨.keyword .returnWord, place⟩ :: after ∧
        Reads (parseGiveBack place after) s rest) ∨
      ((next ts).token.opensStatement = false ∧ Reads (parseSimple ts) s rest) := by
  rw [parse]
  rcases takeMap?_cases (rfl : Token.keyword? .endOfFile = none) ts with
    ⟨hnone, hnext⟩ | ⟨token, place, after, word, rfl, hword⟩
  · have hopens : (next ts).token.opensStatement = false := by
      cases h : (next ts).token with
      | keyword word => rw [h] at hnext; cases hnext
      | _ => rfl
    simp only [hnone]
    grind [next, Token.keyword?]
  · have htoken : token = .keyword word := by
      cases token with
      | keyword found => cases hword; rfl
      | _ => cases hword
    subst htoken
    cases word <;>
      simp only [takeMap?_self hword, reads_bind, reads_pure, exists_prop, Prod.exists] <;>
      grind [next, Token.opensStatement]

/-- A block is a simple statement on the same line, or indented statements. -/
theorem reads_parseBlock {ts rest : List Lexeme} {body : List Stmt} :
    Reads (parseBlock ts) body rest ↔
      ((next ts).token ≠ .newline ∧ ∃ s, Reads (parseSimple ts) s rest ∧ [s] = body) ∨
        ∃ linePlace indentPlace inside,
          ts = ⟨.newline, linePlace⟩ :: ⟨.indent, indentPlace⟩ :: inside ∧
          ∃ place, Reads (parseBody inside) body (⟨.dedent, place⟩ :: rest) := by
  rw [parseBlock]
  rcases take?_cases (by decide : Token.newline ≠ .endOfFile) ts with
    ⟨hnone, hnext⟩ | ⟨place, after, rfl⟩
  · simp only [hnone, reads_bind, reads_pure, exists_prop]
    grind [next]
  · simp only [take?_self, reads_bind, reads_require, reads_pure, exists_prop]
    grind [next]

/-- The statements of a block are none at its end, or one and those after it. -/
theorem reads_parseBody {ts rest : List Lexeme} {body : List Stmt} :
    Reads (parseBody ts) body rest ↔
      (((next ts).token = .dedent ∨ (next ts).token = .endOfFile) ∧ [] = body ∧ ts = rest) ∨
        (¬((next ts).token = .dedent ∨ (next ts).token = .endOfFile) ∧
          ∃ s mid, Reads (parse ts) s mid ∧
            ∃ others, Reads (parseBody mid) others rest ∧ s :: others = body) := by
  rw [parseBody]
  simp only [reads_ite, reads_bind, reads_pure, exists_prop, Parsed.unmoved]
  grind

/-- The branches of a choice are one, one and an alternative, or one and further ones. -/
theorem reads_parseBranches {place : Location} {ts rest : List Lexeme} {branches : List Branch}
    {alternative : Option Otherwise} :
    Reads (parseBranches place ts) (branches, alternative) rest ↔
      ∃ condition after, Reads (parseCondition ts) condition after ∧
        ∃ body mid, Reads (parseBlock after) body mid ∧
          ((∃ here inside, mid = ⟨.keyword .elifWord, here⟩ :: inside ∧
              ∃ others, Reads (parseBranches here inside) (others, alternative) rest ∧
                .mk condition body place :: others = branches) ∨
            (∃ here colonPlace inside,
              mid = ⟨.keyword .elseWord, here⟩ :: ⟨.symbol .colon, colonPlace⟩ :: inside ∧
                ∃ otherwise, Reads (parseBlock inside) otherwise rest ∧
                  [.mk condition body place] = branches ∧
                    some (.mk otherwise here) = alternative) ∨
            ((next mid).token ≠ .keyword .elifWord ∧ (next mid).token ≠ .keyword .elseWord ∧
              [.mk condition body place] = branches ∧ none = alternative ∧ mid = rest)) := by
  rw [parseBranches]
  refine reads_bind_iff fun condition after _ => reads_bind_iff fun body mid _ => ?_
  rcases take?_cases (by decide : Token.keyword .elifWord ≠ .endOfFile) mid with
    ⟨helif, hnotElif⟩ | ⟨here, inside, rfl⟩
  · rcases take?_cases (by decide : Token.keyword .elseWord ≠ .endOfFile) mid with
      ⟨helse, hnotElse⟩ | ⟨here, inside, rfl⟩
    · simp only [helif, helse, reads_pure]
      grind [next]
    · simp only [helif, take?_self, reads_bind, reads_require, reads_pure, exists_prop]
      grind [next]
  · simp only [take?_self, reads_bind, reads_pure, exists_prop, Prod.exists]
    grind [next]

end Stmt

namespace Program

/-- Where a statement starts, it is read and the program goes on after it. -/
theorem ofLexemes_eq_bind {ts : List Lexeme}
    (h : (next ts).token ∉ [.endOfFile, .newline, .indent]) :
    ofLexemes ts = Stmt.parse ts >>= fun p => (ofLexemes p.rest).map (p.value :: ·) := by
  rcases ts with _ | ⟨⟨token, place⟩, after⟩
  · exact absurd List.mem_cons_self h
  · rw [ofLexemes]
    cases token with
    | endOfFile | newline | indent => simp [next] at h
    | _ => rfl

/-- Where a statement starts, a program is that statement and those after it. -/
theorem ofLexemes_statement {ts : List Lexeme} {program : Program}
    (h : (next ts).token ∉ [.endOfFile, .newline, .indent]) :
    ofLexemes ts = .ok program ↔ ∃ s rest, Reads (Stmt.parse ts) s rest ∧
      ∃ others, ofLexemes rest = .ok others ∧ s :: others = program := by
  rw [ofLexemes_eq_bind h, except_bind_ok]
  constructor
  · rintro ⟨⟨s, rest, hrest⟩, hparse, hothers⟩
    obtain ⟨others, hothers, heq⟩ := except_map_ok.mp hothers
    exact ⟨s, rest, ⟨hrest, hparse⟩, others, hothers, heq⟩
  · rintro ⟨s, rest, ⟨hrest, hparse⟩, others, hothers, heq⟩
    exact ⟨⟨s, rest, hrest⟩, hparse, except_map_ok.mpr ⟨others, hothers, heq⟩⟩

/-- At its end a program has no statement left. -/
theorem ofLexemes_end {ts : List Lexeme} (h : (next ts).token = .endOfFile) :
    ofLexemes ts = .ok [] := by
  rcases ts with _ | ⟨⟨token, place⟩, after⟩
  · rw [ofLexemes]
    rfl
  · cases h
    rw [ofLexemes]
    rfl

/-- Empty lines are passed over. -/
theorem ofLexemes_newline (place : Location) (ts : List Lexeme) :
    ofLexemes (⟨.newline, place⟩ :: ts) = ofLexemes ts := by
  rw [ofLexemes]

/-- No statement starts with an indentation. -/
theorem ofLexemes_indent (place : Location) (ts : List Lexeme) :
    ofLexemes (⟨.indent, place⟩ :: ts) = .error ⟨.unexpectedIndent, place⟩ := by
  rw [ofLexemes]

end Program

end Walkthrough
