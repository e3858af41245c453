import Walkthrough.Expr
import Walkthrough.Token

/-!
# Reading expressions

Expressions are read from tokens by the grammar

* list: expression (`,` expression)* [`,`]
* expression: sum [comparison sum]
* sum: product ((`+` | `-`) product)*
* product: factor ((`*` | `/` | `//` | `%`) factor)*
* factor: `-` number | power
* power: atom [`**` factor]
* atom: name [`(` arguments `)`] | number | `True` | `False` | `None` | `(` [list] `)`
* arguments: [expression (`,` expression)* [`,`]]

Each reader returns what it read with the tokens after it, and a proof that these
are fewer than before. No reader takes the end of the text.
-/

namespace Walkthrough

/-- Something read from tokens, with the tokens after it. -/
structure Parsed (α : Type) (bound : Nat) where
  /-- What was read. -/
  value : α
  /-- The tokens after it. -/
  rest : List Lexeme
  /-- So many tokens are left at most. -/
  rest_lt : rest.length < bound

namespace Lexeme

/-- The next token; beyond the tokens, the end of the text. -/
def next : List Lexeme → Lexeme
  | [] => ⟨.endOfFile, .origin⟩
  | lexeme :: _ => lexeme

/-- The error that some part of a program was required at the next token. -/
def expected {α : Type} (what : String) (ts : List Lexeme) : Except SyntaxError α :=
  .error ⟨.expected what (next ts).token, (next ts).location⟩

/-- The tokens after the next one, if that is the given one. -/
def take? (token : Token) : (ts : List Lexeme) → Option (Parsed Location ts.length)
  | [] => none
  | lexeme :: rest =>
    if lexeme.token = token then some ⟨lexeme.location, rest, Nat.lt_succ_self _⟩ else none

/-- The tokens after the next one, which has to be the given one. -/
def require (token : Token) (what : String) (ts : List Lexeme) :
    Except SyntaxError (Parsed Location ts.length) :=
  match take? token ts with
  | some taken => .ok taken
  | none => expected what ts

/-- The next token's meaning, if it has one of the kind sought, and the tokens
after it. -/
def takeMap? {α : Type} (meaning : Token → Option α) :
    (ts : List Lexeme) → Option (Parsed (α × Location) ts.length)
  | [] => none
  | lexeme :: rest =>
    (meaning lexeme.token).map fun a => ⟨(a, lexeme.location), rest, Nat.lt_succ_self _⟩

end Lexeme

namespace Parsed

/-- Nothing is read. -/
def unmoved {α : Type} (value : α) (ts : List Lexeme) : Parsed α (ts.length + 1) :=
  ⟨value, ts, Nat.lt_succ_self _⟩

/-- What was read, changed by a function. -/
def map {α β : Type} {bound : Nat} (f : α → β) (p : Parsed α bound) : Parsed β bound :=
  ⟨f p.value, p.rest, p.rest_lt⟩

/-- What was read, with a larger bound on the tokens after it. -/
def loosen {α : Type} {bound : Nat} (p : Parsed α bound) : Parsed α (bound + 1) :=
  ⟨p.value, p.rest, Nat.lt_succ_of_lt p.rest_lt⟩

/-- What was read, with the tokens after the next one, which has to be the given one. -/
def followedBy {α : Type} {bound : Nat} (p : Parsed α bound) (token : Token) (what : String) :
    Except SyntaxError (Parsed α bound) := do
  let ⟨_, rest, h⟩ ← Lexeme.require token what p.rest
  return ⟨p.value, rest, Nat.lt_trans h p.rest_lt⟩

end Parsed

namespace Token

/-- The comparison that a token stands for. -/
def comparison? : Token → Option CompareOp
  | symbol .less => some .less
  | symbol .greater => some .greater
  | symbol .lessEqual => some .lessEqual
  | symbol .greaterEqual => some .greaterEqual
  | symbol .equal => some .equal
  | symbol .notEqual => some .notEqual
  | _ => none

/-- The constant that a token stands for. -/
def literal? : Token → Option Literal
  | int n => some (.int n)
  | float x => some (.float x)
  | keyword .trueWord => some (.bool true)
  | keyword .falseWord => some (.bool false)
  | keyword .noneWord => some .none
  | _ => none

/-- The constant that a token stands for after a minus sign. -/
def negated? : Token → Option Literal
  | int n => some (.int (-n))
  | float x => some (.float x.neg)
  | _ => none

/-- The name that a token is. -/
def name? : Token → Option String
  | name text => some text
  | _ => none

/-- The reserved word that a token is. -/
def keyword? : Token → Option Keyword
  | keyword word => some word
  | _ => none

/-- Whether an expression may start with a token. -/
def startsExpr (t : Token) : Bool :=
  t.literal?.isSome || t.name?.isSome || t == symbol .leftParen || t == symbol .minus

end Token

/-- The two tiers of operators that group from the left. -/
inductive Tier where
  | sum
  | product
  deriving DecidableEq, Repr

/-- The place of a tier in the grammar, which bounds the readers it may call. -/
def Tier.height : Tier → Nat
  | sum => 5
  | product => 3

@[simp] theorem Tier.height_sum : Tier.sum.height = 5 := rfl

@[simp] theorem Tier.height_product : Tier.product.height = 3 := rfl

/-- No tier is higher than the sums. -/
theorem Tier.height_le (tier : Tier) : tier.height ≤ 5 := by cases tier <;> decide

/-- The operator of a tier that a token stands for. -/
def Tier.operator? : Tier → Token → Option BinaryOp
  | sum, .symbol .plus => some .add
  | sum, .symbol .minus => some .sub
  | product, .symbol .star => some .mul
  | product, .symbol .slash => some .div
  | product, .symbol .doubleSlash => some .floorDiv
  | product, .symbol .percent => some .mod
  | _, _ => none

namespace Expr

open Lexeme

/-- An expression that stood in parentheses. A tuple then starts at the opening
one. -/
def grouped (location : Location) : Expr → Expr
  | tuple items _ => tuple items location
  | e => e

mutual

/-- Reads a list of expressions. One expression without a comma is itself; else
the list is a tuple. -/
def parseList (ts : List Lexeme) : Except SyntaxError (Parsed Expr ts.length) := do
  let ⟨first, rest, h⟩ ← parse ts
  match take? (.symbol .comma) rest with
  | none => return ⟨first, rest, h⟩
  | some _ =>
    let ⟨others, rest', h'⟩ ← parseMore rest
    return ⟨tuple (first :: others) (next ts).location, rest', by omega⟩
termination_by 9 * ts.length + 8

/-- Reads the further parts of a list, each after a comma. The last comma may
stand alone. -/
def parseMore (ts : List Lexeme) : Except SyntaxError (Parsed (List Expr) (ts.length + 1)) := do
  match take? (.symbol .comma) ts with
  | none => return .unmoved [] ts
  | some ⟨_, rest, h⟩ =>
    if (next rest).token.startsExpr then
      let ⟨item, rest', h'⟩ ← parse rest
      let ⟨others, rest'', h''⟩ ← parseMore rest'
      return ⟨item :: others, rest'', by omega⟩
    else return ⟨[], rest, by omega⟩
termination_by 9 * ts.length

/-- Reads one expression. -/
def parse (ts : List Lexeme) : Except SyntaxError (Parsed Expr ts.length) := do
  let ⟨left, rest, h⟩ ← parseChain .sum ts
  match takeMap? Token.comparison? rest with
  | none => return ⟨left, rest, h⟩
  | some ⟨(op, location), afterOp, hOp⟩ =>
    let ⟨right, rest', h'⟩ ← parseChain .sum afterOp
    if (next rest').token.comparison?.isSome then
      .error ⟨.chainedComparison, (next rest').location⟩
    else return ⟨compare op left right location, rest', by omega⟩
termination_by 9 * ts.length + 7

/-- Reads operands of a tier with its operators between them. -/
def parseChain (tier : Tier) (ts : List Lexeme) : Except SyntaxError (Parsed Expr ts.length) := do
  let ⟨first, rest, h⟩ ← parseOperand tier ts
  let ⟨e, rest', h'⟩ ← parseChainTail tier first rest
  return ⟨e, rest', by omega⟩
termination_by 9 * ts.length + tier.height + 1

/-- Reads one operand of a tier. -/
def parseOperand (tier : Tier) (ts : List Lexeme) : Except SyntaxError (Parsed Expr ts.length) :=
  match tier with
  | .sum => parseChain .product ts
  | .product => parseFactor ts
termination_by 9 * ts.length + tier.height

/-- Reads the operators of a tier that follow an expression, with their right
operands. -/
def parseChainTail (tier : Tier) (left : Expr) (ts : List Lexeme) :
    Except SyntaxError (Parsed Expr (ts.length + 1)) := do
  match takeMap? tier.operator? ts with
  | none => return .unmoved left ts
  | some ⟨(op, location), rest, h⟩ =>
    have := tier.height_le
    let ⟨right, rest', h'⟩ ← parseOperand tier rest
    let ⟨e, rest'', h''⟩ ← parseChainTail tier (binary op left right location) rest'
    return ⟨e, rest'', by omega⟩
termination_by 9 * ts.length

/-- Reads a negative number or a power. -/
def parseFactor (ts : List Lexeme) : Except SyntaxError (Parsed Expr ts.length) :=
  match take? (.symbol .minus) ts with
  | none => parsePower ts
  | some ⟨location, rest, h⟩ =>
    match takeMap? Token.negated? rest with
    | none => .error ⟨.unaryMinus (next rest).token, (next rest).location⟩
    | some ⟨(value, _), rest', h'⟩ => .ok ⟨literal value location, rest', by omega⟩
termination_by 9 * ts.length + 2

/-- Reads an atom that may be raised to a power. -/
def parsePower (ts : List Lexeme) : Except SyntaxError (Parsed Expr ts.length) := do
  let ⟨base, rest, h⟩ ← parseAtom ts
  match take? (.symbol .doubleStar) rest with
  | none => return ⟨base, rest, h⟩
  | some ⟨location, rest', h'⟩ =>
    let ⟨exponent, rest'', h''⟩ ← parseFactor rest'
    return ⟨binary .pow base exponent location, rest'', by omega⟩
termination_by 9 * ts.length + 1

/-- Reads an expression that is written as one piece. -/
def parseAtom (ts : List Lexeme) : Except SyntaxError (Parsed Expr ts.length) :=
  match ts with
  | [] => expected "expression" ts
  | ⟨token, location⟩ :: rest =>
    match token.literal?, token.name? with
    | some value, _ => .ok ⟨literal value location, rest, Nat.lt_succ_self _⟩
    | none, some id =>
      match take? (.symbol .leftParen) rest with
      | none => .ok ⟨name id location, rest, Nat.lt_succ_self _⟩
      | some ⟨_, rest', h⟩ => do
        let ⟨args, rest'', h'⟩ ← parseArgs rest'
        return ⟨call id args location, rest'', by simp only [List.length_cons]; omega⟩
    | none, none =>
      if token = .symbol .leftParen then
        match take? (.symbol .rightParen) rest with
        | some ⟨_, rest', h⟩ =>
          .ok ⟨tuple [] location, rest', by simp only [List.length_cons]; omega⟩
        | none => do
          let ⟨inner, rest', h⟩ ← parseList rest
          let ⟨_, rest'', h'⟩ ← require (.symbol .rightParen) "')' after expression" rest'
          return ⟨inner.grouped location, rest'', by simp only [List.length_cons]; omega⟩
      else expected "expression" ts
termination_by 9 * ts.length

/-- Reads the arguments of a call and the closing parenthesis. -/
def parseArgs (ts : List Lexeme) : Except SyntaxError (Parsed (List Expr) ts.length) := do
  match take? (.symbol .rightParen) ts with
  | some ⟨_, rest, h⟩ => return ⟨[], rest, h⟩
  | none =>
    let ⟨arg, rest, h⟩ ← parse ts
    match take? (.symbol .comma) rest with
    | some ⟨_, rest', h'⟩ =>
      let ⟨others, rest'', h''⟩ ← parseArgs rest'
      return ⟨arg :: others, rest'', by omega⟩
    | none =>
      let ⟨_, rest', h'⟩ ← require (.symbol .rightParen) "')' after arguments" rest
      return ⟨[arg], rest', by omega⟩
termination_by 9 * ts.length + 8

end

end Expr

end Walkthrough
