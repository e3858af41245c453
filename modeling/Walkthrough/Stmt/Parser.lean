import Walkthrough.Stmt
import Walkthrough.Expr.Parser
import Walkthrough.Token.Scan

/-!
# Reading programs

Statements are read from tokens by the grammar

* statement: loop | choice | definition | return | simple
* loop: `for` list `in` expression `:` block
* choice: `if` expression `:` block (`elif` expression `:` block)* [`else` `:` block]
* definition: `def` name `(` [name (`,` name)*] `)` `:` block
* return: `return` [list] end of line
* simple: list (`=` list)* end of line
* block: end of line, indent, statement*, dedent | simple
-/

namespace Walkthrough

namespace Stmt

open Lexeme

/-- Reads the end of a statement. The end of the text is left in place. -/
def parseEnd (ts : List Lexeme) : Except SyntaxError (Parsed Unit (ts.length + 1)) :=
  match take? .newline ts with
  | some taken => .ok (taken.map fun _ => ()).loosen
  | none =>
    if (next ts).token = .endOfFile then .ok (.unmoved () ts)
    else expected "end of line" ts

/-- Reads the further sides of an assignment, each after its sign. -/
def parseSides (ts : List Lexeme) : Except SyntaxError (Parsed (List Expr) (ts.length + 1)) := do
  match take? (.symbol .assign) ts with
  | none => return .unmoved [] ts
  | some ⟨_, rest, h⟩ =>
    let ⟨side, rest', h'⟩ ← Expr.parseList rest
    let ⟨others, rest'', h''⟩ ← parseSides rest'
    return ⟨side :: others, rest'', by omega⟩
termination_by ts.length

/-- The statement with the given sides. The last side is the value and the others
are targets; a single side is an expression on its own. -/
def ofSides (first : Expr) (others : List Expr) (location : Location) : Stmt :=
  match others.getLast? with
  | none => expression first location
  | some value => assign (first :: others.dropLast) value location

/-- Reads an expression on its own or an assignment. -/
def parseSimple (ts : List Lexeme) : Except SyntaxError (Parsed Stmt ts.length) := do
  let ⟨first, rest, h⟩ ← Expr.parseList ts
  let ⟨others, rest', h'⟩ ← parseSides rest
  let ⟨_, rest'', h''⟩ ← parseEnd rest'
  return ⟨ofSides first others (next ts).location, rest'', by omega⟩

/-- Reads the value and the end of a return statement. -/
def parseGiveBack (location : Location) (ts : List Lexeme) :
    Except SyntaxError (Parsed Stmt (ts.length + 1)) := do
  if (next ts).token = .newline then
    let ⟨_, rest, h⟩ ← parseEnd ts
    return ⟨giveBack none location, rest, h⟩
  else
    let ⟨value, rest, h⟩ ← Expr.parseList ts
    let ⟨_, rest', h'⟩ ← parseEnd rest
    return ⟨giveBack (some value) location, rest', by omega⟩

/-- Reads a name. -/
def parseName (ts : List Lexeme) : Except SyntaxError (Parsed (String × Location) ts.length) :=
  match takeMap? Token.name? ts with
  | some found => .ok found
  | none => expected "identifier" ts

/-- Reads one or more parameters. They follow some that were read before, and none
may occur twice. -/
def parseParams (before : List String) (ts : List Lexeme) :
    Except SyntaxError (Parsed (List String) ts.length) := do
  let ⟨(param, location), rest, h⟩ ← parseName ts
  if param ∈ before then .error ⟨.duplicateParameter param, location⟩
  else
    match take? (.symbol .comma) rest with
    | none => return ⟨[param], rest, h⟩
    | some ⟨_, rest', h'⟩ =>
      let ⟨others, rest'', h''⟩ ← parseParams (before ++ [param]) rest'
      return ⟨param :: others, rest'', by omega⟩
termination_by ts.length

/-- Reads the name and the parameters of a definition, up to the colon. -/
def parseSignature (ts : List Lexeme) :
    Except SyntaxError (Parsed (String × List String) ts.length) := do
  let ⟨(name, _), rest, h⟩ ← parseName ts
  let ⟨_, inside, hInside⟩ ← require (.symbol .leftParen) "'(' after function name" rest
  let ⟨params, closing, hClosing⟩ ←
    if (next inside).token = .symbol .rightParen then
      pure (.unmoved [] inside)
    else do
      let params ← parseParams [] inside
      pure params.loosen
  let ⟨_, colon, hColon⟩ ← require (.symbol .rightParen) "')' after parameters" closing
  let ⟨_, body, hBody⟩ ← require (.symbol .colon) "':' after function signature" colon
  return ⟨(name, params), body, by omega⟩

/-- Reads the target and the range of a loop, up to the colon. -/
def parseHeader (ts : List Lexeme) : Except SyntaxError (Parsed (Expr × Expr) ts.length) := do
  let ⟨target, rest, h⟩ ← Expr.parseList ts
  let ⟨_, rest', h'⟩ ← require (.keyword .inWord) "'in' after for-loop target" rest
  let ⟨iterable, rest'', h''⟩ ← Expr.parse rest'
  let ⟨_, body, hBody⟩ ← require (.symbol .colon) "':' after for-loop header" rest''
  return ⟨(target, iterable), body, by omega⟩

/-- Reads the condition of a branch, up to the colon. -/
def parseCondition (ts : List Lexeme) : Except SyntaxError (Parsed Expr ts.length) := do
  (← Expr.parse ts).followedBy (.symbol .colon) "':' after condition"

mutual

/-- Reads one statement. -/
def parse (ts : List Lexeme) : Except SyntaxError (Parsed Stmt ts.length) := do
  match takeMap? Token.keyword? ts with
  | some ⟨(.forWord, location), rest, h⟩ =>
    let ⟨(target, iterable), rest', h'⟩ ← parseHeader rest
    let ⟨body, rest'', h''⟩ ← parseBlock rest'
    return ⟨loop target iterable body location, rest'', by omega⟩
  | some ⟨(.ifWord, location), rest, h⟩ =>
    let ⟨(branches, alternative), rest', h'⟩ ← parseBranches location rest
    return ⟨choose branches alternative location, rest', by omega⟩
  | some ⟨(.defWord, location), rest, h⟩ =>
    let ⟨(name, params), rest', h'⟩ ← parseSignature rest
    let ⟨body, rest'', h''⟩ ← parseBlock rest'
    return ⟨define name params body location, rest'', by omega⟩
  | some ⟨(.returnWord, location), rest, h⟩ =>
    let ⟨statement, rest', h'⟩ ← parseGiveBack location rest
    return ⟨statement, rest', by omega⟩
  | _ => parseSimple ts
termination_by 2 * ts.length

/-- Reads a block: indented statements on lines of their own, or a simple statement
on the same line. -/
def parseBlock (ts : List Lexeme) : Except SyntaxError (Parsed (List Stmt) ts.length) := do
  match take? .newline ts with
  | none =>
    let ⟨statement, rest, h⟩ ← parseSimple ts
    return ⟨[statement], rest, h⟩
  | some ⟨_, rest, h⟩ =>
    let ⟨_, inside, hInside⟩ ← require .indent "an indented block" rest
    let ⟨body, after, hAfter⟩ ← parseBody inside
    let ⟨_, rest', h'⟩ ← require .dedent "end of indented block" after
    return ⟨body, rest', by omega⟩
termination_by 2 * ts.length

/-- Reads the statements up to the end of their block. -/
def parseBody (ts : List Lexeme) : Except SyntaxError (Parsed (List Stmt) (ts.length + 1)) := do
  if (next ts).token = .dedent ∨ (next ts).token = .endOfFile then
    return .unmoved [] ts
  else
    let ⟨statement, rest, h⟩ ← parse ts
    let ⟨others, rest', h'⟩ ← parseBody rest
    return ⟨statement :: others, rest', by omega⟩
termination_by 2 * ts.length + 1

/-- Reads the branches of a choice from a condition on, with the alternative after
them if there is one. -/
def parseBranches (location : Location) (ts : List Lexeme) :
    Except SyntaxError (Parsed (List Branch × Option Otherwise) ts.length) := do
  let ⟨condition, rest, h⟩ ← parseCondition ts
  let ⟨body, rest', h'⟩ ← parseBlock rest
  match take? (.keyword .elifWord) rest', take? (.keyword .elseWord) rest' with
  | some ⟨elifLocation, rest'', h''⟩, _ =>
    let ⟨(others, alternative), after, hAfter⟩ ← parseBranches elifLocation rest''
    return ⟨(.mk condition body location :: others, alternative), after, by omega⟩
  | none, some ⟨elseLocation, rest'', h''⟩ =>
    let ⟨_, inside, hInside⟩ ← require (.symbol .colon) "':' after 'else'" rest''
    let ⟨otherwise, after, hAfter⟩ ← parseBlock inside
    return ⟨([.mk condition body location], some (.mk otherwise elseLocation)), after, by omega⟩
  | none, none => return ⟨([.mk condition body location], none), rest', by omega⟩
termination_by 2 * ts.length

end

end Stmt

namespace Program

/-- Reads the statements of a program from its tokens. -/
def ofLexemes (ts : List Lexeme) : Except SyntaxError Program := do
  match ts with
  | [] => return []
  | lexeme :: rest =>
    match lexeme.token with
    | .endOfFile => return []
    | .newline => ofLexemes rest
    | .indent => .error ⟨.unexpectedIndent, lexeme.location⟩
    | _ =>
      let ⟨statement, rest', _⟩ ← Stmt.parse (lexeme :: rest)
      return statement :: (← ofLexemes rest')
termination_by ts.length
decreasing_by all_goals simp only [List.length_cons] at *; omega

/-- Reads a program from its text. -/
def parse (text : String) : Except SyntaxError Program := do
  ofLexemes (← Lexeme.scan text)

end Program

end Walkthrough
