import Walkthrough.Location
import Walkthrough.Number.Layout

/-!
# Tokens

The words of the language and the marks of its layout, each with the text by
which error messages name it.
-/

namespace Walkthrough

/-- A reserved word. -/
inductive Keyword where
  | forWord
  | inWord
  | ifWord
  | elifWord
  | elseWord
  | defWord
  | returnWord
  | trueWord
  | falseWord
  | noneWord
  deriving DecidableEq, Repr

/-- An operator or a punctuation mark. -/
inductive Symbol where
  | plus
  | minus
  | star
  | doubleStar
  | slash
  | doubleSlash
  | percent
  | assign
  | equal
  | notEqual
  | less
  | lessEqual
  | greater
  | greaterEqual
  | leftParen
  | rightParen
  | comma
  | colon
  deriving DecidableEq, Repr

/-- A token of a source text. -/
inductive Token where
  /-- A whole number. -/
  | int (n : Int64)
  /-- A number with a point or an exponent. -/
  | float (x : Binary64)
  /-- A name that is not reserved. -/
  | name (text : String)
  /-- A reserved word. -/
  | keyword (word : Keyword)
  /-- An operator or punctuation mark. -/
  | symbol (mark : Symbol)
  /-- The end of a logical line. -/
  | newline
  /-- The start of a more deeply indented block. -/
  | indent
  /-- The end of an indented block. -/
  | dedent
  /-- The end of the text. -/
  | endOfFile
  deriving DecidableEq

namespace Keyword

/-- The spelling of a reserved word. -/
def text : Keyword → String
  | forWord => "for"
  | inWord => "in"
  | ifWord => "if"
  | elifWord => "elif"
  | elseWord => "else"
  | defWord => "def"
  | returnWord => "return"
  | trueWord => "True"
  | falseWord => "False"
  | noneWord => "None"

/-- All reserved words. -/
def all : List Keyword :=
  [forWord, inWord, ifWord, elifWord, elseWord, defWord, returnWord, trueWord, falseWord, noneWord]

/-- The reserved word with a spelling. -/
def ofText? (text : String) : Option Keyword :=
  all.find? fun word => word.text = text

end Keyword

/-- The spelling of an operator or punctuation mark. -/
def Symbol.text : Symbol → String
  | plus => "+"
  | minus => "-"
  | star => "*"
  | doubleStar => "**"
  | slash => "/"
  | doubleSlash => "//"
  | percent => "%"
  | assign => "="
  | equal => "=="
  | notEqual => "!="
  | less => "<"
  | lessEqual => "<="
  | greater => ">"
  | greaterEqual => ">="
  | leftParen => "("
  | rightParen => ")"
  | comma => ","
  | colon => ":"

/-- A token as error messages name it. -/
def Token.text : Token → String
  | int n => "int literal " ++ toString n.toInt
  | float x => "float literal " ++ x.fullText
  | name text => "identifier '" ++ text ++ "'"
  | keyword word => "'" ++ word.text ++ "'"
  | symbol mark => "'" ++ mark.text ++ "'"
  | newline => "end of line"
  | indent => "indent"
  | dedent => "dedent"
  | endOfFile => "end of file"

/-- A token with the place where it starts. -/
structure Lexeme where
  /-- The token. -/
  token : Token
  /-- The place of its first character. -/
  location : Location
  deriving DecidableEq

/-- Why a source text is not a program. -/
inductive SyntaxFault where
  /-- A character that starts no token. -/
  | unexpectedCharacter (c : Char)
  /-- A quotation mark. -/
  | stringLiteral
  /-- Digits of a whole number beyond the largest one. -/
  | invalidInteger (text : String)
  /-- A number with a point or exponent that is not complete. -/
  | invalidFloat (text : String)
  /-- A line indented less than its block and unlike every enclosing one. -/
  | unmatchedUnindent
  /-- An indented line where no block starts. -/
  | unexpectedIndent
  /-- Some other token where one part of a program was required. -/
  | expected (what : String) (found : Token)
  /-- A minus sign before something else than a number. -/
  | unaryMinus (found : Token)
  /-- A comparison of a comparison. -/
  | chainedComparison
  /-- A parameter name that occurs twice. -/
  | duplicateParameter (name : String)
  deriving DecidableEq

/-- The wording of a fault. -/
def SyntaxFault.message : SyntaxFault → String
  | unexpectedCharacter c => "Unexpected character: '" ++ String.singleton c ++ "'"
  | stringLiteral => "string literals are not supported"
  | invalidInteger text => "Invalid integer literal: " ++ text
  | invalidFloat text => "Invalid float literal: " ++ text
  | unmatchedUnindent => "Unindent does not match any outer indentation level"
  | unexpectedIndent => "Unexpected indent"
  | expected what found => "Expected " ++ what ++ ", found " ++ found.text
  | unaryMinus found => "Unary minus is only supported on numeric literals, found " ++ found.text
  | chainedComparison => "Chained comparisons are not supported"
  | duplicateParameter name => "Duplicate parameter '" ++ name ++ "' in function definition"

/-- A fault with its place. -/
structure SyntaxError where
  /-- What is wrong. -/
  fault : SyntaxFault
  /-- Where it was found. -/
  location : Location
  deriving DecidableEq

namespace SyntaxError

/-- The report of an error found while cutting the text into tokens. -/
def scanReport (e : SyntaxError) : String :=
  s!"Lexer error at {e.location.text}: {e.fault.message}"

/-- The report of an error found while reading a program. -/
def report (e : SyntaxError) : String :=
  s!"Parse error at {e.location.text}: {e.fault.message}"

end SyntaxError

end Walkthrough
