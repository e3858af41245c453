/-!
# Written data

Data with named fields in a fixed order, on one line or with one item on each
line. Texts are quoted; quotation marks, backslashes and control characters in
them are escaped.
-/

namespace Walkthrough

/-- Data to be written. -/
inductive Json where
  | null
  | bool (b : Bool)
  | int (n : Int)
  | str (text : String)
  | arr (items : List Json)
  | obj (fields : List (String × Json))

namespace Json

instance : Inhabited Json := ⟨null⟩

/-- A natural number as data. -/
def nat (n : Nat) : Json := int n

/-- The hexadecimal digit of a number below sixteen. -/
def hexDigit (n : Nat) : Char :=
  if n < 10 then Char.ofNat ('0'.toNat + n) else Char.ofNat ('a'.toNat + (n - 10))

/-- A character as written between quotation marks. -/
def escape (c : Char) : List Char :=
  if c = '"' then ['\\', '"']
  else if c = '\\' then ['\\', '\\']
  else if c = '\n' then ['\\', 'n']
  else if c = '\r' then ['\\', 'r']
  else if c = '\t' then ['\\', 't']
  else if c = '\x08' then ['\\', 'b']
  else if c = '\x0c' then ['\\', 'f']
  else if c.toNat < 32 then
    ['\\', 'u', '0', '0', hexDigit (c.toNat / 16), hexDigit (c.toNat % 16)]
  else [c]

/-- A text between quotation marks. -/
def quote (text : String) : String :=
  "\"" ++ String.ofList (text.toList.flatMap escape) ++ "\""

mutual

/-- Data on one line without spaces. -/
def compact : Json → String
  | null => "null"
  | bool b => if b then "true" else "false"
  | int n => toString n
  | str text => quote text
  | arr items => "[" ++ ",".intercalate (compactItems items) ++ "]"
  | obj fields => "\x7b" ++ ",".intercalate (compactFields fields) ++ "\x7d"

/-- The items of a list. -/
def compactItems : List Json → List String
  | [] => []
  | item :: others => compact item :: compactItems others

/-- Fields with their names. -/
def compactFields : List (String × Json) → List String
  | [] => []
  | (name, value) :: others => (quote name ++ ":" ++ compact value) :: compactFields others

end

/-- The start of a line at a depth. -/
def lineStart (depth : Nat) : String := "\n" ++ "".pushn ' ' (2 * depth)

/-- Parts between brackets, each on a line of its own one level deeper. Without
parts the brackets stand together. -/
def bracketed (depth : Nat) (left right : String) (parts : List String) : String :=
  if parts.isEmpty then left ++ right
  else
    left ++ lineStart (depth + 1) ++ ("," ++ lineStart (depth + 1)).intercalate parts ++
      lineStart depth ++ right

mutual

/-- Data with each item on a line of its own, inside data of a depth. -/
def prettyAt (depth : Nat) : Json → String
  | arr items => bracketed depth "[" "]" (prettyItems (depth + 1) items)
  | obj fields => bracketed depth "\x7b" "\x7d" (prettyFields (depth + 1) fields)
  | null => "null"
  | bool b => if b then "true" else "false"
  | int n => toString n
  | str text => quote text

/-- The items of a list at a depth. -/
def prettyItems (depth : Nat) : List Json → List String
  | [] => []
  | item :: others => prettyAt depth item :: prettyItems depth others

/-- Fields with their names at a depth. -/
def prettyFields (depth : Nat) : List (String × Json) → List String
  | [] => []
  | (name, value) :: others =>
    (quote name ++ ": " ++ prettyAt depth value) :: prettyFields depth others

end

/-- Data with each item on a line of its own. -/
def pretty (data : Json) : String := data.prettyAt 0

end Json

end Walkthrough
