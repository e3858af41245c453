import Walkthrough.Token

/-!
# From text to tokens

A text is cut into tokens with their places. The width of the blanks before the
first token of a logical line is compared with the widths of the open blocks and
gives the layout tokens; lines without a token give none. A line goes on inside
parentheses and after a backslash at its end.
-/

namespace Walkthrough

namespace Token

/-- A token read at the start of a text. -/
structure Reading where
  /-- The token. -/
  token : Token
  /-- The characters that spell it. -/
  spelling : List Char
  /-- The text after it. -/
  rest : List Char

/-- A character that may start a name. -/
def startsName (c : Char) : Bool := c.isAlpha || c == '_'

/-- A character that may continue a name. -/
def continuesName (c : Char) : Bool := c.isAlphanum || c == '_'

/-- The characters that go on spelling a number, and the text after them: digits
and underscores, one point unless a point or exponent came before, and exponent
marks with an optional sign. -/
def numberTail (pointed : Bool) : List Char → List Char × List Char
  | [] => ([], [])
  | c :: rest =>
    if c.isDigit || c == '_' then
      let (spelling, after) := numberTail pointed rest
      (c :: spelling, after)
    else if c == '.' && !pointed then
      let (spelling, after) := numberTail true rest
      (c :: spelling, after)
    else if c == 'e' || c == 'E' then
      match rest with
      | [] => ([c], [])
      | sign :: rest' =>
        if sign == '+' || sign == '-' then
          let (spelling, after) := numberTail true rest'
          (c :: sign :: spelling, after)
        else
          let (spelling, after) := numberTail true (sign :: rest')
          (c :: spelling, after)
    else ([], c :: rest)

/-- The number that a spelling denotes. Underscores do not count. -/
def ofNumber (spelling : List Char) : Except SyntaxFault Token :=
  let kept := spelling.filter (· != '_')
  if kept.all Char.isDigit then
    let n := Decimal.ofDigits kept
    if n < 0x8000000000000000 then .ok (.int (Int64.ofNat n))
    else .error (.invalidInteger (String.ofList kept))
  else
    match Decimal.read kept with
    | some d => .ok (.float (d.toBinary64 false))
    | none => .error (.invalidFloat (String.ofList kept))

/-- The reserved word or name that a spelling denotes. -/
def ofWord (spelling : List Char) : Token :=
  let text := String.ofList spelling
  match Keyword.ofText? text with
  | some word => .keyword word
  | none => .name text

/-- The longest operator or punctuation mark at the start of a text. -/
def symbolAt? : List Char → Option Symbol
  | '*' :: '*' :: _ => some .doubleStar
  | '*' :: _ => some .star
  | '/' :: '/' :: _ => some .doubleSlash
  | '/' :: _ => some .slash
  | '=' :: '=' :: _ => some .equal
  | '=' :: _ => some .assign
  | '!' :: '=' :: _ => some .notEqual
  | '<' :: '=' :: _ => some .lessEqual
  | '<' :: _ => some .less
  | '>' :: '=' :: _ => some .greaterEqual
  | '>' :: _ => some .greater
  | '+' :: _ => some .plus
  | '-' :: _ => some .minus
  | '%' :: _ => some .percent
  | '(' :: _ => some .leftParen
  | ')' :: _ => some .rightParen
  | ',' :: _ => some .comma
  | ':' :: _ => some .colon
  | _ => none

/-- Whether a number starts here: a digit, or a point before a digit. -/
def startsNumber (c : Char) (rest : List Char) : Bool :=
  c.isDigit || (c == '.' && rest.head?.any Char.isDigit)

/-- Reads the token that starts with a character. -/
def read (c : Char) (rest : List Char) : Except SyntaxFault Reading :=
  if startsNumber c rest then
    let (spelling, after) := numberTail (c == '.') rest
    (ofNumber (c :: spelling)).map fun token => ⟨token, c :: spelling, after⟩
  else if startsName c then
    let spelling := c :: rest.takeWhile continuesName
    .ok ⟨ofWord spelling, spelling, rest.dropWhile continuesName⟩
  else if c == '"' || c == '\'' then .error .stringLiteral
  else
    match symbolAt? (c :: rest) with
    | some mark =>
      let length := mark.text.length
      .ok ⟨.symbol mark, (c :: rest).take length, (c :: rest).drop length⟩
    | none => .error (.unexpectedCharacter c)

/-- A number's spelling and what follows it are the text. -/
theorem numberTail_append (pointed : Bool) (text : List Char) :
    (numberTail pointed text).1 ++ (numberTail pointed text).2 = text := by
  fun_induction numberTail pointed text <;> simp_all

/-- A symbol's spelling is not empty. -/
theorem length_text_pos (mark : Symbol) : 0 < mark.text.length := by
  cases mark <;> decide

/-- The text after a token is shorter than the text it was read from. -/
theorem length_rest_of_read {c : Char} {rest : List Char} {r : Reading}
    (h : read c rest = .ok r) : r.rest.length ≤ rest.length := by
  unfold read at h
  split at h
  · have append := congrArg List.length (numberTail_append (c == '.') rest)
    rw [List.length_append] at append
    dsimp only at h
    cases hn : ofNumber (c :: (numberTail (c == '.') rest).1) with
    | error e => rw [hn] at h; cases h
    | ok token => rw [hn] at h; cases h; dsimp only; omega
  · split at h
    · cases h
      exact (List.dropWhile_sublist _).length_le
    · split at h
      · cases h
      · split at h
        · next mark _ =>
          cases h
          have := length_text_pos mark
          simp only [List.length_drop, List.length_cons]
          omega
        · cases h

end Token

namespace Lexeme

/-- A blank inside a line. -/
def isBlank (c : Char) : Bool := c == ' ' || c == '\t' || c == '\r'

/-- The columns by which a blank before a line indents it. -/
def blankWidth (c : Char) : Nat :=
  if c = ' ' then 1 else if c = '\t' then 4 else 0

/-- The indentation that the blanks before a line amount to. -/
def indentWidth (blanks : List Char) : Nat :=
  blanks.foldr (fun c width => blankWidth c + width) 0

/-- The layout tokens before a line of a width, and the widths of the blocks that
are then open. Blocks are listed from the innermost; the outermost, of width zero,
is left out. -/
def layout (place : Location) (width : Nat) (blocks : List Nat) :
    Except SyntaxError (List Lexeme × List Nat) :=
  if blocks.headD 0 < width then .ok ([⟨.indent, place⟩], width :: blocks)
  else
    let kept := blocks.dropWhile (width < ·)
    if kept.headD 0 = width then
      .ok (List.replicate (blocks.length - kept.length) ⟨.dedent, place⟩, kept)
    else .error ⟨.unmatchedUnindent, place⟩

/-- The tokens at the end of a text. -/
def closing (place : Location) (blocks : List Nat) (lineOpen : Bool) : List Lexeme :=
  (if lineOpen then [⟨.newline, place⟩] else []) ++
    (List.replicate blocks.length ⟨.dedent, place⟩ ++ [⟨.endOfFile, place⟩])

/-- The open parentheses after a token. -/
def parensAfter (parens : Nat) : Token → Nat
  | .symbol .leftParen => parens + 1
  | .symbol .rightParen => parens - 1
  | _ => parens

/-- The text from the end of the current line on. -/
def lineEnd (text : List Char) : List Char := text.dropWhile (· != '\n')

/-- The end of a line is no longer than the line. -/
theorem length_lineEnd_le (text : List Char) : (lineEnd text).length ≤ text.length :=
  (List.dropWhile_sublist _).length_le

/-- The text after its leading blanks is no longer than the text. -/
theorem length_dropBlanks_le (text : List Char) :
    (text.dropWhile isBlank).length ≤ text.length :=
  (List.dropWhile_sublist _).length_le

mutual

/-- The tokens of a text from the start of a logical line on. -/
def scanLine (place : Location) (blocks : List Nat) (text : List Char) :
    Except SyntaxError (List Lexeme) :=
  let blanks := text.takeWhile isBlank
  let here := place.afterAll blanks
  match h : text.dropWhile isBlank with
  | [] => .ok (closing here blocks false)
  | c :: rest =>
    have shorter : rest.length < text.length := by
      have := length_dropBlanks_le text
      rw [h] at this
      exact this
    if c = '\n' then scanLine (here.after c) blocks rest
    else if c = '#' then
      have := Nat.lt_of_le_of_lt (length_lineEnd_le rest) shorter
      scanLine ((here.after c).afterAll (rest.takeWhile (· != '\n'))) blocks (lineEnd rest)
    else do
      let (marks, nested) ← layout here (indentWidth blanks) blocks
      let others ← scanInner here nested 0 false (c :: rest)
      return marks ++ others
termination_by 2 * text.length + 1

/-- The tokens of a text from inside a logical line on, where so many parentheses
are open and the line has a token already or not. -/
def scanInner (place : Location) (blocks : List Nat) (parens : Nat) (lineOpen : Bool)
    (text : List Char) : Except SyntaxError (List Lexeme) :=
  match text with
  | [] => .ok (closing place blocks lineOpen)
  | c :: rest =>
    if isBlank c then scanInner (place.after c) blocks parens lineOpen rest
    else if c = '#' then
      have := length_lineEnd_le rest
      scanInner ((place.after c).afterAll (rest.takeWhile (· != '\n'))) blocks parens lineOpen
        (lineEnd rest)
    else if c = '\n' then
      if parens = 0 then do
        let others ← scanLine (place.after c) blocks rest
        return if lineOpen then ⟨.newline, place⟩ :: others else others
      else scanInner (place.after c) blocks parens lineOpen rest
    else if c = '\\' ∧ rest.head? = some '\n' then
      scanInner (place.afterAll ['\\', '\n']) blocks parens lineOpen rest.tail
    else
      match h : Token.read c rest with
      | .error fault => .error ⟨fault, place⟩
      | .ok reading => do
        have := Token.length_rest_of_read h
        let others ← scanInner (place.afterAll reading.spelling) blocks
          (parensAfter parens reading.token) true reading.rest
        return ⟨reading.token, place⟩ :: others
termination_by 2 * text.length

end

/-- The tokens of a source text. -/
def scan (text : String) : Except SyntaxError (List Lexeme) :=
  scanLine .origin [] text.toList

end Lexeme

end Walkthrough
