import Walkthrough.Expr.Parser
import Walkthrough.Proofs.Spelling

/-!
# The tokens of an expression

The printer writes an expression as a text; here it is written as tokens, with the same
parentheses. The text spells the tokens, so the scanner reads them back from it.
-/

namespace Walkthrough

open Lexeme Token

/-- The mark of an arithmetic operator. -/
def BinaryOp.mark : BinaryOp → Symbol
  | add => .plus
  | sub => .minus
  | mul => .star
  | div => .slash
  | floorDiv => .doubleSlash
  | mod => .percent
  | pow => .doubleStar

theorem BinaryOp.text_mark (op : BinaryOp) : op.mark.text = op.sign := by cases op <;> rfl

/-- The mark of a comparison. -/
def CompareOp.mark : CompareOp → Symbol
  | less => .less
  | greater => .greater
  | lessEqual => .lessEqual
  | greaterEqual => .greaterEqual
  | equal => .equal
  | notEqual => .notEqual

theorem CompareOp.text_mark (op : CompareOp) : op.mark.text = op.sign := by cases op <;> rfl

namespace Expr

mutual

/-- Whether all names, of variables and of functions, and all constants of an expression
pass a test. -/
def leavesAll (nameOk : String → Bool) (literalOk : Literal → Bool) : Expr → Bool
  | literal value _ => literalOk value
  | name id _ => nameOk id
  | binary _ left right _ => leavesAll nameOk literalOk left && leavesAll nameOk literalOk right
  | compare _ left right _ => leavesAll nameOk literalOk left && leavesAll nameOk literalOk right
  | tuple items _ => leavesAllList nameOk literalOk items
  | call function args _ => nameOk function && leavesAllList nameOk literalOk args

/-- Whether all names and all constants of some expressions pass a test. -/
def leavesAllList (nameOk : String → Bool) (literalOk : Literal → Bool) : List Expr → Bool
  | [] => true
  | item :: others => leavesAll nameOk literalOk item && leavesAllList nameOk literalOk others

end

/-- If all names and constants of some expressions pass a test, those of each of them do. -/
theorem leavesAll_of_mem {nameOk : String → Bool} {literalOk : Literal → Bool}
    {items : List Expr} (h : leavesAllList nameOk literalOk items = true) :
    ∀ item ∈ items, item.leavesAll nameOk literalOk = true := by
  induction items with
  | nil => exact nofun
  | cons item others ih =>
    obtain ⟨hitem, hothers⟩ := Bool.and_eq_true_iff.mp h
    exact List.forall_mem_cons.mpr ⟨hitem, ih hothers⟩

/-- Whether an expression can be written: its names are names, and its constants have a
spelling. -/
def isWritable (e : Expr) : Bool := e.leavesAll isName Literal.isWritable

/-- The tokens of an operand where a least precedence is required. -/
def operandTokens (minimum : Nat) (operand : Expr) (tokens : List Token) : List Token :=
  if operand.precedence < minimum ∧ ¬operand.isTuple then
    .symbol .leftParen :: (tokens ++ [.symbol .rightParen])
  else tokens

mutual

/-- The tokens of an expression. -/
def tokens : Expr → List Token
  | literal value _ => value.tokens
  | name id _ => [.name id]
  | binary op left right _ =>
    operandTokens op.leftMinimum left left.tokens ++
      .symbol op.mark :: operandTokens op.rightMinimum right right.tokens
  | compare op left right _ =>
    operandTokens 2 left left.tokens ++ .symbol op.mark :: operandTokens 2 right right.tokens
  | tuple items _ =>
    .symbol .leftParen :: (listTokens items ++
      ((if items.length = 1 then [.symbol .comma] else []) ++ [.symbol .rightParen]))
  | call function args _ =>
    .name function :: .symbol .leftParen :: (listTokens args ++ [.symbol .rightParen])

/-- The tokens of some expressions with commas between them. -/
def listTokens : List Expr → List Token
  | [] => []
  | item :: others => operandTokens 1 item item.tokens ++ moreTokens others

/-- The tokens of some expressions with a comma before each. -/
def moreTokens : List Expr → List Token
  | [] => []
  | item :: others => .symbol .comma :: (operandTokens 1 item item.tokens ++ moreTokens others)

end

/-- A closing parenthesis ends every spelling before it. -/
theorem spells_closed {s : List Char} {a : List Token} (h : Spells s a) :
    Spells (s ++ [')']) (a ++ [.symbol .rightParen]) :=
  h.append (spells_mark .rightParen (t := []) (fun _ => rfl) .nil)
    (fun rest _ c hc => by cases hc; rfl)

/-- An opening parenthesis stands before every spelling. -/
theorem spells_opened {s : List Char} {a : List Token} (h : Spells s a) :
    Spells ('(' :: s) (.symbol .leftParen :: a) :=
  spells_mark .leftParen (fun _ => rfl) h

/-- The text of an operand spells its tokens. -/
theorem spells_operand {minimum : Nat} {operand : Expr} {text : String} {tokens : List Token}
    (h : Spells text.toList tokens) :
    Spells (operandText minimum operand text).toList (operandTokens minimum operand tokens) := by
  unfold operandText operandTokens
  split
  · rw [String.toList_append, String.toList_append]
    exact spells_opened (spells_closed h)
  · exact h

/-- Two operands with a sign between them spell the tokens with its mark between them. -/
theorem spells_between {left right sign : String} {a b : List Token} {mark : Symbol}
    (hleft : Spells left.toList a) (hright : Spells right.toList b) (hsign : mark.text = sign) :
    Spells (left ++ " " ++ sign ++ " " ++ right).toList (a ++ .symbol mark :: b) := by
  have hoperator := (spells_operator mark hright).blank
  have hall := hleft.append hoperator (fun rest _ c hc => by cases hc; rfl)
  rw [hsign] at hall
  simpa [String.toList_append] using hall

/-- Texts after a first one, each after a comma and a blank. -/
def moreText : List String → List Char
  | [] => []
  | part :: others => ',' :: ' ' :: (part.toList ++ moreText others)

/-- Texts with commas between them are the first one and the further ones. -/
theorem toList_commaSeparated (part : String) (others : List String) :
    (Text.commaSeparated (part :: others)).toList = part.toList ++ moreText others := by
  unfold Text.commaSeparated
  induction others generalizing part with
  | nil => rw [String.intercalate_singleton, moreText, List.append_nil]
  | cons next rest ih =>
    rw [String.intercalate_cons_cons, String.toList_append, ih, String.toList_append, moreText,
      List.append_assoc]
    rfl

/-- After an operand of a list comes a stop. -/
theorem stops_moreText (others : List String) (rest : List Char) (h : Stops rest) :
    Stops (moreText others ++ rest) := by
  cases others with
  | nil => exact h
  | cons part others =>
    intro c hc
    cases hc
    rfl

/-- A tuple spells its tokens, with a comma after a single part. -/
theorem spells_tuple {items : List Expr}
    (h : Spells (Text.commaSeparated (textsWith id items)).toList (listTokens items)) :
    Spells (Text.tuple (textsWith id items)).toList
      (.symbol .leftParen :: (listTokens items ++
        ((if items.length = 1 then [.symbol .comma] else []) ++ [.symbol .rightParen]))) := by
  have hplain : Spells ("(" ++ Text.commaSeparated (textsWith id items) ++ ")").toList
      (.symbol .leftParen :: (listTokens items ++ [.symbol .rightParen])) := by
    rw [String.toList_append, String.toList_append]
    exact spells_opened (spells_closed h)
  match items with
  | [] => exact hplain
  | [item] =>
    have hcomma : Spells [',', ')'] [.symbol .comma, .symbol .rightParen] :=
      spells_mark .comma (fun _ => rfl) (spells_closed .nil)
    have hlist := h.append hcomma (fun rest _ c hc => by cases hc; rfl)
    have hpart : Text.commaSeparated (textsWith id [item]) = operandText 1 item item.text :=
      String.intercalate_singleton
    rw [hpart] at hlist
    simpa [textsWith, Text.tuple, String.toList_append, text] using spells_opened hlist
  | _ :: _ :: _ => exact hplain

mutual

/-- The text of an expression that can be written spells its tokens. -/
theorem spells_text : (e : Expr) → e.isWritable = true → Spells e.text.toList e.tokens
  | literal value _, h => Literal.spells h
  | name id _, h => spells_name h
  | binary op left right _, h => by
    obtain ⟨hleft, hright⟩ := Bool.and_eq_true_iff.mp h
    exact spells_between (spells_operand (spells_text left hleft))
      (spells_operand (spells_text right hright)) op.text_mark
  | compare op left right _, h => by
    obtain ⟨hleft, hright⟩ := Bool.and_eq_true_iff.mp h
    exact spells_between (spells_operand (spells_text left hleft))
      (spells_operand (spells_text right hright)) op.text_mark
  | tuple items _, h => by
    rw [text, textWith, tokens]
    exact spells_tuple (spells_items items h)
  | call function args _, h => by
    obtain ⟨hname, hargs⟩ := Bool.and_eq_true_iff.mp h
    have hlist := spells_opened (spells_closed (spells_items args hargs))
    have hall := (spells_name hname).append hlist (fun rest _ c hc => by cases hc; rfl)
    rw [text, textWith, tokens]
    simpa [String.toList_append] using hall

/-- The texts of some expressions with commas between them spell their tokens. -/
theorem spells_items : (items : List Expr) →
    leavesAllList isName Literal.isWritable items = true →
    Spells (Text.commaSeparated (textsWith id items)).toList (listTokens items)
  | [], _ => .nil
  | item :: others, h => by
    obtain ⟨hitem, hothers⟩ := Bool.and_eq_true_iff.mp h
    rw [textsWith, toList_commaSeparated, listTokens]
    exact (spells_operand (spells_text item hitem)).append (spells_more others hothers)
      (stops_moreText _)

/-- The further texts of a list spell their tokens, each after a comma. -/
theorem spells_more : (items : List Expr) →
    leavesAllList isName Literal.isWritable items = true →
    Spells (moreText (textsWith id items)) (moreTokens items)
  | [], _ => .nil
  | item :: others, h => by
    obtain ⟨hitem, hothers⟩ := Bool.and_eq_true_iff.mp h
    rw [textsWith, moreText, moreTokens]
    exact spells_mark .comma (fun _ => rfl)
      ((spells_operand (spells_text item hitem)).append (spells_more others hothers)
        (stops_moreText _)).blank

end

end Expr

/-- A text that starts with the first character of a token. -/
def StartsPlain (text : List Char) : Prop := ∃ c cs, text = c :: cs ∧ isPlain c = true

theorem StartsPlain.append {s : List Char} (h : StartsPlain s) (t : List Char) :
    StartsPlain (s ++ t) := by
  obtain ⟨c, cs, rfl, hc⟩ := h
  exact ⟨c, cs ++ t, rfl, hc⟩

/-- The digits of a number start with a digit. -/
theorem startsPlain_toDigits (n : Nat) : StartsPlain (Nat.toDigits 10 n) := by
  cases h : Nat.toDigits 10 n with
  | nil => exact absurd h Nat.toDigits_ne_nil
  | cons c cs =>
    have hdigit : c.isDigit = true := Decimal.allDigits_toDigits n c (h ▸ List.mem_cons_self)
    exact ⟨c, cs, rfl, isPlain_of_isDigit hdigit⟩

/-- A numeral starts with a digit. -/
theorem startsPlain_numeral {text : List Char} {d : Decimal} (h : Decimal.Numeral text d) :
    StartsPlain text := by
  cases text with
  | nil => cases Numeral.not_allDigits h
  | cons c cs => exact ⟨c, cs, rfl, isPlain_of_isDigit (Numeral.isDigit_head h)⟩

/-- A constant that can be written starts with a digit, a sign or a letter. -/
theorem Literal.startsPlain_text {value : Literal} (h : value.isWritable = true) :
    StartsPlain value.text.toList := by
  cases value with
  | int n =>
    rw [text, Int.toString_eq_repr, Int.repr_eq_if]
    split
    · rw [Nat.toList_repr]
      exact startsPlain_toDigits _
    · rw [String.toList_append]
      exact ⟨'-', _, rfl, rfl⟩
  | float x =>
    obtain ⟨d, numeral, hnumeral, _, htext⟩ := Binary64.numeral_text h
    rw [text, htext, String.toList_ofList]
    split
    · exact ⟨'-', _, rfl, rfl⟩
    · exact startsPlain_numeral hnumeral
  | bool b =>
    cases b with
    | true => exact ⟨'T', _, rfl, rfl⟩
    | false => exact ⟨'F', _, rfl, rfl⟩
  | none => exact ⟨'N', _, rfl, rfl⟩

/-- A name starts with a letter or an underscore. -/
theorem startsPlain_name {text : String} (h : isName text = true) : StartsPlain text.toList := by
  unfold isName at h
  cases htext : text.toList with
  | nil => rw [htext] at h; cases h
  | cons c cs =>
    rw [htext] at h
    simp only [Bool.and_eq_true] at h
    exact ⟨c, cs, rfl, isPlain_of_startsName h.1.1⟩

namespace Expr

/-- An operand starts as its text does, or with a parenthesis. -/
theorem startsPlain_operand {minimum : Nat} {operand : Expr} {text : String}
    (h : StartsPlain text.toList) : StartsPlain (operandText minimum operand text).toList := by
  unfold operandText
  split
  · rw [String.toList_append, String.toList_append]
    exact ⟨'(', _, rfl, rfl⟩
  · exact h

/-- An expression that can be written starts with the first character of a token. -/
theorem startsPlain_text : (e : Expr) → e.isWritable = true → StartsPlain e.text.toList
  | literal value _, h => Literal.startsPlain_text h
  | name id _, h => startsPlain_name h
  | binary op left right _, h => by
    obtain ⟨hleft, _⟩ := Bool.and_eq_true_iff.mp h
    rw [text, textWith, String.append_assoc, String.append_assoc, String.append_assoc,
      String.toList_append]
    exact (startsPlain_operand (startsPlain_text left hleft)).append _
  | compare op left right _, h => by
    obtain ⟨hleft, _⟩ := Bool.and_eq_true_iff.mp h
    rw [text, textWith, String.append_assoc, String.append_assoc, String.append_assoc,
      String.toList_append]
    exact (startsPlain_operand (startsPlain_text left hleft)).append _
  | tuple items _, h => by
    rw [text, textWith]
    unfold Text.tuple
    split
    · rw [String.toList_append, String.toList_append]
      exact ⟨'(', _, rfl, rfl⟩
    · rw [String.toList_append, String.toList_append]
      exact ⟨'(', _, rfl, rfl⟩
  | call function args _, h => by
    obtain ⟨hname, _⟩ := Bool.and_eq_true_iff.mp h
    rw [text, textWith, String.append_assoc, String.append_assoc, String.toList_append]
    exact (startsPlain_name hname).append _

end Expr

/-- An operand starts as its tokens do, or with a parenthesis. -/
theorem Expr.operandTokens_eq_cons (minimum : Nat) {operand : Expr} {tokens : List Token}
    (h : ∃ first others, tokens = first :: others ∧ first.startsExpr = true) :
    ∃ first others, operandTokens minimum operand tokens = first :: others ∧
      first.startsExpr = true := by
  unfold operandTokens
  split
  · exact ⟨_, _, rfl, rfl⟩
  · exact h

/-- Every expression has tokens, and the first one starts an expression. -/
theorem Expr.tokens_eq_cons : (e : Expr) → ∃ first others, e.tokens = first :: others ∧
    first.startsExpr = true
  | literal value _ => by
    rw [tokens]
    cases value with
    | int n =>
      rw [Literal.tokens]
      split
      · exact ⟨_, _, rfl, rfl⟩
      · exact ⟨_, _, rfl, rfl⟩
    | float x =>
      rw [Literal.tokens]
      split
      · exact ⟨_, _, rfl, rfl⟩
      · exact ⟨_, _, rfl, rfl⟩
    | bool b => cases b <;> exact ⟨_, _, rfl, rfl⟩
    | none => exact ⟨_, _, rfl, rfl⟩
  | name id _ => ⟨_, _, rfl, rfl⟩
  | binary op left right _ => by
    obtain ⟨first, others, htokens, hfirst⟩ :=
      operandTokens_eq_cons op.leftMinimum left.tokens_eq_cons
    exact ⟨first, _, by rw [tokens, htokens]; rfl, hfirst⟩
  | compare op left right _ => by
    obtain ⟨first, others, htokens, hfirst⟩ := operandTokens_eq_cons 2 left.tokens_eq_cons
    exact ⟨first, _, by rw [tokens, htokens]; rfl, hfirst⟩
  | tuple items _ => ⟨_, _, rfl, rfl⟩
  | call function args _ => ⟨_, _, rfl, rfl⟩

/-- A line without an indentation that spells tokens is read as these tokens, the end of the
line and the end of the text. -/
theorem Lexeme.scan_spells {text : String} {tokens : List Token}
    (hspells : Spells text.toList tokens)
    (hstarts : StartsPlain text.toList) (hne : tokens ≠ []) :
    ∃ lexemes place, lexemes.map Lexeme.token = tokens ∧
      scan text = .ok (lexemes ++ [⟨.newline, place⟩, ⟨.endOfFile, place⟩]) := by
  obtain ⟨c, cs, htext, hplain⟩ := hstarts
  obtain ⟨lexemes, place, parens, htokens, hscan⟩ :=
    hspells .origin [] 0 false [] (fun c hc => by cases hc)
  have hopen : (!tokens.isEmpty) = true := by cases tokens with
    | nil => exact absurd rfl hne
    | cons => rfl
  rw [List.append_nil, Bool.false_or, hopen, htext] at hscan
  refine ⟨lexemes, place, htokens, ?_⟩
  simp only [isPlain, Bool.and_eq_true, Bool.not_eq_true', bne_iff_ne, ne_eq] at hplain
  obtain ⟨⟨⟨hblank, hcomment⟩, hline⟩, _⟩ := hplain
  have htake : (c :: cs).takeWhile isBlank = [] := by simp [hblank]
  have hdrop : (c :: cs).dropWhile isBlank = c :: cs := by simp [hblank]
  unfold scan
  rw [htext, scanLine]
  split
  · next hnil => rw [hdrop] at hnil; cases hnil
  · next found rest hfound =>
    cases hdrop.symm.trans hfound
    rw [if_neg hline, if_neg hcomment, htake]
    change ((fun others => [] ++ others) <$> scanInner .origin [] 0 false (c :: cs)) = _
    rw [hscan, scanInner]
    rfl

/-- An expression that can be written is read as its tokens. -/
theorem Expr.scan_text {e : Expr} (h : e.isWritable = true) :
    ∃ lexemes place, lexemes.map Lexeme.token = e.tokens ∧
      Lexeme.scan e.text = .ok (lexemes ++ [⟨.newline, place⟩, ⟨.endOfFile, place⟩]) := by
  obtain ⟨first, others, htokens, _⟩ := e.tokens_eq_cons
  exact Lexeme.scan_spells (spells_text e h) (startsPlain_text e h) (by simp [htokens])

end Walkthrough
