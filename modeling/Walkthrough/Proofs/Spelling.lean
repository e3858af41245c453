import Walkthrough.Proofs.Decimals
import Walkthrough.Expr.Printer
import Walkthrough.Token.Scan

/-!
# How tokens are spelled

A text spells tokens if the scanner, wherever it stands in a line, reads exactly these
tokens from it and then goes on with the text after it. What follows must not be part of
the last name or number, so it starts with a blank, a comma or a parenthesis. Spellings
are put together from those of single tokens, and the text of an expression spells the
tokens of the expression.
-/

namespace Walkthrough

namespace Lexeme

/-- A character that no name or number goes on with. -/
def isStop (c : Char) : Bool := c == ' ' || c == ',' || c == '(' || c == ')'

/-- The text is at its end or goes on with a character that ends names and numbers. -/
def Stops (text : List Char) : Prop := ∀ c ∈ text.head?, isStop c = true

/-- A text is read as these tokens, after which the scanner goes on. -/
def Spells (text : List Char) (tokens : List Token) : Prop :=
  ∀ place blocks parens lineOpen rest, Stops rest →
    ∃ lexemes place' parens', lexemes.map Lexeme.token = tokens ∧
      scanInner place blocks parens lineOpen (text ++ rest) =
        (scanInner place' blocks parens' (lineOpen || !tokens.isEmpty) rest).map (lexemes ++ ·)

/-- A character that starts neither a blank nor a comment nor the end of a line. -/
def isPlain (c : Char) : Bool := !isBlank c && c != '#' && c != '\n' && c != '\\'

/-- A token that starts here is read, and the scanner goes on after it. -/
theorem scanInner_read {c : Char} {rest : List Char} {reading : Token.Reading}
    (hplain : isPlain c = true) (hread : Token.read c rest = .ok reading) (place : Location)
    (blocks : List Nat) (parens : Nat) (lineOpen : Bool) :
    scanInner place blocks parens lineOpen (c :: rest) =
      (scanInner (place.afterAll reading.spelling) blocks (parensAfter parens reading.token) true
        reading.rest).map (⟨reading.token, place⟩ :: ·) := by
  simp only [isPlain, Bool.and_eq_true, Bool.not_eq_true', bne_iff_ne, ne_eq] at hplain
  obtain ⟨⟨⟨hblank, hcomment⟩, hline⟩, hbackslash⟩ := hplain
  rw [scanInner, if_neg (by simp [hblank]), if_neg hcomment, if_neg hline,
    if_neg (fun h => hbackslash h.1)]
  split
  · next fault hfault => rw [hfault] at hread; cases hread
  · next found hfound =>
    cases hfound.symm.trans hread
    cases scanInner (place.afterAll reading.spelling) blocks (parensAfter parens reading.token) true
      reading.rest <;> rfl

/-- A blank is skipped. -/
theorem scanInner_blank (place : Location) (blocks : List Nat) (parens : Nat) (lineOpen : Bool)
    (rest : List Char) :
    scanInner place blocks parens lineOpen (' ' :: rest) =
      scanInner (place.after ' ') blocks parens lineOpen rest := by
  rw [scanInner, if_pos (by decide)]

namespace Spells

/-- No text spells no tokens. -/
theorem nil : Spells [] [] := by
  intro place blocks parens lineOpen rest _
  refine ⟨[], place, parens, rfl, ?_⟩
  simp only [List.nil_append, List.isEmpty_nil, Bool.not_true, Bool.or_false]
  cases scanInner place blocks parens lineOpen rest <;> rfl

/-- One spelling after another, where the second one starts with a stop or is empty. -/
theorem append {s t : List Char} {a b : List Token} (hs : Spells s a) (ht : Spells t b)
    (hstop : ∀ rest, Stops rest → Stops (t ++ rest)) : Spells (s ++ t) (a ++ b) := by
  intro place blocks parens lineOpen rest hrest
  obtain ⟨first, place', parens', hfirst, hscan⟩ :=
    hs place blocks parens lineOpen (t ++ rest) (hstop rest hrest)
  obtain ⟨second, place'', parens'', hsecond, hscan'⟩ :=
    ht place' blocks parens' (lineOpen || !a.isEmpty) rest hrest
  refine ⟨first ++ second, place'', parens'', by rw [List.map_append, hfirst, hsecond], ?_⟩
  have hopen : (lineOpen || !(a ++ b).isEmpty) = (lineOpen || !a.isEmpty || !b.isEmpty) := by
    cases a <;> cases b <;> simp
  rw [List.append_assoc, hscan, hscan', hopen]
  cases scanInner place'' blocks parens'' (lineOpen || !a.isEmpty || !b.isEmpty) rest with
  | error fault => rfl
  | ok others => simp [Except.map]

/-- A blank before a spelling does not count. -/
theorem blank {t : List Char} {b : List Token} (ht : Spells t b) : Spells (' ' :: t) b := by
  intro place blocks parens lineOpen rest hrest
  rw [List.cons_append, scanInner_blank]
  exact ht _ blocks parens lineOpen rest hrest

/-- A token before a spelling, if it is read there wherever the text ends. -/
theorem cons {c : Char} {cs t : List Char} {token : Token} {b : List Token}
    (hplain : isPlain c = true)
    (hread : ∀ rest, Stops rest →
      Token.read c (cs ++ (t ++ rest)) = .ok ⟨token, c :: cs, t ++ rest⟩)
    (ht : Spells t b) : Spells (c :: cs ++ t) (token :: b) := by
  intro place blocks parens lineOpen rest hrest
  obtain ⟨others, place', parens', hothers, hscan⟩ :=
    ht (place.afterAll (c :: cs)) blocks (parensAfter parens token) true rest hrest
  refine ⟨⟨token, place⟩ :: others, place', parens', by rw [List.map_cons, hothers], ?_⟩
  rw [List.append_assoc, List.cons_append, scanInner_read hplain (hread rest hrest), hscan]
  simp only [Bool.true_or, List.isEmpty_cons, Bool.not_false, Bool.or_true]
  cases scanInner place' blocks parens' true rest with
  | error fault => rfl
  | ok found => rfl

/-- A token is spelled by its characters if it is read before every stop. -/
theorem single {c : Char} {cs : List Char} {token : Token} (hplain : isPlain c = true)
    (hread : ∀ rest, Stops rest → Token.read c (cs ++ rest) = .ok ⟨token, c :: cs, rest⟩) :
    Spells (c :: cs) [token] := by
  have h := cons (t := []) (b := []) hplain hread nil
  rwa [List.append_nil] at h

end Spells

end Lexeme

namespace Token

open Lexeme

/-- A character that starts no word, no number and no quotation. -/
def startsMark (c : Char) : Bool :=
  isPlain c && !c.isDigit && c != '.' && !startsName c && c != '"' && c != '\''

/-- Every mark starts with such a character. -/
theorem text_mark (mark : Symbol) : ∃ c cs, mark.text.toList = c :: cs ∧ startsMark c = true := by
  have h : mark.text.toList.head?.any startsMark = true := by cases mark <;> decide
  cases htext : mark.text.toList with
  | nil => rw [htext] at h; cases h
  | cons c cs =>
    rw [htext] at h
    exact ⟨c, cs, rfl, h⟩

/-- A mark is read where the text does not make it longer. -/
theorem read_mark {mark : Symbol} {c : Char} {cs rest : List Char}
    (htext : mark.text.toList = c :: cs) (hstart : startsMark c = true)
    (h : symbolAt? (mark.text.toList ++ rest) = some mark) :
    read c (cs ++ rest) = .ok ⟨.symbol mark, c :: cs, rest⟩ := by
  have hlength : mark.text.length = (c :: cs).length := by rw [← htext, String.length_toList]
  simp only [startsMark, Bool.and_eq_true, Bool.not_eq_true', bne_iff_ne, ne_eq] at hstart
  obtain ⟨⟨⟨⟨⟨_, hdigit⟩, hpoint⟩, hname⟩, hdouble⟩, hsingle⟩ := hstart
  rw [htext, List.cons_append] at h
  have hnumber : startsNumber c (cs ++ rest) = false := by simp [startsNumber, hdigit, hpoint]
  have hquote : (c == '"' || c == '\'') = false := by simp [hdouble, hsingle]
  unfold read
  rw [hnumber, hname, hquote, h]
  simp only [hlength, ← List.cons_append, List.take_left', List.drop_left', Bool.false_eq_true,
    if_false]

/-- A mark before a spelling that does not make it longer. -/
theorem spells_mark (mark : Symbol) {t : List Char} {b : List Token}
    (h : ∀ rest, symbolAt? (mark.text.toList ++ (t ++ rest)) = some mark) (ht : Spells t b) :
    Spells (mark.text.toList ++ t) (.symbol mark :: b) := by
  obtain ⟨c, cs, htext, hstart⟩ := text_mark mark
  have hplain : isPlain c = true := by
    simp only [startsMark, Bool.and_eq_true] at hstart
    exact hstart.1.1.1.1.1
  rw [htext]
  exact .cons hplain (fun rest _ => read_mark htext hstart (h rest)) ht

/-- An operator is followed by a blank. -/
theorem spells_operator (mark : Symbol) {t : List Char} {b : List Token} (ht : Spells t b) :
    Spells (mark.text.toList ++ ' ' :: t) (.symbol mark :: b) := by
  apply spells_mark mark _ ht.blank
  intro rest
  cases mark <;> rfl

/-- No name goes on with a stop. -/
theorem continuesName_of_isStop {c : Char} (h : isStop c = true) : continuesName c = false := by
  simp only [isStop, Bool.or_eq_true, beq_iff_eq] at h
  rcases h with ((rfl | rfl) | rfl) | rfl <;> decide

/-- The letters lie between the capital A and the small z. -/
theorem toNat_of_isAlpha {c : Char} (h : c.isAlpha = true) : 65 ≤ c.toNat ∧ c.toNat ≤ 122 := by
  rcases Bool.or_eq_true_iff.mp h with hupper | hlower
  · obtain ⟨hlow, hhigh⟩ := of_decide_eq_true hupper
    have hhigh : c.toNat ≤ 90 := hhigh
    exact ⟨hlow, by omega⟩
  · obtain ⟨hlow, hhigh⟩ := Bool.and_eq_true_iff.mp hlower
    have hlow : 97 ≤ c.toNat := of_decide_eq_true hlow
    exact ⟨by omega, of_decide_eq_true hhigh⟩

/-- A character that starts a name is no digit. -/
theorem isDigit_of_startsName {c : Char} (h : startsName c = true) : c.isDigit = false := by
  rw [Bool.eq_false_iff, Ne, Char.isDigit_iff_toNat]
  rintro ⟨_, hnine⟩
  change c.toNat ≤ 57 at hnine
  rcases Bool.or_eq_true_iff.mp h with halpha | hunderscore
  · have hletter := toNat_of_isAlpha halpha
    omega
  · cases eq_of_beq hunderscore
    revert hnine
    decide

/-- A character of a word is no blank and starts no comment. -/
theorem isPlain_of_continuesName {c : Char} (h : continuesName c = true) : isPlain c = true := by
  have hne : ∀ x, continuesName x = false → c ≠ x := by
    rintro x hx rfl
    rw [hx] at h
    cases h
  simp [isPlain, isBlank, hne ' ' rfl, hne '\t' rfl, hne '\r' rfl, hne '#' rfl, hne '\n' rfl,
    hne '\\' rfl]

theorem isPlain_of_isDigit {c : Char} (h : c.isDigit = true) : isPlain c = true :=
  isPlain_of_continuesName (by simp [continuesName, Char.isAlphanum, h])

/-- A character that may start a name may continue it. -/
theorem continuesName_of_startsName {c : Char} (h : startsName c = true) :
    continuesName c = true := by
  simp only [startsName, Bool.or_eq_true] at h
  rcases h with h | h
  · simp [continuesName, Char.isAlphanum, h]
  · simp [continuesName, h]

theorem isPlain_of_startsName {c : Char} (h : startsName c = true) : isPlain c = true :=
  isPlain_of_continuesName (continuesName_of_startsName h)

/-- A character that starts a name starts no number. -/
theorem startsNumber_of_startsName {c : Char} (h : startsName c = true) (rest : List Char) :
    startsNumber c rest = false := by
  have hpoint : c ≠ '.' := by
    rintro rfl
    cases h
  simp [startsNumber, isDigit_of_startsName h, hpoint]

/-- A word is read up to the next stop. -/
theorem read_word {c : Char} {cs rest : List Char} (hfirst : startsName c = true)
    (hothers : ∀ x ∈ cs, continuesName x = true) (hrest : Stops rest) :
    read c (cs ++ rest) = .ok ⟨ofWord (c :: cs), c :: cs, rest⟩ := by
  have hstop : rest.takeWhile continuesName = [] ∧ rest.dropWhile continuesName = rest := by
    cases rest with
    | nil => exact ⟨rfl, rfl⟩
    | cons x xs =>
      have hx := continuesName_of_isStop (hrest x rfl)
      simp [hx]
  have htake : (cs ++ rest).takeWhile continuesName = cs := by
    rw [List.takeWhile_append_of_pos hothers, hstop.1, List.append_nil]
  have hdrop : (cs ++ rest).dropWhile continuesName = rest := by
    rw [List.dropWhile_append_of_pos hothers, hstop.2]
  unfold read
  rw [startsNumber_of_startsName hfirst, hfirst, htake, hdrop]
  rfl

open Decimal

/-- A digit goes on a number. -/
theorem numberTail_digit {c : Char} (hc : c.isDigit = true) (pointed : Bool) (rest : List Char) :
    numberTail pointed (c :: rest) =
      (c :: (numberTail pointed rest).1, (numberTail pointed rest).2) := by
  rw [numberTail.eq_def]
  simp [hc]

/-- The first point goes on a number. -/
theorem numberTail_point (rest : List Char) :
    numberTail false ('.' :: rest) =
      ('.' :: (numberTail true rest).1, (numberTail true rest).2) := by
  rw [numberTail.eq_def]
  rfl

/-- The mark of an exponent with its sign goes on a number. -/
theorem numberTail_exponent {sign : Char} (hsign : sign = '+' ∨ sign = '-') (pointed : Bool)
    (rest : List Char) :
    numberTail pointed ('e' :: sign :: rest) =
      ('e' :: sign :: (numberTail true rest).1, (numberTail true rest).2) := by
  rw [numberTail.eq_def]
  rcases hsign with rfl | rfl <;> simp

/-- Digits go on a number. -/
theorem numberTail_digits {s : List Char} (hs : AllDigits s) (pointed : Bool) (t : List Char) :
    numberTail pointed (s ++ t) = (s ++ (numberTail pointed t).1, (numberTail pointed t).2) := by
  induction s with
  | nil => rfl
  | cons c cs ih =>
    have hc : c.isDigit = true := hs c List.mem_cons_self
    have hcs := ih fun x hx => hs x (List.mem_cons_of_mem c hx)
    rw [List.cons_append, numberTail_digit hc, hcs]
    rfl

/-- A number ends before a stop. -/
theorem numberTail_stops {rest : List Char} (h : Stops rest) (pointed : Bool) :
    numberTail pointed rest = ([], rest) := by
  cases rest with
  | nil => rw [numberTail.eq_def]
  | cons c cs =>
    have hc : isStop c = true := h c rfl
    simp only [isStop, Bool.or_eq_true, beq_iff_eq] at hc
    rw [numberTail.eq_def]
    rcases hc with ((rfl | rfl) | rfl) | rfl <;> simp

/-- A numeral is taken up to the next stop. -/
theorem numberTail_numeral {text rest : List Char} {d : Decimal} (h : Numeral text d)
    (hrest : Stops rest) : numberTail false (text ++ rest) = (text, rest) := by
  have hend := numberTail_stops hrest true
  cases h with
  | pointed digits some more =>
    rw [List.append_assoc, numberTail_digits digits, List.cons_append, numberTail_point,
      numberTail_digits more, hend, List.append_nil]
  | @scientific whole fraction digits some more power =>
    obtain ⟨sign, mark, hmark, hsign, hdigits⟩ := exponentMark_eq power
    have hexponent : ∀ pointed, numberTail pointed ('e' :: exponentMark power ++ rest) =
        ('e' :: exponentMark power, rest) := by
      intro pointed
      rw [hmark, List.cons_append, List.cons_append, numberTail_exponent hsign,
        numberTail_digits hdigits, hend, List.append_nil]
    rw [List.append_assoc, List.append_assoc, numberTail_digits digits]
    by_cases hempty : fraction = []
    · rw [if_pos hempty, List.nil_append, hexponent, List.append_nil]
    · rw [if_neg hempty, List.cons_append, numberTail_point, numberTail_digits more, hexponent]
      simp

/-- A numeral starts with a digit. -/
theorem Numeral.isDigit_head {c : Char} {cs : List Char} {d : Decimal} (h : Numeral (c :: cs) d) :
    c.isDigit = true := by
  generalize htext : c :: cs = text at h
  cases h with
  | pointed digits some more =>
    obtain ⟨x, whole, rfl⟩ := List.exists_cons_of_ne_nil some
    cases htext
    exact digits c List.mem_cons_self
  | scientific digits some more power =>
    obtain ⟨x, whole, rfl⟩ := List.exists_cons_of_ne_nil some
    cases htext
    exact digits c List.mem_cons_self

/-- A numeral has no underscores. -/
theorem filter_numeral {text : List Char} {d : Decimal} (h : Numeral text d) :
    text.filter (· != '_') = text := by
  have hdigit : ∀ {s : List Char}, AllDigits s → '_' ∉ s := fun hs hmem => by cases hs _ hmem
  rw [List.filter_eq_self]
  intro x hx
  rw [bne_iff_ne]
  rintro rfl
  cases h with
  | pointed digits some more =>
    simp only [List.mem_append, List.mem_cons] at hx
    rcases hx with hx | hx | hx
    · exact hdigit digits hx
    · cases hx
    · exact hdigit more hx
  | @scientific whole fraction digits some more power =>
    obtain ⟨sign, mark, hmark, hsign, hdigits⟩ := exponentMark_eq power
    rw [hmark] at hx
    simp only [List.mem_append, List.mem_cons] at hx
    rcases hx with (hx | hx) | hx | hx | hx
    · exact hdigit digits hx
    · split at hx
      · cases hx
      · rcases List.mem_cons.mp hx with hx | hx
        · cases hx
        · exact hdigit more hx
    · cases hx
    · rcases hsign with rfl | rfl <;> cases hx
    · exact hdigit hdigits hx

/-- A numeral does not only have digits. -/
theorem Numeral.not_allDigits {text : List Char} {d : Decimal} (h : Numeral text d) :
    text.all Char.isDigit = false := by
  rw [List.all_eq_false]
  cases h with
  | pointed digits some more => exact ⟨'.', by simp, by decide⟩
  | scientific digits some more power => exact ⟨'e', by simp, by decide⟩

/-- A numeral is read as the double that it denotes. -/
theorem read_numeral {c : Char} {cs rest : List Char} {d : Decimal} (h : Numeral (c :: cs) d)
    (hrest : Stops rest) :
    read c (cs ++ rest) = .ok ⟨.float (d.toBinary64 false), c :: cs, rest⟩ := by
  have hdigit := Numeral.isDigit_head h
  have htail : numberTail false (cs ++ rest) = (cs, rest) := by
    have hall := numberTail_numeral h hrest
    rw [List.cons_append, numberTail_digit hdigit, Prod.mk.injEq, List.cons.injEq] at hall
    exact Prod.ext hall.1.2 hall.2
  have hpoint : (c == '.') = false := by
    rw [beq_eq_false_iff_ne]
    rintro rfl
    cases hdigit
  have hnumber : startsNumber c (cs ++ rest) = true := by simp [startsNumber, hdigit]
  unfold read
  rw [hnumber, if_pos rfl, hpoint, htail]
  dsimp only
  unfold ofNumber
  rw [filter_numeral h]
  dsimp only
  rw [Numeral.not_allDigits h, if_neg (by decide), h.read_eq]
  rfl

/-- The digits of a whole number are read as the number. -/
theorem read_digits {c : Char} {cs rest : List Char} {n : Nat} (h : Nat.toDigits 10 n = c :: cs)
    (hn : n < 0x8000000000000000) (hrest : Stops rest) :
    read c (cs ++ rest) = .ok ⟨.int (Int64.ofNat n), c :: cs, rest⟩ := by
  have hall : AllDigits (c :: cs) := h ▸ allDigits_toDigits n
  have hdigit : c.isDigit = true := hall c List.mem_cons_self
  have hvalue : ofDigits (c :: cs) = n := h ▸ ofDigits_toDigits n
  have hkept : (c :: cs).filter (· != '_') = c :: cs := by
    rw [List.filter_eq_self]
    intro x hx
    rw [bne_iff_ne]
    rintro rfl
    cases hall _ hx
  have hpoint : (c == '.') = false := by
    rw [beq_eq_false_iff_ne]
    rintro rfl
    cases hdigit
  have hnumber : startsNumber c (cs ++ rest) = true := by simp [startsNumber, hdigit]
  have htail : numberTail false (cs ++ rest) = (cs, rest) := by
    rw [numberTail_digits fun x hx => hall x (List.mem_cons_of_mem c hx), numberTail_stops hrest,
      List.append_nil]
  unfold read
  rw [hnumber, if_pos rfl, hpoint, htail]
  dsimp only
  unfold ofNumber
  rw [hkept]
  dsimp only
  rw [if_pos (List.all_eq_true.mpr hall), hvalue, if_pos hn]
  rfl

/-- A name: a word that is not reserved. -/
def isName (text : String) : Bool :=
  match text.toList with
  | [] => false
  | c :: cs => startsName c && cs.all continuesName && (Keyword.ofText? text).isNone

/-- A name spells itself. -/
theorem spells_name {text : String} (h : isName text = true) :
    Spells text.toList [.name text] := by
  unfold isName at h
  cases htext : text.toList with
  | nil => rw [htext] at h; cases h
  | cons c cs =>
    rw [htext] at h
    simp only [Bool.and_eq_true, List.all_eq_true, Option.isNone_iff_eq_none] at h
    obtain ⟨⟨hfirst, hothers⟩, hkeyword⟩ := h
    have hword : ofWord (c :: cs) = .name text := by
      unfold ofWord
      rw [← htext, String.ofList_toList]
      dsimp only
      rw [hkeyword]
    refine .single (isPlain_of_startsName hfirst) fun rest hrest => ?_
    rw [read_word hfirst hothers hrest, hword]

end Token

/-- The tokens of a constant. A negative number is a minus sign and a number. -/
def Literal.tokens : Literal → List Token
  | .int n => if n < 0 then [.symbol .minus, .int (-n)] else [.int n]
  | .float x => if x.negative then [.symbol .minus, .float x.neg] else [.float x]
  | .bool true => [.keyword .trueWord]
  | .bool false => [.keyword .falseWord]
  | .none => [.keyword .noneWord]

/-- A constant that can be written: the least whole number and the doubles that are not
finite have no numeral. -/
def Literal.isWritable : Literal → Bool
  | .int n => n != Int64.minValue
  | .float x => x.isFinite
  | _ => true

namespace Literal

open Lexeme Token

/-- A minus sign before a spelling. -/
theorem spells_minus {t : List Char} {b : List Token} (ht : Spells t b) :
    Spells ('-' :: t) (.symbol .minus :: b) :=
  spells_mark .minus (fun _ => rfl) ht

/-- A whole number that is not negative is spelled by its digits. -/
theorem spells_digits {n : Nat} (hn : n < 0x8000000000000000) :
    Spells (Nat.toDigits 10 n) [.int (Int64.ofNat n)] := by
  cases h : Nat.toDigits 10 n with
  | nil => exact absurd h Nat.toDigits_ne_nil
  | cons c cs =>
    have hdigit : c.isDigit = true := Decimal.allDigits_toDigits n c (h ▸ List.mem_cons_self)
    exact .single (isPlain_of_isDigit hdigit) fun rest hrest => read_digits h hn hrest

/-- A numeral spells the double that it denotes. -/
theorem spells_numeral {text : List Char} {d : Decimal} (h : Decimal.Numeral text d) :
    Spells text [.float (d.toBinary64 false)] := by
  cases text with
  | nil =>
    have hnot := Numeral.not_allDigits h
    cases hnot
  | cons c cs =>
    have hdigit := Numeral.isDigit_head h
    exact .single (isPlain_of_isDigit hdigit) fun rest hrest => read_numeral h hrest

/-- A whole number spells its tokens unless it is the least one. -/
theorem spells_int {n : Int64} (h : n ≠ Int64.minValue) :
    Spells (Literal.int n).text.toList (Literal.int n).tokens := by
  have hmax := n.toInt_lt
  have hmin : Int64.minValue.toInt < n.toInt := by
    have hle := n.minValue_le_toInt
    have hne : n.toInt ≠ Int64.minValue.toInt := fun heq => h (Int64.toInt_inj.mp heq)
    omega
  have hleast : Int64.minValue.toInt = -2 ^ 63 := rfl
  have hsign : n < 0 ↔ n.toInt < 0 := Int64.lt_iff_toInt_lt
  rw [text, tokens, Int.toString_eq_repr, Int.repr_eq_if]
  by_cases hneg : n.toInt < 0
  · have hvalue : Int64.ofNat (-n.toInt).toNat = -n := by
      have hback : (-Int64.ofNat (-n.toInt).toNat).toInt = n.toInt := by
        rw [Int64.toInt_neg_ofNat_of_le (by omega)]
        omega
      calc Int64.ofNat (-n.toInt).toNat = - -Int64.ofNat (-n.toInt).toNat := Int64.neg_neg.symm
        _ = -n := congrArg (- ·) (Int64.toInt_inj.mp hback)
    rw [if_neg (by omega), if_pos (hsign.mpr hneg), String.toList_append, Nat.toList_repr]
    rw [← hvalue]
    exact spells_minus (spells_digits (by omega))
  · have hvalue : Int64.ofNat n.toInt.toNat = n := by
      apply Int64.toInt_inj.mp
      rw [Int64.toInt_ofNat_of_lt (by omega)]
      omega
    rw [if_pos (by omega), if_neg (fun hlt => hneg (hsign.mp hlt)), Nat.toList_repr]
    have hspells := spells_digits (n := n.toInt.toNat) (by omega)
    rwa [hvalue] at hspells

/-- A finite double spells its tokens. -/
theorem spells_float {x : Binary64} (h : x.isFinite = true) :
    Spells (Literal.float x).text.toList (Literal.float x).tokens := by
  obtain ⟨d, text, hnumeral, hdenotes, htext⟩ := Binary64.numeral_text h
  have hspells := spells_numeral hnumeral
  rw [Literal.text, tokens, htext, String.toList_ofList]
  cases hsign : x.negative with
  | true =>
    have hvalue : d.toBinary64 false = x.neg := by
      rw [← hdenotes, hsign]
      rfl
    rw [hvalue] at hspells
    exact spells_minus hspells
  | false =>
    rw [hsign] at hdenotes
    rw [hdenotes] at hspells
    exact hspells

/-- A constant that can be written spells its tokens. -/
theorem spells {value : Literal} (h : value.isWritable = true) :
    Spells value.text.toList value.tokens := by
  have hword : ∀ {c : Char} {cs : List Char} (word : Keyword), startsName c = true →
      (∀ x ∈ cs, continuesName x = true) → ofWord (c :: cs) = .keyword word →
      Spells (c :: cs) [.keyword word] := by
    intro c cs word hfirst hothers hword
    refine .single (isPlain_of_startsName hfirst) fun rest hrest => ?_
    rw [read_word hfirst hothers hrest, hword]
  cases value with
  | int n => exact spells_int (by simpa [isWritable] using h)
  | float x => exact spells_float h
  | bool b =>
    cases b with
    | true => exact hword .trueWord rfl (List.all_eq_true.mp rfl) rfl
    | false => exact hword .falseWord rfl (List.all_eq_true.mp rfl) rfl
  | none => exact hword .noneWord rfl (List.all_eq_true.mp rfl) rfl

end Literal

end Walkthrough
