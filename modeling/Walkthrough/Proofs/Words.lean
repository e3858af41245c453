import Walkthrough.Expr.Stages
import Walkthrough.Proofs.Results
import Walkthrough.Proofs.Spelling

/-!
# Replacing the words of a text

Short names in a text are replaced wherever they stand as whole words. Here this is
worked out piece by piece: what a piece of a text turns into does not depend on the
pieces around it, as long as no word goes on from one piece to the next.
-/

namespace Walkthrough

open Text

/-- No word goes on at the start of a text. -/
def EndsWord (text : List Char) : Prop := ∀ c, text.head? = some c → isWordChar c = false

/-- The characters of one word. -/
def IsWord (text : List Char) : Prop := text ≠ [] ∧ ∀ c ∈ text, isWordChar c = true

theorem isWord_of_all {text : List Char} (h : text.all isWordChar = true) (hne : text ≠ []) :
    IsWord text := ⟨hne, List.all_eq_true.mp h⟩

theorem endsWord_nil : EndsWord [] := fun _ h => by cases h

theorem endsWord_cons {c : Char} (h : isWordChar c = false) (text : List Char) :
    EndsWord (c :: text) := fun d hd => by cases hd; exact h

/-- A word that ends is a piece of its own. -/
theorem shortNames_word {word rest : List Char} (hword : IsWord word) (hrest : EndsWord rest) :
    shortNames (word ++ rest) = (isShortName word, word) :: shortNames rest := by
  obtain ⟨hne, hall⟩ := hword
  have hruns := runsBy_append hne hall fun c hc => Bool.eq_false_iff.mp (hrest c hc)
  rw [shortNames, hruns, List.map_cons, Bool.true_and, shortNames]

/-- A text with the short names in it changed by a function. -/
def swapped (change : List Char → List Char) (text : List Char) : List Char :=
  (shortNames text).flatMap fun piece => if piece.1 then change piece.2 else piece.2

section

variable {change : List Char → List Char}

/-- What is not of a word stays. -/
theorem swapped_cons {c : Char} (h : isWordChar c = false) (rest : List Char) :
    swapped change (c :: rest) = c :: swapped change rest := by
  unfold swapped shortNames
  cases rest with
  | nil => simp [runsBy, h]
  | cons d rest =>
    obtain ⟨run, runs, hruns⟩ := runsBy_eq_cons isWordChar d rest
    rw [runsBy, hruns]
    cases hd : isWordChar d with
    | false => simp [h]
    | true => simp [h]

/-- A word that ends is changed if it is a short name. -/
theorem swapped_word {word rest : List Char} (hword : IsWord word) (hrest : EndsWord rest) :
    swapped change (word ++ rest) =
      (if isShortName word then change word else word) ++ swapped change rest := by
  unfold swapped
  rw [shortNames_word hword hrest, List.flatMap_cons]

/-- What a piece of a text turns into, whatever comes after it and does not go on with a word. -/
def Turns (change : List Char → List Char) (text out : List Char) : Prop :=
  ∀ rest, EndsWord rest → swapped change (text ++ rest) = out ++ swapped change rest

theorem Turns.nil : Turns change [] [] := fun _ _ => rfl

/-- Two pieces one after the other. -/
theorem Turns.append {a b x y : List Char} (ha : Turns change a x) (hb : Turns change b y)
    (hends : ∀ rest, EndsWord rest → EndsWord (b ++ rest)) : Turns change (a ++ b) (x ++ y) := by
  intro rest hrest
  rw [List.append_assoc, ha _ (hends rest hrest), hb rest hrest, List.append_assoc]

/-- A character that is not of a word stays. -/
theorem Turns.cons {c : Char} {b y : List Char} (h : isWordChar c = false)
    (hb : Turns change b y) : Turns change (c :: b) (c :: y) := by
  intro rest hrest
  rw [List.cons_append, swapped_cons h, hb rest hrest, List.cons_append]

/-- A piece and another that does not go on with a word. -/
theorem Turns.append_cons {c : Char} {a b x y : List Char} (ha : Turns change a x)
    (h : isWordChar c = false) (hb : Turns change b y) :
    Turns change (a ++ c :: b) (x ++ c :: y) :=
  ha.append (hb.cons h) fun rest _ => endsWord_cons h (b ++ rest)

/-- Characters that are not of a word stay. -/
theorem Turns.marks {marks b y : List Char} (h : ∀ c ∈ marks, isWordChar c = false)
    (hb : Turns change b y) : Turns change (marks ++ b) (marks ++ y) := by
  induction marks with
  | nil => exact hb
  | cons c cs ih =>
    exact (ih fun x hx => h x (List.mem_cons_of_mem _ hx)).cons (h c List.mem_cons_self)

theorem Turns.word {word : List Char} (h : IsWord word) :
    Turns change word (if isShortName word then change word else word) :=
  fun _ hrest => swapped_word h hrest

/-- A word that is not a short name stays. -/
theorem Turns.kept {word : List Char} (h : IsWord word) (hlong : isShortName word = false) :
    Turns change word word := by
  have hturns : Turns change word _ := .word h
  rwa [hlong] at hturns

open Token

/-- A character of a name belongs to a word. -/
theorem isWordChar_of_continuesName {c : Char} (h : continuesName c = true) :
    isWordChar c = true := by
  have hascii : isAscii c = true := by
    refine decide_eq_true ?_
    rcases Bool.or_eq_true_iff.mp h with halphanum | hunderscore
    · rcases Bool.or_eq_true_iff.mp halphanum with halpha | hdigit
      · have hletter := toNat_of_isAlpha halpha
        omega
      · have hnine : c.toNat ≤ 57 := (Char.isDigit_iff_toNat.mp hdigit).2
        omega
    · cases eq_of_beq hunderscore
      decide
  rw [isWordChar, if_pos hascii]
  exact h

theorem isWordChar_of_isDigit {c : Char} (h : c.isDigit = true) : isWordChar c = true :=
  isWordChar_of_continuesName (by simp [continuesName, Char.isAlphanum, h])

/-- A digit is no letter. -/
theorem isAlpha_of_isDigit {c : Char} (h : c.isDigit = true) : c.isAlpha = false := by
  cases halpha : c.isAlpha with
  | false => rfl
  | true =>
    have hstarts : startsName c = true := by simp [startsName, halpha]
    exact absurd h (by simp [isDigit_of_startsName hstarts])

/-- A word that starts with a digit is no short name. -/
theorem isShortName_digit {c : Char} (h : c.isDigit = true) (cs : List Char) :
    isShortName (c :: cs) = false := by
  rw [isShortName, List.all_cons, isAlpha_of_isDigit h, Bool.false_and, Bool.and_false]

/-- Digits, with other characters of the same word after them, stay. -/
theorem turns_digits_append {digits others : List Char} (hdigits : Decimal.AllDigits digits)
    (hne : digits ≠ []) (hothers : ∀ c ∈ others, isWordChar c = true) :
    Turns change (digits ++ others) (digits ++ others) := by
  cases digits with
  | nil => exact absurd rfl hne
  | cons c cs =>
    refine .kept ⟨List.cons_ne_nil _ _, fun x hx => ?_⟩
      (isShortName_digit (hdigits c List.mem_cons_self) _)
    rcases List.mem_append.mp hx with hx | hx
    · exact isWordChar_of_isDigit (hdigits x hx)
    · exact hothers x hx

/-- Digits stay. -/
theorem turns_digits {digits : List Char} (h : Decimal.AllDigits digits) :
    Turns change digits digits := by
  by_cases hne : digits = []
  · subst hne
    exact .nil
  · have hturns : Turns change (digits ++ []) (digits ++ []) := turns_digits_append h hne (by simp)
    rwa [List.append_nil] at hturns

/-- A numeral stays. -/
theorem turns_numeral {text : List Char} {d : Decimal} (h : Decimal.Numeral text d) :
    Turns change text text := by
  cases h with
  | pointed digits some more => exact (turns_digits digits).append_cons rfl (turns_digits more)
  | @scientific whole fraction digits some more power =>
    obtain ⟨sign, exponent, hmark, hsign, hexponent⟩ := Decimal.exponentMark_eq power
    have hword : isWordChar sign = false := by rcases hsign with rfl | rfl <;> rfl
    -- the last digits before the exponent belong to the word of its letter
    have hlast : ∀ {last : List Char}, Decimal.AllDigits last → last ≠ [] →
        Turns change ((last ++ ['e']) ++ sign :: exponent) ((last ++ ['e']) ++ sign :: exponent) :=
      fun hdigits hne =>
        (turns_digits_append hdigits hne (List.all_eq_true.mp rfl)).append_cons hword
        (turns_digits hexponent)
    rw [hmark]
    split
    · simpa using hlast digits some
    · next hfraction =>
      simpa using (turns_digits digits).append_cons rfl (hlast more hfraction)

/-- A double stays, also where it is no ordinary number. -/
theorem turns_double (x : Binary64) : Turns change x.text.toList x.text.toList := by
  by_cases hfinite : x.isFinite = true
  · obtain ⟨d, numeral, hnumeral, _, htext⟩ := Binary64.numeral_text hfinite
    rw [htext, String.toList_ofList]
    split
    · exact (turns_numeral hnumeral).cons rfl
    · exact turns_numeral hnumeral
  · have hinf : Turns change ['i', 'n', 'f'] ['i', 'n', 'f'] :=
      .kept (isWord_of_all rfl (by decide)) rfl
    have hbeyond : Binary64.infinityRank ≤ x.magnitude := by
      simpa [Binary64.isFinite] using hfinite
    unfold Binary64.text
    split
    · exact .kept (isWord_of_all rfl (by decide)) rfl
    · next hnumber =>
      have hinfinite : x.isInfinite = true := by
        simp only [Binary64.isNaN, decide_eq_true_eq] at hnumber
        exact decide_eq_true (by omega)
      rw [if_pos hinfinite, Binary64.signed, String.toList_ofList]
      split
      · exact hinf.cons rfl
      · exact hinf

/-- A constant stays. -/
theorem turns_literal (value : Literal) :
    Turns change value.text.toList value.text.toList := by
  cases value with
  | int n =>
    rw [Literal.text, Int.toString_eq_repr, Int.repr_eq_if]
    split
    · rw [Nat.toList_repr]
      exact turns_digits (Decimal.allDigits_toDigits _)
    · rw [String.toList_append, Nat.toList_repr]
      exact (turns_digits (Decimal.allDigits_toDigits _)).cons rfl
  | float x => exact turns_double x
  | bool b =>
    cases b with
    | true => exact .kept (isWord_of_all rfl (by decide)) rfl
    | false => exact .kept (isWord_of_all rfl (by decide)) rfl
  | none => exact .kept (isWord_of_all rfl (by decide)) rfl

end

/-- A name has the value that is found for it. -/
theorem Scopes.get_ok {scopes : Scopes Value} {id : String} {location : Location} {value : Value} :
    scopes.get id location = .ok value ↔ scopes.find? id = some value := by
  unfold Scopes.get
  split
  · next found hfound => simp [hfound]
  · next hfound => simp [hfound]

/-- What a short name is replaced by. -/
def Scopes.wordText (scopes : Scopes Value) (word : List Char) : List Char :=
  match scopes.find? (String.ofList word) with
  | some value => value.text.toList
  | none => word

/-- What a piece is replaced by, and whether it was. -/
def Scopes.pieceText (scopes : Scopes Value) (piece : Bool × List Char) : Bool × String :=
  (piece.1, String.ofList (if piece.1 then scopes.wordText piece.2 else piece.2))

/-- A piece is replaced as a short name that is bound, or stays. -/
theorem substitutePiece_eq {scopes : Scopes Value} (location : Location)
    {piece : Bool × List Char}
    (h : piece.1 = true → ∃ value, scopes.find? (String.ofList piece.2) = some value) :
    substitutePiece scopes location piece = .ok (scopes.pieceText piece) := by
  unfold substitutePiece Scopes.pieceText
  split
  · next hfound =>
    obtain ⟨value, hvalue⟩ := h hfound
    refine except_bind_ok.mpr ⟨value, Scopes.get_ok.mpr hvalue, except_pure_ok.mpr ?_⟩
    rw [hfound, Scopes.wordText, hvalue, String.ofList_toList]
  · next hother => rw [Bool.eq_false_iff.mpr hother]

/-- A text whose short names are all bound is replaced by the text with these names changed, if
there is one. -/
theorem substitute_eq {scopes : Scopes Value} {text : String} (location : Location)
    (h : ∀ piece ∈ shortNames text.toList, piece.1 = true →
      ∃ value, scopes.find? (String.ofList piece.2) = some value) :
    substitute scopes text location =
      .ok (if (shortNames text.toList).any Prod.fst then
        some (String.ofList (swapped scopes.wordText text.toList)) else none) := by
  have hparts := except_mapM_map fun piece hpiece => substitutePiece_eq location (h piece hpiece)
  have hjoin : String.join (((shortNames text.toList).map scopes.pieceText).map Prod.snd) =
      String.ofList (swapped scopes.wordText text.toList) := by
    apply String.toList_inj.mp
    rw [String.toList_join, List.flatMap_map, List.flatMap_map, String.toList_ofList]
    exact List.flatMap_congr fun piece _ => String.toList_ofList
  refine except_bind_ok.mpr ⟨_, hparts, except_pure_ok.mpr ?_⟩
  rw [hjoin, List.any_map]
  rfl

end Walkthrough
