import Mathlib.Algebra.Field.Rat
import Mathlib.Algebra.GroupWithZero.Basic
import Mathlib.Tactic.FieldSimp
import Mathlib.Tactic.Ring
import Walkthrough.Proofs.Scanning
import Walkthrough.Proofs.Substitution

/-!
# The texts of values

A double is written with the digits of the shortest decimal that denotes it. Its first digit counts
some power of ten, which decides between two forms: with a point among the digits and zeros
around them, or with one digit before the point and an exponent. Neither form changes the number
that the digits denote, and the scanner reads each of them as one token.

The text of a value is read as an expression that has this value. So a value can be told from
its text, unless a part of it is the least whole number, infinite or no number at all.
-/

namespace Walkthrough

namespace Decimal

/-- The rational number that a decimal is. -/
def value (d : Decimal) : ℚ := d.coefficient * 10 ^ d.exponent

/-- The rational number that digits with a point among them denote. -/
def pointValue (whole fraction : List Char) : ℚ :=
  ofDigits whole + ofDigits fraction / 10 ^ fraction.length

/-- A text has digits on both sides of a point, and denotes a number. -/
def Positional (text : List Char) (q : ℚ) : Prop :=
  ∃ whole fraction, text = whole ++ '.' :: fraction ∧ AllDigits whole ∧ whole ≠ [] ∧
    AllDigits fraction ∧ fraction ≠ [] ∧ q = pointValue whole fraction

/-- A text has one digit, a fraction unless that is empty, and an exponent with a sign and two
digits or more, and denotes a number. -/
def Exponential (text : List Char) (q : ℚ) : Prop :=
  ∃ first fraction sign exponent,
    text = first :: ((if fraction = [] then [] else '.' :: fraction) ++ 'e' :: sign :: exponent) ∧
    first.isDigit = true ∧ AllDigits fraction ∧ (sign = '+' ∨ sign = '-') ∧ AllDigits exponent ∧
    2 ≤ exponent.length ∧
    q = pointValue [first] fraction *
      10 ^ (if sign = '-' then -(ofDigits exponent : ℤ) else (ofDigits exponent : ℤ))

/-- Digits after others count less than these by one power of ten each. -/
theorem ofDigits_append (s t : List Char) :
    ofDigits (s ++ t) = 10 ^ t.length * ofDigits s + ofDigits t := by
  change Nat.ofDigitChars 10 _ 0 = _ * Nat.ofDigitChars 10 _ 0 + Nat.ofDigitChars 10 _ 0
  rw [Nat.ofDigitChars_append, Nat.ofDigitChars_eq_ofDigitChars_zero]

/-- Digits with a point among them denote the number of their decimal. -/
theorem value_ofParts (whole fraction : List Char) :
    (ofParts whole fraction).value = pointValue whole fraction := by
  rw [value, ofParts, pointValue, ofDigits_append, zpow_neg, zpow_natCast]
  push_cast
  field_simp

/-- Zeros after a whole number, with a point before the last of them, do not change it. -/
theorem value_withFraction {d : Decimal} (h : 0 ≤ d.exponent) :
    (Decimal.mk (d.coefficient * tenTo (d.exponent.toNat + 1)) (-1)).value = d.value := by
  obtain ⟨n, hn⟩ := Int.eq_ofNat_of_zero_le h
  have hten : (tenTo (n + 1) : ℚ) = 10 ^ n * 10 := by
    rw [tenTo, Nat.pow_eq, pow_succ]
    push_cast
    rfl
  rw [value, value, hn, Int.toNat_natCast, zpow_neg_one, zpow_natCast]
  push_cast
  rw [hten]
  field_simp

/-- The positional form denotes the number of its decimal. -/
theorem positional_pointed (d : Decimal) : Positional d.pointed d.value := by
  obtain ⟨whole, fraction, hform, hwhole, hne, hfraction, hsome, hparts⟩ := d.pointed_parts
  refine ⟨whole, fraction, hform, hwhole, hne, hfraction, hsome, ?_⟩
  rw [← value_ofParts]
  rcases hparts with hsame | ⟨hlow, hfilled⟩
  · rw [hsame]
  · rw [hfilled, value_withFraction hlow]

/-- A decimal is its digits, with a point after the first one, times the power of ten that the
first one counts. -/
theorem value_eq_digits {d : Decimal} {first : Char} {further : List Char}
    (h : d.digits = first :: further) :
    d.value = pointValue [first] further * 10 ^ d.leadingExponent := by
  have hcoefficient : ofDigits ([first] ++ further) = d.coefficient := by
    rw [List.singleton_append, ← h]
    exact ofDigits_toDigits _
  have hexponent : -(further.length : Int) + d.leadingExponent = d.exponent := by
    have hlength := d.leadingExponent_eq
    rw [h, List.length_cons] at hlength
    omega
  have hten : (10 : ℚ) ≠ 0 := by norm_num
  rw [← value_ofParts, value, value, ofParts, hcoefficient, mul_assoc, ← zpow_add₀ hten, hexponent]

/-- The mark of an exponent is a sign and two digits or more that denote it. -/
theorem exponentMark_parts (k : Int) :
    ∃ sign digits, exponentMark k = sign :: digits ∧ (sign = '+' ∨ sign = '-') ∧
      AllDigits digits ∧ 2 ≤ digits.length ∧
      (if sign = '-' then -(ofDigits digits : Int) else (ofDigits digits : Int)) = k := by
  have hvalue : ofDigits (List.replicate (2 - (Nat.toDigits 10 k.natAbs).length) '0' ++
      Nat.toDigits 10 k.natAbs) = k.natAbs := by
    rw [ofDigits_zeros_append, ofDigits_toDigits]
  refine ⟨_, _, rfl, ?_, (allDigits_replicate _).append (allDigits_toDigits _), ?_, ?_⟩
  · split
    · exact .inr rfl
    · exact .inl rfl
  · simp only [List.append_eq, List.length_append, List.length_replicate]
    omega
  · rw [List.append_eq, hvalue]
    by_cases hk : k < 0
    · rw [if_pos hk, if_pos rfl]
      omega
    · rw [if_neg hk, if_neg (by decide)]
      omega

/-- The exponent form denotes the number of its decimal. -/
theorem exponential_scientific (d : Decimal) : Exponential d.scientific d.value := by
  have hdigits : AllDigits d.digits := allDigits_toDigits _
  obtain ⟨first, further, h⟩ := List.exists_cons_of_ne_nil (l := d.digits) Nat.toDigits_ne_nil
  obtain ⟨sign, mark, hmark, hsign, hall, hlength, hpower⟩ := exponentMark_parts d.leadingExponent
  rw [h] at hdigits
  refine ⟨first, further, sign, mark, ?_, hdigits first List.mem_cons_self,
    fun c hc => hdigits c (List.mem_cons_of_mem _ hc), hsign, hall, hlength, ?_⟩
  · rw [scientific, h, hmark]
    rfl
  · rw [hpower]
    exact value_eq_digits h

/-- The two forms are told apart by the mark of the exponent. -/
theorem Positional.not_exponential {text : List Char} {q r : ℚ} (h : Positional text q) :
    ¬ Exponential text r := by
  obtain ⟨whole, fraction, rfl, hwhole, -, hfraction, -, -⟩ := h
  rintro ⟨first, more, sign, exponent, htext, -⟩
  have hmem : 'e' ∈ whole ++ '.' :: fraction := by
    rw [htext]
    simp
  rcases List.mem_append.mp hmem with hmem | hmem
  · cases hwhole _ hmem
  · rcases List.mem_cons.mp hmem with hpoint | hmem
    · cases hpoint
    · cases hfraction _ hmem

/-- The form in which values are written denotes the number of its decimal. It is positional for
the powers of ten from -4 to 15, and exponential for all others. -/
theorem valueForm_denotes (d : Decimal) :
    (-4 ≤ d.leadingExponent ∧ d.leadingExponent < 16 → Positional d.valueForm d.value) ∧
      (¬ (-4 ≤ d.leadingExponent ∧ d.leadingExponent < 16) →
        Exponential d.valueForm d.value) := by
  unfold valueForm isPositional
  constructor
  · rintro ⟨hlow, hhigh⟩
    rw [if_pos (by simp [hlow, hhigh])]
    exact d.positional_pointed
  · intro hrange
    rw [if_neg (by simpa using hrange)]
    exact d.exponential_scientific

end Decimal

open Lexeme

/-- A numeral is scanned as one token on a line of its own. -/
theorem Lexeme.scan_numeral {text : List Char} {d : Decimal} (h : Decimal.Numeral text d) :
    scan (String.ofList text) = .ok [⟨.float (d.toBinary64 false), .origin⟩,
      ⟨.newline, Location.origin.afterAll text⟩, ⟨.endOfFile, Location.origin.afterAll text⟩] := by
  obtain ⟨c, cs, rfl, hplain⟩ := startsPlain_numeral h
  have hread : Token.read c (cs ++ []) = _ := Token.read_numeral h nofun
  rw [List.append_nil] at hread
  have hdigit := Token.Numeral.isDigit_head h
  have hsolid : isSolid c = true := by
    simp only [isPlain, Bool.and_eq_true] at hplain
    simp only [isSolid, Bool.and_eq_true]
    exact hplain.1
  have hends : ¬ IsContinuation c cs := by
    rintro ⟨rfl, -⟩
    cases hdigit
  have hlayout : layout (Location.origin.afterAll []) (indentWidth []) [] = .ok ([], []) := rfl
  let last : Location := Location.origin.afterAll (c :: cs)
  calc scan (String.ofList (c :: cs))
    _ = Scanner.tokens ⟨.start, .origin, [], c :: cs⟩ := by rw [scan, String.toList_ofList]; rfl
    _ = prepend [] (Scanner.tokens ⟨.inside 0 false, .origin, [], c :: cs⟩) :=
      (Scanner.Step.indentation (List.forall_mem_nil _) hsolid hlayout).tokens_eq
    _ = prepend [⟨.float (d.toBinary64 false), .origin⟩]
        (Scanner.tokens ⟨.inside 0 true, last, [], []⟩) := by
      rw [prepend_nil]
      exact (Scanner.Step.token hsolid hends hread).tokens_eq
    _ = .ok [⟨.float (d.toBinary64 false), .origin⟩, ⟨.newline, last⟩, ⟨.endOfFile, last⟩] := by
      rw [Scanner.Ends.finished.tokens_eq]
      rfl

/-- The text of a finite double lays out the digits of its shortest decimal without changing the
number. These are a first digit, which counts a power of ten, and further ones. The text is a
numeral for their number, after a sign exactly if the double is negative, also if it is zero. The
numeral has digits on both sides of a point exactly for the powers from -4 to 15. For all others
it has one digit, a fraction if there are further ones, and an exponent with its sign and two
digits at least. The scanner reads it as one token, the double without its sign. -/
theorem double_text_keeps_number {x : Binary64} (hfinite : x.isFinite = true) {first : Char}
    {further : List Char} {k : Int}
    (hdigits : (Decimal.shortest x.magnitude).digits = first :: further)
    (hk : (Decimal.shortest x.magnitude).leadingExponent = k) :
    ∃ numeral, x.text = String.ofList (if x.negative then '-' :: numeral else numeral) ∧
      (Decimal.Positional numeral (Decimal.pointValue [first] further * 10 ^ k) ∨
        Decimal.Exponential numeral (Decimal.pointValue [first] further * 10 ^ k)) ∧
      ((∃ q, Decimal.Positional numeral q) ↔ -4 ≤ k ∧ k < 16) ∧
      ((∃ q, Decimal.Exponential numeral q) ↔ ¬ (-4 ≤ k ∧ k < 16)) ∧
      ∃ last, scan (String.ofList numeral) = .ok [⟨.float { x with negative := false }, .origin⟩,
        ⟨.newline, last⟩, ⟨.endOfFile, last⟩] := by
  obtain ⟨d, hnumeral, hdenotes⟩ := Binary64.numeral_valueForm hfinite
  obtain ⟨hpointed, hexponent⟩ := Decimal.valueForm_denotes (Decimal.shortest x.magnitude)
  rw [Decimal.value_eq_digits hdigits, hk] at hpointed hexponent
  have hscan := Lexeme.scan_numeral hnumeral
  have htoken : d.toBinary64 false = { x with negative := false } := by
    rw [← hdenotes]
    rfl
  rw [htoken] at hscan
  refine ⟨_, Binary64.text_eq_valueForm hfinite, ?_, ?_, ?_, _, hscan⟩
  · by_cases hrange : -4 ≤ k ∧ k < 16
    · exact .inl (hpointed hrange)
    · exact .inr (hexponent hrange)
  · refine ⟨fun ⟨q, hq⟩ => ?_, fun hrange => ⟨_, hpointed hrange⟩⟩
    by_contra hrange
    exact hq.not_exponential (hexponent hrange)
  · exact ⟨fun ⟨q, hq⟩ hrange => (hpointed hrange).not_exponential hq,
      fun hrange => ⟨_, hexponent hrange⟩⟩

/-- A small negative number, whose first digit counts the power -7. -/
def Sample.small : Binary64 := (Decimal.mk 15 (-8)).toBinary64 true

theorem small_text_keeps_number :
    Sample.small.isFinite = true ∧ Sample.small.text = "-1.5e-07" ∧
      ∃ numeral, Sample.small.text = String.ofList ('-' :: numeral) ∧
        Decimal.Exponential numeral (Decimal.pointValue ['1'] ['5'] * 10 ^ (-7 : ℤ)) ∧
        (¬ ∃ q, Decimal.Positional numeral q) ∧
        ∃ last, scan (String.ofList numeral) = .ok [⟨.float Sample.small.neg, .origin⟩,
          ⟨.newline, last⟩, ⟨.endOfFile, last⟩] := by
  have hfinite : Sample.small.isFinite = true := by decide +kernel
  have hdigits : (Decimal.shortest Sample.small.magnitude).digits = ['1', '5'] := by decide +kernel
  have hk : (Decimal.shortest Sample.small.magnitude).leadingExponent = -7 := by decide +kernel
  obtain ⟨numeral, htext, hform, hpositional, -, hscan⟩ :=
    double_text_keeps_number hfinite hdigits hk
  have hnone : ¬ ∃ q, Decimal.Positional numeral q := fun h => absurd (hpositional.mp h) (by decide)
  refine ⟨hfinite, by decide +kernel, numeral, htext, ?_, hnone, hscan⟩
  exact hform.resolve_left fun h => hnone ⟨_, h⟩

/-- The text of a value that can be written is read as one expression, which has this value for
any table of names. -/
theorem Value.parse_text {v : Value} (h : v.isWritable = true) :
    ∃ e place, Program.parse v.text = .ok [.expression e place] ∧
      ∀ scopes, e.eval scopes = .ok v := by
  have hexpr : v.expr.isWritable = true := v.isWritable_expr.trans h
  obtain ⟨e, place, hparse, hsame⟩ := Program.parse_text hexpr
  rw [v.text_expr] at hparse
  refine ⟨e, place, hparse, fun scopes => ?_⟩
  rw [← Expr.eval_placeless, hsame, Expr.eval_placeless]
  exact v.eval_expr scopes

/-- Texts of values lose nothing. The text of a value without the least whole number, infinities
and doubles that are no numbers is read as one expression, and this has the same value for any
table of names. No other such value has the same text. -/
theorem value_text_loses_nothing {v : Value} (h : v.isWritable = true) :
    (∃ e place, Program.parse v.text = .ok [.expression e place] ∧
      ∀ scopes, e.eval scopes = .ok v) ∧
    ∀ w : Value, w.isWritable = true → w.text = v.text → w = v := by
  refine ⟨v.parse_text h, fun w hw htext => ?_⟩
  obtain ⟨e, place, hparse, heval⟩ := v.parse_text h
  obtain ⟨e', place', hparse', heval'⟩ := w.parse_text hw
  rw [htext, hparse] at hparse'
  cases hparse'
  exact Except.ok.inj ((heval' .empty).symm.trans (heval .empty))

/-- Tuples of one part that hold 1 as a whole number, as a double and as a truth value, and a
tuple of negative parts and a tuple without parts. -/
def Sample.ones : Value :=
  .tuple [.tuple [.int 1], .tuple [.float ((Decimal.mk 1 0).toBinary64 false)],
    .tuple [.bool true], .tuple [.int (-1), .float (.zero true), .tuple []], .none]

theorem ones_text_loses_nothing :
    Sample.ones.isWritable = true ∧
      Sample.ones.text = "((1,), (1.0,), (True,), (-1, -0.0, ()), None)" ∧
      (∃ e place, Program.parse Sample.ones.text = .ok [.expression e place] ∧
        e.eval .empty = .ok Sample.ones) ∧
      ∀ w : Value, w.isWritable = true → w.text = Sample.ones.text → w = Sample.ones := by
  have hwritable : Sample.ones.isWritable = true := by decide +kernel
  obtain ⟨⟨e, place, hparse, heval⟩, hsame⟩ := value_text_loses_nothing hwritable
  exact ⟨hwritable, by decide +kernel, ⟨e, place, hparse, heval .empty⟩, hsame⟩

end Walkthrough
