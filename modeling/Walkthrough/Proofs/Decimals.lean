import Walkthrough.Number.Layout

/-!
# Written doubles read back

The shortest decimal of a finite double denotes it, and the form in which values are
written is read as a decimal that denotes the same double. The only form that is not
read as the very decimal it was written from is a whole number, which gets a fraction
of zero.
-/

namespace Walkthrough

namespace Binary64

/-- A whole multiple of the divisor is its own nearest quotient. -/
theorem nearestEven_mul (n : Nat) {den : Nat} (hden : 0 < den) : nearestEven (n * den) den = n := by
  unfold nearestEven
  rw [Nat.mul_div_cancel n hden, Nat.mul_mod_left]
  simp [hden]

/-- A common factor does not change the nearest quotient. -/
theorem nearestEven_scale (num den : Nat) {factor : Nat} (hfactor : 0 < factor) :
    nearestEven (num * factor) (den * factor) = nearestEven num den := by
  have hquotient : num * factor / (den * factor) = num / den :=
    Nat.mul_div_mul_right num den hfactor
  have hrest : 2 * (num * factor % (den * factor)) = 2 * (num % den) * factor := by
    rw [Nat.mul_mod_mul_right, Nat.mul_assoc]
  unfold nearestEven
  rw [hquotient, hrest]
  simp only [Nat.mul_lt_mul_right hfactor, Nat.mul_left_inj (Nat.ne_of_gt hfactor)]

/-- A common factor does not change the nearest rank. -/
theorem rankOfUnits_scale (num den : Nat) {factor : Nat} (hfactor : 0 < factor) :
    rankOfUnits (num * factor) (den * factor) = rankOfUnits num den := by
  unfold rankOfUnits
  rw [Nat.mul_div_mul_right num den hfactor]
  dsimp only
  rw [Nat.shiftLeft_eq, Nat.shiftLeft_eq, Nat.mul_right_comm, nearestEven_scale _ _ hfactor]

/-- A rank is the start of its binade and the digits of its significand. -/
theorem binade_add_digits (rank : Nat) :
    binade rank * binadeSize + (rank - binade rank * binadeSize) = rank ∧
      rank - binade rank * binadeSize < 2 * binadeSize ∧
      (binade rank ≠ 0 → binadeSize ≤ rank - binade rank * binadeSize) := by
  unfold binade binadeSize
  omega

/-- The rank of a number's units is its rank. -/
theorem rankOfUnits_unitsOfRank (rank : Nat) : rankOfUnits (unitsOfRank rank) 1 = rank := by
  obtain ⟨hrank, hupper, hlower⟩ := binade_add_digits rank
  have hunits : unitsOfRank rank = (rank - binade rank * binadeSize) * 2 ^ binade rank :=
    Nat.shiftLeft_eq _ _
  generalize rank - binade rank * binadeSize = digits at hrank hupper hlower hunits
  have hupper : digits < 2 ^ 53 := hupper
  have hshift : (unitsOfRank rank).log2 - 52 = binade rank := by
    by_cases hbinade : binade rank = 0
    · by_cases hzero : digits = 0
      · rw [hunits, hzero, Nat.zero_mul, hbinade]
        rfl
      · have hlog := (Nat.log2_lt hzero).mpr hupper
        rw [hunits, hbinade, Nat.pow_zero, Nat.mul_one]
        omega
    · have hfull : 2 ^ 52 ≤ digits := hlower hbinade
      have hpos : digits * 2 ^ binade rank ≠ 0 :=
        Nat.mul_ne_zero (by omega) (Nat.pos_iff_ne_zero.mp (Nat.two_pow_pos _))
      have hlog : (digits * 2 ^ binade rank).log2 = 52 + binade rank := by
        rw [Nat.log2_eq_iff hpos]
        constructor
        · rw [Nat.pow_add]
          exact Nat.mul_le_mul_right _ hfull
        · rw [Nat.add_right_comm, Nat.pow_add]
          exact Nat.mul_lt_mul_of_pos_right hupper (Nat.two_pow_pos _)
      rw [hunits, hlog]
      omega
  unfold rankOfUnits
  rw [Nat.div_one, hshift, hunits]
  dsimp only
  rw [Nat.shiftLeft_eq, Nat.one_mul, nearestEven_mul _ (Nat.two_pow_pos _), hrank]

end Binary64

namespace Decimal

/-- A power of ten is not zero. -/
theorem tenTo_pos (k : Nat) : 0 < tenTo k := Nat.pow_pos (by decide)

theorem tenTo_add (j k : Nat) : tenTo (j + k) = tenTo j * tenTo k := Nat.pow_add 10 j k

/-- A power of ten is a power of five shifted. -/
theorem tenTo_eq_shift (k : Nat) : tenTo k = Nat.pow 5 k * 1 <<< k := by
  rw [Nat.shiftLeft_eq, Nat.one_mul]
  exact Nat.mul_pow 5 2 k

/-- A decimal of moderate size has the rank of its quotient of units. -/
theorem rank_eq {d : Decimal} (hcoefficient : d.coefficient ≠ 0) (hlarge : d.exponent ≤ 400)
    (hsmall : -400 ≤ d.exponent + d.coefficient.log2) :
    d.rank = Binary64.rankOfUnits (d.coefficient * tenTo d.exponent.toNat * Binary64.unitsOfOne)
      (tenTo (-d.exponent).toNat) := by
  unfold rank
  rw [if_neg hcoefficient, if_neg (by omega), if_neg (by omega)]

/-- A number that is not zero has units. -/
theorem unitsOfRank_ne_zero {rank : Nat} (hrank : rank ≠ 0) : Binary64.unitsOfRank rank ≠ 0 := by
  intro hzero
  have h := Binary64.rankOfUnits_unitsOfRank rank
  rw [hzero] at h
  exact hrank h.symm

theorem mul_five_pow_ne_zero {n : Nat} (hn : n ≠ 0) (k : Nat) : n * Nat.pow 5 k ≠ 0 :=
  Nat.mul_ne_zero hn (Nat.ne_of_gt (Nat.pow_pos (by decide)))

/-- A multiple of a power of five has at least as many bits as the power. -/
theorem le_log2_mul_five_pow {n : Nat} (hn : n ≠ 0) (k : Nat) : k ≤ (n * Nat.pow 5 k).log2 := by
  rw [Nat.le_log2 (mul_five_pow_ne_zero hn k)]
  calc 2 ^ k ≤ Nat.pow 5 k := Nat.pow_le_pow_left (by decide) k
    _ ≤ n * Nat.pow 5 k := Nat.le_mul_of_pos_left _ (Nat.pos_of_ne_zero hn)

/-- The number with all its digits denotes the double. -/
theorem rank_exact {rank : Nat} (hrank : rank ≠ 0) : (exact rank).rank = rank := by
  have hunits := unitsOfRank_ne_zero hrank
  have hcoefficient : (exact rank).coefficient ≠ 0 := mul_five_pow_ne_zero hunits 1074
  have hlog : 1074 ≤ (exact rank).coefficient.log2 := le_log2_mul_five_pow hunits 1074
  have hexponent : (exact rank).exponent = -1074 := rfl
  have hlarge : (exact rank).exponent ≤ 400 := by
    rw [hexponent]
    decide
  have hsmall : -400 ≤ (exact rank).exponent + (exact rank).coefficient.log2 := by
    rw [hexponent]
    generalize (exact rank).coefficient.log2 = bits at hlog ⊢
    omega
  rw [rank_eq hcoefficient hlarge hsmall]
  have hnum : (exact rank).coefficient * tenTo (exact rank).exponent.toNat * Binary64.unitsOfOne =
      Binary64.unitsOfRank rank * tenTo 1074 := by
    have hone : tenTo (exact rank).exponent.toNat = 1 := rfl
    rw [hone, Nat.mul_one, tenTo_eq_shift, ← Nat.mul_assoc]
    rfl
  have hden : tenTo (-(exact rank).exponent).toNat = 1 * tenTo 1074 := (Nat.one_mul _).symm
  rw [hnum, hden, Binary64.rankOfUnits_scale _ _ (tenTo_pos 1074)]
  exact Binary64.rankOfUnits_unitsOfRank rank

/-- Whatever the search finds denotes the double. -/
theorem rank_search {rank : Nat} (hrank : rank ≠ 0) (grids : Nat) (power : Int) :
    (search rank grids power).rank = rank := by
  induction grids generalizing power with
  | zero => exact rank_exact hrank
  | succ grids ih =>
    unfold search
    cases hfound : neighbour? rank power with
    | none => exact ih (power - 1)
    | some d => exact rank_of_neighbour? hfound

/-- The shortest decimal of a double denotes it. -/
theorem rank_shortest (rank : Nat) : (shortest rank).rank = rank := by
  unfold shortest
  split
  · next hzero => rw [hzero]; rfl
  · next hrank => exact rank_search hrank _ _

/-- A list of digits. -/
def AllDigits (text : List Char) : Prop := ∀ c ∈ text, c.isDigit = true

theorem AllDigits.append {s t : List Char} (hs : AllDigits s) (ht : AllDigits t) :
    AllDigits (s ++ t) := by
  intro c hc
  rcases List.mem_append.mp hc with hc | hc
  · exact hs c hc
  · exact ht c hc

theorem allDigits_replicate (n : Nat) : AllDigits (List.replicate n '0') := by
  intro c hc
  rw [List.eq_of_mem_replicate hc]
  rfl

/-- The digits of a number are digits. -/
theorem allDigits_toDigits (n : Nat) : AllDigits (Nat.toDigits 10 n) := by
  intro c hc
  exact Nat.isDigit_of_mem_toDigits (by decide) (by decide) hc

/-- The digits of a number spell it. -/
theorem ofDigits_toDigits (n : Nat) : ofDigits (Nat.toDigits 10 n) = n :=
  Nat.ofDigitChars_ten_toDigits

/-- Zeros before a number do not count. -/
theorem ofDigits_zeros_append (n : Nat) (text : List Char) :
    ofDigits (List.replicate n '0' ++ text) = ofDigits text := by
  change Nat.ofDigitChars 10 _ 0 = Nat.ofDigitChars 10 _ 0
  rw [Nat.ofDigitChars_append, Nat.ofDigitChars_replicate_zero, Nat.mul_zero]

/-- Zeros after a number multiply it by a power of ten. -/
theorem ofDigits_append_zeros (text : List Char) (n : Nat) :
    ofDigits (text ++ List.replicate n '0') = ofDigits text * tenTo n := by
  change Nat.ofDigitChars 10 _ 0 = Nat.ofDigitChars 10 _ 0 * _
  rw [Nat.ofDigitChars_append, Nat.ofDigitChars_replicate_zero, Nat.mul_comm]
  rfl

/-- Digits are taken up to the first character that is none. -/
theorem takeWhile_digits {s : List Char} (hs : AllDigits s) (t : List Char) :
    (s ++ t).takeWhile Char.isDigit = s ++ t.takeWhile Char.isDigit :=
  List.takeWhile_append_of_pos hs

theorem dropWhile_digits {s : List Char} (hs : AllDigits s) (t : List Char) :
    (s ++ t).dropWhile Char.isDigit = t.dropWhile Char.isDigit :=
  List.dropWhile_append_of_pos hs

/-- Digits with a point among them are read with the digits after it as a fraction. -/
theorem read_pointed {whole fraction : List Char} (hwhole : AllDigits whole) (hne : whole ≠ [])
    (hfraction : AllDigits fraction) :
    read (whole ++ '.' :: fraction) =
      some ⟨ofDigits (whole ++ fraction), -(fraction.length : Int)⟩ := by
  have htake := takeWhile_digits hfraction []
  have hdrop := dropWhile_digits hfraction []
  rw [List.append_nil, List.takeWhile_nil, List.append_nil] at htake
  rw [List.append_nil, List.dropWhile_nil] at hdrop
  unfold read
  rw [takeWhile_digits hwhole, dropWhile_digits hwhole]
  simp [htake, hdrop, hne]

/-- One form of digits with an exponent is read with the exponent counted from the point. -/
theorem read_scientific {whole fraction mark : List Char} {power : Int}
    (hwhole : AllDigits whole) (hne : whole ≠ []) (hfraction : AllDigits fraction)
    (hmark : readExponent mark = some power) :
    read (whole ++ (if fraction = [] then [] else '.' :: fraction) ++ 'e' :: mark) =
      some ⟨ofDigits (whole ++ fraction), power - fraction.length⟩ := by
  have htake := takeWhile_digits hfraction ('e' :: mark)
  have hdrop := dropWhile_digits hfraction ('e' :: mark)
  unfold read
  rw [List.append_assoc, takeWhile_digits hwhole, dropWhile_digits hwhole]
  by_cases hempty : fraction = []
  · simp [hempty, hne, hmark]
  · simp [hempty, htake, hdrop, hne, hmark]

/-- The mark of an exponent is a sign before digits. -/
theorem exponentMark_eq (k : Int) : ∃ sign digits, exponentMark k = sign :: digits ∧
    (sign = '+' ∨ sign = '-') ∧ AllDigits digits := by
  refine ⟨_, _, rfl, ?_, (allDigits_replicate _).append (allDigits_toDigits _)⟩
  split
  · exact .inr rfl
  · exact .inl rfl

/-- The mark of an exponent is read as the exponent. -/
theorem readExponent_exponentMark (k : Int) : readExponent (exponentMark k) = some k := by
  have hdigits : AllDigits (List.replicate (2 - (Nat.toDigits 10 k.natAbs).length) '0' ++
      Nat.toDigits 10 k.natAbs) := (allDigits_replicate _).append (allDigits_toDigits _)
  have hmagnitude : readExponent.magnitude
      (List.replicate (2 - (Nat.toDigits 10 k.natAbs).length) '0' ++ Nat.toDigits 10 k.natAbs) =
      some k.natAbs := by
    unfold readExponent.magnitude
    rw [if_pos ⟨by simp, List.all_eq_true.mpr hdigits⟩, ofDigits_zeros_append, ofDigits_toDigits]
  unfold exponentMark
  dsimp only
  by_cases hk : k < 0
  · have hvalue : -(k.natAbs : Int) = k := by omega
    rw [if_pos hk, List.cons_append, readExponent, hmagnitude]
    exact congrArg some hvalue
  · have hvalue : Int.ofNat k.natAbs = k := Int.natAbs_of_nonneg (by omega)
    rw [if_neg hk, List.cons_append, readExponent, hmagnitude]
    exact congrArg some hvalue

/-- A spelling with a point or an exponent, and the decimal that it denotes. -/
inductive Numeral : List Char → Decimal → Prop
  /-- Digits on both sides of a point. -/
  | pointed {whole fraction : List Char} (digits : AllDigits whole) (some : whole ≠ [])
      (more : AllDigits fraction) :
      Numeral (whole ++ '.' :: fraction) ⟨ofDigits (whole ++ fraction), -(fraction.length : Int)⟩
  /-- Digits, a fraction if it is not empty, and an exponent. -/
  | scientific {whole fraction : List Char} (digits : AllDigits whole) (some : whole ≠ [])
      (more : AllDigits fraction) (power : Int) :
      Numeral
        (whole ++ (if fraction = [] then [] else '.' :: fraction) ++ 'e' :: exponentMark power)
        ⟨ofDigits (whole ++ fraction), power - fraction.length⟩

/-- A numeral is read as the decimal that it denotes. -/
theorem Numeral.read_eq {text : List Char} {d : Decimal} (h : Numeral text d) :
    read text = some d := by
  cases h with
  | pointed digits some more => exact read_pointed digits some more
  | scientific digits some more power =>
    exact read_scientific digits some more (readExponent_exponentMark power)

/-- A first digit counts as many powers of ten above the last as there are digits between. -/
theorem leadingExponent_eq (d : Decimal) :
    d.leadingExponent + 1 = d.exponent + d.digits.length := by
  have hpos : 0 < d.digits.length := Nat.length_toDigits_pos
  unfold leadingExponent
  omega

/-- There is a first digit. -/
theorem take_digits_ne_nil (d : Decimal) (n : Nat) : d.digits.take (n + 1) ≠ [] := by
  intro hempty
  rcases List.take_eq_nil_iff.mp hempty with h | h
  · omega
  · exact Nat.toDigits_ne_nil h

/-- The digits before the point and after it. -/
theorem aroundPoint_eq {d : Decimal} (h : 0 ≤ d.leadingExponent) :
    d.aroundPoint =
      (d.digits.take (d.leadingExponent.toNat + 1) ++ List.replicate d.exponent.toNat '0',
        d.digits.drop (d.leadingExponent.toNat + 1)) := by
  have hlength := d.leadingExponent_eq
  unfold aroundPoint
  dsimp only
  by_cases hexponent : 0 ≤ d.exponent
  · have hpad : d.leadingExponent.toNat + 1 - d.digits.length = d.exponent.toNat := by omega
    have hall : d.digits.length ≤ d.leadingExponent.toNat + 1 := by omega
    rw [hpad, List.take_of_length_le (by simp; omega), List.drop_of_length_le (by simp; omega),
      List.take_of_length_le hall, List.drop_of_length_le hall]
  · have hpad : d.leadingExponent.toNat + 1 - d.digits.length = 0 := by omega
    have hzero : d.exponent.toNat = 0 := by omega
    rw [hpad, hzero, List.replicate_zero, List.append_nil, List.append_nil]

/-- A whole number with a fraction of zero has the rank of the whole number. -/
theorem rank_withFraction {d : Decimal} (hlow : 0 ≤ d.exponent) (hhigh : d.exponent ≤ 400) :
    (Decimal.mk (d.coefficient * tenTo (d.exponent.toNat + 1)) (-1)).rank = d.rank := by
  by_cases hzero : d.coefficient = 0
  · rw [rank, rank, if_pos hzero, if_pos (by rw [hzero, Nat.zero_mul])]
  · have hproduct : d.coefficient * tenTo (d.exponent.toNat + 1) ≠ 0 :=
      Nat.mul_ne_zero hzero (Nat.ne_of_gt (tenTo_pos _))
    have hone : (-1 : Int) ≤ 400 := by decide
    rw [rank_eq hzero hhigh (by omega), rank_eq hproduct hone (by dsimp only; omega)]
    have hdown : tenTo (-d.exponent).toNat = 1 := by
      have hnat : (-d.exponent).toNat = 0 := by omega
      rw [hnat]
      rfl
    have hnum : d.coefficient * tenTo (d.exponent.toNat + 1) * tenTo 0 * Binary64.unitsOfOne =
        d.coefficient * tenTo d.exponent.toNat * Binary64.unitsOfOne * 10 := by
      rw [tenTo_add, Nat.mul_right_comm _ Binary64.unitsOfOne 10]
      congr 1
      change _ * (_ * 10) * 1 = _
      rw [Nat.mul_one, Nat.mul_assoc]
    rw [hdown]
    change Binary64.rankOfUnits (d.coefficient * tenTo (d.exponent.toNat + 1) * tenTo 0 *
      Binary64.unitsOfOne) (1 * 10) = _
    rw [hnum, Binary64.rankOfUnits_scale _ _ (by decide)]

/-- The decimal that digits before a point and after it denote. -/
def ofParts (whole fraction : List Char) : Decimal :=
  ⟨ofDigits (whole ++ fraction), -(fraction.length : Int)⟩

/-- The positional form has digits on both sides of a point. They denote the decimal itself, or
the whole number that it is with a fraction of zero. -/
theorem pointed_parts (d : Decimal) :
    ∃ whole fraction, d.pointed = whole ++ '.' :: fraction ∧ AllDigits whole ∧ whole ≠ [] ∧
      AllDigits fraction ∧ fraction ≠ [] ∧
      (ofParts whole fraction = d ∨
        0 ≤ d.exponent ∧
          ofParts whole fraction = ⟨d.coefficient * tenTo (d.exponent.toNat + 1), -1⟩) := by
  have hlength := d.leadingExponent_eq
  have hdigits : AllDigits d.digits := allDigits_toDigits _
  have hvalue : ofDigits d.digits = d.coefficient := ofDigits_toDigits _
  unfold pointed
  split
  · next hlead =>
    rw [aroundPoint_eq hlead]
    dsimp only
    have hwhole : AllDigits (d.digits.take (d.leadingExponent.toNat + 1) ++
        List.replicate d.exponent.toNat '0') :=
      AllDigits.append (fun c hc => hdigits c (List.mem_of_mem_take hc)) (allDigits_replicate _)
    have hne : d.digits.take (d.leadingExponent.toNat + 1) ++
        List.replicate d.exponent.toNat '0' ≠ [] :=
      List.append_ne_nil_of_left_ne_nil (d.take_digits_ne_nil _) _
    split
    · next hempty =>
      -- All digits stand before the point, and a zero is written after it.
      have hall : d.digits.length ≤ d.leadingExponent.toNat + 1 := List.drop_eq_nil_iff.mp hempty
      have hexponent : 0 ≤ d.exponent := by omega
      refine ⟨_, _, rfl, hwhole, hne, allDigits_replicate 1, List.cons_ne_nil _ _,
        .inr ⟨hexponent, ?_⟩⟩
      have hread : ofDigits (d.digits.take (d.leadingExponent.toNat + 1) ++
          List.replicate d.exponent.toNat '0' ++ ['0']) =
          d.coefficient * tenTo (d.exponent.toNat + 1) := by
        have hzeros : List.replicate d.exponent.toNat '0' ++ ['0'] =
            List.replicate (d.exponent.toNat + 1) '0' := by
          rw [← List.replicate_succ']
        rw [List.append_assoc, hzeros, List.take_of_length_le hall, ofDigits_append_zeros, hvalue]
      rw [ofParts, hread]
      rfl
    · next hsome =>
      have hfraction : AllDigits (d.digits.drop (d.leadingExponent.toNat + 1)) :=
        fun c hc => hdigits c (List.mem_of_mem_drop hc)
      have hmore : d.leadingExponent.toNat + 1 < d.digits.length := by
        rw [List.drop_eq_nil_iff] at hsome
        omega
      have hexponent : d.exponent.toNat = 0 := by omega
      refine ⟨_, _, rfl, hwhole, hne, hfraction, hsome, .inl ?_⟩
      have hpower : -((d.digits.length - (d.leadingExponent.toNat + 1) : Nat) : Int) =
          d.exponent := by omega
      rw [ofParts, hexponent, List.replicate_zero, List.append_nil, List.take_append_drop, hvalue,
        List.length_drop, hpower]
  · next hlead =>
    have hzero : AllDigits ['0'] := allDigits_replicate 1
    have hfraction := (allDigits_replicate (-d.leadingExponent - 1).toNat).append hdigits
    have hsome : List.replicate (-d.leadingExponent - 1).toNat '0' ++ d.digits ≠ [] :=
      List.append_ne_nil_of_right_ne_nil _ Nat.toDigits_ne_nil
    refine ⟨['0'], List.replicate (-d.leadingExponent - 1).toNat '0' ++ d.digits, rfl, hzero,
      List.cons_ne_nil _ _, hfraction, hsome, .inl ?_⟩
    have hread :
        ofDigits (['0'] ++ (List.replicate (-d.leadingExponent - 1).toNat '0' ++ d.digits)) =
        d.coefficient := by
      rw [← hvalue, ← ofDigits_zeros_append (-d.leadingExponent - 1).toNat d.digits]
      exact ofDigits_zeros_append 1 _
    have hpower : -(((List.replicate (-d.leadingExponent - 1).toNat '0' ++ d.digits).length : Nat) :
        Int) = d.exponent := by
      rw [List.length_append, List.length_replicate]
      omega
    rw [ofParts, hread, hpower]

/-- The positional form denotes a decimal of the same rank. -/
theorem numeral_pointed {d : Decimal} (hhigh : d.exponent ≤ 400) :
    ∃ d', Numeral d.pointed d' ∧ d'.rank = d.rank := by
  obtain ⟨whole, fraction, hform, hwhole, hne, hfraction, -, hparts⟩ := d.pointed_parts
  refine ⟨ofParts whole fraction, hform ▸ .pointed hwhole hne hfraction, ?_⟩
  rcases hparts with hsame | ⟨hlow, hfilled⟩
  · rw [hsame]
  · rw [hfilled]
    exact rank_withFraction hlow hhigh

/-- The exponent form denotes the decimal it was written from. -/
theorem numeral_scientific (d : Decimal) : Numeral d.scientific d := by
  have hlength := d.leadingExponent_eq
  have hdigits : AllDigits d.digits := allDigits_toDigits _
  have hnumeral : Numeral d.scientific ⟨_, _⟩ :=
    .scientific (fun c hc => hdigits c (List.mem_of_mem_take hc)) (d.take_digits_ne_nil 0)
      (fun c hc => hdigits c (List.mem_of_mem_drop hc)) d.leadingExponent
  have hpower : d.leadingExponent - ((d.digits.drop 1).length : Int) = d.exponent := by
    have hpos : 0 < d.digits.length := Nat.length_toDigits_pos
    rw [List.length_drop]
    omega
  have hvalue : ofDigits d.digits = d.coefficient := ofDigits_toDigits _
  rw [List.take_append_drop, hpower, hvalue] at hnumeral
  exact hnumeral

/-- The form in which values are written denotes a decimal of the same rank. -/
theorem numeral_valueForm (d : Decimal) : ∃ d', Numeral d.valueForm d' ∧ d'.rank = d.rank := by
  unfold valueForm
  split
  · next hpositional =>
    have hlength := d.leadingExponent_eq
    have hpos : 0 < d.digits.length := Nat.length_toDigits_pos
    simp only [isPositional, Bool.and_eq_true, decide_eq_true_eq] at hpositional
    exact numeral_pointed (by omega)
  · exact ⟨d, numeral_scientific d, rfl⟩

end Decimal

namespace Binary64

/-- The form of the shortest decimal of a finite double is a numeral that denotes the double. -/
theorem numeral_valueForm {x : Binary64} (h : x.isFinite = true) :
    ∃ d : Decimal, Decimal.Numeral (Decimal.shortest x.magnitude).valueForm d ∧
      d.toBinary64 x.negative = x := by
  obtain ⟨d, hnumeral, hrank⟩ := Decimal.numeral_valueForm (Decimal.shortest x.magnitude)
  have hfinite : x.magnitude < infinityRank := by simpa [isFinite] using h
  refine ⟨d, hnumeral, ?_⟩
  rw [Decimal.rank_shortest] at hrank
  unfold Decimal.toBinary64 ofRank
  cases x
  simp only [hrank, mk.injEq, true_and]
  dsimp only at hfinite
  omega

/-- The text of a finite double is the form of its shortest decimal, after its sign. -/
theorem text_eq_valueForm {x : Binary64} (h : x.isFinite = true) :
    x.text = String.ofList (if x.negative then '-' :: (Decimal.shortest x.magnitude).valueForm
      else (Decimal.shortest x.magnitude).valueForm) := by
  have hfinite : x.magnitude < infinityRank := by simpa [isFinite] using h
  have hnan : x.isNaN = false := by
    simp only [isNaN, decide_eq_false_iff_not]
    omega
  have hinfinite : x.isInfinite = false := by
    simp only [isInfinite, decide_eq_false_iff_not]
    omega
  unfold text
  rw [hnan, hinfinite]
  rfl

/-- A finite double is written as a numeral that denotes it, after its sign. -/
theorem numeral_text {x : Binary64} (h : x.isFinite = true) :
    ∃ d : Decimal, ∃ text : List Char, Decimal.Numeral text d ∧
      d.toBinary64 x.negative = x ∧
      x.text = String.ofList (if x.negative then '-' :: text else text) := by
  obtain ⟨d, hnumeral, hdenotes⟩ := numeral_valueForm h
  exact ⟨d, _, hnumeral, hdenotes, text_eq_valueForm h⟩

end Binary64

end Walkthrough
