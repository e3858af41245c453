import Mathlib.Tactic.Ring
import Walkthrough.Proofs.Vocabulary
import Walkthrough.Value.Arithmetic

/-!
# When values are equal

Values are compared part by part. Two whole numbers are compared exactly, and a whole number is
compared with a double as the double nearest to it. So equality is reflexive where every double is
a number, and it is symmetric. It passes from one value over a second to a third except in one
case: the outer two have different whole numbers where the middle one has a double that is
nearest to both. Whole numbers of at most 53 bits are doubles themselves, and among them that
case does not arise.
-/

namespace Walkthrough

namespace Binary64

/-- A significand of 53 bits has the units that its binade gives it. -/
theorem unitsOfRank_add {digits : Nat} (hlow : binadeSize ≤ digits)
    (hhigh : digits < 2 * binadeSize) (shift : Nat) :
    unitsOfRank (shift * binadeSize + digits) = digits * 2 ^ shift := by
  have hbinade : binade (shift * binadeSize + digits) = shift := by
    unfold binade
    unfold binadeSize at *
    omega
  rw [unitsOfRank, hbinade, Nat.add_sub_cancel_left, Nat.shiftLeft_eq]

/-- A whole number of at most 53 bits is the number of a rank. -/
theorem exists_unitsOfRank {n : Nat} (h : n ≤ 2 ^ 53) :
    ∃ rank, rank ≤ infinityRank ∧ unitsOfRank rank = n * unitsOfOne := by
  by_cases hzero : n = 0
  · subst hzero
    exact ⟨0, Nat.zero_le _, (Nat.zero_mul unitsOfOne).symm⟩
  rw [unitsOfOne, Nat.one_shiftLeft]
  rcases Nat.lt_or_eq_of_le h with hless | hfull
  · have hlog : n.log2 ≤ 52 := Nat.le_of_lt_succ ((Nat.log2_lt hzero).mpr hless)
    have hbounds := (Nat.log2_eq_iff hzero).mp rfl
    have hpower : 2 ^ n.log2 * 2 ^ (52 - n.log2) = binadeSize := by
      rw [← Nat.pow_add, Nat.add_sub_cancel' hlog]
      rfl
    have hlow : binadeSize ≤ n * 2 ^ (52 - n.log2) := by
      rw [← hpower]
      exact Nat.mul_le_mul_right _ hbounds.1
    have hhigh : n * 2 ^ (52 - n.log2) < 2 * binadeSize := by
      rw [← hpower, ← Nat.mul_assoc, ← Nat.pow_succ']
      exact Nat.mul_lt_mul_of_pos_right hbounds.2 (Nat.two_pow_pos _)
    refine ⟨(n.log2 + 1022) * binadeSize + n * 2 ^ (52 - n.log2), ?_, ?_⟩
    · unfold infinityRank
      unfold binadeSize at *
      omega
    · have hexponent : 52 - n.log2 + (n.log2 + 1022) = 1074 := by omega
      rw [unitsOfRank_add hlow hhigh, Nat.mul_assoc, ← Nat.pow_add, hexponent]
  · refine ⟨(1074 + 1) * binadeSize + binadeSize, by decide, ?_⟩
    rw [unitsOfRank_add (Nat.le_refl _) (by decide), hfull]
    generalize 1074 = shift
    rw [Nat.pow_succ', ← Nat.mul_assoc]
    rfl

/-- The rank of a whole number of at most 53 bits is that of a double with as many units. -/
theorem units_ofInt {n : Int} (h : n.natAbs ≤ 2 ^ 53) :
    (ofInt n).units = n.natAbs * unitsOfOne := by
  obtain ⟨rank, hrank, hunits⟩ := exists_unitsOfRank h
  have hsame : rankOfUnits (n.natAbs * unitsOfOne) 1 = rank := by
    rw [← hunits, rankOfUnits_unitsOfRank]
  have hmagnitude : (ofInt n).magnitude = rank := by
    change min (rankOfUnits (n.natAbs * unitsOfOne) 1) infinityRank = rank
    rw [hsame, Nat.min_eq_left hrank]
  rw [units, hmagnitude, hunits]

/-- A double is as far from zero as its rank tells. -/
theorem natAbs_position (x : Binary64) : x.position.natAbs = x.magnitude := by
  unfold position
  split <;> omega

/-- Whole numbers of at most 53 bits that have the same nearest double are the same. -/
theorem eq_of_position_ofInt {m n : Int} (hm : m.natAbs ≤ 2 ^ 53) (hn : n.natAbs ≤ 2 ^ 53)
    (h : (ofInt m).position = (ofInt n).position) : m = n := by
  have hmagnitude : (ofInt m).magnitude = (ofInt n).magnitude := by
    rw [← natAbs_position, h, natAbs_position]
  have hunits : m.natAbs * unitsOfOne = n.natAbs * unitsOfOne := by
    rw [← units_ofInt hm, ← units_ofInt hn, units, units, hmagnitude]
  have hone : 0 < unitsOfOne := by decide
  have habs : m.natAbs = n.natAbs := Nat.eq_of_mul_eq_mul_right hone hunits
  have hzero : (ofInt n).magnitude = 0 → n = 0 := by
    intro hnone
    have hnothing := units_ofInt hn
    rw [units, hnone] at hnothing
    have : n.natAbs = 0 := (Nat.mul_eq_zero.mp hnothing.symm).resolve_right (Nat.ne_of_gt hone)
    omega
  have hsign : ∀ k : Int, (ofInt k).position =
      if k < 0 then -((ofInt k).magnitude : Int) else (ofInt k).magnitude := by
    intro k
    unfold position
    change (if decide (k < 0) = true then _ else _) = _
    simp only [decide_eq_true_eq]
  rw [hsign m, hsign n, hmagnitude] at h
  -- Of two opposite numbers the nearest doubles are opposite too, so both are zero.
  by_cases hnone : (ofInt n).magnitude = 0
  · have := hzero hnone
    omega
  · split at h <;> split at h <;> omega

end Binary64

namespace Number

/-- Whether a number is a double that is no number at all. -/
def isNaN (x : Number) : Bool := x.toBinary64.isNaN

/-- Whether two numbers are different whole numbers with a double between them. -/
def parted : Number → Number → Number → Bool
  | int m, float _, int n => m != n
  | _, _, _ => false

/-- Whether a number is a double or a whole number of at most 53 bits. -/
def isExact : Number → Bool
  | int n => n.toInt.natAbs ≤ 2 ^ 53
  | float _ => true

/-- Two numbers meet if the doubles nearest to them are numbers at the same place. -/
def Meets (x y : Number) : Prop :=
  x.isNaN = false ∧ y.isNaN = false ∧ x.toBinary64.position = y.toBinary64.position

/-- Numbers that meet another number meet each other. -/
theorem Meets.trans {x y z : Number} (hxy : x.Meets y) (hyz : y.Meets z) : x.Meets z :=
  ⟨hxy.1, hyz.2.1, hxy.2.2.trans hyz.2.2⟩

end Number

namespace Value

/-- Whole numbers are equal if they are the same. -/
theorem compareNumbers_int {m n : Int64} :
    compareNumbers (.int m) (.int n) = some .eq ↔ m = n := by
  rw [compareNumbers, Option.some.injEq, Int.compare_eq_eq, Int64.toInt_inj]

/-- Doubles are equal if they are numbers at the same place. -/
theorem compare?_eq_some_eq {x y : Binary64} :
    x.compare? y = some .eq ↔ x.isNaN = false ∧ y.isNaN = false ∧ x.position = y.position := by
  unfold Binary64.compare?
  cases x.isNaN <;> cases y.isNaN <;> simp

/-- A double is equal to the numbers that it meets. -/
theorem compareNumbers_float_left {x : Binary64} {y : Number} :
    compareNumbers (.float x) y = some .eq ↔ Number.Meets (.float x) y :=
  compare?_eq_some_eq

/-- The numbers that meet a double are equal to it. -/
theorem compareNumbers_float_right {x : Number} {y : Binary64} :
    compareNumbers x (.float y) = some .eq ↔ Number.Meets x (.float y) := by
  cases x <;> exact compare?_eq_some_eq

/-- Equal numbers meet. -/
theorem meets_of_compareNumbers {x y : Number} (h : compareNumbers x y = some .eq) :
    x.Meets y := by
  cases x with
  | float x => exact compareNumbers_float_left.mp h
  | int m =>
    cases y with
    | float y => exact compareNumbers_float_right.mp h
    | int n =>
      obtain rfl := compareNumbers_int.mp h
      exact ⟨Binary64.isNaN_ofRank _ _, Binary64.isNaN_ofRank _ _, rfl⟩

/-- A number is equal to itself. -/
theorem compareNumbers_self {x : Number} (h : x.isNaN = false) :
    compareNumbers x x = some .eq := by
  cases x with
  | int n => exact compareNumbers_int.mpr rfl
  | float x => exact compareNumbers_float_left.mpr ⟨h, h, rfl⟩

/-- A number is equal to the numbers that are equal to it. -/
theorem compareNumbers_symm {x y : Number} (h : compareNumbers x y = some .eq) :
    compareNumbers y x = some .eq := by
  have hmeets : y.Meets x := by
    obtain ⟨hx, hy, hplace⟩ := meets_of_compareNumbers h
    exact ⟨hy, hx, hplace.symm⟩
  cases y with
  | float y => exact compareNumbers_float_left.mpr hmeets
  | int n =>
    cases x with
    | float x => exact compareNumbers_float_right.mpr hmeets
    | int m => exact compareNumbers_int.mpr (compareNumbers_int.mp h).symm

/-- Numbers that are equal to one number are equal, unless it parts them. -/
theorem compareNumbers_trans {x y z : Number} (hxy : compareNumbers x y = some .eq)
    (hyz : compareNumbers y z = some .eq) :
    (compareNumbers x z = some .eq) ↔ x.parted y z = false := by
  have hmeets : x.Meets z :=
    (meets_of_compareNumbers hxy).trans (meets_of_compareNumbers hyz)
  cases x with
  | float x => exact ⟨fun _ => rfl, fun _ => compareNumbers_float_left.mpr hmeets⟩
  | int m =>
    cases z with
    | float z =>
      refine ⟨fun _ => ?_, fun _ => compareNumbers_float_right.mpr hmeets⟩
      cases y <;> rfl
    | int n =>
      cases y with
      | float y => simp [Number.parted, compareNumbers_int]
      | int k =>
        obtain rfl := compareNumbers_int.mp hxy
        exact ⟨fun _ => rfl, fun _ => hyz⟩

/-- Whole numbers of at most 53 bits are not parted by a number that both are equal to. -/
theorem parted_of_isExact {x y z : Number} (hx : x.isExact = true) (hz : z.isExact = true)
    (hxy : compareNumbers x y = some .eq) (hyz : compareNumbers y z = some .eq) :
    x.parted y z = false := by
  have hmeets : x.Meets z :=
    (meets_of_compareNumbers hxy).trans (meets_of_compareNumbers hyz)
  unfold Number.parted
  split
  · rename_i m y n
    have hwhole : m.toInt = n.toInt :=
      Binary64.eq_of_position_ofInt (of_decide_eq_true hx) (of_decide_eq_true hz) hmeets.2.2
    rw [Int64.toInt_inj.mp hwhole]
    exact bne_self_eq_false n
  · rfl

/-- Two numbers have an order. -/
theorem exists_compareNumbers {x y : Number} (hx : x.isNaN = false) (hy : y.isNaN = false) :
    ∃ order, compareNumbers x y = some order := by
  have hdoubles : ∃ order, x.toBinary64.compare? y.toBinary64 = some order := by
    unfold Number.isNaN at hx hy
    rw [Binary64.compare?, hx, hy]
    exact ⟨_, rfl⟩
  cases x with
  | int a =>
    cases y with
    | int b => exact ⟨_, rfl⟩
    | float y => exact hdoubles
  | float x => exact hdoubles

mutual

/-- Whether the numbers of a value pass a test, in tuples those of every part. -/
def allNumbers (test : Number → Bool) : Value → Bool
  | tuple items => allNumbersIn test items
  | value => value.number?.all test

/-- Whether the numbers of some values pass a test. -/
def allNumbersIn (test : Number → Bool) : List Value → Bool
  | [] => true
  | item :: others => allNumbers test item && allNumbersIn test others

end

/-- Whether every double of a value is a number. -/
def nanFree (value : Value) : Bool := value.allNumbers (!·.isNaN)

/-- Whether every whole number of a value has at most 53 bits. -/
def isExact (value : Value) : Bool := value.allNumbers (·.isExact)

mutual

/-- Whether two values have different whole numbers where a value between them has a double. -/
def parted : Value → Value → Value → Bool
  | tuple as, tuple bs, tuple cs => partedIn as bs cs
  | a, b, c =>
    match a.number?, b.number?, c.number? with
    | some x, some y, some z => x.parted y z
    | _, _, _ => false

/-- Whether two lists of values have parts that those of a list between them part. -/
def partedIn : List Value → List Value → List Value → Bool
  | a :: as, b :: bs, c :: cs => parted a b c || partedIn as bs cs
  | _, _, _ => false

end

/-- A number is compared with another value as values that are not both tuples are. -/
theorem equal_eq_equalScalars {a : Value} {x : Number} (ha : a.number? = some x) (b : Value) :
    a.equal b = equalScalars a b := by
  cases a <;> cases b <;> first | rfl | cases ha

/-- Numbers are equal as values if they are equal. -/
theorem equal_number {a b : Value} {x y : Number} (ha : a.number? = some x)
    (hb : b.number? = some y) : a.equal b = true ↔ compareNumbers x y = some .eq := by
  rw [equal_eq_equalScalars ha, equalScalars, ha, hb]
  exact beq_iff_eq

/-- What is equal to a number is a number. -/
theorem exists_of_equal_number {a b : Value} {x : Number} (ha : a.number? = some x)
    (h : a.equal b = true) : ∃ y, b.number? = some y ∧ compareNumbers x y = some .eq := by
  cases hb : b.number? with
  | some y => exact ⟨y, rfl, (equal_number ha hb).mp h⟩
  | none =>
    rw [equal_eq_equalScalars ha, equalScalars, ha, hb] at h
    cases h

/-- What is equal to a tuple is a tuple with equal parts. -/
theorem exists_of_equal_tuple {as : List Value} {b : Value} (h : (tuple as).equal b = true) :
    ∃ bs, b = tuple bs ∧ equalAll as bs = true := by
  cases b with
  | tuple bs => exact ⟨bs, rfl, h⟩
  | _ => cases h

/-- What is equal to nothing is nothing. -/
theorem eq_none_of_equal {b : Value} (h : none.equal b = true) : b = none := by
  cases b with
  | none => rfl
  | _ => cases h

/-- A value with a part is equal to values with an equal part. -/
theorem exists_of_equalAll_cons {a : Value} {as bs : List Value}
    (h : equalAll (a :: as) bs = true) :
    ∃ b others, bs = b :: others ∧ a.equal b = true ∧ equalAll as others = true := by
  cases bs with
  | nil => cases h
  | cons b others => exact ⟨b, others, rfl, Bool.and_eq_true_iff.mp h⟩

/-- Only no values are equal to no values. -/
theorem eq_nil_of_equalAll {bs : List Value} (h : equalAll [] bs = true) : bs = [] := by
  cases bs with
  | nil => rfl
  | cons => cases h

mutual

/-- A value whose doubles are numbers is equal to itself. -/
theorem equal_self : (a : Value) → a.allNumbers (!·.isNaN) = true → a.equal a = true
  | int _, _ => (equal_number rfl rfl).mpr (compareNumbers_int.mpr rfl)
  | bool _, _ => (equal_number rfl rfl).mpr (compareNumbers_int.mpr rfl)
  | none, _ => rfl
  | float _, h => (equal_number rfl rfl).mpr (compareNumbers_self ((Bool.not_eq_true' _).mp h))
  | tuple items, h => equalAll_self items h

/-- Values whose doubles are numbers are equal to themselves. -/
theorem equalAll_self :
    (as : List Value) → allNumbersIn (!·.isNaN) as = true → equalAll as as = true
  | [], _ => rfl
  | a :: as, h => by
    obtain ⟨ha, has⟩ := Bool.and_eq_true_iff.mp h
    rw [equalAll, equal_self a ha, equalAll_self as has, Bool.and_self]

end

/-- Whatever is equal to a number, the number is equal to it. -/
theorem equal_symm_number {a b : Value} {x : Number} (ha : a.number? = some x)
    (h : a.equal b = true) : b.equal a = true := by
  obtain ⟨y, hb, hxy⟩ := exists_of_equal_number ha h
  exact (equal_number hb ha).mpr (compareNumbers_symm hxy)

mutual

/-- A value is equal to the values that are equal to it. -/
theorem equal_symm : (a b : Value) → a.equal b = true → b.equal a = true
  | int _, _, h => equal_symm_number rfl h
  | bool _, _, h => equal_symm_number rfl h
  | float _, _, h => equal_symm_number rfl h
  | none, _, h => by
    obtain rfl := eq_none_of_equal h
    rfl
  | tuple as, _, h => by
    obtain ⟨bs, rfl, hparts⟩ := exists_of_equal_tuple h
    exact equalAll_symm as bs hparts

/-- Values are equal to the values that are equal to them. -/
theorem equalAll_symm : (as bs : List Value) → equalAll as bs = true → equalAll bs as = true
  | [], _, h => by
    obtain rfl := eq_nil_of_equalAll h
    rfl
  | a :: as, _, h => by
    obtain ⟨b, bs, rfl, hfirst, hothers⟩ := exists_of_equalAll_cons h
    rw [equalAll, equal_symm a b hfirst, equalAll_symm as bs hothers, Bool.and_self]

end

/-- Equality is symmetric. -/
theorem equal_comm (a b : Value) : a.equal b = b.equal a :=
  Bool.eq_iff_iff.mpr ⟨equal_symm a b, equal_symm b a⟩

/-- Values are parted at numbers as the numbers are. -/
theorem parted_number {a b c : Value} {x y z : Number} (ha : a.number? = some x)
    (hb : b.number? = some y) (hc : c.number? = some z) : a.parted b c = x.parted y z := by
  have hscalars : a.parted b c = match a.number?, b.number?, c.number? with
      | some x, some y, some z => x.parted y z
      | _, _, _ => false := by
    cases a with
    | tuple => cases ha
    | _ => rfl
  rw [hscalars, ha, hb, hc]

/-- Values that are equal to one value are equal to each other, at a number, unless it parts
them. -/
theorem equal_trans_number {a b c : Value} {x : Number} (ha : a.number? = some x)
    (hab : a.equal b = true) (hbc : b.equal c = true) : a.equal c = !a.parted b c := by
  obtain ⟨y, hb, hxy⟩ := exists_of_equal_number ha hab
  obtain ⟨z, hc, hyz⟩ := exists_of_equal_number hb hbc
  rw [Bool.eq_iff_iff, equal_number ha hc, parted_number ha hb hc, compareNumbers_trans hxy hyz,
    Bool.not_eq_true']

mutual

/-- Values that are equal to one value are equal to each other unless it parts them. -/
theorem equal_trans :
    (a b c : Value) → a.equal b = true → b.equal c = true → a.equal c = !a.parted b c
  | int _, _, _, hab, hbc => equal_trans_number rfl hab hbc
  | bool _, _, _, hab, hbc => equal_trans_number rfl hab hbc
  | float _, _, _, hab, hbc => equal_trans_number rfl hab hbc
  | none, _, _, hab, hbc => by
    obtain rfl := eq_none_of_equal hab
    obtain rfl := eq_none_of_equal hbc
    rfl
  | tuple as, _, _, hab, hbc => by
    obtain ⟨bs, rfl, habs⟩ := exists_of_equal_tuple hab
    obtain ⟨cs, rfl, hbcs⟩ := exists_of_equal_tuple hbc
    exact equalAll_trans as bs cs habs hbcs

/-- Lists that are equal to one list are equal to each other unless it parts them. -/
theorem equalAll_trans :
    (as bs cs : List Value) → equalAll as bs = true → equalAll bs cs = true →
      equalAll as cs = !partedIn as bs cs
  | [], _, _, hab, hbc => by
    obtain rfl := eq_nil_of_equalAll hab
    obtain rfl := eq_nil_of_equalAll hbc
    rfl
  | a :: as, _, _, hab, hbc => by
    obtain ⟨b, bs, rfl, hfirst, hothers⟩ := exists_of_equalAll_cons hab
    obtain ⟨c, cs, rfl, hsecond, hfurther⟩ := exists_of_equalAll_cons hbc
    rw [equalAll, partedIn, equal_trans a b c hfirst hsecond,
      equalAll_trans as bs cs hothers hfurther, Bool.not_or]

end

/-- A number that passes a test as a value passes it. -/
theorem allNumbers_number {test : Number → Bool} {a : Value} {x : Number}
    (ha : a.number? = some x) : a.allNumbers test = test x := by
  cases a with
  | tuple | none => cases ha
  | _ => rw [allNumbers, ha, Option.all_some]; intro _ h; cases h

/-- Numbers of at most 53 bits are not parted by a value that both are equal to. -/
theorem parted_number_of_isExact {a b c : Value} {x : Number} (ha : a.number? = some x)
    (hexact : a.allNumbers (·.isExact) = true) (hlast : c.allNumbers (·.isExact) = true)
    (hab : a.equal b = true) (hbc : b.equal c = true) : a.parted b c = false := by
  obtain ⟨y, hb, hxy⟩ := exists_of_equal_number ha hab
  obtain ⟨z, hc, hyz⟩ := exists_of_equal_number hb hbc
  rw [allNumbers_number ha] at hexact
  rw [allNumbers_number hc] at hlast
  rw [parted_number ha hb hc, parted_of_isExact hexact hlast hxy hyz]

mutual

/-- Values with whole numbers of at most 53 bits are not parted by a value that both are equal
to. -/
theorem parted_of_exact : (a b c : Value) → a.allNumbers (·.isExact) = true →
    c.allNumbers (·.isExact) = true → a.equal b = true → b.equal c = true →
      a.parted b c = false
  | int _, _, _, ha, hc, hab, hbc => parted_number_of_isExact rfl ha hc hab hbc
  | bool _, _, _, ha, hc, hab, hbc => parted_number_of_isExact rfl ha hc hab hbc
  | float _, _, _, ha, hc, hab, hbc => parted_number_of_isExact rfl ha hc hab hbc
  | none, _, _, _, _, _, _ => rfl
  | tuple as, _, _, ha, hc, hab, hbc => by
    obtain ⟨bs, rfl, habs⟩ := exists_of_equal_tuple hab
    obtain ⟨cs, rfl, hbcs⟩ := exists_of_equal_tuple hbc
    exact partedIn_of_exact as bs cs ha hc habs hbcs

/-- Lists with whole numbers of at most 53 bits are not parted by a list that both are equal
to. -/
theorem partedIn_of_exact : (as bs cs : List Value) → allNumbersIn (·.isExact) as = true →
    allNumbersIn (·.isExact) cs = true → equalAll as bs = true → equalAll bs cs = true →
      partedIn as bs cs = false
  | [], _, _, _, _, _, _ => rfl
  | a :: as, _, _, ha, hc, hab, hbc => by
    obtain ⟨b, bs, rfl, hfirst, hothers⟩ := exists_of_equalAll_cons hab
    obtain ⟨c, cs, rfl, hsecond, hfurther⟩ := exists_of_equalAll_cons hbc
    obtain ⟨hhead, htail⟩ := Bool.and_eq_true_iff.mp ha
    obtain ⟨hlast, hrest⟩ := Bool.and_eq_true_iff.mp hc
    rw [partedIn, parted_of_exact a b c hhead hlast hfirst hsecond,
      partedIn_of_exact as bs cs htail hrest hothers hfurther, Bool.or_self]

end

/-- The comparison for equality tells whether values are equal. -/
theorem compare_equal (a b : Value) : a.compare .equal b = .ok (bool (a.equal b)) := rfl

/-- The comparison for inequality tells whether values are not equal. -/
theorem compare_notEqual (a b : Value) : a.compare .notEqual b = .ok (bool !a.equal b) := rfl

/-- The comparison for equality answers that values are equal if they are. -/
theorem compare_equal_iff {a b : Value} :
    a.compare .equal b = .ok (bool true) ↔ a.equal b = true := by
  rw [compare_equal, Except.ok.injEq, bool.injEq]

/-- Exactly one of two values is less, or they are equal, and the other comparisons of order
follow from that. -/
def Trichotomy (a b : Value) : Prop :=
  ∃ less same greater : Bool,
    a.compare .less b = .ok (bool less) ∧
    a.compare .equal b = .ok (bool same) ∧
    a.compare .greater b = .ok (bool greater) ∧
    less.toNat + same.toNat + greater.toNat = 1 ∧
    a.compare .lessEqual b = .ok (bool (less || same)) ∧
    a.compare .greaterEqual b = .ok (bool (greater || same))

/-- A comparison of numbers tells whether their order satisfies it. -/
theorem compare_number {a b : Value} {x y : Number} {order : Ordering} (ha : a.number? = some x)
    (hb : b.number? = some y) (horder : compareNumbers x y = some order) (op : CompareOp) :
    a.compare op b = .ok (bool (satisfies op order)) := by
  have hordered : compareOrdered op a b = .ok (satisfies op order) := by
    unfold compareOrdered
    rw [ha, hb]
    exact congrArg Except.ok (by rw [horder, Option.any_some])
  have hequal : a.equal b = (order == .eq) := by
    rw [Bool.eq_iff_iff, equal_number ha hb, horder, Option.some.injEq, beq_iff_eq]
  cases op with
  | equal => rw [compare_equal, hequal, satisfies]
  | notEqual =>
    rw [compare_notEqual, hequal]
    rfl
  | _ => exact congrArg (Except.map bool) hordered

/-- Of two numbers exactly one is less, or they are equal. -/
theorem trichotomy_number {a b : Value} {x y : Number} (ha : a.number? = some x)
    (hb : b.number? = some y) (hx : x.isNaN = false) (hy : y.isNaN = false) :
    a.Trichotomy b := by
  obtain ⟨order, horder⟩ := exists_compareNumbers hx hy
  have hcompare := compare_number ha hb horder
  refine ⟨_, _, _, hcompare .less, hcompare .equal, hcompare .greater, ?_, ?_, ?_⟩
  · cases order <;> rfl
  · rw [hcompare]
    cases order <;> rfl
  · rw [hcompare]
    cases order <;> rfl

/-- A value whose doubles are numbers is equal to itself, and equality goes both ways. It passes
from a value over a second to a third unless the second has a double where the others have
different whole numbers, which those of at most 53 bits never are. Being unequal is the opposite.
Of two numbers exactly one is less, or they are equal. -/
theorem equality_laws (a b c : Value) :
    (a.nanFree = true → a.compare .equal a = .ok (bool true)) ∧
    a.compare .equal b = b.compare .equal a ∧
    (a.compare .equal b = .ok (bool true) → b.compare .equal c = .ok (bool true) →
      a.compare .equal c = .ok (bool (!a.parted b c)) ∧
      (a.isExact = true → c.isExact = true → a.compare .equal c = .ok (bool true))) ∧
    (∃ same, a.compare .equal b = .ok (bool same) ∧ a.compare .notEqual b = .ok (bool !same)) ∧
    (∀ x y, a.number? = some x → b.number? = some y → a.nanFree = true → b.nanFree = true →
      a.Trichotomy b) := by
  refine ⟨?_, ?_, ?_, ?_, ?_⟩
  · intro hfree
    exact compare_equal_iff.mpr (equal_self a hfree)
  · rw [compare_equal, compare_equal, equal_comm]
  · intro hab hbc
    have hab := compare_equal_iff.mp hab
    have hbc := compare_equal_iff.mp hbc
    have hac := equal_trans a b c hab hbc
    refine ⟨by rw [compare_equal, hac], fun hfirst hlast => ?_⟩
    rw [compare_equal, hac, parted_of_exact a b c hfirst hlast hab hbc]
    rfl
  · exact ⟨_, compare_equal a b, compare_notEqual a b⟩
  · intro x y ha hb hfirst hsecond
    rw [nanFree, allNumbers_number ha] at hfirst
    rw [nanFree, allNumbers_number hb] at hsecond
    exact trichotomy_number ha hb ((Bool.not_eq_true' _).mp hfirst)
      ((Bool.not_eq_true' _).mp hsecond)

namespace Sample

/-- The double 2⁵³. -/
def bound : Binary64 := .ofInt (2 ^ 53)

/-- A tuple of whole numbers around a truth value. -/
def wholes : Value := tuple [int (2 ^ 53), tuple [bool true, int (-3), none]]

/-- The same numbers as doubles. -/
def doubles : Value := tuple [float bound, tuple [float (.ofInt 1), float (.ofInt (-3)), none]]

/-- The same numbers with a whole number for the truth value. -/
def numbers : Value := tuple [int (2 ^ 53), tuple [int 1, float (.ofInt (-3)), none]]

end Sample

/-- Of equal tuples with whole numbers, truth values and doubles in turn the outer ones are equal,
and one and 2⁵³ have an order. -/
theorem equality_laws_tuples :
    Sample.wholes.compare .equal Sample.numbers = .ok (bool true) ∧
      (int 1).Trichotomy (float Sample.bound) :=
  ⟨((equality_laws Sample.wholes Sample.doubles Sample.numbers).2.2.1
      (compare_equal_iff.mpr (by decide +kernel)) (compare_equal_iff.mpr (by decide +kernel))).2
      (by decide +kernel) (by decide +kernel),
    (equality_laws (int 1) (float Sample.bound) none).2.2.2.2 _ _ rfl rfl (by decide +kernel)
      (by decide +kernel)⟩

/-- The whole number 2⁵³ is equal to the double 2⁵³, which is equal to 2⁵³ + 1, and no double is
without a number, but the whole numbers are not equal. -/
theorem equality_not_transitive :
    ¬∀ a b c : Value, a.nanFree = true → b.nanFree = true → c.nanFree = true →
      a.compare .equal b = .ok (bool true) → b.compare .equal c = .ok (bool true) →
        a.compare .equal c = .ok (bool true) := by
  intro htransitive
  have h := htransitive (int (2 ^ 53)) (float Sample.bound) (int (2 ^ 53 + 1)) (by decide +kernel)
    (by decide +kernel) (by decide +kernel) (compare_equal_iff.mpr (by decide +kernel))
    (compare_equal_iff.mpr (by decide +kernel))
  exact absurd (compare_equal_iff.mp h) (by decide +kernel)

end Value

end Walkthrough
