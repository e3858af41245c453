import Walkthrough.Expr.Eval

/-!
# Whole numbers are exact up to the first overflow

Sums, differences and products of whole numbers and truth values have an exact value, which is
an integer without any bound. The evaluation finds it as long as the exact value of each operation
fits 64 bits. Otherwise it stops at the operation that overflows first, where operations are
taken from left to right and each one after those of its operands, and the fault names the
exact values of the operands.
-/

namespace Walkthrough

/-- The integer that a value stands for. Truth values stand for zero and one. -/
def Value.integer? : Value → Option Int
  | int n => some n.toInt
  | bool b => some (if b then 1 else 0)
  | _ => Option.none

/-- The operation on integers that an operator stands for. -/
def BinaryOp.onIntegers? : BinaryOp → Option (Int → Int → Int)
  | add => some fun a b => a + b
  | sub => some fun a b => a - b
  | mul => some fun a b => a * b
  | _ => none

/-- Whether an integer is one of 64 bits. -/
def fits (n : Int) : Bool := decide (-0x8000000000000000 ≤ n ∧ n ≤ 0x7fffffffffffffff)

namespace Expr

/-- The exact value of an expression, if nothing takes part in it but whole numbers, truth
values, names of such values, sums, differences and products. -/
def exactValue? (scopes : Scopes Value) : Expr → Option Int
  | literal value _ => value.value.integer?
  | name id _ => (scopes.find? id).bind Value.integer?
  | binary op left right _ => do
    let operation ← op.onIntegers?
    let a ← left.exactValue? scopes
    let b ← right.exactValue? scopes
    return operation a b
  | _ => none

/-- The operations of an expression of arithmetic from left to right, each one after those of
its operands. -/
def operations : Expr → List Expr
  | binary op left right location =>
    left.operations ++ (right.operations ++ [binary op left right location])
  | _ => []

/-- Whether the exact value of an expression does not fit. -/
def overflows (scopes : Scopes Value) (e : Expr) : Bool :=
  (e.exactValue? scopes).any fun n => !fits n

/-- The first operation of an expression whose exact value does not fit. -/
def firstOverflow? (scopes : Scopes Value) (e : Expr) : Option Expr :=
  e.operations.find? fun operation => operation.overflows scopes

end Expr

/-- An integer that fits is a whole number. -/
theorem wholeNumber?_of_fits {n : Int} (h : fits n = true) :
    ∃ whole, wholeNumber? n = some whole ∧ whole.toInt = n := by
  have hrange : Int64.minValue.toInt ≤ n ∧ n ≤ Int64.maxValue.toInt := of_decide_eq_true h
  refine ⟨Int64.ofIntLE n hrange.1 hrange.2, ?_, Int64.toInt_ofIntLE⟩
  unfold wholeNumber?
  rw [dif_pos hrange]

/-- An integer that does not fit is no whole number. -/
theorem wholeNumber?_of_not_fits {n : Int} (h : fits n = false) : wholeNumber? n = none := by
  have hrange : ¬ (Int64.minValue.toInt ≤ n ∧ n ≤ Int64.maxValue.toInt) := of_decide_eq_false h
  unfold wholeNumber?
  rw [dif_neg hrange]

namespace Value

/-- A value that stands for an integer is that whole number, also in arithmetic. -/
theorem number?_of_integer? {value : Value} {n : Int} (h : value.integer? = some n) :
    ∃ whole, value.number? = some (.int whole) ∧ value.asInt? = some whole ∧ whole.toInt = n := by
  cases value with
  | int whole =>
    cases h
    exact ⟨whole, rfl, rfl, rfl⟩
  | bool b =>
    cases h
    cases b <;> exact ⟨_, rfl, rfl, rfl⟩
  | float x => cases h
  | none => cases h
  | tuple items => cases h

/-- An operation with an exact value gives this value if it fits, and otherwise overflows. -/
theorem applyNumbers_of_onInts {operation : Arithmetic} {x y : Int64} {n : Int}
    (h : operation.onInts x.toInt y.toInt = some n) :
    (fits n = true →
      ∃ value, applyNumbers operation (.int x) (.int y) = .ok value ∧ value.integer? = some n) ∧
    (fits n = false →
      applyNumbers operation (.int x) (.int y) = .error (.overflow operation x y)) := by
  have happly : applyNumbers operation (.int x) (.int y) = applyInts operation x y n := by
    rw [applyNumbers, h]
  rw [happly, applyInts]
  constructor
  · intro hfits
    obtain ⟨whole, hwhole, hvalue⟩ := wholeNumber?_of_fits hfits
    rw [hwhole]
    exact ⟨.int whole, rfl, congrArg some hvalue⟩
  · intro hfits
    rw [wholeNumber?_of_not_fits hfits]

end Value

/-- An operator on integers can be carried out on whole numbers, under the same sign and with
the same exact results. -/
theorem BinaryOp.arithmetic?_of_onIntegers? {op : BinaryOp} {onIntegers : Int → Int → Int}
    (h : op.onIntegers? = some onIntegers) :
    ∃ operation, op.arithmetic? = some operation ∧ operation.sign = op.sign ∧
      ∀ a b, operation.onInts a b = some (onIntegers a b) := by
  cases op with
  | add => cases h; exact ⟨.add, rfl, rfl, fun _ _ => rfl⟩
  | sub => cases h; exact ⟨.sub, rfl, rfl, fun _ _ => rfl⟩
  | mul => cases h; exact ⟨.mul, rfl, rfl, fun _ _ => rfl⟩
  | div => cases h
  | floorDiv => cases h
  | mod => cases h
  | pow => cases h

namespace Expr

variable {scopes : Scopes Value}

/-- An operation has an exact value if its operands have. -/
theorem exactValue?_binary {op : BinaryOp} {left right : Expr} {location : Location} {n : Int} :
    (binary op left right location).exactValue? scopes = some n ↔
      ∃ onIntegers a b, op.onIntegers? = some onIntegers ∧ left.exactValue? scopes = some a ∧
        right.exactValue? scopes = some b ∧ onIntegers a b = n := by
  rw [exactValue?]
  simp only [Option.bind_eq_bind, Option.pure_def, Option.bind_eq_some_iff, Option.some.injEq]
  constructor
  · rintro ⟨onIntegers, hop, a, ha, b, hb, hn⟩
    exact ⟨onIntegers, a, b, hop, ha, hb, hn⟩
  · rintro ⟨onIntegers, a, b, hop, ha, hb, hn⟩
    exact ⟨onIntegers, hop, a, ha, b, hb, hn⟩

/-- If an expression has an exact value, so has each of its operations. -/
theorem exactValue?_of_mem_operations : (e : Expr) → (n : Int) → e.exactValue? scopes = some n →
    ∀ operation ∈ e.operations, ∃ m, operation.exactValue? scopes = some m
  | binary op left right location, n, h, operation, hmem => by
    obtain ⟨_, a, b, -, ha, hb, -⟩ := exactValue?_binary.mp h
    rw [operations, List.mem_append, List.mem_append, List.mem_singleton] at hmem
    rcases hmem with hleft | hright | rfl
    · exact exactValue?_of_mem_operations left a ha operation hleft
    · exact exactValue?_of_mem_operations right b hb operation hright
    · exact ⟨n, h⟩
  | literal _ _, _, _, _, hmem => absurd hmem List.not_mem_nil
  | name _ _, _, _, _, hmem => absurd hmem List.not_mem_nil
  | compare _ _ _ _, _, _, _, hmem => absurd hmem List.not_mem_nil
  | tuple _ _, _, _, _, hmem => absurd hmem List.not_mem_nil
  | call _ _ _, _, _, _, hmem => absurd hmem List.not_mem_nil

/-- An expression with an exact value overflows unless this fits. -/
theorem overflows_eq {e : Expr} {n : Int} (h : e.exactValue? scopes = some n) :
    e.overflows scopes = !fits n := by
  rw [overflows, h, Option.any_some]

/-- There is no first overflow if the exact values of all operations fit. -/
theorem firstOverflow?_eq_none {e : Expr} {n : Int} (h : e.exactValue? scopes = some n) :
    e.firstOverflow? scopes = none ↔
      ∀ operation ∈ e.operations, ∃ m, operation.exactValue? scopes = some m ∧ fits m = true := by
  unfold firstOverflow?
  rw [List.find?_eq_none]
  refine forall₂_congr fun operation hmem => ?_
  obtain ⟨m, hm⟩ := exactValue?_of_mem_operations e n h operation hmem
  simp [overflows_eq hm, hm]

/-- The first overflow of an operation is that of its left operand, of its right operand, or
its own. -/
theorem firstOverflow?_binary (op : BinaryOp) (left right : Expr) (location : Location) :
    (binary op left right location).firstOverflow? scopes =
      (left.firstOverflow? scopes).or ((right.firstOverflow? scopes).or
        (if (binary op left right location).overflows scopes then
          some (binary op left right location) else none)) := by
  unfold firstOverflow?
  rw [operations, List.find?_append, List.find?_append, List.find?_singleton]

/-- The result of an evaluation is the overflow of an operation: a fault at its place that
names the exact values of its operands. -/
def IsOverflowOf (scopes : Scopes Value) (overflowing : Expr) (result : Except Fault Value) :
    Prop :=
  ∃ op left right location a b, overflowing = binary op left right location ∧
    left.exactValue? scopes = some a ∧ right.exactValue? scopes = some b ∧
    ∃ operation x y, result = .error (.value (.overflow operation x y) location) ∧
      ValueFault.operation operation x y = toString a ++ " " ++ op.sign ++ " " ++ toString b

/-- An overflow is a fault. -/
theorem IsOverflowOf.error {overflowing : Expr} {result : Except Fault Value}
    (h : IsOverflowOf scopes overflowing result) : ∃ fault, result = .error fault := by
  obtain ⟨_, _, _, _, _, _, -, -, -, _, _, _, hresult, -⟩ := h
  exact ⟨_, hresult⟩

/-- How the evaluation of an expression with an exact value ends. -/
def EndsExactly (scopes : Scopes Value) (e : Expr) (n : Int) : Prop :=
  match e.firstOverflow? scopes with
  | none => ∃ value, e.eval scopes = .ok value ∧ value.integer? = some n
  | some overflowing => IsOverflowOf scopes overflowing (e.eval scopes)

/-- Operands that have been evaluated are combined. -/
theorem eval_binary_of_operands {op : BinaryOp} {operation : Arithmetic} {left right : Expr}
    {u v : Value} (hop : op.arithmetic? = some operation) (hleft : left.eval scopes = .ok u)
    (hright : right.eval scopes = .ok v) (location : Location) :
    (binary op left right location).eval scopes = Fault.ofValue location (u.apply operation v) := by
  rw [eval, hop, hleft, hright]
  rfl

/-- An operation on evaluated operands has its exact value if that fits, and otherwise
overflows. -/
theorem eval_binary_of_integers {op : BinaryOp} {onIntegers : Int → Int → Int} {left right : Expr}
    {a b : Int} {u v : Value} (hop : op.onIntegers? = some onIntegers)
    (ha : left.exactValue? scopes = some a) (hb : right.exactValue? scopes = some b)
    (hu : left.eval scopes = .ok u) (hua : u.integer? = some a)
    (hv : right.eval scopes = .ok v) (hvb : v.integer? = some b) (location : Location) :
    (fits (onIntegers a b) = true →
      ∃ value, (binary op left right location).eval scopes = .ok value ∧
        value.integer? = some (onIntegers a b)) ∧
    (fits (onIntegers a b) = false →
      IsOverflowOf scopes (binary op left right location)
        ((binary op left right location).eval scopes)) := by
  obtain ⟨operation, harithmetic, hsign, hexact⟩ := BinaryOp.arithmetic?_of_onIntegers? hop
  obtain ⟨x, hx, -, hxa⟩ := Value.number?_of_integer? hua
  obtain ⟨y, hy, -, hyb⟩ := Value.number?_of_integer? hvb
  have hresult : operation.onInts x.toInt y.toInt = some (onIntegers a b) := by
    rw [hexact, hxa, hyb]
  obtain ⟨hvalue, hoverflow⟩ := Value.applyNumbers_of_onInts hresult
  have happly : u.apply operation v = Value.applyNumbers operation (.int x) (.int y) := by
    rw [Value.apply, hx, hy]
  have heval := eval_binary_of_operands harithmetic hu hv location
  rw [happly] at heval
  constructor
  · intro hfits
    obtain ⟨value, hok, hinteger⟩ := hvalue hfits
    rw [hok] at heval
    exact ⟨value, heval, hinteger⟩
  · intro hfits
    rw [hoverflow hfits] at heval
    refine ⟨op, left, right, location, a, b, rfl, ha, hb, operation, x, y, heval, ?_⟩
    rw [ValueFault.operation, hxa, hyb, hsign]

/-- An operation ends exactly if its operands do. The operands are evaluated in the order in which
their operations are listed, and the first fault of theirs is the fault of the whole. -/
theorem EndsExactly.binary {op : BinaryOp} {onIntegers : Int → Int → Int} {left right : Expr}
    {a b : Int} (hop : op.onIntegers? = some onIntegers) (ha : left.exactValue? scopes = some a)
    (hb : right.exactValue? scopes = some b) (hleft : EndsExactly scopes left a)
    (hright : EndsExactly scopes right b) (location : Location) :
    EndsExactly scopes (binary op left right location) (onIntegers a b) := by
  obtain ⟨operation, harithmetic, -, -⟩ := BinaryOp.arithmetic?_of_onIntegers? hop
  unfold EndsExactly at hleft hright ⊢
  rw [firstOverflow?_binary]
  cases hfirst : left.firstOverflow? scopes with
  | some overflowing =>
    rw [hfirst] at hleft
    obtain ⟨fault, hfault⟩ := IsOverflowOf.error hleft
    have heval : (Expr.binary op left right location).eval scopes = left.eval scopes := by
      rw [eval, harithmetic, hfault]
      rfl
    rw [heval]
    exact hleft
  | none =>
    rw [hfirst] at hleft
    obtain ⟨u, hu, hua⟩ := hleft
    cases hsecond : right.firstOverflow? scopes with
    | some overflowing =>
      rw [hsecond] at hright
      obtain ⟨fault, hfault⟩ := IsOverflowOf.error hright
      have heval : (Expr.binary op left right location).eval scopes = right.eval scopes := by
        rw [eval, harithmetic, hu, hfault]
        rfl
      rw [heval]
      exact hright
    | none =>
      -- Both operands have their exact values, so only the operation itself can overflow.
      rw [hsecond] at hright
      obtain ⟨v, hv, hvb⟩ := hright
      obtain ⟨hvalue, hoverflow⟩ := eval_binary_of_integers hop ha hb hu hua hv hvb location
      rw [overflows_eq (exactValue?_binary.mpr ⟨onIntegers, a, b, hop, ha, hb, rfl⟩)]
      cases hfits : fits (onIntegers a b) with
      | true => exact hvalue hfits
      | false => exact hoverflow hfits

/-- Every expression with an exact value ends exactly. -/
theorem endsExactly : (e : Expr) → (n : Int) → e.exactValue? scopes = some n →
    EndsExactly scopes e n
  | literal value _, _, h => ⟨value.value, rfl, h⟩
  | name id location, n, h => by
    rw [exactValue?, Option.bind_eq_some_iff] at h
    obtain ⟨value, hfound, hinteger⟩ := h
    refine ⟨value, ?_, hinteger⟩
    rw [eval, Scopes.get, hfound]
  | binary op left right location, n, h => by
    obtain ⟨onIntegers, a, b, hop, ha, hb, rfl⟩ := exactValue?_binary.mp h
    exact .binary hop ha hb (endsExactly left a ha) (endsExactly right b hb) location
  | compare _ _ _ _, _, h => by cases h
  | tuple _ _, _, h => by cases h
  | call _ _ _, _, h => by cases h

end Expr

/-- An expression of whole numbers, truth values, names of such values, sums, differences and
products is evaluated exactly, or stops at its first overflow. If the exact value of each operation
fits, the evaluation succeeds with a value that is the whole number of the exact value.
Otherwise it fails at the first operation whose exact value does not fit, from left to right
and operands before their operation, and the fault is at its place and names its operands by
their exact values. -/
theorem eval_exact_or_first_overflow {scopes : Scopes Value} {e : Expr} {n : Int}
    (h : e.exactValue? scopes = some n) :
    (e.firstOverflow? scopes = none ↔
      ∀ operation ∈ e.operations, ∃ m, operation.exactValue? scopes = some m ∧ fits m = true) ∧
    (e.firstOverflow? scopes = none →
      ∃ value whole, e.eval scopes = .ok value ∧ value.asInt? = some whole ∧ whole.toInt = n) ∧
    (∀ overflowing, e.firstOverflow? scopes = some overflowing →
      ∃ op left right location a b, overflowing = .binary op left right location ∧
        left.exactValue? scopes = some a ∧ right.exactValue? scopes = some b ∧
        ∃ operation x y, e.eval scopes = .error (.value (.overflow operation x y) location) ∧
          ValueFault.operation operation x y =
            toString a ++ " " ++ op.sign ++ " " ++ toString b) := by
  have hends := e.endsExactly n h
  unfold Expr.EndsExactly at hends
  refine ⟨Expr.firstOverflow?_eq_none h, ?_, ?_⟩
  · intro hnone
    rw [hnone] at hends
    obtain ⟨value, heval, hinteger⟩ := hends
    obtain ⟨whole, -, hwhole, hn⟩ := Value.number?_of_integer? hinteger
    exact ⟨value, whole, heval, hwhole, hn⟩
  · intro overflowing hsome
    rw [hsome] at hends
    exact hends

/-- The greatest whole number and a truth value, by name. -/
def Sample.bounds : Scopes Value :=
  (Scopes.empty.bind "top" (.int Int64.maxValue)).bind "yes" (.bool true)

/-- A square that overflows, between a difference that does not and a sum that overflows as
well. -/
def Sample.square : Expr :=
  .binary .mul (.name "top" ⟨1, 18⟩) (.name "top" ⟨1, 24⟩) ⟨1, 22⟩

/-- The sum `(yes - top) + (top * top - (top + yes))`, in which the exact values of four
operations do not fit. -/
def Sample.crossed : Expr :=
  .binary .add (.binary .sub (.name "yes" ⟨1, 2⟩) (.name "top" ⟨1, 8⟩) ⟨1, 6⟩)
    (.binary .sub Sample.square
      (.binary .add (.name "top" ⟨1, 31⟩) (.name "yes" ⟨1, 37⟩) ⟨1, 35⟩) ⟨1, 28⟩) ⟨1, 14⟩

theorem crossed_stops_at_square :
    Sample.crossed.exactValue? Sample.bounds = some 85070591730234615828950163710522949635 ∧
      Sample.crossed.firstOverflow? Sample.bounds = some Sample.square ∧
      ∃ operation x y, Sample.crossed.eval Sample.bounds =
          .error (.value (.overflow operation x y) ⟨1, 22⟩) ∧
        ValueFault.operation operation x y = "9223372036854775807 * 9223372036854775807" := by
  have hexact : Sample.crossed.exactValue? Sample.bounds =
      some 85070591730234615828950163710522949635 := by decide
  have hfirst : Sample.crossed.firstOverflow? Sample.bounds = some Sample.square := rfl
  obtain ⟨op, left, right, location, a, b, hshape, ha, hb, operation, x, y, heval, htext⟩ :=
    (eval_exact_or_first_overflow hexact).2.2 _ hfirst
  cases hshape
  cases ha
  cases hb
  exact ⟨hexact, hfirst, operation, x, y, heval, htext⟩

end Walkthrough
