import Walkthrough.Proofs.RoundTrip
import Walkthrough.Proofs.Wording

/-!
# The stage with values for names

The middle stage of an operator expression is a text in which short names are replaced by
the texts of their values. It is the text of an expression again, the one with the values
themselves at the places of the names; so it is read as that expression and has the same
value, whatever the short names are bound to by then.
-/

namespace Walkthrough

theorem Fault.ofValue_ok {α : Type} {location : Location} {result : Except ValueFault α} {a : α} :
    Fault.ofValue location result = .ok a ↔ result = .ok a :=
  except_mapError_ok

namespace Expr

variable {scopes : Scopes Value} {value : Value} {location : Location}

/-- An operator has a value if it is one of arithmetic and its operands have values that
can be combined. -/
theorem eval_binary_ok {op : BinaryOp} {left right : Expr} :
    (binary op left right location).eval scopes = .ok value ↔
      ∃ operation a b, op.arithmetic? = some operation ∧ left.eval scopes = .ok a ∧
        right.eval scopes = .ok b ∧ a.apply operation b = .ok value := by
  rw [eval]
  cases op.arithmetic? with
  | none => simp
  | some operation =>
    simp only [except_bind_ok, Fault.ofValue_ok]
    grind

/-- A comparison has a value if its sides have values that can be compared. -/
theorem eval_compare_ok {op : CompareOp} {left right : Expr} :
    (compare op left right location).eval scopes = .ok value ↔
      ∃ a b, left.eval scopes = .ok a ∧ right.eval scopes = .ok b ∧ a.compare op b = .ok value := by
  rw [eval]
  simp only [except_bind_ok, Fault.ofValue_ok]
  grind

/-- A tuple has a value if its parts have. -/
theorem eval_tuple_ok {items : List Expr} :
    (tuple items location).eval scopes = .ok value ↔
      ∃ values, evalAll scopes items = .ok values ∧ .tuple values = value := by
  rw [eval]
  simp only [except_bind_ok, except_pure_ok]

theorem evalAll_cons_ok {item : Expr} {others : List Expr} {values : List Value} :
    evalAll scopes (item :: others) = .ok values ↔
      ∃ first rest, item.eval scopes = .ok first ∧ evalAll scopes others = .ok rest ∧
        first :: rest = values := by
  rw [evalAll]
  simp only [except_bind_ok, except_pure_ok]
  grind

mutual

/-- The value of an expression does not depend on places. -/
theorem eval_placeless : (e : Expr) → (value : Value) →
    (e.placeless.eval scopes = .ok value ↔ e.eval scopes = .ok value)
  | literal _ _, _ => Iff.rfl
  | name _ _, _ => by rw [placeless, eval, eval, Scopes.get_ok, Scopes.get_ok]
  | binary _ left right _, _ => by
    simp only [placeless, eval_binary_ok, eval_placeless left, eval_placeless right]
  | compare _ left right _, _ => by
    simp only [placeless, eval_compare_ok, eval_placeless left, eval_placeless right]
  | tuple items _, _ => by
    simp only [placeless, eval_tuple_ok, evalAll_placeless items]
  | call _ _ _, _ => by rw [placeless, eval, eval]; simp

/-- The values of some expressions do not depend on places. -/
theorem evalAll_placeless : (items : List Expr) → (values : List Value) →
    (evalAll scopes (placelessList items) = .ok values ↔ evalAll scopes items = .ok values)
  | [], _ => Iff.rfl
  | item :: others, _ => by
    simp only [placelessList, evalAll_cons_ok, eval_placeless item, evalAll_placeless others]

end

mutual

/-- An expression with a value contains no call. -/
theorem isCallFree_of_eval : (e : Expr) → (value : Value) → e.eval scopes = .ok value →
    e.isCallFree = true
  | literal _ _, _, _ => rfl
  | name _ _, _, _ => rfl
  | binary _ left right _, _, h => by
    obtain ⟨_, a, b, _, ha, hb, -⟩ := eval_binary_ok.mp h
    exact Bool.and_eq_true_iff.mpr ⟨isCallFree_of_eval left a ha, isCallFree_of_eval right b hb⟩
  | compare _ left right _, _, h => by
    obtain ⟨a, b, ha, hb, -⟩ := eval_compare_ok.mp h
    exact Bool.and_eq_true_iff.mpr ⟨isCallFree_of_eval left a ha, isCallFree_of_eval right b hb⟩
  | tuple items _, _, h => by
    obtain ⟨values, hvalues, -⟩ := eval_tuple_ok.mp h
    exact allCallFree_of_evalAll items values hvalues
  | call _ _ _, _, h => by cases h

/-- Expressions with values contain no call. -/
theorem allCallFree_of_evalAll : (items : List Expr) → (values : List Value) →
    evalAll scopes items = .ok values → allCallFree items = true
  | [], _, _ => rfl
  | item :: others, _, h => by
    obtain ⟨first, rest, hfirst, hrest, -⟩ := evalAll_cons_ok.mp h
    exact Bool.and_eq_true_iff.mpr
      ⟨isCallFree_of_eval item first hfirst, allCallFree_of_evalAll others rest hrest⟩

end

mutual

/-- The variables of an expression with a value are bound. -/
theorem bound_of_eval : (e : Expr) → (value : Value) → e.eval scopes = .ok value →
    ∀ id ∈ e.names, ∃ bound, scopes.find? id = some bound
  | literal _ _, _, _ => by simp [names]
  | name _ _, value, h => by
    intro id hid
    cases List.mem_singleton.mp hid
    exact ⟨value, Scopes.get_ok.mp h⟩
  | binary _ left right _, _, h => by
    obtain ⟨_, a, b, _, ha, hb, -⟩ := eval_binary_ok.mp h
    intro id hid
    exact (List.mem_append.mp hid).elim (bound_of_eval left a ha id) (bound_of_eval right b hb id)
  | compare _ left right _, _, h => by
    obtain ⟨a, b, ha, hb, -⟩ := eval_compare_ok.mp h
    intro id hid
    exact (List.mem_append.mp hid).elim (bound_of_eval left a ha id) (bound_of_eval right b hb id)
  | tuple items _, _, h => by
    obtain ⟨values, hvalues, -⟩ := eval_tuple_ok.mp h
    exact bound_of_evalAll items values hvalues
  | call _ _ _, _, h => by cases h

/-- The variables of expressions with values are bound. -/
theorem bound_of_evalAll : (items : List Expr) → (values : List Value) →
    evalAll scopes items = .ok values → ∀ id ∈ allNames items, ∃ bound, scopes.find? id = some bound
  | [], _, _ => by simp [allNames]
  | item :: others, _, h => by
    obtain ⟨first, rest, hfirst, hrest, -⟩ := evalAll_cons_ok.mp h
    intro id hid
    exact (List.mem_append.mp hid).elim (bound_of_eval item first hfirst id)
      (bound_of_evalAll others rest hrest id)

end

end Expr

namespace Value

mutual

/-- Whether a value can be written: no part of it is the least whole number, an infinity or
no number at all. -/
def isWritable : Value → Bool
  | int n => n != Int64.minValue
  | float x => x.isFinite
  | tuple items => allWritable items
  | _ => true

/-- Whether some values can be written. -/
def allWritable : List Value → Bool
  | [] => true
  | item :: others => item.isWritable && allWritable others

end

mutual

/-- The expression that a value is written as. -/
def expr : Value → Expr
  | int n => .literal (.int n) .origin
  | float x => .literal (.float x) .origin
  | bool b => .literal (.bool b) .origin
  | none => .literal .none .origin
  | tuple items => .tuple (exprs items) .origin

/-- The expressions that some values are written as. -/
def exprs : List Value → List Expr
  | [] => []
  | item :: others => item.expr :: exprs others

end

/-- A value needs parentheses at most as the operand of a power. -/
theorem operandText_expr {minimum : Nat} (hmin : minimum ≤ 4) (value : Value) (text : String) :
    Expr.operandText minimum value.expr text = text := by
  have hliteral : ∀ literal, 4 ≤ (Expr.literal literal .origin).precedence := fun literal => by
    rw [Expr.precedence]
    split <;> decide
  refine if_neg ?_
  rintro ⟨hless, htuple⟩
  cases value with
  | tuple items => exact htuple rfl
  | int n => exact absurd (hliteral (.int n)) (by rw [expr] at hless; omega)
  | float x => exact absurd (hliteral (.float x)) (by rw [expr] at hless; omega)
  | bool b => exact absurd (hliteral (.bool b)) (by rw [expr] at hless; omega)
  | none => exact absurd (hliteral .none) (by rw [expr] at hless; omega)

mutual

/-- A value and its expression have the same text. -/
theorem text_expr : (value : Value) → value.expr.text = value.text
  | int _ => rfl
  | float _ => rfl
  | bool b => by cases b <;> rfl
  | none => rfl
  | tuple items => by rw [expr, Expr.text, Expr.textWith, textsWith_exprs items, text]

/-- Some values and their expressions have the same texts. -/
theorem textsWith_exprs : (items : List Value) → Expr.textsWith id (exprs items) = texts items
  | [] => rfl
  | item :: others => by
    rw [exprs, Expr.textsWith, operandText_expr (by decide), textsWith_exprs others, texts]
    exact congrArg (· :: texts others) (text_expr item)

end

mutual

/-- The expression of a value has that value. -/
theorem eval_expr (scopes : Scopes Value) : (value : Value) → value.expr.eval scopes = .ok value
  | int _ => rfl
  | float _ => rfl
  | bool _ => rfl
  | none => rfl
  | tuple items => Expr.eval_tuple_ok.mpr ⟨items, evalAll_exprs scopes items, rfl⟩

/-- The expressions of some values have these values. -/
theorem evalAll_exprs (scopes : Scopes Value) :
    (items : List Value) → Expr.evalAll scopes (exprs items) = .ok items
  | [] => rfl
  | item :: others =>
    Expr.evalAll_cons_ok.mpr ⟨item, others, eval_expr scopes item, evalAll_exprs scopes others, rfl⟩

end

mutual

/-- The expression of a value can be written if the value can. -/
theorem isWritable_expr : (value : Value) → value.expr.isWritable = value.isWritable
  | int _ => rfl
  | float _ => rfl
  | bool _ => rfl
  | none => rfl
  | tuple items => leavesAllList_exprs items

/-- The expressions of some values can be written if the values can. -/
theorem leavesAllList_exprs : (items : List Value) →
    Expr.leavesAllList Token.isName Literal.isWritable (exprs items) = allWritable items
  | [] => rfl
  | item :: others => by
    rw [exprs, Expr.leavesAllList, leavesAllList_exprs others, allWritable]
    exact congrArg (· && allWritable others) (isWritable_expr item)

end

end Value

namespace Expr

mutual

/-- An expression with the values of its short names in their place. A call has no value, so
nothing is replaced in it. -/
def filled (scopes : Scopes Value) : Expr → Expr
  | literal value location => literal value location
  | name id location =>
    if isShortName id.toList then ((scopes.find? id).map Value.expr).getD (name id location)
    else name id location
  | binary op left right location => binary op (left.filled scopes) (right.filled scopes) location
  | compare op left right location => compare op (left.filled scopes) (right.filled scopes) location
  | tuple items location => tuple (allFilled scopes items) location
  | call function args location => call function args location

/-- Some expressions with the values of their short names in their place. -/
def allFilled (scopes : Scopes Value) : List Expr → List Expr
  | [] => []
  | item :: others => item.filled scopes :: allFilled scopes others

end

/-- A short name is filled with its value. -/
theorem filled_short {scopes : Scopes Value} {id : String} {value : Value}
    (hshort : isShortName id.toList = true) (h : scopes.find? id = some value)
    (location : Location) : (name id location).filled scopes = value.expr := by
  rw [filled, if_pos hshort, h]
  rfl

theorem filled_long {id : String} (hlong : isShortName id.toList = false) (scopes : Scopes Value)
    (location : Location) : (name id location).filled scopes = name id location := by
  rw [filled, hlong]
  rfl

/-- Two bindings agree on the names of an expression that are not short. -/
def AgreeOnLong (names : List String) (scopes other : Scopes Value) : Prop :=
  ∀ id ∈ names, isShortName id.toList = false → other.find? id = scopes.find? id

variable {scopes other : Scopes Value}

theorem AgreeOnLong.left {as bs : List String} (h : AgreeOnLong (as ++ bs) scopes other) :
    AgreeOnLong as scopes other := fun id hid => h id (List.mem_append_left _ hid)

theorem AgreeOnLong.right {as bs : List String} (h : AgreeOnLong (as ++ bs) scopes other) :
    AgreeOnLong bs scopes other := fun id hid => h id (List.mem_append_right _ hid)

mutual

/-- A filled expression has the value of the expression, whatever the short names are bound
to. -/
theorem eval_filled : (e : Expr) → (value : Value) → e.eval scopes = .ok value →
    AgreeOnLong e.names scopes other → (e.filled scopes).eval other = .ok value
  | literal _ _, _, h, _ => h
  | name id location, value, h, hagree => by
    have hfound := Scopes.get_ok.mp h
    cases hshort : isShortName id.toList with
    | true =>
      rw [filled_short hshort hfound]
      exact value.eval_expr other
    | false =>
      rw [filled_long hshort]
      exact Scopes.get_ok.mpr ((hagree id List.mem_cons_self hshort).trans hfound)
  | binary op left right _, value, h, hagree => by
    obtain ⟨operation, a, b, hop, ha, hb, hvalue⟩ := eval_binary_ok.mp h
    exact eval_binary_ok.mpr ⟨operation, a, b, hop, eval_filled left a ha hagree.left,
      eval_filled right b hb hagree.right, hvalue⟩
  | compare op left right _, value, h, hagree => by
    obtain ⟨a, b, ha, hb, hvalue⟩ := eval_compare_ok.mp h
    exact eval_compare_ok.mpr ⟨a, b, eval_filled left a ha hagree.left,
      eval_filled right b hb hagree.right, hvalue⟩
  | tuple items _, value, h, hagree => by
    obtain ⟨values, hvalues, hvalue⟩ := eval_tuple_ok.mp h
    exact eval_tuple_ok.mpr ⟨values, evalAll_filled items values hvalues hagree, hvalue⟩
  | call _ _ _, _, h, _ => by cases h

/-- Filled expressions have the values of the expressions. -/
theorem evalAll_filled : (items : List Expr) → (values : List Value) →
    evalAll scopes items = .ok values → AgreeOnLong (allNames items) scopes other →
    evalAll other (allFilled scopes items) = .ok values
  | [], _, h, _ => h
  | item :: others, values, h, hagree => by
    obtain ⟨first, rest, hfirst, hrest, hvalues⟩ := evalAll_cons_ok.mp h
    exact evalAll_cons_ok.mpr ⟨first, rest, eval_filled item first hfirst hagree.left,
      evalAll_filled others rest hrest hagree.right, hvalues⟩

end

/-- All values of some names can be written. -/
def BoundWritable (names : List String) (scopes : Scopes Value) : Prop :=
  ∀ id ∈ names, ∀ value, scopes.find? id = some value → value.isWritable = true

theorem BoundWritable.left {as bs : List String} (h : BoundWritable (as ++ bs) scopes) :
    BoundWritable as scopes := fun id hid => h id (List.mem_append_left _ hid)

theorem BoundWritable.right {as bs : List String} (h : BoundWritable (as ++ bs) scopes) :
    BoundWritable bs scopes := fun id hid => h id (List.mem_append_right _ hid)

mutual

/-- A filled expression can be written. -/
theorem isWritable_filled : (e : Expr) → e.isWritable = true → BoundWritable e.names scopes →
    (e.filled scopes).isWritable = true
  | literal _ _, h, _ => h
  | name id location, h, hbound => by
    cases hshort : isShortName id.toList with
    | false => rwa [filled_long hshort]
    | true =>
      cases hfound : scopes.find? id with
      | none =>
        rw [filled, hshort, hfound]
        exact h
      | some value =>
        rw [filled_short hshort hfound, value.isWritable_expr]
        exact hbound id List.mem_cons_self value hfound
  | binary _ left right _, h, hbound => by
    obtain ⟨hleft, hright⟩ := Bool.and_eq_true_iff.mp h
    exact Bool.and_eq_true_iff.mpr ⟨isWritable_filled left hleft hbound.left,
      isWritable_filled right hright hbound.right⟩
  | compare _ left right _, h, hbound => by
    obtain ⟨hleft, hright⟩ := Bool.and_eq_true_iff.mp h
    exact Bool.and_eq_true_iff.mpr ⟨isWritable_filled left hleft hbound.left,
      isWritable_filled right hright hbound.right⟩
  | tuple items _, h, hbound => allWritable_filled items h hbound
  | call _ _ _, h, _ => h

/-- Filled expressions can be written. -/
theorem allWritable_filled : (items : List Expr) →
    leavesAllList Token.isName Literal.isWritable items = true →
    BoundWritable (allNames items) scopes →
    leavesAllList Token.isName Literal.isWritable (allFilled scopes items) = true
  | [], _, _ => rfl
  | item :: others, h, hbound => by
    obtain ⟨hitem, hothers⟩ := Bool.and_eq_true_iff.mp h
    exact Bool.and_eq_true_iff.mpr ⟨isWritable_filled item hitem hbound.left,
      allWritable_filled others hothers hbound.right⟩

end

/-- Filling a name changes no parentheses, powers apart. -/
theorem operandText_filled {minimum : Nat} (hmin : minimum ≤ 4) (e : Expr) (text : String) :
    operandText minimum (e.filled scopes) text = operandText minimum e text := by
  cases e with
  | name id location =>
    cases hshort : isShortName id.toList with
    | false => rw [filled_long hshort]
    | true =>
      cases hfound : scopes.find? id with
      | none => rw [filled, hshort, hfound]; rfl
      | some value =>
        have hplain : operandText minimum (name id location) text = text :=
          if_neg fun h => absurd h.1 (by rw [precedence]; omega)
        rw [filled_short hshort hfound, Value.operandText_expr hmin, hplain]
  | _ => rfl

/-- An operation of arithmetic requires no more of its operands than a negative number gives. -/
theorem minimum_le {op : BinaryOp} {operation : Arithmetic} (h : op.arithmetic? = some operation) :
    op.leftMinimum ≤ 4 ∧ op.rightMinimum ≤ 4 := by
  cases op <;> first | decide | cases h

/-- A name is filled with what it is written as. -/
theorem text_filled_name {id : String} {value : Value} (h : scopes.find? id = some value)
    (location : Location) : ((name id location).filled scopes).text = scopes.nameText id := by
  unfold Scopes.nameText
  cases hshort : isShortName id.toList with
  | false =>
    rw [filled_long hshort]
    rfl
  | true =>
    rw [filled_short hshort h, value.text_expr, h]
    rfl

mutual

/-- The text of a filled expression is the text with the values of the short names. -/
theorem text_filled : (e : Expr) → (value : Value) → e.eval scopes = .ok value →
    (e.filled scopes).text = e.textWith scopes.nameText
  | literal _ _, _, _ => rfl
  | name _ location, _, h => text_filled_name (Scopes.get_ok.mp h) location
  | binary op left right _, _, h => by
    obtain ⟨operation, a, b, hop, ha, hb, -⟩ := eval_binary_ok.mp h
    have hleft := text_filled left a ha
    have hright := text_filled right b hb
    unfold text at hleft hright
    rw [filled, text, textWith, textWith, operandText_filled (minimum_le hop).1,
      operandText_filled (minimum_le hop).2, hleft, hright]
  | compare op left right _, _, h => by
    obtain ⟨a, b, ha, hb, -⟩ := eval_compare_ok.mp h
    have hleft := text_filled left a ha
    have hright := text_filled right b hb
    unfold text at hleft hright
    rw [filled, text, textWith, textWith, operandText_filled (by decide),
      operandText_filled (by decide), hleft, hright]
  | tuple items _, _, h => by
    obtain ⟨values, hvalues, -⟩ := eval_tuple_ok.mp h
    rw [filled, text, textWith, textWith, textsWith_filled items values hvalues]

/-- The texts of filled expressions are the texts with the values of the short names. -/
theorem textsWith_filled : (items : List Expr) → (values : List Value) →
    evalAll scopes items = .ok values →
    textsWith id (allFilled scopes items) = textsWith scopes.nameText items
  | [], _, _ => rfl
  | item :: others, _, h => by
    obtain ⟨first, rest, hfirst, hrest, -⟩ := evalAll_cons_ok.mp h
    have hitem := text_filled item first hfirst
    unfold text at hitem
    rw [allFilled, textsWith, textsWith, operandText_filled (by decide), hitem,
      textsWith_filled others rest hrest]

end

end Expr

/-- The substituted text of an expression that has a value is the text of the filled
expression. -/
theorem substitute_text {scopes : Scopes Value} {e : Expr} {value : Value} {location : Location}
    {out : String} (hwritable : e.isWritable = true) (heval : e.eval scopes = .ok value)
    (h : substitute scopes e.text location = .ok (some out)) : out = (e.filled scopes).text := by
  have hbound := e.bound_of_eval value heval
  rw [Expr.substitute_textWith (e.isCallFree_of_eval value heval)
    (e.isIdentifier_of_leavesAll hwritable) fun id hid _ => hbound id hid] at h
  rw [e.text_filled value heval]
  have hout := Except.ok.inj h
  split at hout
  · exact (Option.some.inj hout).symm
  · cases hout

/-- The middle one of three stages of an operation is its text with the short names replaced. -/
theorem substitute_of_stages {scopes : Scopes Value} {e : Expr} {staged : Staged}
    {first middle last : Snapshot} (hoperation : e.isOperation = true)
    (h : e.stages scopes = .ok staged) (hthree : staged.snapshots = [first, middle, last]) :
    substitute scopes e.text e.location = .ok (some middle.text) := by
  have hstages : e.operationStages scopes = .ok staged := by
    cases e with
    | binary | compare => exact h
    | _ => cases hoperation
  obtain ⟨value, -, hstages⟩ := except_bind_ok.mp hstages
  obtain ⟨replaced, hreplaced, hstaged⟩ := except_bind_ok.mp hstages
  cases except_pure_ok.mp hstaged
  cases replaced with
  | none => cases hthree
  | some out =>
    cases hthree
    exact hreplaced

/-- The stage of an operation in which short names are replaced denotes the same value. For
an operation of names and constants that can be written, with a value and with bindings that
can be written, the text of that stage is read as one expression, and this has the same value
under all bindings that agree on the names that are not short. -/
theorem substituted_stage_denotes {scopes : Scopes Value} {e : Expr} {value : Value}
    {staged : Staged} {first middle last : Snapshot} (hoperation : e.isOperation = true)
    (hwritable : e.isWritable = true) (heval : e.eval scopes = .ok value)
    (hbound : ∀ id ∈ e.names, ∀ bound, scopes.find? id = some bound → bound.isWritable = true)
    (hstages : e.stages scopes = .ok staged) (hthree : staged.snapshots = [first, middle, last]) :
    ∃ read place, Program.parse middle.text = .ok [.expression read place] ∧
      ∀ other : Scopes Value,
        (∀ id ∈ e.names, isShortName id.toList = false → other.find? id = scopes.find? id) →
          read.eval other = .ok value := by
  have hout := substitute_text hwritable heval (substitute_of_stages hoperation hstages hthree)
  obtain ⟨read, place, hparse, hsame⟩ :=
    Program.parse_text (e.isWritable_filled hwritable hbound)
  refine ⟨read, place, hout ▸ hparse, fun other hagree => ?_⟩
  have hfilled := e.eval_filled value heval hagree
  rw [← Expr.eval_placeless, hsame, Expr.eval_placeless]
  exact hfilled

namespace Sample

/-- A negative number, a tuple and a number with a longer name. -/
def bindings : Scopes Value :=
  ((Scopes.empty.bind "a" (.int (-3))).bind "xs" (.tuple [.int 7, .bool true])).bind
    "total" (.int 4)

/-- The comparison `(total - a, True) == xs`. -/
def comparison : Expr :=
  .compare .equal
    (.tuple [.binary .sub (.name "total" .origin) (.name "a" .origin) .origin,
      .literal (.bool true) .origin] .origin)
    (.name "xs" .origin) .origin

end Sample

theorem substituted_comparison_denotes :
    Sample.comparison.eval Sample.bindings = .ok (.bool true) ∧
    ∃ read place, Program.parse "(total - -3, True) == (7, True)" = .ok [.expression read place] ∧
      ∀ other : Scopes Value, other.find? "total" = some (.int 4) →
        read.eval other = .ok (.bool true) := by
  have heval : Sample.comparison.eval Sample.bindings = .ok (.bool true) := by rfl
  have hsnapshots : (Sample.comparison.stages Sample.bindings).toOption.map Staged.snapshots =
      some [.scalar "(total - a, True) == xs", .scalar "(total - -3, True) == (7, True)",
        .scalar "True"] := by decide +kernel
  have hbound : ∀ id ∈ Sample.comparison.names, ∀ bound,
      Sample.bindings.find? id = some bound → bound.isWritable = true := by
    have htotal : Sample.bindings.find? "total" = some (.int 4) := rfl
    have ha : Sample.bindings.find? "a" = some (.int (-3)) := rfl
    have hxs : Sample.bindings.find? "xs" = some (.tuple [.int 7, .bool true]) := rfl
    simp only [Sample.comparison, Expr.names, Expr.allNames, List.append_nil, List.cons_append,
      List.nil_append, List.mem_cons, List.not_mem_nil, or_false]
    rintro id (rfl | rfl | rfl) bound hfound
    · cases htotal.symm.trans hfound
      rfl
    · cases ha.symm.trans hfound
      rfl
    · cases hxs.symm.trans hfound
      rfl
  obtain ⟨staged, hstaged, hthree⟩ := Option.map_eq_some_iff.mp hsnapshots
  obtain ⟨read, place, hparse, hread⟩ := substituted_stage_denotes rfl (by decide) heval hbound
    (except_toOption_some.mp hstaged) hthree
  refine ⟨heval, read, place, hparse, fun other hother => hread other fun id hid hlong => ?_⟩
  simp only [Sample.comparison, Expr.names, Expr.allNames, List.append_nil, List.cons_append,
    List.nil_append, List.mem_cons, List.not_mem_nil, or_false] at hid
  rcases hid with rfl | rfl | rfl
  · exact hother
  · cases hlong
  · cases hlong

end Walkthrough
