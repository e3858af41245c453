import Walkthrough.Proofs.Recognition

/-!
# How deep operators stand in parentheses

The operands and operators of an expression stand at depths in parentheses. The grammar asks
for a least depth of each: an operand that its place does not admit bare stands one deeper. The
depths are counted on tokens, and wherever some tokens are derived as an expression, each of its
operands and operators stands at its least depth or deeper.
-/

namespace Walkthrough

open Lexeme

namespace Token

/-- The depths in parentheses of the operands and operators of some tokens that start at a depth,
after an operand or not. A minus sign that is not after an operand belongs to a number. There are
none if the line or the text ends or a comma stands outside of all parentheses. -/
def depths (n : Nat) (after : Bool) : List Token → Option (List Nat)
  | [] => some []
  | .symbol .leftParen :: ts => depths (n + 1) false ts
  | .symbol .rightParen :: ts => depths (n - 1) true ts
  | .symbol .comma :: ts => if n = 0 then none else depths n false ts
  | .symbol .minus :: ts =>
    if after then (depths n false ts).map (n :: ·) else depths n false ts
  | .symbol _ :: ts => (depths n false ts).map (n :: ·)
  | .newline :: _ | .endOfFile :: _ => none
  | _ :: ts => (depths n true ts).map (n :: ·)

/-- If tokens have depths, the first one ends no line, and those after it have depths too. -/
theorem exists_depths_tail {t : Token} {ts : List Token} {n : Nat} {after : Bool} {ds : List Nat}
    (h : depths n after (t :: ts) = some ds) :
    t ∉ [.newline, .endOfFile] ∧ ∃ m after' others, depths m after' ts = some others := by
  cases t with
  | newline | endOfFile => cases h
  | symbol mark => cases mark <;> grind [depths, Option.map_eq_some_iff]
  | _ => grind [depths, Option.map_eq_some_iff]

/-- Tokens that have depths are on one line. -/
theorem onOneLine_of_depths {ts : List Token} {n : Nat} {after : Bool} {ds : List Nat}
    (h : depths n after ts = some ds) : ∀ t ∈ ts, t ∉ [.newline, .endOfFile] := by
  induction ts generalizing n after ds with
  | nil => exact nofun
  | cons t ts ih =>
    obtain ⟨hfirst, m, after', others, hothers⟩ := exists_depths_tail h
    exact List.forall_mem_cons.mpr ⟨hfirst, ih hothers⟩

/-- Some tokens, after an operand or not, make up an operand or go on with one, and their depths
are these wherever they stand. -/
def Measures (after : Bool) (ts : List Token) (ds : Nat → List Nat) : Prop :=
  ∀ n rest, depths n after (ts ++ rest) = (depths n true rest).map (ds n ++ ·)

/-- Some tokens stand inside parentheses up to the closing one, and their depths are these. -/
def Fills (after : Bool) (ts : List Token) (ds : Nat → List Nat) : Prop :=
  ∀ n rest, depths (n + 1) after (ts ++ .symbol .rightParen :: rest) =
    (depths n true rest).map (ds (n + 1) ++ ·)

theorem measures_nil : Measures true [] (fun _ => []) := by
  intro n rest
  simp

theorem fills_nil (after : Bool) : Fills after [] (fun _ => []) := by
  intro n rest
  simp [depths]

/-- A token that is an operand. -/
def isOperand : Token → Bool
  | int _ | float _ | name _ | keyword _ => true
  | _ => false

theorem measures_operand {t : Token} (h : t.isOperand = true) :
    Measures false [t] (fun n => [n]) := by
  intro n rest
  cases t <;> first | rfl | cases h

theorem measures_negated {t : Token} (h : t.isOperand = true) :
    Measures false [.symbol .minus, t] (fun n => [n]) := by
  intro n rest
  cases t <;> first | rfl | cases h

variable {after : Bool} {ts us : List Token} {ds es : Nat → List Nat}

/-- What goes on with an operand adds its depths. -/
theorem Measures.append (h : Measures after ts ds) (h' : Measures true us es) :
    Measures after (ts ++ us) (fun n => ds n ++ es n) := by
  intro n rest
  rw [List.append_assoc, h, h', Option.map_map]
  simp [Function.comp_def]

/-- What fills parentheses after an operand adds its depths. -/
theorem Measures.appendFills (h : Measures after ts ds) (h' : Fills true us es) :
    Fills after (ts ++ us) (fun n => ds n ++ es n) := by
  intro n rest
  rw [List.append_assoc, h, h', Option.map_map]
  simp [Function.comp_def]

/-- An operand fills parentheses. -/
theorem Measures.fills (h : Measures after ts ds) : Fills after ts ds := by
  have hfills := h.appendFills (fills_nil true)
  simpa using hfills

/-- A mark that is an operator after an operand. -/
def IsOperator (mark : Symbol) : Prop :=
  ∀ n ts, depths n true (.symbol mark :: ts) = (depths n false ts).map (n :: ·)

/-- An operator goes on with an operand before it by one after it. -/
theorem Measures.operator {mark : Symbol} (hmark : IsOperator mark) (h : Measures false ts ds) :
    Measures true (.symbol mark :: ts) (fun n => n :: ds n) := by
  intro n rest
  rw [List.cons_append, hmark, h, Option.map_map]
  simp [Function.comp_def]

/-- A comma after an operand inside parentheses starts another one. -/
theorem Fills.comma (h : Fills false ts ds) : Fills true (.symbol .comma :: ts) ds := by
  intro n rest
  rw [List.cons_append, depths, if_neg (Nat.succ_ne_zero n), h]

/-- What stands in parentheses makes up an operand one deeper. -/
theorem Fills.group (h : Fills false ts ds) (after : Bool) :
    Measures after (.symbol .leftParen :: (ts ++ [.symbol .rightParen]))
      (fun n => ds (n + 1)) := by
  intro n rest
  rw [List.cons_append, List.append_assoc, List.singleton_append, depths, h]

/-- A token that no minus sign is a part of: numbers have no sign. -/
def isUnsigned : Token → Bool
  | .int n => 0 ≤ n
  | .float x => !x.negative
  | _ => true

/-- A number that is read has no sign. -/
theorem isUnsigned_ofNumber {spelling : List Char} {t : Token} (h : ofNumber spelling = .ok t) :
    t.isUnsigned = true := by
  have hsound := isSound_ofNumber h
  unfold ofNumber at h
  dsimp only at h
  split at h
  · split at h
    · cases h
      exact hsound
    · cases h
  · split at h
    · cases h
      rfl
    · cases h

/-- Texts are cut into tokens without signs. -/
theorem scanned_isUnsigned : Lexeme.Scanned fun t => t.isUnsigned = true where
  newline := rfl
  indent := rfl
  dedent := rfl
  endOfFile := rfl
  read := by
    intro c rest r h
    unfold read at h
    split at h
    · obtain ⟨t, ht, rfl⟩ := except_map_ok.mp h
      exact isUnsigned_ofNumber ht
    · split at h
      · cases h
        unfold ofWord
        dsimp only
        split <;> rfl
      · split at h
        · cases h
        · split at h
          · cases h
            rfl
          · cases h

end Token

theorem BinaryOp.isOperator_mark (op : BinaryOp) : Token.IsOperator op.mark := by
  intro n ts
  cases op <;> rfl

theorem CompareOp.isOperator_mark (op : CompareOp) : Token.IsOperator op.mark := by
  intro n ts
  cases op <;> rfl

/-- Depths are within others if each is at most the other one in its place. -/
def Within (ms ns : List Nat) : Prop := List.Forall₂ (· ≤ ·) ms ns

namespace Within

theorem nil : Within [] [] := List.Forall₂.nil

theorem cons {m n : Nat} {ms ns : List Nat} (h : m ≤ n) (hothers : Within ms ns) :
    Within (m :: ms) (n :: ns) := List.Forall₂.cons h hothers

theorem append {ms ns ms' ns' : List Nat} (h : Within ms ns) (h' : Within ms' ns') :
    Within (ms ++ ms') (ns ++ ns') := List.rel_append h h'

theorem trans {ms ns ks : List Nat} (h : Within ms ns) (h' : Within ns ks) : Within ms ks := by
  induction h generalizing ks with
  | nil => exact h'
  | cons hle _ ih =>
    cases h' with
    | cons hle' hothers => exact .cons (Nat.le_trans hle hle') (ih hothers)

/-- Depths within others are so before and after an equal number of them. -/
theorem of_append {ms ns ms' ns' : List Nat} (hlength : ms.length = ns.length)
    (h : Within (ms ++ ms') (ns ++ ns')) : Within ms ns ∧ Within ms' ns' := by
  induction ms generalizing ns with
  | nil =>
    obtain rfl := List.length_eq_zero_iff.mp hlength.symm
    exact ⟨.nil, h⟩
  | cons m ms ih =>
    obtain ⟨n, ns, rfl⟩ := List.exists_cons_of_length_eq_add_one hlength.symm
    cases h with
    | cons hle hothers =>
      obtain ⟨hfirst, hsecond⟩ := ih (Nat.succ.inj hlength) hothers
      exact ⟨.cons hle hfirst, hsecond⟩

end Within

/-- The level at which the grammar reads a right operand. After a power sign it admits a negative
number. -/
def BinaryOp.rightLevel (op : BinaryOp) : Nat :=
  if op = .pow then 4 else op.rightMinimum

namespace Expr

/-- The depth of an operand where the grammar reads at a level: one more if it does not admit the
operand there. -/
def depthAt (level n : Nat) (e : Expr) : Nat := if e.level < level then n + 1 else n

mutual

/-- The least depths of the operands and operators of an expression that stands at a depth. -/
def leastDepths (n : Nat) : Expr → List Nat
  | literal .. => [n]
  | name .. => [n]
  | binary op left right _ =>
    leastDepths (left.depthAt op.leftMinimum n) left ++
      n :: leastDepths (right.depthAt op.rightLevel n) right
  | compare _ left right _ =>
    leastDepths (left.depthAt 2 n) left ++ n :: leastDepths (right.depthAt 2 n) right
  | tuple items _ => listDepths (n + 1) items
  | call _ args _ => n :: listDepths (n + 1) args

/-- The least depths of some expressions that stand at a depth. -/
def listDepths (n : Nat) : List Expr → List Nat
  | [] => []
  | item :: others => leastDepths n item ++ listDepths n others

end

/-- The least depths of an operand where the grammar reads at a level. -/
def depthsAt (level n : Nat) (e : Expr) : List Nat := leastDepths (e.depthAt level n) e

theorem depthAt_le (e : Expr) {j k m n : Nat} (hlevel : j ≤ k) (hdepth : m ≤ n) :
    e.depthAt j m ≤ e.depthAt k n := by
  unfold depthAt
  split <;> split <;> omega

mutual

/-- An expression that stands deeper has all its depths deeper. -/
theorem leastDepths_le : (e : Expr) → {m n : Nat} → m ≤ n →
    Within (leastDepths m e) (leastDepths n e)
  | literal .., _, _, h => .cons h .nil
  | name .., _, _, h => .cons h .nil
  | binary _ left right _, _, _, h =>
    (leastDepths_le left (left.depthAt_le (Nat.le_refl _) h)).append
      (.cons h (leastDepths_le right (right.depthAt_le (Nat.le_refl _) h)))
  | compare _ left right _, _, _, h =>
    (leastDepths_le left (left.depthAt_le (Nat.le_refl _) h)).append
      (.cons h (leastDepths_le right (right.depthAt_le (Nat.le_refl _) h)))
  | tuple items _, _, _, h => listDepths_le items (Nat.succ_le_succ h)
  | call _ args _, _, _, h => .cons h (listDepths_le args (Nat.succ_le_succ h))

/-- Expressions that stand deeper have all their depths deeper. -/
theorem listDepths_le : (items : List Expr) → {m n : Nat} → m ≤ n →
    Within (listDepths m items) (listDepths n items)
  | [], _, _, _ => .nil
  | item :: others, _, _, h => (leastDepths_le item h).append (listDepths_le others h)

end

/-- Where an expression stands does not depend on places. -/
theorem depthAt_placeless (level n : Nat) (e : Expr) :
    e.placeless.depthAt level n = e.depthAt level n := by
  cases e <;> rfl

mutual

/-- The depths do not depend on places. -/
theorem leastDepths_placeless : (e : Expr) → (n : Nat) →
    leastDepths n e.placeless = leastDepths n e
  | literal .., _ => rfl
  | name .., _ => rfl
  | binary _ left right _, _ => by
    rw [placeless, leastDepths, leastDepths, depthAt_placeless, depthAt_placeless,
      leastDepths_placeless left, leastDepths_placeless right]
  | compare _ left right _, _ => by
    rw [placeless, leastDepths, leastDepths, depthAt_placeless, depthAt_placeless,
      leastDepths_placeless left, leastDepths_placeless right]
  | tuple items _, n => listDepths_placeless items (n + 1)
  | call _ args _, n => congrArg (n :: ·) (listDepths_placeless args (n + 1))

/-- The depths of some expressions do not depend on places. -/
theorem listDepths_placeless : (items : List Expr) → (n : Nat) →
    listDepths n (placelessList items) = listDepths n items
  | [], _ => rfl
  | item :: others, n => by
    rw [placelessList, listDepths, listDepths, leastDepths_placeless item,
      listDepths_placeless others]

end

/-- An operand that is admitted stands where its place is. -/
theorem depthsAt_of_le {level : Nat} {e : Expr} (h : level ≤ e.level) (n : Nat) :
    e.depthsAt level n = leastDepths n e := by
  rw [depthsAt, depthAt, if_neg (Nat.not_lt.mpr h)]

/-- Every expression is admitted at the level of comparisons. -/
theorem depthsAt_one (n : Nat) (e : Expr) : e.depthsAt 1 n = leastDepths n e :=
  depthsAt_of_le e.one_le_level n

/-- One parenthesis more is enough at every level. -/
theorem depthsAt_within (level n : Nat) (e : Expr) :
    Within (e.depthsAt level n) (leastDepths (n + 1) e) := by
  refine leastDepths_le e ?_
  unfold depthAt
  split <;> omega

theorem depthsAt_grouped (level n : Nat) (e : Expr) (place : Location) :
    (e.grouped place).depthsAt level n = e.depthsAt level n := by
  cases e <;> rfl

/-- Some tokens make up an operand where the grammar reads at a level, and its operands and
operators stand at their least depths or deeper. -/
def Deep (level : Nat) (ts : List Lexeme) (e : Expr) : Prop :=
  ∃ ds, Token.Measures false (ts.map Lexeme.token) ds ∧
    ∀ n, Within (e.depthsAt level n) (ds n)

/-- What is deep enough at a level is so at every level below. -/
theorem Deep.le {j k : Nat} {ts : List Lexeme} {e : Expr} (h : Deep k ts e) (hle : j ≤ k) :
    Deep j ts e := by
  obtain ⟨ds, hmeasures, hdeep⟩ := h
  refine ⟨ds, hmeasures, fun n => ?_⟩
  have hless := leastDepths_le e (e.depthAt_le hle (Nat.le_refl n))
  exact hless.trans (hdeep n)

end Expr

open Walkthrough.Expr

/-- The tokens of a rule are deep enough for what they make. What follows the first operand of a
chain is so for every operand that is. -/
def Category.Deep : (c : Category) → List Lexeme → c.Meaning → Prop
  | list, ts, e => ∃ ds, Token.Fills false (ts.map Lexeme.token) ds ∧
    ∀ n, Within (e.depthsAt 6 n) (ds (n + 1))
  | more, ts, items => ∃ ds, Token.Fills true (ts.map Lexeme.token) ds ∧
    ∀ n, Within (listDepths n (items.getD [])) (ds n)
  | arguments, ts, args => ∃ ds, Token.Fills false (ts.map Lexeme.token) ds ∧
    ∀ n, Within (listDepths n args) (ds n)
  | further tier, ts, extend => ∃ ds, Token.Measures true (ts.map Lexeme.token) ds ∧
    ∀ left n before, Within (left.depthsAt tier.level n) before →
      Within ((extend left).depthsAt tier.level n) (before ++ ds n)
  | expression, ts, e => Expr.Deep 1 ts e
  | chain tier, ts, e => Expr.Deep tier.level ts e
  | operand tier, ts, e => Expr.Deep (tier.level + 1) ts e
  | factor, ts, e => Expr.Deep 4 ts e
  | power, ts, e => Expr.Deep 5 ts e
  | atom, ts, e => Expr.Deep 6 ts e

/-- Only tokens without signs. -/
def Lexeme.AllUnsigned (ts : List Lexeme) : Prop := ∀ t ∈ ts, t.token.isUnsigned = true

theorem Lexeme.AllUnsigned.append {as bs : List Lexeme} (h : AllUnsigned (as ++ bs)) :
    AllUnsigned as ∧ AllUnsigned bs :=
  List.forall_mem_append.mp h

theorem Lexeme.AllUnsigned.tail {t : Lexeme} {ts : List Lexeme} (h : AllUnsigned (t :: ts)) :
    AllUnsigned ts :=
  fun x hx => h x (List.mem_cons_of_mem _ hx)

/-- A constant is admitted at the level of negative numbers. -/
theorem four_le_level (value : Literal) (place : Location) :
    4 ≤ (Expr.literal value place).level := by
  have hlevel : (Expr.literal value place).level = if value.isNegative then 4 else 6 := rfl
  rw [hlevel]
  split <;> decide

namespace WrittenConstant

theorem isOperand_token (written : WrittenConstant) : written.token.isOperand = true := by
  cases written with
  | number written => cases written <;> rfl
  | truth b => cases b <;> rfl
  | none => rfl

/-- A constant that is written without a sign is read as one piece. -/
theorem level_value (written : WrittenConstant) (h : written.token.isUnsigned = true)
    (place : Location) : (Expr.literal written.value place).level = 6 := by
  have hlevel : (Expr.literal written.value place).level =
      if written.value.isNegative then 4 else 6 := rfl
  have hpositive : written.value.isNegative = false := by
    cases written with
    | number written =>
      cases written with
      | int n => exact decide_eq_false (Int64.not_lt.mpr (of_decide_eq_true h))
      | float x => exact (Bool.not_eq_true' _).mp h
    | truth b => rfl
    | none => rfl
  rw [hlevel, hpositive]
  rfl

end WrittenConstant

namespace Derivation

/-- The operands of a tier's operators are read at its level on the left and above it on the
right. -/
theorem levels_of_mem_operators {tier : Tier} {op : BinaryOp} (h : op ∈ tier.operators) :
    op.precedence = tier.level ∧ op.leftMinimum = tier.level ∧ op.rightLevel = tier.level + 1 := by
  cases tier <;> cases op <;> first | decide | exact absurd h (by decide)

/-- The depths of an operation that is read at its own level. -/
theorem depthsAt_binary (op : BinaryOp) (left right : Expr) (place : Location) (n : Nat) :
    (Expr.binary op left right place).depthsAt op.precedence n =
      left.depthsAt op.leftMinimum n ++ n :: right.depthsAt op.rightLevel n := by
  have hadmitted : (Expr.binary op left right place).depthAt op.precedence n = n :=
    if_neg (Nat.lt_irrefl _)
  rw [depthsAt, hadmitted, leastDepths]
  rfl

/-- Two operands with an operator between them are deep enough if both are. -/
theorem deep_operation {j k : Nat} {ts ts' : List Lexeme} {left right : Expr} {mark : Symbol}
    {place : Location} (hleft : Expr.Deep j ts left) (hmark : Token.IsOperator mark)
    (hright : Expr.Deep k ts' right) :
    ∃ ds, Token.Measures false ((ts ++ ⟨.symbol mark, place⟩ :: ts').map Lexeme.token) ds ∧
      ∀ n, Within (left.depthsAt j n ++ n :: right.depthsAt k n) (ds n) := by
  obtain ⟨ds, hmeasures, hdeep⟩ := hleft
  obtain ⟨es, hmeasures', hdeep'⟩ := hright
  refine ⟨fun n => ds n ++ n :: es n, ?_, fun n => ?_⟩
  · rw [List.map_append, List.map_cons]
    exact hmeasures.append (hmeasures'.operator hmark)
  · exact (hdeep n).append (.cons (Nat.le_refl n) (hdeep' n))

/-- An item and those after it are deep enough if all are. -/
theorem deep_items {ts ts' : List Lexeme} {item : Expr} {items : Option (List Expr)}
    (hitem : Expr.Deep 1 ts item) (hothers : Category.more.Deep ts' items) :
    Category.arguments.Deep (ts ++ ts') (item :: items.getD []) := by
  obtain ⟨ds, hmeasures, hdeep⟩ := hitem
  obtain ⟨es, hfills, hmore⟩ := hothers
  refine ⟨fun n => ds n ++ es n, ?_, fun n => ?_⟩
  · rw [List.map_append]
    exact hmeasures.appendFills hfills
  · have hfirst := hdeep n
    rw [depthsAt_one] at hfirst
    exact hfirst.append (hmore n)

/-- A list is deep enough inside parentheses if its parts are. -/
theorem deep_list {first : Derivation .expression} {others : Derivation .more}
    (hfirst : Category.expression.Deep first.tokens first.meaning)
    (hothers : Category.more.Deep others.tokens others.meaning) :
    Category.list.Deep (list first others).tokens (list first others).meaning := by
  obtain ⟨ds, hmeasures, hdeep⟩ := hfirst
  obtain ⟨es, hfills, hmore⟩ := hothers
  refine ⟨fun n => ds n ++ es n, ?_, fun n => ?_⟩
  · rw [tokens, List.map_append]
    exact hmeasures.appendFills hfills
  · have hitem := hdeep (n + 1)
    have hitems := hmore (n + 1)
    rw [depthsAt_one] at hitem
    rw [meaning]
    cases hmade : others.meaning with
    | none =>
      rw [hmade] at hitems
      exact List.append_nil (first.meaning.depthsAt 6 n) ▸
        ((depthsAt_within 6 n first.meaning).trans hitem).append hitems
    | some items =>
      rw [hmade] at hitems
      exact hitem.append hitems

/-- The tokens of each derivation without signs in its numbers are deep enough. -/
theorem deep {c : Category} (d : Derivation c) (h : AllUnsigned d.tokens) :
    c.Deep d.tokens d.meaning := by
  induction d with
  | list first others hfirst hothers =>
    obtain ⟨hleft, hright⟩ := AllUnsigned.append h
    exact deep_list (hfirst hleft) (hothers hright)
  | noMore => exact ⟨_, Token.fills_nil true, fun _ => .nil⟩
  | lastComma comma => exact ⟨_, (Token.fills_nil false).comma, fun _ => .nil⟩
  | oneMore comma item others hitem hothers =>
    obtain ⟨hleft, hright⟩ := AllUnsigned.append h.tail
    obtain ⟨ds, hfills, hdeep⟩ := deep_items (hitem hleft) (hothers hright)
    exact ⟨ds, hfills.comma, hdeep⟩
  | single sum hsum => exact (hsum h).le (by decide)
  | compare left op place right hleft hright =>
    obtain ⟨hlefts, hrights⟩ := AllUnsigned.append h
    exact deep_operation (hleft hlefts) op.isOperator_mark (hright hrights.tail)
  | chain first others hfirst hothers =>
    obtain ⟨hleft, hright⟩ := AllUnsigned.append h
    obtain ⟨ds, hmeasures, hdeep⟩ := (hfirst hleft).le (Nat.le_succ _)
    obtain ⟨es, hmeasures', hextend⟩ := hothers hright
    refine ⟨fun n => ds n ++ es n, ?_, fun n => hextend _ n _ (hdeep n)⟩
    rw [tokens, List.map_append]
    exact hmeasures.append hmeasures'
  | noFurther =>
    refine ⟨_, Token.measures_nil, fun left n before hbefore => ?_⟩
    rw [List.append_nil]
    exact hbefore
  | oneFurther op ofTier place right others hright hothers =>
    obtain ⟨hlefts, hrights⟩ := AllUnsigned.append h.tail
    obtain ⟨ds, hmeasures, hdeep⟩ := hright hlefts
    obtain ⟨es, hmeasures', hextend⟩ := hothers hrights
    obtain ⟨hlevel, hleftLevel, hrightLevel⟩ := levels_of_mem_operators ofTier
    refine ⟨fun n => (n :: ds n) ++ es n, ?_, fun left n before hbefore => ?_⟩
    · rw [tokens, List.map_cons, List.map_append, ← List.cons_append]
      exact (hmeasures.operator op.isOperator_mark).append hmeasures'
    · rw [← List.append_assoc]
      refine hextend _ n _ ?_
      rw [← hlevel, depthsAt_binary, hleftLevel, hrightLevel]
      exact hbefore.append (.cons (Nat.le_refl n) (hdeep n))
  | product factors hfactors => exact hfactors h
  | factor only honly => exact honly h
  | minus place number numberPlace =>
    refine ⟨_, Token.measures_negated (by cases number <;> rfl), fun n => ?_⟩
    rw [meaning, depthsAt_of_le (four_le_level number.negated place)]
    exact .cons (Nat.le_refl n) .nil
  | power only honly => exact (honly h).le (by decide)
  | plain atom hatom => exact (hatom h).le (by decide)
  | raised base place exponent hbase hexponent =>
    obtain ⟨hlefts, hrights⟩ := AllUnsigned.append h
    exact deep_operation (hbase hlefts) BinaryOp.pow.isOperator_mark (hexponent hrights.tail)
  | name id place => exact ⟨_, Token.measures_operand rfl, fun n => .cons (Nat.le_refl n) .nil⟩
  | call id place opening args closing hargs =>
    obtain ⟨ds, hfills, hdeep⟩ := hargs (AllUnsigned.append h.tail.tail).1
    refine ⟨fun n => [n] ++ ds (n + 1), ?_, fun n => ?_⟩
    · rw [tokens, List.map_cons, List.map_cons, List.map_append]
      exact (Token.measures_operand rfl).append (hfills.group true)
    · exact .cons (Nat.le_refl n) (hdeep (n + 1))
  | constant written place =>
    have hunsigned : written.token.isUnsigned = true := h _ List.mem_cons_self
    have hlevel : 6 ≤ (Expr.literal written.value place).level :=
      Nat.le_of_eq (written.level_value hunsigned place).symm
    refine ⟨_, Token.measures_operand written.isOperand_token, fun n => ?_⟩
    rw [meaning, depthsAt_of_le hlevel]
    exact .cons (Nat.le_refl n) .nil
  | empty opening closing =>
    exact ⟨_, (Token.fills_nil false).group false, fun _ => .nil⟩
  | parentheses opening inner closing hinner =>
    obtain ⟨ds, hfills, hdeep⟩ := hinner (AllUnsigned.append h.tail).1
    refine ⟨fun n => ds (n + 1), ?_, fun n => ?_⟩
    · rw [tokens, List.map_cons, List.map_append]
      exact hfills.group false
    · rw [meaning, depthsAt_grouped]
      exact hdeep n
  | noArguments => exact ⟨_, Token.fills_nil false, fun _ => .nil⟩
  | arguments first others hfirst hothers =>
    obtain ⟨hleft, hright⟩ := AllUnsigned.append h
    exact deep_items (hfirst hleft) (hothers hright)

/-- If the tokens of a list of expressions have depths, they make up one expression, and its
operands and operators stand at their least depths or deeper. -/
theorem within_depths (d : Derivation .list) (h : AllUnsigned d.tokens) {ds : List Nat}
    (hds : Token.depths 0 false (d.tokens.map Lexeme.token) = some ds) :
    Within (leastDepths 0 d.meaning) ds := by
  cases d with
  | list first others =>
    obtain ⟨es, hmeasures, hdeep⟩ := first.deep (AllUnsigned.append h).1
    rw [tokens, List.map_append, hmeasures] at hds
    cases others with
    | noMore =>
      cases hds
      have hfirst := hdeep 0
      rwa [depthsAt_one, ← List.append_nil (es 0)] at hfirst
    | lastComma comma => cases hds
    | oneMore comma item others => cases hds

end Derivation

end Walkthrough
