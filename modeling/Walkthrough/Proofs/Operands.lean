import Walkthrough.Proofs.Depths

/-!
# Expressions put together from their operands

An expression is put together from its operands, each in a slot with what the printer and the
grammar require there. So are its text, its tokens, its depths and its derivations: from texts of
the operands that spell tokens comes a text that spells tokens, from depths of operands come the
depths of the expression, and from derivations of operands, each at the level of its slot, comes
a derivation of the expression.
-/

namespace Walkthrough

open Lexeme Token

/-- The place of an operand in an expression. -/
inductive Slot where
  /-- To the left of an operator. -/
  | left (op : BinaryOp)
  /-- To the right of an operator. -/
  | right (op : BinaryOp)
  /-- On a side of a comparison. -/
  | side
  /-- Among the parts of a tuple or the arguments of a call. -/
  | part
  deriving DecidableEq

namespace Slot

/-- The least precedence of an operand that the printer writes without parentheses. -/
def minimum : Slot → Nat
  | left op => op.leftMinimum
  | right op => op.rightMinimum
  | side => 2
  | part => 1

/-- The level at which the grammar reads an operand. -/
def level : Slot → Nat
  | right op => op.rightLevel
  | slot => slot.minimum

theorem one_le_level (slot : Slot) : 1 ≤ slot.level := by
  cases slot with
  | left op | right op => cases op <;> decide
  | _ => decide

theorem level_le_minimum (slot : Slot) : slot.level ≤ slot.minimum := by
  cases slot with
  | left op | right op => cases op <;> decide
  | _ => decide

theorem minimum_le (slot : Slot) : slot.minimum ≤ 6 := by
  cases slot with
  | left op | right op => cases op <;> decide
  | _ => decide

/-- The printer and the grammar require the same except of an exponent. -/
theorem minimum_eq_level {slot : Slot} (h : slot ≠ right .pow) : slot.minimum = slot.level := by
  cases slot with
  | right op =>
    cases op with
    | pow => exact absurd rfl h
    | _ => rfl
  | _ => rfl

end Slot

/-- An operand in its slot. -/
structure Operand where
  /-- The slot. -/
  slot : Slot
  /-- The operand itself. -/
  expr : Expr

/-- The operands of an expression from left to right. -/
def Expr.operands : Expr → List Operand
  | literal .. => []
  | name .. => []
  | binary op left right _ => [⟨.left op, left⟩, ⟨.right op, right⟩]
  | compare _ left right _ => [⟨.side, left⟩, ⟨.side, right⟩]
  | tuple items _ => items.map (⟨.part, ·⟩)
  | call _ args _ => args.map (⟨.part, ·⟩)

namespace Operand

/-- Whether the printer writes an operand in parentheses of its own. -/
def isGrouped (o : Operand) : Bool := o.expr.level < o.slot.minimum

/-- The text of an operand in its slot for a text of it alone. -/
def wrapped (o : Operand) (text : String) : String :=
  if o.isGrouped then "(" ++ text ++ ")" else text

/-- The tokens of an operand in its slot for tokens of it alone. -/
def wrappedTokens (o : Operand) (tokens : List Token) : List Token :=
  if o.isGrouped then .symbol .leftParen :: (tokens ++ [.symbol .rightParen]) else tokens

/-- The text of an operand in its slot. -/
def text (o : Operand) : String := o.wrapped o.expr.text

/-- The tokens of an operand in its slot. -/
def tokens (o : Operand) : List Token := o.wrappedTokens o.expr.tokens

/-- A tuple brings its own parentheses, and the printer requires no more of other operands than
that they bind as tightly. -/
theorem isGrouped_iff (o : Operand) :
    o.isGrouped = true ↔ o.expr.precedence < o.slot.minimum ∧ ¬o.expr.isTuple := by
  have hle := o.slot.minimum_le
  unfold isGrouped Expr.level
  split <;> simp_all

/-- An operand is written as the printer writes operands. -/
theorem wrapped_eq (o : Operand) (text : String) :
    o.wrapped text = Expr.operandText o.slot.minimum o.expr text := by
  simp only [wrapped, Expr.operandText, isGrouped_iff]

theorem wrappedTokens_eq (o : Operand) (tokens : List Token) :
    o.wrappedTokens tokens = Expr.operandTokens o.slot.minimum o.expr tokens := by
  simp only [wrappedTokens, Expr.operandTokens, isGrouped_iff]

end Operand

namespace Expr

/-- Two texts with a sign between them. -/
def between (sign : String) : List String → String
  | [left, right] => left ++ " " ++ sign ++ " " ++ right
  | _ => ""

/-- The text of an expression for texts of its operands. -/
def textOf : Expr → List String → String
  | literal value _, _ => value.text
  | name id _, _ => id
  | binary op _ _ _, parts => between op.sign parts
  | compare op _ _ _, parts => between op.sign parts
  | tuple _ _, parts => Text.tuple parts
  | call function _ _, parts => function ++ "(" ++ Text.commaSeparated parts ++ ")"

/-- The text of an expression is made of the texts of its operands in their slots. -/
theorem textOf_operands (e : Expr) : e.textOf (e.operands.map Operand.text) = e.text := by
  have hlist : ∀ items : List Expr,
      (items.map (Operand.mk .part)).map Operand.text = textsWith id items := by
    intro items
    induction items with
    | nil => rfl
    | cons item others ih =>
      rw [List.map_cons, List.map_cons, ih, Operand.text, Operand.wrapped_eq]
      rfl
  cases e with
  | binary op left right place =>
    simp only [operands, List.map_cons, List.map_nil, textOf, between, Operand.text,
      Operand.wrapped_eq]
    rfl
  | compare op left right place =>
    simp only [operands, List.map_cons, List.map_nil, textOf, between, Operand.text,
      Operand.wrapped_eq]
    rfl
  | tuple items place => rw [operands, hlist]; rfl
  | call function args place => rw [operands, hlist]; rfl
  | _ => rfl

/-- Texts with commas between them after a first one. -/
theorem commaSeparated_cons (part : String) {others : List String} (h : others ≠ []) :
    Text.commaSeparated (part :: others) = part ++ ", " ++ Text.commaSeparated others := by
  cases others with
  | nil => exact absurd rfl h
  | cons next others => exact String.intercalate_cons_cons

/-- A tuple of texts ends with a comma if it is a tuple of one. -/
theorem tuple_eq (parts : List String) :
    Text.tuple parts =
      "(" ++ Text.commaSeparated parts ++ if parts.length = 1 then ",)" else ")" := by
  match parts with
  | [] => rfl
  | [part] => rw [Text.tuple, Text.commaSeparated, String.intercalate_singleton]; rfl
  | _ :: _ :: _ => rfl

/-- One text among others with commas between them has its place. -/
theorem exists_around_commaSeparated {parts : List String} {i : Nat} (h : i < parts.length) :
    ∃ before after : String, ∀ text,
      Text.commaSeparated (parts.set i text) = before ++ text ++ after := by
  induction parts generalizing i with
  | nil => cases h
  | cons part others ih =>
    cases i with
    | zero =>
      by_cases hnone : others = []
      · subst hnone
        refine ⟨"", "", fun text => ?_⟩
        rw [String.empty_append, String.append_empty]
        exact String.intercalate_singleton
      · refine ⟨"", ", " ++ Text.commaSeparated others, fun text => ?_⟩
        rw [String.empty_append, ← String.append_assoc]
        exact commaSeparated_cons text hnone
    | succ i =>
      obtain ⟨before, after, haround⟩ := ih (Nat.lt_of_succ_lt_succ h)
      refine ⟨part ++ ", " ++ before, after, fun text => ?_⟩
      have hsome : others.set i text ≠ [] := by
        intro hnone
        rw [List.set_eq_nil_iff] at hnone
        subst hnone
        cases Nat.lt_of_succ_lt_succ h
      rw [List.set_cons_succ, commaSeparated_cons part hsome, haround, String.append_assoc,
        String.append_assoc, String.append_assoc, String.append_assoc, String.append_assoc]

/-- One of two texts with a sign between them has its place. -/
theorem exists_around_between (sign : String) {parts : List String} (htwo : parts.length = 2)
    {i : Nat} (h : i < parts.length) :
    ∃ before after : String, ∀ text, between sign (parts.set i text) = before ++ text ++ after := by
  obtain ⟨left, right, rfl⟩ := List.length_eq_two.mp htwo
  match i, h with
  | 0, _ =>
    refine ⟨"", " " ++ sign ++ " " ++ right, fun text => ?_⟩
    simp [between, String.append_assoc]
  | 1, _ => exact ⟨left ++ " " ++ sign ++ " ", "", fun text => by simp [between]⟩

/-- The text of one operand has its place in the text of an expression. -/
theorem exists_around_textOf {e : Expr} {parts : List String}
    (hlength : parts.length = e.operands.length) {i : Nat} (h : i < parts.length) :
    ∃ before after : String, ∀ text, e.textOf (parts.set i text) = before ++ text ++ after := by
  cases e with
  | literal | name =>
    rw [hlength] at h
    cases h
  | binary op left right place => exact exists_around_between op.sign hlength h
  | compare op left right place => exact exists_around_between op.sign hlength h
  | tuple items place =>
    obtain ⟨before, after, haround⟩ := exists_around_commaSeparated h
    refine ⟨"(" ++ before, after ++ if parts.length = 1 then ",)" else ")", fun text => ?_⟩
    rw [textOf, tuple_eq, haround, List.length_set]
    simp only [String.append_assoc]
  | call function args place =>
    obtain ⟨before, after, haround⟩ := exists_around_commaSeparated h
    refine ⟨function ++ "(" ++ before, after ++ ")", fun text => ?_⟩
    rw [textOf, haround]
    simp only [String.append_assoc]

/-- Two lists of tokens with a mark between them. -/
def betweenTokens (mark : Symbol) : List (List Token) → List Token
  | [left, right] => left ++ .symbol mark :: right
  | _ => []

/-- Lists of tokens with commas between them. -/
def joined : List (List Token) → List Token
  | [] => []
  | part :: others => part ++ others.flatMap (.symbol .comma :: ·)

/-- The tokens of an expression for tokens of its operands. -/
def tokensOf : Expr → List (List Token) → List Token
  | literal value _, _ => value.tokens
  | name id _, _ => [.name id]
  | binary op _ _ _, parts => betweenTokens op.mark parts
  | compare op _ _ _, parts => betweenTokens op.mark parts
  | tuple _ _, parts =>
    .symbol .leftParen :: (joined parts ++
      ((if parts.length = 1 then [.symbol .comma] else []) ++ [.symbol .rightParen]))
  | call function _ _, parts =>
    .name function :: .symbol .leftParen :: (joined parts ++ [.symbol .rightParen])

/-- The tokens of an expression are made of the tokens of its operands in their slots. -/
theorem tokensOf_operands (e : Expr) : e.tokensOf (e.operands.map Operand.tokens) = e.tokens := by
  have hmore : ∀ items : List Expr, ((items.map (Operand.mk .part)).map Operand.tokens).flatMap
      (.symbol .comma :: ·) = moreTokens items := by
    intro items
    induction items with
    | nil => rfl
    | cons item others ih =>
      rw [List.map_cons, List.map_cons, List.flatMap_cons, ih, Operand.tokens,
        Operand.wrappedTokens_eq]
      rfl
  have hlist : ∀ items : List Expr,
      joined ((items.map (Operand.mk .part)).map Operand.tokens) = listTokens items := by
    intro items
    cases items with
    | nil => rfl
    | cons item others =>
      rw [List.map_cons, List.map_cons, joined, hmore, Operand.tokens, Operand.wrappedTokens_eq]
      rfl
  cases e with
  | binary op left right place =>
    simp only [operands, List.map_cons, List.map_nil, tokensOf, betweenTokens, Operand.tokens,
      Operand.wrappedTokens_eq]
    rfl
  | compare op left right place =>
    simp only [operands, List.map_cons, List.map_nil, tokensOf, betweenTokens, Operand.tokens,
      Operand.wrappedTokens_eq]
    rfl
  | tuple items place => rw [operands, tokensOf, hlist, List.length_map, List.length_map, tokens]
  | call function args place => rw [operands, tokensOf, hlist, tokens]
  | _ => rfl

/-- A text spells tokens and starts with the first character of a token. -/
def Spelt (text : String) (tokens : List Token) : Prop :=
  Spells text.toList tokens ∧ StartsPlain text.toList ∧
    ∃ first others, tokens = first :: others ∧ first.startsExpr = true

/-- An expression that can be written is spelt. -/
theorem spelt_text {e : Expr} (h : e.isWritable = true) : Spelt e.text e.tokens :=
  ⟨spells_text e h, startsPlain_text e h, e.tokens_eq_cons⟩

/-- An operand is spelt in its slot if it is alone. -/
theorem Spelt.wrapped {text : String} {tokens : List Token} (h : Spelt text tokens)
    (o : Operand) : Spelt (o.wrapped text) (o.wrappedTokens tokens) := by
  rw [o.wrapped_eq, o.wrappedTokens_eq]
  exact ⟨spells_operand h.1, startsPlain_operand h.2.1, operandTokens_eq_cons _ h.2.2⟩

/-- The operands of an expression that can be written can be written. -/
theorem isWritable_operands {e : Expr} (h : e.isWritable = true) :
    ∀ o ∈ e.operands, o.expr.isWritable = true := by
  cases e with
  | literal | name => exact nofun
  | binary op left right place | compare op left right place =>
    obtain ⟨hleft, hright⟩ := Bool.and_eq_true_iff.mp h
    exact List.forall_mem_cons.mpr ⟨hleft, List.forall_mem_singleton.mpr hright⟩
  | tuple items place => exact List.forall_mem_map.mpr (leavesAll_of_mem h)
  | call function args place =>
    exact List.forall_mem_map.mpr (leavesAll_of_mem (Bool.and_eq_true_iff.mp h).2)

/-- Two operands that are spelt are spelt with a sign between them. -/
theorem spelt_between {texts : List String} {parts : List (List Token)} {mark : Symbol}
    {sign : String} (hparts : List.Forall₂ Spelt texts parts) (htwo : texts.length = 2)
    (hsign : mark.text = sign) : Spelt (between sign texts) (betweenTokens mark parts) := by
  obtain ⟨left, right, rfl⟩ := List.length_eq_two.mp htwo
  cases hparts with
  | @cons _ leftTokens _ _ hleft hothers =>
    cases hothers with
    | @cons _ rightTokens _ _ hright hnone =>
      cases hnone
      obtain ⟨first, others, rfl, hstarts⟩ := hleft.2.2
      refine ⟨spells_between hleft.1 hright.1 hsign, ?_,
        first, others ++ .symbol mark :: rightTokens, rfl, hstarts⟩
      simp only [between, String.toList_append, List.append_assoc]
      exact hleft.2.1.append _

/-- Operands that are spelt are spelt with commas before them. -/
theorem spells_moreText {texts : List String} {parts : List (List Token)}
    (hparts : List.Forall₂ Spelt texts parts) :
    Spells (moreText texts) (parts.flatMap (.symbol .comma :: ·)) := by
  induction hparts with
  | nil => exact .nil
  | cons hpart _ ih =>
    rw [moreText, List.flatMap_cons, List.cons_append]
    exact spells_mark .comma (fun _ => rfl) (hpart.1.append ih (stops_moreText _)).blank

/-- Operands that are spelt are spelt with commas between them. -/
theorem spells_commaSeparated {texts : List String} {parts : List (List Token)}
    (hparts : List.Forall₂ Spelt texts parts) :
    Spells (Text.commaSeparated texts).toList (joined parts) := by
  cases hparts with
  | nil => exact .nil
  | cons hpart hothers =>
    rw [toList_commaSeparated, joined]
    exact hpart.1.append (spells_moreText hothers) (stops_moreText _)

/-- An expression that can be written is spelt by texts that spell its operands. -/
theorem spelt_textOf {e : Expr} (h : e.isWritable = true) {texts : List String}
    {parts : List (List Token)} (hparts : List.Forall₂ Spelt texts parts)
    (hlength : texts.length = e.operands.length) : Spelt (e.textOf texts) (e.tokensOf parts) := by
  cases e with
  | literal value place => exact spelt_text h
  | name id place => exact spelt_text h
  | binary op left right place => exact spelt_between hparts hlength op.text_mark
  | compare op left right place => exact spelt_between hparts hlength op.text_mark
  | tuple items place =>
    have hinside := spells_commaSeparated hparts
    rw [textOf, tuple_eq, tokensOf, hparts.length_eq]
    refine ⟨?_, ?_, _, _, rfl, rfl⟩
    · by_cases hone : parts.length = 1
      · have hcomma : Spells [',', ')'] [.symbol .comma, .symbol .rightParen] :=
          spells_mark .comma (fun _ => rfl) (spells_closed .nil)
        have hall := spells_opened
          (hinside.append hcomma (fun rest _ c hc => by cases hc; rfl))
        simpa [hone, String.toList_append] using hall
      · have hall := spells_opened (spells_closed hinside)
        simpa [hone, String.toList_append] using hall
    · rw [String.append_assoc, String.toList_append]
      exact ⟨'(', _, rfl, rfl⟩
  | call function args place =>
    have hinside := spells_opened (spells_closed (spells_commaSeparated hparts))
    obtain ⟨hname, -⟩ := Bool.and_eq_true_iff.mp h
    refine ⟨?_, ?_, _, _, rfl, rfl⟩
    · have hall := (spells_name hname).append hinside (fun rest _ c hc => by cases hc; rfl)
      simpa [textOf, tokensOf, String.toList_append] using hall
    · rw [textOf, String.append_assoc, String.append_assoc, String.toList_append]
      exact (startsPlain_name hname).append _

/-- Two lists of depths with an operator between them. -/
def betweenDepths : List (Nat → List Nat) → Nat → List Nat
  | [left, right], n => left n ++ n :: right n
  | _, _ => []

/-- The depths of an expression for depths of its operands. -/
def depthsOf : Expr → List (Nat → List Nat) → Nat → List Nat
  | literal .., _, n => [n]
  | name .., _, n => [n]
  | binary .., parts, n => betweenDepths parts n
  | compare .., parts, n => betweenDepths parts n
  | tuple .., parts, n => parts.flatMap (· (n + 1))
  | call .., parts, n => n :: parts.flatMap (· (n + 1))

/-- A constant stands at its depth, with a minus sign or without. -/
theorem measures_literal (value : Literal) : Measures false value.tokens (fun n => [n]) := by
  cases value with
  | int n =>
    rw [Literal.tokens]
    split
    · exact measures_negated rfl
    · exact measures_operand rfl
  | float x =>
    rw [Literal.tokens]
    split
    · exact measures_negated rfl
    · exact measures_operand rfl
  | bool b => cases b <;> exact measures_operand rfl
  | none => exact measures_operand rfl

theorem measures_between {mark : Symbol} (hmark : IsOperator mark) {parts : List (List Token)}
    {dss : List (Nat → List Nat)} (hparts : List.Forall₂ (Measures false) parts dss)
    (htwo : parts.length = 2) : Measures false (betweenTokens mark parts) (betweenDepths dss) := by
  obtain ⟨left, right, rfl⟩ := List.length_eq_two.mp htwo
  cases hparts with
  | cons hleft hothers =>
    cases hothers with
    | cons hright hnone =>
      cases hnone
      exact hleft.append (hright.operator hmark)

/-- Operands with commas before them fill parentheses. -/
theorem fills_more {parts : List (List Token)} {dss : List (Nat → List Nat)}
    (hparts : List.Forall₂ (Measures false) parts dss) :
    Fills true (parts.flatMap (.symbol .comma :: ·)) (fun n => dss.flatMap (· n)) := by
  induction hparts with
  | nil => exact fills_nil true
  | cons hpart _ ih =>
    rw [List.flatMap_cons, List.cons_append]
    exact (hpart.appendFills ih).comma

/-- Operands with commas between them fill parentheses. -/
theorem fills_joined {parts : List (List Token)} {dss : List (Nat → List Nat)}
    (hparts : List.Forall₂ (Measures false) parts dss) :
    Fills false (joined parts) (fun n => dss.flatMap (· n)) := by
  cases hparts with
  | nil => exact fills_nil false
  | cons hpart hothers => exact hpart.appendFills (fills_more hothers)

/-- An expression has the depths that those of its operands give. -/
theorem measures_tokensOf {e : Expr} {parts : List (List Token)} {dss : List (Nat → List Nat)}
    (hparts : List.Forall₂ (Measures false) parts dss)
    (hlength : parts.length = e.operands.length) :
    Measures false (e.tokensOf parts) (e.depthsOf dss) := by
  cases e with
  | literal value place => exact measures_literal value
  | name id place => exact measures_operand rfl
  | binary op left right place => exact measures_between op.isOperator_mark hparts hlength
  | compare op left right place => exact measures_between op.isOperator_mark hparts hlength
  | tuple items place =>
    rw [tokensOf]
    by_cases hone : parts.length = 1
    · obtain ⟨part, rfl⟩ := List.length_eq_one_iff.mp hone
      cases hparts with
      | @cons _ ds _ _ hpart hnone =>
        cases hnone
        have hdepths : (tuple items place).depthsOf [ds] = fun n => ds (n + 1) := by
          funext n
          exact List.flatMap_singleton ..
        have hgroup := (hpart.appendFills (fills_nil false).comma).group false
        rw [hdepths]
        simpa [joined] using hgroup
    · rw [if_neg hone]
      exact (fills_joined hparts).group false
  | call function args place =>
    exact (measures_operand rfl).append ((fills_joined hparts).group true)

/-- The number of depths of an expression does not depend on where it stands. -/
theorem length_leastDepths (e : Expr) (m n : Nat) :
    (leastDepths m e).length = (leastDepths n e).length := by
  rcases Nat.le_total m n with hle | hle
  · exact (leastDepths_le e hle).length_eq
  · exact (leastDepths_le e hle).length_eq.symm

/-- The least depths of an expression are made of those of its operands. -/
theorem leastDepths_eq (e : Expr) (n : Nat) :
    leastDepths n e = e.depthsOf (e.operands.map fun o m => o.expr.depthsAt o.slot.level m) n := by
  have hlist : ∀ (m : Nat) (items : List Expr), listDepths m items =
      ((items.map (Operand.mk .part)).map fun o k => o.expr.depthsAt o.slot.level k).flatMap
        (· m) := by
    intro m items
    induction items with
    | nil => rfl
    | cons item others ih =>
      rw [listDepths, ih, List.map_cons, List.map_cons, List.flatMap_cons]
      exact congrArg (· ++ _) (depthsAt_one m item).symm
  cases e with
  | tuple items place => exact hlist (n + 1) items
  | call function args place => exact congrArg (n :: ·) (hlist (n + 1) args)
  | _ => rfl

/-- Depths of an operand, as many as it has. -/
def Fits (o : Operand) (ds : Nat → List Nat) : Prop :=
  ∀ n, (ds n).length = (leastDepths 0 o.expr).length

/-- Depths of operands one after the other are as many as these have. -/
theorem length_flatMap_fits {os : List Operand} {dss : List (Nat → List Nat)}
    (hfits : List.Forall₂ Fits os dss) (n : Nat) :
    (dss.flatMap (· n)).length =
      ((os.map fun o m => o.expr.depthsAt o.slot.level m).flatMap (· 1)).length := by
  induction hfits with
  | nil => rfl
  | @cons o ds _ _ hfit _ ih =>
    have hlength : (ds n).length = (o.expr.depthsAt o.slot.level 1).length :=
      (hfit n).trans (length_leastDepths o.expr 0 _)
    rw [List.flatMap_cons, List.map_cons, List.flatMap_cons, List.length_append,
      List.length_append, hlength, ih]

/-- Depths of two operands with an operator between them are as many as these have. -/
theorem length_betweenDepths_fits {left right : Operand} {dss : List (Nat → List Nat)}
    (hfits : List.Forall₂ Fits [left, right] dss) (n : Nat) :
    (betweenDepths dss n).length = (left.expr.depthsAt left.slot.level 0 ++
      0 :: right.expr.depthsAt right.slot.level 0).length := by
  cases hfits with
  | cons hleft hothers =>
    cases hothers with
    | cons hright hnone =>
      cases hnone
      rw [betweenDepths, List.length_append, List.length_append, List.length_cons,
        List.length_cons, hleft n, hright n, depthsAt, depthsAt, length_leastDepths left.expr 0,
        length_leastDepths right.expr 0]

/-- Depths of an expression from depths of its operands are as many as it has. -/
theorem length_depthsOf {e : Expr} {dss : List (Nat → List Nat)}
    (hfits : List.Forall₂ Fits e.operands dss) (n : Nat) :
    (e.depthsOf dss n).length = (leastDepths 0 e).length := by
  rw [leastDepths_eq]
  cases e with
  | literal | name => rfl
  | binary op left right place => exact length_betweenDepths_fits hfits n
  | compare op left right place => exact length_betweenDepths_fits hfits n
  | tuple items place => exact length_flatMap_fits hfits (n + 1)
  | call function args place => exact congrArg (· + 1) (length_flatMap_fits hfits (n + 1))

/-- The least depths of an operand in its slot are within some. -/
def WithinAt (n : Nat) (o : Operand) (ds : Nat → List Nat) : Prop :=
  Within (o.expr.depthsAt o.slot.level n) (ds n)

/-- If the least depths of operands one after the other are within some, each one's are. -/
theorem withinAt_flatMap {os : List Operand} {dss : List (Nat → List Nat)}
    (hfits : List.Forall₂ Fits os dss) {n : Nat}
    (h : Within ((os.map fun o m => o.expr.depthsAt o.slot.level m).flatMap (· n))
      (dss.flatMap (· n))) : List.Forall₂ (WithinAt n) os dss := by
  induction hfits with
  | nil => exact .nil
  | @cons o ds _ _ hfit _ ih =>
    have hlength : (o.expr.depthsAt o.slot.level n).length = (ds n).length :=
      (length_leastDepths o.expr _ 0).trans (hfit n).symm
    obtain ⟨hfirst, hothers⟩ := Within.of_append hlength h
    exact .cons hfirst (ih hothers)

/-- If the least depths of two operands with an operator between them are within some, each one's
are. -/
theorem withinAt_between {left right : Operand} {dss : List (Nat → List Nat)}
    (hfits : List.Forall₂ Fits [left, right] dss) {n : Nat}
    (h : Within (left.expr.depthsAt left.slot.level n ++
      n :: right.expr.depthsAt right.slot.level n) (betweenDepths dss n)) :
    List.Forall₂ (WithinAt n) [left, right] dss := by
  cases hfits with
  | @cons _ ds _ _ hleft hothers =>
    cases hothers with
    | cons hright hnone =>
      cases hnone
      have hlength : (left.expr.depthsAt left.slot.level n).length = (ds n).length :=
        (length_leastDepths left.expr _ 0).trans (hleft n).symm
      obtain ⟨hfirst, hsecond⟩ := Within.of_append hlength h
      cases hsecond with
      | cons _ hsecond => exact .cons hfirst (.cons hsecond .nil)

/-- If the least depths of an expression are within some, those of its operands are. -/
theorem withinAt_operands {e : Expr} {dss : List (Nat → List Nat)}
    (hfits : List.Forall₂ Fits e.operands dss) {n : Nat}
    (h : Within (leastDepths n e) (e.depthsOf dss n)) :
    ∃ m, List.Forall₂ (WithinAt m) e.operands dss := by
  rw [leastDepths_eq] at h
  cases e with
  | literal | name =>
    cases hfits
    exact ⟨n, .nil⟩
  | binary op left right place => exact ⟨n, withinAt_between hfits h⟩
  | compare op left right place => exact ⟨n, withinAt_between hfits h⟩
  | tuple items place => exact ⟨n + 1, withinAt_flatMap hfits h⟩
  | call function args place =>
    cases h with
    | cons _ hothers => exact ⟨n + 1, withinAt_flatMap hfits hothers⟩

end Expr

end Walkthrough
