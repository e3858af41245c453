import Walkthrough.Proofs.Derivations
import Walkthrough.Proofs.RoundTrip

/-!
# The readers recognise the grammar

The readers find exactly the derivations: whatever one reads is the expression of a derivation of
the tokens it took, and the tokens of each derivation are read as its expression if what follows
cannot go on with it.
-/

namespace Walkthrough

open Lexeme

/-- The tokens after which a list of expressions ends: the signs of an assignment and of a loop, a
closing parenthesis, and the ends of a line and of the text. -/
def Token.closers : List Token :=
  [.symbol .assign, .keyword .inWord, .symbol .rightParen, .newline, .endOfFile]

/-- A token that closes a list neither goes on with an expression nor starts one, and is no
comma. -/
theorem Token.closes {t : Token} (h : t ∈ closers) :
    t.binding < 1 ∧ t.startsExpr = false ∧ t ≠ .symbol .comma := by
  simp only [closers, List.mem_cons, List.not_mem_nil, or_false] at h
  rcases h with rfl | rfl | rfl | rfl | rfl <;> decide

open Walkthrough.Expr

/-- Some tokens are read by the reader of a rule as what they make, whatever follows that cannot
go on with them. What follows the first expression of a list is read with that expression
where it is an argument. -/
def Category.Finds : (c : Category) → List Lexeme → c.Meaning → Prop
  | list, ts, e => ∀ rest, (next rest).token ∈ Token.closers →
    Reads (parseList (ts ++ rest)) e rest
  | more, ts, items =>
    (∀ rest, (next rest).token ∈ Token.closers →
      Reads (parseMore (ts ++ rest)) (items.getD []) rest) ∧
    (∀ before arg closing rest,
      Reads (parse before) arg (ts ++ ⟨.symbol .rightParen, closing⟩ :: rest) →
      Reads (parseArgs before) (arg :: items.getD []) rest)
  | expression, ts, e => ∀ rest, Ends 1 rest → Reads (parse (ts ++ rest)) e rest
  | chain tier, ts, e => ∀ rest, Ends tier.level rest → Reads (parseChain tier (ts ++ rest)) e rest
  | further tier, ts, extend => ∀ left rest, Ends tier.level rest →
    Reads (parseChainTail tier left (ts ++ rest)) (extend left) rest
  | operand tier, ts, e => ∀ rest, Ends (tier.level + 1) rest →
    Reads (parseOperand tier (ts ++ rest)) e rest
  | factor, ts, e => ∀ rest, Ends 4 rest → Reads (parseFactor (ts ++ rest)) e rest
  | power, ts, e => ∀ rest, Ends 4 rest → Reads (parsePower (ts ++ rest)) e rest
  | atom, ts, e => ∀ rest, Ends 6 rest → Reads (parseAtom (ts ++ rest)) e rest
  | arguments, ts, args => ∀ closing rest,
    Reads (parseArgs (ts ++ ⟨.symbol .rightParen, closing⟩ :: rest)) args rest

namespace Derivation

/-- What follows the first expression of a list is nothing, or it starts with a comma. -/
theorem more_cases (d : Derivation .more) :
    (d.tokens = [] ∧ d.meaning = none) ∨
      ∃ comma after items,
        d.tokens = ⟨.symbol .comma, comma⟩ :: after ∧ d.meaning = some items := by
  cases d with
  | noMore => exact .inl ⟨rfl, rfl⟩
  | lastComma comma => exact .inr ⟨comma, _, _, rfl, rfl⟩
  | oneMore comma item others => exact .inr ⟨comma, _, _, rfl, rfl⟩

/-- An expression of a list ends before what follows it. -/
theorem ends_more (d : Derivation .more) {rest : List Lexeme} (h : Ends 1 rest) :
    Ends 1 (d.tokens ++ rest) := by
  rcases d.more_cases with ⟨hnone, -⟩ | ⟨comma, after, items, hcomma, -⟩
  · rw [hnone]
    exact h
  · rw [hcomma]
    exact ends_cons (by decide) _ _

/-- An operand of a chain ends before what follows it. -/
theorem ends_further {tier : Tier} (d : Derivation (.further tier)) {rest : List Lexeme}
    (h : Ends tier.level rest) : Ends (tier.level + 1) (d.tokens ++ rest) := by
  cases d with
  | noFurther => exact h.le (Nat.le_succ _)
  | oneFurther op ofTier place right others =>
    have hbinding := Token.binding_of_operator? (Token.operator?_eq_some.mpr ⟨ofTier, rfl⟩)
    exact Nat.lt_succ_of_le (Nat.le_of_eq hbinding)

/-- A list is read from its first expression and what follows it. -/
theorem finds_list {first : Derivation .expression} {others : Derivation .more}
    (hfirst : Category.expression.Finds first.tokens first.meaning)
    (hothers : Category.more.Finds others.tokens others.meaning) :
    Category.list.Finds (list first others).tokens (list first others).meaning := by
  intro rest hrest
  have hread := hfirst _ (others.ends_more (Token.closes hrest).1)
  have hplace := next_of_taken rfl hread.fst
  change Reads (parseList (first.tokens ++ others.tokens ++ rest)) _ rest
  rw [List.append_assoc]
  refine reads_parseList.mpr ⟨first.meaning, _, hread, ?_⟩
  have hmore := hothers.1 rest hrest
  rw [meaning]
  rcases others.more_cases with ⟨hnone, hmade⟩ | ⟨comma, after, items, hcomma, hmade⟩
  · rw [hmade, hnone]
    exact .inl ⟨(Token.closes hrest).2.2, rfl, rfl⟩
  · rw [hmade] at hmore ⊢
    rw [← hplace]
    refine .inr ⟨?_, items, hmore, rfl⟩
    rw [hcomma]
    rfl

/-- A comma at the end is read. -/
theorem finds_lastComma (comma : Location) :
    Category.more.Finds (lastComma comma).tokens (lastComma comma).meaning := by
  constructor
  · intro rest hrest
    exact reads_parseMore.mpr
      (.inr ⟨comma, rest, rfl, .inl ⟨(Token.closes hrest).2.1, rfl, rfl⟩⟩)
  · intro before arg closing rest harg
    have hnone : Reads (parseArgs (⟨.symbol .rightParen, closing⟩ :: rest)) [] rest :=
      reads_parseArgs.mpr (.inl ⟨closing, rfl, rfl⟩)
    exact reads_parseArgs.mpr (.inr ⟨next_ne_rightParen_of_reads harg, arg, _, harg,
      .inr ⟨comma, _, rfl, [], hnone, rfl⟩⟩)

/-- One more expression of a list is read with those after it. -/
theorem finds_oneMore {comma : Location} {item : Derivation .expression} {others : Derivation .more}
    (hitem : Category.expression.Finds item.tokens item.meaning)
    (hothers : Category.more.Finds others.tokens others.meaning) :
    Category.more.Finds (oneMore comma item others).tokens (oneMore comma item others).meaning := by
  constructor
  · intro rest hrest
    have hread := hitem _ (others.ends_more (Token.closes hrest).1)
    rw [← List.append_assoc] at hread
    refine reads_parseMore.mpr (.inr ⟨comma, _, rfl, .inr ⟨startsExpr_of_reads_parse hread,
      item.meaning, _, hread, _, hothers.1 rest hrest, rfl⟩⟩)
  · intro before arg closing rest harg
    have hread := hitem (others.tokens ++ ⟨.symbol .rightParen, closing⟩ :: rest)
      (others.ends_more (ends_cons (by decide) _ _))
    have hargs := hothers.2 _ _ _ _ hread
    rw [← List.append_assoc] at hargs
    exact reads_parseArgs.mpr (.inr ⟨next_ne_rightParen_of_reads harg, arg, _, harg,
      .inr ⟨comma, _, rfl, _, hargs, rfl⟩⟩)

/-- A comparison is read from its sides. -/
theorem finds_compare {left right : Derivation (.chain .sum)} {op : CompareOp} {place : Location}
    (hleft : (Category.chain .sum).Finds left.tokens left.meaning)
    (hright : (Category.chain .sum).Finds right.tokens right.meaning) :
    Category.expression.Finds (compare left op place right).tokens
      (compare left op place right).meaning := by
  intro rest hrest
  have hmark : Token.binding (.symbol op.mark) < 2 := by cases op <;> decide
  have hfirst := hleft _ (ends_cons hmark place (right.tokens ++ rest))
  have hsecond := hright rest (hrest.le (by decide))
  change Reads (parse (left.tokens ++ ⟨.symbol op.mark, place⟩ :: right.tokens ++ rest)) _ rest
  rw [List.append_assoc]
  exact reads_parse.mpr ⟨left.meaning, _, hfirst, .inr ⟨_, place, _, op, rfl,
    Token.comparison?_eq_some.mpr rfl, right.meaning, hsecond,
    Token.comparison?_eq_none hrest, rfl⟩⟩

/-- A chain is read from its first operand and what follows it. -/
theorem finds_chain {tier : Tier} {first : Derivation (.operand tier)}
    {others : Derivation (.further tier)}
    (hfirst : (Category.operand tier).Finds first.tokens first.meaning)
    (hothers : (Category.further tier).Finds others.tokens others.meaning) :
    (Category.chain tier).Finds (chain first others).tokens (chain first others).meaning := by
  intro rest hrest
  change Reads (parseChain tier (first.tokens ++ others.tokens ++ rest)) _ rest
  rw [List.append_assoc]
  exact reads_parseChain.mpr
    ⟨first.meaning, _, hfirst _ (others.ends_further hrest), hothers first.meaning rest hrest⟩

/-- One more operator is read with its right operand and those after it. -/
theorem finds_oneFurther {tier : Tier} {op : BinaryOp} {ofTier : op ∈ tier.operators}
    {place : Location} {right : Derivation (.operand tier)} {others : Derivation (.further tier)}
    (hright : (Category.operand tier).Finds right.tokens right.meaning)
    (hothers : (Category.further tier).Finds others.tokens others.meaning) :
    (Category.further tier).Finds (oneFurther op ofTier place right others).tokens
      (oneFurther op ofTier place right others).meaning := by
  intro left rest hrest
  have hread := hright _ (others.ends_further hrest)
  rw [← List.append_assoc] at hread
  exact reads_parseChainTail.mpr (.inr ⟨_, place, _, op, rfl,
    Token.operator?_eq_some.mpr ⟨ofTier, rfl⟩, right.meaning, _, hread, hothers _ rest hrest⟩)

/-- A power is read from its base and its exponent. -/
theorem finds_raised {base : Derivation .atom} {place : Location} {exponent : Derivation .factor}
    (hbase : Category.atom.Finds base.tokens base.meaning)
    (hexponent : Category.factor.Finds exponent.tokens exponent.meaning) :
    Category.power.Finds (raised base place exponent).tokens
      (raised base place exponent).meaning := by
  intro rest hrest
  have hread := hbase (⟨.symbol .doubleStar, place⟩ :: (exponent.tokens ++ rest))
    (ends_cons (by decide) _ _)
  change Reads (parsePower (base.tokens ++ ⟨.symbol .doubleStar, place⟩ :: exponent.tokens ++ rest))
    _ rest
  rw [List.append_assoc]
  exact reads_parsePower.mpr
    ⟨base.meaning, _, hread, .inr ⟨place, _, rfl, exponent.meaning, hexponent rest hrest, rfl⟩⟩

/-- A list in parentheses is read as an atom. -/
theorem finds_parentheses {opening closing : Location} {inner : Derivation .list}
    (hinner : Category.list.Finds inner.tokens inner.meaning) :
    Category.atom.Finds (parentheses opening inner closing).tokens
      (parentheses opening inner closing).meaning := by
  intro rest _
  have hcloser : Token.symbol .rightParen ∈ Token.closers := by decide
  have hread := hinner (⟨.symbol .rightParen, closing⟩ :: rest) hcloser
  obtain ⟨first, mid, hfirst, -⟩ := reads_parseList.mp hread
  rw [List.append_cons] at hread hfirst
  exact reads_parseAtom.mpr ⟨_, opening, _, rfl, .inr (.inr ⟨rfl, .inr
    ⟨next_ne_rightParen_of_reads hfirst, inner.meaning, closing, hread, rfl⟩⟩)⟩

/-- The tokens of each derivation are read as what it makes. -/
theorem finds {c : Category} (d : Derivation c) : c.Finds d.tokens d.meaning := by
  induction d with
  | list first others hfirst hothers => exact finds_list hfirst hothers
  | noMore =>
    constructor
    · intro rest hrest
      exact reads_parseMore.mpr (.inl ⟨(Token.closes hrest).2.2, rfl, rfl⟩)
    · intro before arg closing rest harg
      exact reads_parseArgs.mpr
        (.inr ⟨next_ne_rightParen_of_reads harg, arg, _, harg, .inl ⟨closing, rfl, rfl⟩⟩)
  | lastComma comma => exact finds_lastComma comma
  | oneMore comma item others hitem hothers => exact finds_oneMore hitem hothers
  | single sum hsum =>
    intro rest hrest
    exact reads_parse.mpr ⟨_, rest, hsum rest (hrest.le (by decide)),
      .inl ⟨Token.comparison?_eq_none hrest, rfl, rfl⟩⟩
  | compare left op place right hleft hright => exact finds_compare hleft hright
  | chain first others hfirst hothers => exact finds_chain hfirst hothers
  | noFurther => exact fun left rest hrest => reads_chainTail_none hrest left
  | oneFurther op ofTier place right others hright hothers =>
    exact finds_oneFurther hright hothers
  | product factors hfactors =>
    intro rest hrest
    rw [parseOperand]
    exact hfactors rest hrest
  | factor only honly =>
    intro rest hrest
    rw [parseOperand]
    exact honly rest hrest
  | minus place number numberPlace =>
    intro rest _
    exact reads_parseFactor.mpr (.inr ⟨place, _, numberPlace, number.negated, rfl,
      Token.negated?_eq_some.mpr ⟨number, rfl, rfl⟩, rfl⟩)
  | power only honly =>
    intro rest hrest
    have hread := honly rest hrest
    exact reads_parseFactor.mpr (.inl ⟨next_ne_minus hread, hread⟩)
  | plain atom hatom =>
    intro rest hrest
    refine reads_parsePower.mpr ⟨_, rest, hatom rest (hrest.le (by decide)), .inl ⟨?_, rfl, rfl⟩⟩
    intro hstar
    rw [Ends, hstar] at hrest
    exact absurd hrest (by decide)
  | raised base place exponent hbase hexponent => exact finds_raised hbase hexponent
  | name id place =>
    intro rest hrest
    refine reads_parseAtom.mpr ⟨_, place, rest, rfl, .inr (.inl ⟨id, rfl, .inl ⟨?_, rfl, rfl⟩⟩)⟩
    intro hparen
    rw [Ends, hparen] at hrest
    exact absurd hrest (by decide)
  | call id place opening args closing hargs =>
    intro rest _
    have hread := hargs closing rest
    rw [List.append_cons] at hread
    exact reads_parseAtom.mpr ⟨_, place, _, rfl, .inr (.inl ⟨id, rfl, .inr
      ⟨opening, _, rfl, args.meaning, hread, rfl⟩⟩)⟩
  | constant written place =>
    intro rest _
    exact reads_parseAtom.mpr ⟨_, place, rest, rfl, .inl ⟨written.value,
      Token.literal?_eq_some.mpr ⟨written, rfl, rfl⟩, rfl, rfl⟩⟩
  | empty opening closing =>
    intro rest _
    exact reads_parseAtom.mpr
      ⟨_, opening, _, rfl, .inr (.inr ⟨rfl, .inl ⟨closing, rfl, rfl⟩⟩)⟩
  | parentheses opening inner closing hinner => exact finds_parentheses hinner
  | noArguments =>
    intro closing rest
    exact reads_parseArgs.mpr (.inl ⟨closing, rfl, rfl⟩)
  | arguments first others hfirst hothers =>
    intro closing rest
    have hread := hfirst (others.tokens ++ ⟨.symbol .rightParen, closing⟩ :: rest)
      (others.ends_more (ends_cons (by decide) _ _))
    rw [← List.append_assoc] at hread
    exact hothers.2 _ first.meaning closing rest hread

end Derivation

/-- The readers recognise exactly the grammar. Before a token that closes a list, some tokens
are read as a list of expressions, all of them and no more, if and only if they are the tokens of
a derivation from the rule for lists; and the expression that is read is the one that the
derivation makes. -/
theorem list_read_iff_derived {ts rest : List Lexeme} {closer : Lexeme} {e : Expr}
    (hcloser : closer.token ∈ Token.closers) :
    Reads (parseList (ts ++ closer :: rest)) e (closer :: rest) ↔
      ∃ d : Derivation .list, d.tokens = ts ∧ d.meaning = e := by
  constructor
  · intro h
    obtain ⟨d, htokens, hmade⟩ := takes_parseList h
    exact ⟨d, (List.append_cancel_right htokens).symm, hmade⟩
  · rintro ⟨d, rfl, rfl⟩
    exact d.finds (closer :: rest) hcloser

namespace Sample

/-- The tokens of `a - 1 - 2 ** -3,`. -/
def difference : List Lexeme :=
  [⟨.name "a", ⟨1, 1⟩⟩, ⟨.symbol .minus, ⟨1, 3⟩⟩, ⟨.int 1, ⟨1, 5⟩⟩, ⟨.symbol .minus, ⟨1, 7⟩⟩,
    ⟨.int 2, ⟨1, 9⟩⟩, ⟨.symbol .doubleStar, ⟨1, 11⟩⟩, ⟨.symbol .minus, ⟨1, 14⟩⟩, ⟨.int 3, ⟨1, 15⟩⟩,
    ⟨.symbol .comma, ⟨1, 16⟩⟩]

/-- An operand of a sum that is a power. -/
def summand (power : Derivation .power) : Derivation (.operand .sum) :=
  .product (.chain (.factor (.power power)) .noFurther)

/-- Their derivation. -/
def differenceDerived : Derivation .list :=
  .list (.single (.chain (summand (.plain (.name "a" ⟨1, 1⟩)))
    (.oneFurther .sub (by decide) ⟨1, 3⟩ (summand (.plain (.constant (.number (.int 1)) ⟨1, 5⟩)))
      (.oneFurther .sub (by decide) ⟨1, 7⟩
        (summand (.raised (.constant (.number (.int 2)) ⟨1, 9⟩) ⟨1, 11⟩
          (.minus ⟨1, 14⟩ (.int 3) ⟨1, 15⟩))) .noFurther))))
    (.lastComma ⟨1, 16⟩)

end Sample

/-- Differences group from the left, a minus sign may stand before an exponent, and a comma at the
end makes a tuple. -/
theorem difference_read : Token.symbol .assign ∈ Token.closers ∧
    Reads (parseList (Sample.difference ++ [⟨.symbol .assign, ⟨1, 18⟩⟩]))
      (.tuple [.binary .sub
        (.binary .sub (.name "a" ⟨1, 1⟩) (.literal (.int 1) ⟨1, 5⟩) ⟨1, 3⟩)
        (.binary .pow (.literal (.int 2) ⟨1, 9⟩) (.literal (.int (-3)) ⟨1, 14⟩) ⟨1, 11⟩)
        ⟨1, 7⟩] ⟨1, 1⟩)
      [⟨.symbol .assign, ⟨1, 18⟩⟩] :=
  ⟨by decide, (list_read_iff_derived (by decide)).mpr ⟨Sample.differenceDerived, rfl, rfl⟩⟩

end Walkthrough
