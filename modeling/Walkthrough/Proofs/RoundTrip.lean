import Walkthrough.Proofs.Vocabulary

/-!
# Reading what was written

The tokens of an expression are read as that expression, with other places. The proof
follows the levels of the grammar: tokens written for one level are read by the reader
of that level, and by those of all levels below, as long as the token after them does
not go on with the expression. Since the text of an expression spells its tokens, reading
undoes writing, and what was read can be written again.
-/

namespace Walkthrough

open Lexeme Token

namespace Expr

mutual

/-- An expression with all its parts at one place. -/
def placeless : Expr → Expr
  | literal value _ => literal value .origin
  | name id _ => name id .origin
  | binary op left right _ => binary op left.placeless right.placeless .origin
  | compare op left right _ => compare op left.placeless right.placeless .origin
  | tuple items _ => tuple (placelessList items) .origin
  | call function args _ => call function (placelessList args) .origin

/-- Some expressions with all their parts at one place. -/
def placelessList : List Expr → List Expr
  | [] => []
  | item :: others => item.placeless :: placelessList others

end

/-- The level of the grammar at which the tokens of an expression are read. A tuple brings
its own parentheses. -/
def level (e : Expr) : Nat := if e.isTuple then 6 else e.precedence

end Expr

/-- The level of the grammar at which a token goes on with an expression before it. -/
def Token.binding : Token → Nat
  | symbol .leftParen => 6
  | symbol .doubleStar => 5
  | symbol .star | symbol .slash | symbol .doubleSlash | symbol .percent => 3
  | symbol .plus | symbol .minus => 2
  | symbol .less | symbol .greater | symbol .lessEqual | symbol .greaterEqual
  | symbol .equal | symbol .notEqual => 1
  | _ => 0

/-- The level of the grammar that a tier of operators makes up. -/
def Tier.level : Tier → Nat
  | .sum => 2
  | .product => 3

namespace Token

theorem operator?_eq_none {tier : Tier} {t : Token} (h : t.binding < tier.level) :
    tier.operator? t = none := by
  cases t with
  | symbol mark => cases tier <;> cases mark <;> first | rfl | exact absurd h (by decide)
  | _ => cases tier <;> rfl

theorem binding_of_operator? {tier : Tier} {t : Token} {op : BinaryOp}
    (h : tier.operator? t = some op) : t.binding = tier.level := by
  cases t with
  | symbol mark => cases tier <;> cases mark <;> first | rfl | cases h
  | _ => cases tier <;> cases h

theorem comparison?_eq_none {t : Token} (h : t.binding < 1) : t.comparison? = none := by
  cases t with
  | symbol mark => cases mark <;> first | rfl | exact absurd h (by decide)
  | _ => rfl

end Token

namespace Expr

/-- The token after an expression does not go on with it at a level or above. -/
def Ends (level : Nat) (rest : List Lexeme) : Prop := (next rest).token.binding < level

theorem Ends.le {j k : Nat} {rest : List Lexeme} (h : Ends j rest) (hle : j ≤ k) : Ends k rest :=
  Nat.lt_of_lt_of_le h hle

theorem ends_cons {level : Nat} {token : Token} (h : token.binding < level) (place : Location)
    (rest : List Lexeme) : Ends level (⟨token, place⟩ :: rest) := h

/-- Some tokens are read as an expression at a level of the grammar, whatever follows that
does not go on with it. The readers of sums and products go on by themselves. -/
def ReadsAt : Nat → List Lexeme → Expr → Prop
  | 6, ts, e => ∀ rest, Ends 6 rest → Reads (parseAtom (ts ++ rest)) e rest
  | 5, ts, e => ∀ rest, Ends 5 rest → Reads (parsePower (ts ++ rest)) e rest
  | 4, ts, e => ∀ rest, Ends 4 rest → Reads (parseFactor (ts ++ rest)) e rest
  | 3, ts, e => ∀ rest x after, Ends 4 rest → Reads (parseChainTail .product e rest) x after →
    Reads (parseChain .product (ts ++ rest)) x after
  | 2, ts, e => ∀ rest x after, Ends 3 rest → Reads (parseChainTail .sum e rest) x after →
    Reads (parseChain .sum (ts ++ rest)) x after
  | 1, ts, e => ∀ rest, Ends 1 rest → Reads (parse (ts ++ rest)) e rest
  | _, _, _ => False

/-- An atom does not start with a minus sign. -/
theorem next_ne_minus {ts rest : List Lexeme} {e : Expr} (h : Reads (parsePower ts) e rest) :
    (next ts).token ≠ .symbol .minus := by
  obtain ⟨base, mid, hatom, -⟩ := reads_parsePower.mp h
  obtain ⟨token, place, after, rfl, hkind⟩ := reads_parseAtom.mp hatom
  rintro rfl
  rcases hkind with ⟨value, hvalue, -⟩ | ⟨id, hid, -⟩ | ⟨hparen, -⟩
  · cases hvalue
  · cases hid
  · cases hparen

/-- A chain ends where no operator of its tier follows. -/
theorem reads_chainTail_none {tier : Tier} {rest : List Lexeme} (h : Ends tier.level rest)
    (e : Expr) : Reads (parseChainTail tier e rest) e rest :=
  reads_parseChainTail.mpr (.inl ⟨operator?_eq_none h, rfl, rfl⟩)

/-- At the level of a tier, what follows may go on with the chain. -/
theorem readsAt_tier {tier : Tier} {ts : List Lexeme} {e : Expr} :
    ReadsAt tier.level ts e ↔ ∀ rest x after, Ends (tier.level + 1) rest →
      Reads (parseChainTail tier e rest) x after →
        Reads (parseChain tier (ts ++ rest)) x after := by
  cases tier <;> exact Iff.rfl

/-- A chain is read alone where no operator of its tier follows. -/
theorem ReadsAt.alone (tier : Tier) {ts rest : List Lexeme} {e : Expr}
    (h : ReadsAt tier.level ts e) (hends : Ends tier.level rest) :
    Reads (parseChain tier (ts ++ rest)) e rest :=
  readsAt_tier.mp h rest e rest (hends.le (Nat.le_succ _)) (reads_chainTail_none hends e)

/-- What is read at the level above a tier is an operand of the tier. -/
theorem ReadsAt.operand {tier : Tier} {ts rest : List Lexeme} {e : Expr}
    (h : ReadsAt (tier.level + 1) ts e) (hends : Ends (tier.level + 1) rest) :
    Reads (parseOperand tier (ts ++ rest)) e rest := by
  cases tier with
  | sum =>
    rw [parseOperand]
    exact ReadsAt.alone .product h hends
  | product =>
    rw [parseOperand]
    exact h rest hends

/-- What is read at the level above a tier is a chain without an operator. -/
theorem ReadsAt.chain (tier : Tier) {ts : List Lexeme} {e : Expr}
    (h : ReadsAt (tier.level + 1) ts e) : ReadsAt tier.level ts e := by
  rw [readsAt_tier]
  intro rest x after hends htail
  exact reads_parseChain.mpr ⟨e, rest, h.operand hends, htail⟩

/-- What is read at a level is read at the level below. -/
theorem ReadsAt.step {k : Nat} {ts : List Lexeme} {e : Expr} (hpos : 1 ≤ k)
    (h : ReadsAt (k + 1) ts e) : ReadsAt k ts e := by
  match k with
  | 1 =>
    intro rest hends
    exact reads_parse.mpr ⟨e, rest, ReadsAt.alone .sum h (hends.le (by decide)),
      .inl ⟨comparison?_eq_none hends, rfl, rfl⟩⟩
  | 2 => exact ReadsAt.chain .sum h
  | 3 => exact ReadsAt.chain .product h
  | 4 =>
    intro rest hends
    have hpower := h rest (hends.le (by decide))
    exact reads_parseFactor.mpr (.inl ⟨next_ne_minus hpower, hpower⟩)
  | 5 =>
    intro rest hends
    refine reads_parsePower.mpr ⟨e, rest, h rest (hends.le (by decide)), .inl ⟨?_, rfl, rfl⟩⟩
    intro hstar
    rw [Ends, hstar] at hends
    exact absurd hends (by decide)
  | k + 6 => exact h.elim

/-- What is read at a level is read at every level below. -/
theorem ReadsAt.le {j k : Nat} {ts : List Lexeme} {e : Expr} (h : ReadsAt k ts e) (hpos : 1 ≤ j)
    (hle : j ≤ k) : ReadsAt j ts e := by
  induction hle with
  | refl => exact h
  | step hle ih => exact ih (h.step (Nat.le_trans hpos hle))

/-- Tokens are read at a level as an expression, up to its places, wherever they stand. -/
def Readable (level : Nat) (tokens : List Token) (e : Expr) : Prop :=
  ∀ ts : List Lexeme, ts.map Lexeme.token = tokens →
    ∃ read : Expr, read.placeless = e.placeless ∧ ReadsAt level ts read

theorem Readable.le {j k : Nat} {tokens : List Token} {e : Expr} (h : Readable k tokens e)
    (hpos : 1 ≤ j) (hle : j ≤ k) : Readable j tokens e := by
  intro ts hts
  obtain ⟨read, hread, hat⟩ := h ts hts
  exact ⟨read, hread, hat.le hpos hle⟩

/-- Lexemes for a token and others are a lexeme and others. -/
theorem map_token_eq_cons {ts : List Lexeme} {token : Token} {others : List Token}
    (h : ts.map Lexeme.token = token :: others) :
    ∃ place rest, ts = ⟨token, place⟩ :: rest ∧ rest.map Lexeme.token = others := by
  obtain ⟨⟨_, place⟩, rest, rfl, rfl, hrest⟩ := List.map_eq_cons_iff.mp h
  exact ⟨place, rest, rfl, hrest⟩

/-- Lexemes for an operator between others are a lexeme between others. -/
theorem map_token_eq_append_cons {ts : List Lexeme} {a b : List Token} {token : Token}
    (h : ts.map Lexeme.token = a ++ token :: b) :
    ∃ lefts place rights, ts = lefts ++ ⟨token, place⟩ :: rights ∧
      lefts.map Lexeme.token = a ∧ rights.map Lexeme.token = b := by
  obtain ⟨lefts, others, rfl, hlefts, hothers⟩ := List.map_eq_append_iff.mp h
  obtain ⟨place, rights, rfl, hrights⟩ := map_token_eq_cons hothers
  exact ⟨lefts, place, rights, rfl, hlefts, hrights⟩

/-- Whether an expression is a tuple does not depend on places. -/
theorem isTuple_of_placeless {a b : Expr} (h : a.placeless = b.placeless) :
    a.isTuple = b.isTuple := by
  have hsame : ∀ e : Expr, e.placeless.isTuple = e.isTuple := fun e => by cases e <;> rfl
  rw [← hsame a, h, hsame b]

theorem grouped_of_not_isTuple {e : Expr} (h : e.isTuple = false) (place : Location) :
    e.grouped place = e := by
  cases e with
  | tuple => cases h
  | _ => rfl

/-- The first token of an expression is none that ends a list. -/
theorem next_startsExpr {ts r : List Lexeme} {first : Token} {others : List Token}
    (h : ts.map Lexeme.token = first :: others) (hfirst : first.startsExpr = true) :
    (next (ts ++ r)).token.startsExpr = true := by
  obtain ⟨place, after, rfl, -⟩ := map_token_eq_cons h
  exact hfirst

/-- The tokens of an expression do not start with a closing parenthesis. -/
theorem next_ne_rightParen {ts : List Lexeme} {first : Token} {others : List Token}
    (h : ts.map Lexeme.token = first :: others) (hfirst : first.startsExpr = true)
    (r : List Lexeme) : (next (ts ++ r)).token ≠ .symbol .rightParen := by
  intro hclose
  have hnext := next_startsExpr (r := r) h hfirst
  rw [hclose] at hnext
  cases hnext

/-- An expression that is not a tuple is read as an atom in parentheses. -/
theorem Readable.grouped {tokens : List Token} {e : Expr} (h : Readable 1 tokens e)
    (hstarts : ∃ first others, tokens = first :: others ∧ first.startsExpr = true)
    (htuple : e.isTuple = false) :
    Readable 6 (.symbol .leftParen :: (tokens ++ [.symbol .rightParen])) e := by
  intro ts hts
  obtain ⟨place, after, rfl, hafter⟩ := map_token_eq_cons hts
  obtain ⟨inner, last, rfl, hinner, hlast⟩ := List.map_eq_append_iff.mp hafter
  obtain ⟨⟨_, here⟩, rfl, rfl⟩ := List.map_eq_singleton_iff.mp hlast
  obtain ⟨read, hread, hat⟩ := h inner hinner
  obtain ⟨first, others, rfl, hfirst⟩ := hstarts
  refine ⟨read, hread, fun rest _ => ?_⟩
  have hlist : Reads (parseList (inner ++ ⟨.symbol .rightParen, here⟩ :: rest)) read
      (⟨.symbol .rightParen, here⟩ :: rest) :=
    reads_parseList.mpr
      ⟨read, _, hat _ (ends_cons (by decide) _ _), .inl ⟨by simp [next], rfl, rfl⟩⟩
  rw [List.cons_append, List.append_assoc, List.singleton_append]
  exact reads_parseAtom.mpr ⟨_, place, _, rfl, .inr (.inr ⟨rfl, .inr
    ⟨next_ne_rightParen hinner hfirst _, read, here, hlist,
      grouped_of_not_isTuple ((isTuple_of_placeless hread).trans htuple) place⟩⟩)⟩

theorem one_le_level (e : Expr) : 1 ≤ e.level := by
  cases e with
  | binary op => cases op <;> exact Nat.succ_le_succ (Nat.zero_le _)
  | literal value place =>
    have hlevel : (literal value place).level = if value.isNegative then 4 else 6 := rfl
    rw [hlevel]
    split <;> decide
  | _ => exact Nat.succ_le_succ (Nat.zero_le _)

/-- An operand is read at the level that its place requires. -/
theorem Readable.operand {minimum : Nat} {e : Expr} (h : Readable e.level e.tokens e)
    (hpos : 1 ≤ minimum) (hle : minimum ≤ 6) :
    Readable minimum (operandTokens minimum e e.tokens) e := by
  unfold operandTokens
  split
  · next hparens =>
    have hread := h.le (Nat.le_refl 1) e.one_le_level
    exact (hread.grouped e.tokens_eq_cons (by simpa using hparens.2)).le hpos hle
  · next hplain =>
    refine h.le hpos ?_
    unfold level
    split
    · exact hle
    · next htuple =>
      simp only [htuple] at hplain
      simpa using hplain

/-- An atom raised to a power. -/
theorem ReadsAt.power {lefts rights : List Lexeme} {left right : Expr}
    (hleft : ReadsAt 6 lefts left) (hright : ReadsAt 5 rights right) (place : Location) :
    ReadsAt 5 (lefts ++ ⟨.symbol .doubleStar, place⟩ :: rights) (binary .pow left right place) := by
  intro rest hends
  rw [List.append_assoc, List.cons_append]
  have hatom := hleft (⟨.symbol .doubleStar, place⟩ :: (rights ++ rest)) (ends_cons (by decide) _ _)
  have hpower := hright rest hends
  have hfactor := reads_parseFactor.mpr (.inl ⟨next_ne_minus hpower, hpower⟩)
  exact reads_parsePower.mpr ⟨left, _, hatom, .inr ⟨place, _, rfl, right, hfactor, rfl⟩⟩

/-- A chain with one more operator of its tier. -/
theorem ReadsAt.extend (tier : Tier) {lefts rights : List Lexeme} {left right : Expr}
    {op : BinaryOp} (hop : tier.operator? (.symbol op.mark) = some op)
    (hleft : ReadsAt tier.level lefts left) (hright : ReadsAt (tier.level + 1) rights right)
    (place : Location) :
    ReadsAt tier.level (lefts ++ ⟨.symbol op.mark, place⟩ :: rights)
      (binary op left right place) := by
  rw [readsAt_tier] at hleft ⊢
  intro rest x after hends htail
  have hmark : Token.binding (.symbol op.mark) < tier.level + 1 :=
    Nat.lt_succ_of_le (Nat.le_of_eq (binding_of_operator? hop))
  rw [List.append_assoc, List.cons_append]
  refine hleft _ x after (ends_cons hmark place _) ?_
  exact reads_parseChainTail.mpr
    (.inr ⟨_, place, _, op, rfl, hop, right, rest, hright.operand hends, htail⟩)

/-- Two sides of a comparison. -/
theorem ReadsAt.comparison {lefts rights : List Lexeme} {left right : Expr} (op : CompareOp)
    (hleft : ReadsAt 2 lefts left) (hright : ReadsAt 2 rights right) (place : Location) :
    ReadsAt 1 (lefts ++ ⟨.symbol op.mark, place⟩ :: rights) (compare op left right place) := by
  intro rest hends
  have hmark : Token.binding (.symbol op.mark) < 2 := by cases op <;> decide
  have hop : Token.comparison? (.symbol op.mark) = some op := by cases op <;> rfl
  rw [List.append_assoc, List.cons_append]
  have hfirst := ReadsAt.alone .sum hleft (ends_cons hmark place (rights ++ rest))
  have hsecond := ReadsAt.alone .sum hright (hends.le (by decide))
  exact reads_parse.mpr ⟨left, _, hfirst, .inr ⟨_, place, _, op, rfl, hop, right, hsecond,
    comparison?_eq_none hends, rfl⟩⟩

/-- An operator with readable operands is readable. -/
theorem Readable.binary {op : BinaryOp} {left right : Expr} {a b : List Token}
    (hleft : Readable op.leftMinimum a left) (hright : Readable op.rightMinimum b right)
    (place : Location) :
    Readable op.precedence (a ++ .symbol op.mark :: b) (binary op left right place) := by
  intro ts hts
  obtain ⟨lefts, here, rights, rfl, hlefts, hrights⟩ := map_token_eq_append_cons hts
  obtain ⟨l, hl, hreadLeft⟩ := hleft lefts hlefts
  obtain ⟨r, hr, hreadRight⟩ := hright rights hrights
  refine ⟨.binary op l r here, by rw [placeless, placeless, hl, hr], ?_⟩
  cases op with
  | add | sub => exact ReadsAt.extend .sum rfl hreadLeft hreadRight here
  | mul | div | floorDiv | mod => exact ReadsAt.extend .product rfl hreadLeft hreadRight here
  | pow => exact ReadsAt.power hreadLeft hreadRight here

/-- A comparison of readable sides is readable. -/
theorem Readable.compare {op : CompareOp} {left right : Expr} {a b : List Token}
    (hleft : Readable 2 a left) (hright : Readable 2 b right) (place : Location) :
    Readable 1 (a ++ .symbol op.mark :: b) (compare op left right place) := by
  intro ts hts
  obtain ⟨lefts, here, rights, rfl, hlefts, hrights⟩ := map_token_eq_append_cons hts
  obtain ⟨l, hl, hreadLeft⟩ := hleft lefts hlefts
  obtain ⟨r, hr, hreadRight⟩ := hright rights hrights
  exact ⟨.compare op l r here, by rw [placeless, placeless, hl, hr],
    ReadsAt.comparison op hreadLeft hreadRight here⟩

/-- A token that stands for a constant is read as it. -/
theorem readable_literal {token : Token} {value : Literal} (h : token.literal? = some value)
    (place : Location) : Readable 6 [token] (literal value place) := by
  intro ts hts
  obtain ⟨⟨_, here⟩, rfl, rfl⟩ := List.map_eq_singleton_iff.mp hts
  refine ⟨literal value here, rfl, fun rest _ => ?_⟩
  exact reads_parseAtom.mpr ⟨_, here, rest, rfl, .inl ⟨value, h, rfl, rfl⟩⟩

/-- A minus sign before a token that stands for a number is read as the negative number. -/
theorem readable_negated {token : Token} {value : Literal} (h : token.negated? = some value)
    (place : Location) : Readable 4 [.symbol .minus, token] (literal value place) := by
  intro ts hts
  obtain ⟨here, others, rfl, hothers⟩ := map_token_eq_cons hts
  obtain ⟨⟨_, there⟩, rfl, rfl⟩ := List.map_eq_singleton_iff.mp hothers
  refine ⟨literal value here, rfl, fun rest _ => ?_⟩
  exact reads_parseFactor.mpr (.inr ⟨here, _, there, value, rfl, h, rfl⟩)

/-- A constant is readable from its tokens. -/
theorem readable_literal_tokens (value : Literal) (place : Location) :
    Readable (literal value place).level value.tokens (literal value place) := by
  have hlevel : (literal value place).level = if value.isNegative then 4 else 6 := rfl
  rw [hlevel]
  cases value with
  | int n =>
    rw [Literal.tokens, Literal.isNegative]
    by_cases hneg : n < 0
    · rw [if_pos hneg, decide_eq_true hneg]
      exact readable_negated (by rw [negated?, Int64.neg_neg]) place
    · rw [if_neg hneg, decide_eq_false hneg]
      exact readable_literal rfl place
  | float x =>
    have hneg : x.neg.neg = x := by simp only [Binary64.neg, Bool.not_not]
    rw [Literal.tokens, Literal.isNegative]
    cases x.negative with
    | true => exact readable_negated (by rw [negated?, hneg]) place
    | false => exact readable_literal rfl place
  | bool b => cases b <;> exact readable_literal rfl place
  | none => exact readable_literal rfl place

/-- A name is readable from its token. -/
theorem readable_name (id : String) (place : Location) : Readable 6 [.name id] (name id place) := by
  intro ts hts
  obtain ⟨⟨_, here⟩, rfl, rfl⟩ := List.map_eq_singleton_iff.mp hts
  refine ⟨name id here, rfl, fun rest hends => ?_⟩
  refine reads_parseAtom.mpr ⟨_, here, rest, rfl, .inr (.inl ⟨id, rfl, .inl ⟨?_, rfl, rfl⟩⟩)⟩
  intro hparen
  rw [Ends, hparen] at hends
  exact absurd hends (by decide)

/-- An expression is read as a part of a list. -/
def IsPart (item : Expr) : Prop := Readable 1 (operandTokens 1 item item.tokens) item

/-- After a part of a list comes a comma or the closing parenthesis. -/
theorem ends_more {items : List Expr} {ts : List Lexeme}
    (h : ts.map Lexeme.token = moreTokens items) (place : Location) (rest : List Lexeme) :
    Ends 1 (ts ++ ⟨.symbol .rightParen, place⟩ :: rest) := by
  cases items with
  | nil =>
    cases List.map_eq_nil_iff.mp h
    exact ends_cons (by decide) _ _
  | cons item others =>
    obtain ⟨here, after, rfl, -⟩ := map_token_eq_cons h
    exact ends_cons (by decide) _ _

/-- The further parts of a list are read up to the closing parenthesis. -/
theorem reads_moreTokens {items : List Expr} (hparts : ∀ item ∈ items, item.IsPart)
    {ts : List Lexeme} (h : ts.map Lexeme.token = moreTokens items) :
    ∃ read, placelessList read = placelessList items ∧ ∀ place rest,
      Reads (parseMore (ts ++ ⟨.symbol .rightParen, place⟩ :: rest)) read
        (⟨.symbol .rightParen, place⟩ :: rest) := by
  induction items generalizing ts with
  | nil =>
    cases List.map_eq_nil_iff.mp h
    exact ⟨[], rfl, fun place rest => reads_parseMore.mpr (.inl ⟨by simp [next], rfl, rfl⟩)⟩
  | cons item others ih =>
    obtain ⟨here, after, rfl, hafter⟩ := map_token_eq_cons h
    obtain ⟨first, more, rfl, hfirst, hmore⟩ := List.map_eq_append_iff.mp hafter
    obtain ⟨e, he, hat⟩ := hparts item List.mem_cons_self first hfirst
    obtain ⟨read, hread, hreads⟩ := ih (fun x hx => hparts x (List.mem_cons_of_mem _ hx)) hmore
    refine ⟨e :: read, by rw [placelessList, placelessList, he, hread], fun place rest => ?_⟩
    obtain ⟨token, tokens, htokens, hstarts⟩ := operandTokens_eq_cons 1 item.tokens_eq_cons
    have hitem := hat _ (ends_more hmore place rest)
    rw [List.cons_append, List.append_assoc]
    exact reads_parseMore.mpr (.inr ⟨here, _, rfl, .inr
      ⟨next_startsExpr (hfirst.trans htokens) hstarts, e, _, hitem, read, hreads place rest, rfl⟩⟩)

/-- The arguments of a call are read with the closing parenthesis. -/
theorem reads_argTokens {items : List Expr} (hparts : ∀ item ∈ items, item.IsPart)
    {ts : List Lexeme} (h : ts.map Lexeme.token = listTokens items) :
    ∃ read, placelessList read = placelessList items ∧ ∀ place rest,
      Reads (parseArgs (ts ++ ⟨.symbol .rightParen, place⟩ :: rest)) read rest := by
  induction items generalizing ts with
  | nil =>
    cases List.map_eq_nil_iff.mp h
    exact ⟨[], rfl, fun place rest => reads_parseArgs.mpr (.inl ⟨place, rfl, rfl⟩)⟩
  | cons item others ih =>
    obtain ⟨first, more, rfl, hfirst, hmore⟩ := List.map_eq_append_iff.mp h
    obtain ⟨e, he, hat⟩ := hparts item List.mem_cons_self first hfirst
    obtain ⟨token, tokens, htokens, hstarts⟩ := operandTokens_eq_cons 1 item.tokens_eq_cons
    have hopen := next_ne_rightParen (hfirst.trans htokens) hstarts
    cases others with
    | nil =>
      cases List.map_eq_nil_iff.mp hmore
      refine ⟨[e], by rw [placelessList, placelessList, he]; rfl, fun place rest => ?_⟩
      have hitem := hat _ (ends_more hmore place rest)
      rw [List.append_assoc]
      exact reads_parseArgs.mpr (.inr ⟨hopen _, e, _, hitem, .inl ⟨place, rfl, rfl⟩⟩)
    | cons next others =>
      have hitem := fun place rest => hat _ (ends_more hmore place rest)
      obtain ⟨here, after, rfl, hafter⟩ := map_token_eq_cons hmore
      obtain ⟨read, hread, hreads⟩ := ih (fun x hx => hparts x (List.mem_cons_of_mem _ hx)) hafter
      refine ⟨e :: read, by rw [placelessList, he, hread]; rfl, fun place rest => ?_⟩
      rw [List.append_assoc]
      exact reads_parseArgs.mpr (.inr ⟨hopen _, e, _, hitem place rest,
        .inr ⟨here, _, rfl, read, hreads place rest, rfl⟩⟩)

/-- A call with readable arguments is readable. -/
theorem readable_call {function : String} {args : List Expr}
    (hparts : ∀ item ∈ args, item.IsPart) (place : Location) :
    Readable 6 (call function args place).tokens (call function args place) := by
  intro ts hts
  obtain ⟨here, after, rfl, hafter⟩ := map_token_eq_cons hts
  obtain ⟨paren, inside, rfl, hinside⟩ := map_token_eq_cons hafter
  obtain ⟨list, last, rfl, hlist, hlast⟩ := List.map_eq_append_iff.mp hinside
  obtain ⟨⟨_, closing⟩, rfl, rfl⟩ := List.map_eq_singleton_iff.mp hlast
  obtain ⟨read, hread, hreads⟩ := reads_argTokens hparts hlist
  refine ⟨call function read here, by rw [placeless, placeless, hread], fun rest _ => ?_⟩
  rw [List.cons_append, List.cons_append, List.append_assoc, List.singleton_append]
  exact reads_parseAtom.mpr ⟨_, here, _, rfl, .inr (.inl ⟨function, rfl,
    .inr ⟨paren, _, rfl, read, hreads closing rest, rfl⟩⟩)⟩

/-- After the first part of a tuple come further parts or a comma alone. -/
theorem reads_tupleMore {others : List Expr} (hparts : ∀ item ∈ others, item.IsPart)
    {ts : List Lexeme} (h : ts.map Lexeme.token =
      moreTokens others ++ if others = [] then [.symbol .comma] else []) :
    ∃ read, placelessList read = placelessList others ∧ ∀ place rest,
      (next (ts ++ ⟨.symbol .rightParen, place⟩ :: rest)).token = .symbol .comma ∧
        Reads (parseMore (ts ++ ⟨.symbol .rightParen, place⟩ :: rest)) read
          (⟨.symbol .rightParen, place⟩ :: rest) := by
  cases others with
  | nil =>
    obtain ⟨⟨_, here⟩, rfl, rfl⟩ := List.map_eq_singleton_iff.mp h
    exact ⟨[], rfl, fun place rest => ⟨rfl, reads_parseMore.mpr
      (.inr ⟨here, _, rfl, .inl ⟨rfl, rfl, rfl⟩⟩)⟩⟩
  | cons item others =>
    rw [if_neg (List.cons_ne_nil _ _), List.append_nil] at h
    obtain ⟨read, hread, hreads⟩ := reads_moreTokens hparts h
    obtain ⟨here, after, rfl, -⟩ := map_token_eq_cons h
    exact ⟨read, hread, fun place rest => ⟨rfl, hreads place rest⟩⟩

/-- A tuple with readable parts is readable. -/
theorem readable_tuple {items : List Expr} (hparts : ∀ item ∈ items, item.IsPart)
    (place : Location) : Readable 6 (tuple items place).tokens (tuple items place) := by
  intro ts hts
  obtain ⟨here, after, rfl, hafter⟩ := map_token_eq_cons hts
  cases items with
  | nil =>
    obtain ⟨⟨_, closing⟩, rfl, rfl⟩ := List.map_eq_singleton_iff.mp hafter
    refine ⟨tuple [] here, rfl, fun rest _ => ?_⟩
    exact reads_parseAtom.mpr ⟨_, here, _, rfl, .inr (.inr ⟨rfl, .inl ⟨closing, rfl, rfl⟩⟩)⟩
  | cons item others =>
    have hshape : listTokens (item :: others) ++
        ((if (item :: others).length = 1 then [.symbol .comma] else []) ++ [.symbol .rightParen]) =
        operandTokens 1 item item.tokens ++
          ((moreTokens others ++ if others = [] then [.symbol .comma] else []) ++
            [.symbol .rightParen]) := by
      cases others <;> simp [listTokens]
    rw [hshape] at hafter
    obtain ⟨first, rest, rfl, hfirst, hrest⟩ := List.map_eq_append_iff.mp hafter
    obtain ⟨more, last, rfl, hmore, hlast⟩ := List.map_eq_append_iff.mp hrest
    obtain ⟨⟨_, closing⟩, rfl, rfl⟩ := List.map_eq_singleton_iff.mp hlast
    obtain ⟨e, he, hat⟩ := hparts item List.mem_cons_self first hfirst
    obtain ⟨read, hread, hreads⟩ :=
      reads_tupleMore (fun x hx => hparts x (List.mem_cons_of_mem _ hx)) hmore
    refine ⟨tuple (e :: read) here, by rw [placeless, placeless, placelessList, placelessList, he,
      hread], fun rest _ => ?_⟩
    rw [List.cons_append, List.append_assoc, List.append_assoc, List.singleton_append]
    obtain ⟨hcomma, hothers⟩ := hreads closing rest
    obtain ⟨token, tokens, htokens, hstarts⟩ := operandTokens_eq_cons 1 item.tokens_eq_cons
    have hopen := next_ne_rightParen (hfirst.trans htokens) hstarts
    have hitem : Reads (parse (first ++ (more ++ ⟨.symbol .rightParen, closing⟩ :: rest))) e _ :=
      hat _ (by rw [Ends, hcomma]; decide)
    have hlist := reads_parseList.mpr ⟨e, _, hitem, .inr ⟨hcomma, read, hothers, rfl⟩⟩
    exact reads_parseAtom.mpr
      ⟨_, here, _, rfl, .inr (.inr ⟨rfl, .inr ⟨hopen _, _, closing, hlist, rfl⟩⟩)⟩

mutual

/-- Every expression is readable from its tokens. -/
theorem readable_tokens : (e : Expr) → Readable e.level e.tokens e
  | literal value place => readable_literal_tokens value place
  | name id place => readable_name id place
  | binary op left right place =>
    Readable.binary
      ((readable_tokens left).operand (by cases op <;> decide) (by cases op <;> decide))
      ((readable_tokens right).operand (by cases op <;> decide) (by cases op <;> decide)) place
  | compare op left right place =>
    Readable.compare ((readable_tokens left).operand (by decide) (by decide))
      ((readable_tokens right).operand (by decide) (by decide)) place
  | tuple items place => readable_tuple (readable_items items) place
  | call function args place => readable_call (readable_items args) place

/-- Every one of some expressions is readable as a part of a list. -/
theorem readable_items : (items : List Expr) → ∀ item ∈ items, item.IsPart
  | [], _, h => absurd h List.not_mem_nil
  | item :: others, x, h => by
    rcases List.mem_cons.mp h with heq | h
    · rw [heq]
      exact (readable_tokens item).operand (by decide) (by decide)
    · exact readable_items others x h

end

end Expr

/-- Where an expression starts, a simple statement does. -/
theorem Token.opensStatement_of_startsExpr {t : Token} (h : t.startsExpr = true) :
    t.opensStatement = false := by
  cases t with
  | keyword word => cases word <;> first | rfl | cases h
  | _ => rfl

/-- The tokens of an expression on a line are a program of that expression. -/
theorem Program.ofLexemes_tokens {e : Expr} {lexemes : List Lexeme}
    (h : lexemes.map Lexeme.token = e.tokens) (place : Location) :
    ∃ read here, ofLexemes (lexemes ++ [⟨.newline, place⟩, ⟨.endOfFile, place⟩]) =
      .ok [.expression read here] ∧ read.placeless = e.placeless := by
  obtain ⟨first, others, htokens, hfirst⟩ := e.tokens_eq_cons
  have hnext := Expr.next_startsExpr (r := [⟨.newline, place⟩, ⟨.endOfFile, place⟩])
    (h.trans htokens) hfirst
  obtain ⟨read, hread, hat⟩ :=
    ((Expr.readable_tokens e).le (Nat.le_refl 1) e.one_le_level) lexemes h
  have hparse := hat [⟨.newline, place⟩, ⟨.endOfFile, place⟩] (Expr.ends_cons (by decide) _ _)
  have hlist := Expr.reads_parseList.mpr ⟨read, _, hparse, .inl ⟨by simp [next], rfl, rfl⟩⟩
  have hsides : Reads (Stmt.parseSides [⟨.newline, place⟩, ⟨.endOfFile, place⟩]) [] _ :=
    Stmt.reads_parseSides.mpr (.inl ⟨by simp [next], rfl, rfl⟩)
  have hend : Reads (Stmt.parseEnd [⟨.newline, place⟩, ⟨.endOfFile, place⟩]) () _ :=
    Stmt.reads_parseEnd.mpr (.inl ⟨place, rfl⟩)
  have hsimple := Stmt.reads_parseSimple.mpr ⟨read, _, hlist, [], _, hsides, hend, rfl⟩
  have hstatement := Stmt.reads_parse.mpr
    (.inr (.inr (.inr (.inr ⟨opensStatement_of_startsExpr hnext, hsimple⟩))))
  refine ⟨read, _, (ofLexemes_statement ?_).mpr
    ⟨_, _, hstatement, [], ofLexemes_end rfl, rfl⟩, hread⟩
  intro hlayout
  simp only [List.mem_cons, List.not_mem_nil, or_false] at hlayout
  rcases hlayout with heq | heq | heq <;> rw [heq] at hnext <;> cases hnext

/-- The text of an expression that can be written is a program of that expression, up to
places. -/
theorem Program.parse_text {e : Expr} (h : e.isWritable = true) :
    ∃ read here, parse e.text = .ok [.expression read here] ∧ read.placeless = e.placeless := by
  obtain ⟨lexemes, place, htokens, hscan⟩ := Expr.scan_text h
  obtain ⟨read, here, hread, hsame⟩ := ofLexemes_tokens htokens place
  exact ⟨read, here, except_bind_ok.mpr ⟨_, hscan, hread⟩, hsame⟩

/-- Reading undoes writing. The text of an expression whose names are names, whose whole
numbers are not the least one and whose doubles are finite is read as one statement, that
expression up to places. Every expression of a program that was read is of this kind,
except that a number too large for a double is read as infinity. -/
theorem parse_inverts_text :
    (∀ e : Expr, e.isWritable = true → ∃ read place,
      Program.parse e.text = .ok [.expression read place] ∧ read.placeless = e.placeless) ∧
    (∀ (source : String) (program : Program), Program.parse source = .ok program →
      ∀ e ∈ program.expressions, e.leavesAll Token.isName
        (fun value => value.isWritable || value.isInfinite) = true) :=
  ⟨fun _ h => Program.parse_text h, fun _ _ h => Program.allReadable_parse h⟩

/-- A comparison with a power of a negative number and a call on a tuple of one part. -/
def Sample.nested : Expr :=
  .compare .lessEqual
    (.binary .pow (.literal (.int (-2)) .origin)
      (.binary .sub (.name "n_1" .origin) (.literal (.float (.zero true)) .origin) .origin) .origin)
    (.call "f" [.tuple [.literal .none .origin] .origin, .literal (.bool true) .origin] .origin)
    .origin

theorem parse_inverts_nested :
    Sample.nested.isWritable = true ∧ ∃ read place,
      Program.parse Sample.nested.text = .ok [.expression read place] ∧
        read.placeless = Sample.nested.placeless ∧
        ∀ e ∈ Program.expressions [.expression read place], e.leavesAll Token.isName
          (fun value => value.isWritable || value.isInfinite) = true := by
  have hwritable : Sample.nested.isWritable = true := by decide
  obtain ⟨read, place, hparse, hsame⟩ := parse_inverts_text.1 Sample.nested hwritable
  exact ⟨hwritable, read, place, hparse, hsame, parse_inverts_text.2 _ _ hparse⟩

end Walkthrough
