import Walkthrough.Proofs.Grammar
import Walkthrough.Proofs.Printing

/-!
# The grammar of expressions

The grammar is told here apart from its readers, as a family of derivations: one category
for each rule, one constructor for each of its alternatives, with a repetition as a list of its
own. A derivation holds the places of its tokens and nothing that can go wrong, so its tokens
and the expression that it makes are computed from it. Whatever a reader reads is the expression
of a derivation of the tokens that it took.
-/

namespace Walkthrough

open Lexeme

/-- A number as it is written, without a sign. -/
inductive WrittenNumber where
  | int (n : Int64)
  | float (x : Binary64)

namespace WrittenNumber

def token : WrittenNumber → Token
  | int n => .int n
  | float x => .float x

def value : WrittenNumber → Literal
  | int n => .int n
  | float x => .float x

/-- The value after a minus sign. -/
def negated : WrittenNumber → Literal
  | int n => .int (-n)
  | float x => .float x.neg

end WrittenNumber

/-- A constant as it is written. -/
inductive WrittenConstant where
  | number (written : WrittenNumber)
  | truth (b : Bool)
  | none

namespace WrittenConstant

def token : WrittenConstant → Token
  | number written => written.token
  | truth true => .keyword .trueWord
  | truth false => .keyword .falseWord
  | none => .keyword .noneWord

def value : WrittenConstant → Literal
  | number written => written.value
  | truth b => .bool b
  | none => .none

end WrittenConstant

/-- The operators of a tier. -/
def Tier.operators : Tier → List BinaryOp
  | sum => [.add, .sub]
  | product => [.mul, .div, .floorDiv, .mod]

/-- The rules of the grammar. -/
inductive Category where
  | list
  /-- What follows the first expression of a list. -/
  | more
  | expression
  /-- Sums and products. -/
  | chain (tier : Tier)
  /-- What follows the first operand of a chain. -/
  | further (tier : Tier)
  | operand (tier : Tier)
  | factor
  | power
  | atom
  | arguments

/-- What is made of the tokens of a rule. What follows the first expression of a list makes
expressions if there is a comma, and what follows the first operand of a chain makes an
expression from the one before it. -/
abbrev Category.Meaning : Category → Type
  | more => Option (List Expr)
  | further _ => Expr → Expr
  | arguments => List Expr
  | _ => Expr

/-- A derivation of tokens from a rule. -/
inductive Derivation : Category → Type where
  /-- list: expression (`,` expression)* [`,`] -/
  | list (first : Derivation .expression) (others : Derivation .more) : Derivation .list
  | noMore : Derivation .more
  | lastComma (comma : Location) : Derivation .more
  | oneMore (comma : Location) (item : Derivation .expression) (others : Derivation .more) :
    Derivation .more
  /-- expression: sum [comparison sum] -/
  | single (sum : Derivation (.chain .sum)) : Derivation .expression
  | compare (left : Derivation (.chain .sum)) (op : CompareOp) (place : Location)
    (right : Derivation (.chain .sum)) : Derivation .expression
  /-- sum: product ((`+` | `-`) product)*, and product: factor ((`*` | `/` | `//` | `%`) factor)* -/
  | chain {tier : Tier} (first : Derivation (.operand tier)) (others : Derivation (.further tier)) :
    Derivation (.chain tier)
  | noFurther {tier : Tier} : Derivation (.further tier)
  | oneFurther {tier : Tier} (op : BinaryOp) (ofTier : op ∈ tier.operators) (place : Location)
    (right : Derivation (.operand tier)) (others : Derivation (.further tier)) :
    Derivation (.further tier)
  | product (factors : Derivation (.chain .product)) : Derivation (.operand .sum)
  | factor (only : Derivation .factor) : Derivation (.operand .product)
  /-- factor: `-` number | power -/
  | minus (place : Location) (number : WrittenNumber) (numberPlace : Location) : Derivation .factor
  | power (only : Derivation .power) : Derivation .factor
  /-- power: atom [`**` factor] -/
  | plain (atom : Derivation .atom) : Derivation .power
  | raised (base : Derivation .atom) (place : Location) (exponent : Derivation .factor) :
    Derivation .power
  /-- atom: name [`(` arguments `)`] | number | `True` | `False` | `None` | `(` [list] `)` -/
  | name (id : String) (place : Location) : Derivation .atom
  | call (id : String) (place opening : Location) (args : Derivation .arguments)
    (closing : Location) : Derivation .atom
  | constant (written : WrittenConstant) (place : Location) : Derivation .atom
  | empty (opening closing : Location) : Derivation .atom
  | parentheses (opening : Location) (inner : Derivation .list) (closing : Location) :
    Derivation .atom
  /-- arguments: [expression (`,` expression)* [`,`]] -/
  | noArguments : Derivation .arguments
  | arguments (first : Derivation .expression) (others : Derivation .more) :
    Derivation .arguments

namespace Derivation

/-- The tokens of a derivation. -/
def tokens : {c : Category} → Derivation c → List Lexeme
  | _, list first others => first.tokens ++ others.tokens
  | _, noMore => []
  | _, lastComma comma => [⟨.symbol .comma, comma⟩]
  | _, oneMore comma item others => ⟨.symbol .comma, comma⟩ :: (item.tokens ++ others.tokens)
  | _, single sum => sum.tokens
  | _, compare left op place right => left.tokens ++ ⟨.symbol op.mark, place⟩ :: right.tokens
  | _, chain first others => first.tokens ++ others.tokens
  | _, noFurther => []
  | _, oneFurther op _ place right others =>
    ⟨.symbol op.mark, place⟩ :: (right.tokens ++ others.tokens)
  | _, product factors => factors.tokens
  | _, factor only => only.tokens
  | _, minus place number numberPlace => [⟨.symbol .minus, place⟩, ⟨number.token, numberPlace⟩]
  | _, power only => only.tokens
  | _, plain atom => atom.tokens
  | _, raised base place exponent => base.tokens ++ ⟨.symbol .doubleStar, place⟩ :: exponent.tokens
  | _, name id place => [⟨.name id, place⟩]
  | _, call id place opening args closing => ⟨.name id, place⟩ :: ⟨.symbol .leftParen, opening⟩ ::
    (args.tokens ++ [⟨.symbol .rightParen, closing⟩])
  | _, constant written place => [⟨written.token, place⟩]
  | _, empty opening closing => [⟨.symbol .leftParen, opening⟩, ⟨.symbol .rightParen, closing⟩]
  | _, parentheses opening inner closing =>
    ⟨.symbol .leftParen, opening⟩ :: (inner.tokens ++ [⟨.symbol .rightParen, closing⟩])
  | _, noArguments => []
  | _, arguments first others => first.tokens ++ others.tokens

/-- What a derivation makes. A comma makes a tuple, a chain groups from the left, a power from
the right, and parentheses only give their place to a tuple. -/
def meaning : {c : Category} → Derivation c → c.Meaning
  | _, list first others =>
    match others.meaning with
    | none => first.meaning
    | some items => .tuple (first.meaning :: items) (next first.tokens).location
  | _, noMore => none
  | _, lastComma _ => some []
  | _, oneMore _ item others => some (item.meaning :: others.meaning.getD [])
  | _, single sum => sum.meaning
  | _, compare left op place right => .compare op left.meaning right.meaning place
  | _, chain first others => others.meaning first.meaning
  | _, noFurther => fun left => left
  | _, oneFurther op _ place right others =>
    fun left => others.meaning (.binary op left right.meaning place)
  | _, product factors => factors.meaning
  | _, factor only => only.meaning
  | _, minus place number _ => .literal number.negated place
  | _, power only => only.meaning
  | _, plain atom => atom.meaning
  | _, raised base place exponent => .binary .pow base.meaning exponent.meaning place
  | _, name id place => .name id place
  | _, call id place _ args _ => .call id args.meaning place
  | _, constant written place => .literal written.value place
  | _, empty opening _ => .tuple [] opening
  | _, parentheses opening inner _ => inner.meaning.grouped opening
  | _, noArguments => []
  | _, arguments first others => first.meaning :: others.meaning.getD []

end Derivation

/-- Whether a rule has a derivation without tokens. -/
def Category.isOptional : Category → Bool
  | more | further _ | arguments => true
  | _ => false

/-- Only what follows something, and the arguments of a call, may have no tokens. -/
theorem Derivation.tokens_ne_nil {c : Category} (d : Derivation c) (h : c.isOptional = false) :
    d.tokens ≠ [] := by
  induction d with
  | noMore | lastComma | oneMore | noFurther | oneFurther | noArguments | arguments => cases h
  | _ => simp_all [tokens, Category.isOptional]

namespace Token

theorem comparison?_eq_some {t : Token} {op : CompareOp} :
    t.comparison? = some op ↔ t = .symbol op.mark := by
  constructor
  · intro h
    cases t with
    | symbol mark => cases mark <;> cases h <;> rfl
    | _ => cases h
  · rintro rfl
    cases op <;> rfl

theorem operator?_eq_some {tier : Tier} {t : Token} {op : BinaryOp} :
    tier.operator? t = some op ↔ op ∈ tier.operators ∧ t = .symbol op.mark := by
  constructor
  · intro h
    cases t with
    | symbol mark => cases tier <;> cases mark <;> cases h <;> decide
    | _ => cases tier <;> cases h
  · rintro ⟨hop, rfl⟩
    cases tier <;> cases op <;> first | rfl | exact absurd hop (by decide)

theorem negated?_eq_some {t : Token} {value : Literal} :
    t.negated? = some value ↔
      ∃ number : WrittenNumber, t = number.token ∧ number.negated = value := by
  constructor
  · intro h
    cases t with
    | int n => exact ⟨.int n, rfl, Option.some.inj h⟩
    | float x => exact ⟨.float x, rfl, Option.some.inj h⟩
    | _ => cases h
  · rintro ⟨number, rfl, rfl⟩
    cases number <;> rfl

theorem literal?_eq_some {t : Token} {value : Literal} :
    t.literal? = some value ↔
      ∃ written : WrittenConstant, t = written.token ∧ written.value = value := by
  constructor
  · intro h
    cases t with
    | int n => exact ⟨.number (.int n), rfl, Option.some.inj h⟩
    | float x => exact ⟨.number (.float x), rfl, Option.some.inj h⟩
    | keyword word =>
      cases word with
      | trueWord => exact ⟨.truth true, rfl, Option.some.inj h⟩
      | falseWord => exact ⟨.truth false, rfl, Option.some.inj h⟩
      | noneWord => exact ⟨.none, rfl, Option.some.inj h⟩
      | _ => cases h
    | _ => cases h
  · rintro ⟨written, rfl, rfl⟩
    cases written with
    | number written => cases written <;> rfl
    | truth b => cases b <;> rfl
    | none => rfl

theorem name?_eq_some {t : Token} {id : String} : t.name? = some id ↔ t = .name id := by
  constructor
  · intro h
    cases t with
    | name text => cases h; rfl
    | _ => cases h
  · rintro rfl
    rfl

end Token

namespace Expr

/-- An expression is read from a token that may start it. -/
theorem startsExpr_of_reads_parse {ts rest : List Lexeme} {e : Expr} (h : Reads (parse ts) e rest) :
    (next ts).token.startsExpr = true := by
  obtain ⟨left, mid, hsum, -⟩ := reads_parse.mp h
  obtain ⟨first, mid, hoperand, -⟩ := reads_parseChain.mp hsum
  rw [parseOperand] at hoperand
  obtain ⟨first, mid, hoperand, -⟩ := reads_parseChain.mp hoperand
  rw [parseOperand] at hoperand
  rcases reads_parseFactor.mp hoperand with ⟨-, hpower⟩ | ⟨place, token, here, value, rfl, -⟩
  · obtain ⟨base, mid, hatom, -⟩ := reads_parsePower.mp hpower
    obtain ⟨token, place, after, rfl, hkind⟩ := reads_parseAtom.mp hatom
    rcases hkind with ⟨value, hvalue, -⟩ | ⟨id, hid, -⟩ | ⟨rfl, -⟩
    · simp [next, Token.startsExpr, hvalue]
    · simp [next, Token.startsExpr, hid]
    · rfl
  · rfl

/-- The arguments of a call do not start with the closing parenthesis. -/
theorem next_ne_rightParen_of_reads {ts rest : List Lexeme} {e : Expr}
    (h : Reads (parse ts) e rest) : (next ts).token ≠ .symbol .rightParen := by
  intro hclose
  have hstarts := startsExpr_of_reads_parse h
  rw [hclose] at hstarts
  cases hstarts

end Expr

/-- Some tokens start with those of a derivation that makes this, and these are left. -/
def Category.Takes (c : Category) (ts : List Lexeme) (made : c.Meaning) (rest : List Lexeme) :
    Prop :=
  ∃ d : Derivation c, ts = d.tokens ++ rest ∧ d.meaning = made

namespace Expr

/-- The first token of some tokens is the first of those that were taken. -/
theorem next_of_taken {ts taken rest : List Lexeme} (h : ts = taken ++ rest)
    (hlt : rest.length < ts.length) : next taken = next ts := by
  cases taken with
  | nil =>
    rw [h] at hlt
    exact absurd hlt (Nat.lt_irrefl _)
  | cons first others =>
    rw [h]
    rfl

mutual

/-- A list that is read has a derivation. -/
theorem takes_parseList {ts rest : List Lexeme} {e : Expr} (h : Reads (parseList ts) e rest) :
    Category.list.Takes ts e rest := by
  obtain ⟨first, mid, hfirst, hkind⟩ := reads_parseList.mp h
  have hlt := hfirst.fst
  obtain ⟨item, hts, rfl⟩ := takes_parse hfirst
  rcases hkind with ⟨-, rfl, rfl⟩ | ⟨hcomma, others, hothers, rfl⟩
  · refine ⟨.list item .noMore, hts.trans ?_, rfl⟩
    exact congrArg (· ++ mid) (List.append_nil item.tokens).symm
  · obtain ⟨more, hmid, hmore⟩ := takes_parseMore hothers
    rw [if_pos hcomma] at hmore
    refine ⟨.list item more, ?_, ?_⟩
    · rw [hts, hmid, ← List.append_assoc]
      rfl
    · rw [← next_of_taken hts hlt, Derivation.meaning, hmore]
termination_by 9 * ts.length + 8

/-- Further parts of a list that are read have a derivation. -/
theorem takes_parseMore {ts rest : List Lexeme} {items : List Expr}
    (h : Reads (parseMore ts) items rest) :
    Category.more.Takes ts
      (if (next ts).token = .symbol .comma then some items else none) rest := by
  rcases reads_parseMore.mp h with ⟨hnone, rfl, rfl⟩ | ⟨place, after, rfl, hkind⟩
  · rw [if_neg hnone]
    exact ⟨.noMore, rfl, rfl⟩
  · have hcomma : (next (⟨.symbol .comma, place⟩ :: after)).token = .symbol .comma := rfl
    rw [if_pos hcomma]
    rcases hkind with ⟨-, rfl, rfl⟩ | ⟨-, item, mid, hitem, others, hothers, rfl⟩
    · exact ⟨.lastComma place, rfl, rfl⟩
    · have hlt := hitem.fst
      obtain ⟨first, hafter, rfl⟩ := takes_parse hitem
      obtain ⟨more, hmid, hmore⟩ := takes_parseMore hothers
      refine ⟨.oneMore place first more, ?_, ?_⟩
      · rw [hafter, hmid, ← List.append_assoc]
        rfl
      · rw [Derivation.meaning, hmore]
        split
        · rfl
        · next hend =>
          rcases reads_parseMore.mp hothers with ⟨-, rfl, -⟩ | ⟨_, _, rfl, -⟩
          · rfl
          · exact absurd rfl hend
termination_by 9 * ts.length
decreasing_by all_goals subst_vars; simp only [List.length_cons] at *; omega

/-- An expression that is read has a derivation. -/
theorem takes_parse {ts rest : List Lexeme} {e : Expr} (h : Reads (parse ts) e rest) :
    Category.expression.Takes ts e rest := by
  obtain ⟨left, mid, hleft, hkind⟩ := reads_parse.mp h
  have hlt := hleft.fst
  obtain ⟨first, hts, rfl⟩ := takes_parseChain hleft
  rcases hkind with ⟨-, rfl, rfl⟩ | ⟨token, place, after, op, rfl, hop, right, hright, -, rfl⟩
  · exact ⟨.single first, hts, rfl⟩
  · rw [List.length_cons] at hlt
    obtain ⟨second, hafter, rfl⟩ := takes_parseChain hright
    cases Token.comparison?_eq_some.mp hop
    refine ⟨.compare first op place second, ?_, rfl⟩
    rw [hts, hafter, ← List.cons_append, ← List.append_assoc]
    rfl
termination_by 9 * ts.length + 7

/-- A chain that is read has a derivation. -/
theorem takes_parseChain {tier : Tier} {ts rest : List Lexeme} {e : Expr}
    (h : Reads (parseChain tier ts) e rest) : (Category.chain tier).Takes ts e rest := by
  obtain ⟨first, mid, hfirst, htail⟩ := reads_parseChain.mp h
  have hlt := hfirst.fst
  obtain ⟨operand, hts, rfl⟩ := takes_parseOperand hfirst
  obtain ⟨others, hmid, rfl⟩ := takes_parseChainTail htail
  refine ⟨.chain operand others, ?_, rfl⟩
  rw [hts, hmid, ← List.append_assoc]
  rfl
termination_by 9 * ts.length + tier.height + 1

/-- An operand that is read has a derivation. -/
theorem takes_parseOperand {tier : Tier} {ts rest : List Lexeme} {e : Expr}
    (h : Reads (parseOperand tier ts) e rest) : (Category.operand tier).Takes ts e rest := by
  cases tier with
  | sum =>
    rw [parseOperand] at h
    obtain ⟨factors, hts, hmade⟩ := takes_parseChain h
    exact ⟨.product factors, hts, hmade⟩
  | product =>
    rw [parseOperand] at h
    obtain ⟨only, hts, hmade⟩ := takes_parseFactor h
    exact ⟨.factor only, hts, hmade⟩
termination_by 9 * ts.length + tier.height

/-- Operators that are read after an expression have a derivation. -/
theorem takes_parseChainTail {tier : Tier} {left e : Expr} {ts rest : List Lexeme}
    (h : Reads (parseChainTail tier left ts) e rest) :
    ∃ d : Derivation (.further tier), ts = d.tokens ++ rest ∧ d.meaning left = e := by
  rcases reads_parseChainTail.mp h with
    ⟨-, rfl, rfl⟩ | ⟨token, place, after, op, rfl, hop, right, mid, hright, htail⟩
  · exact ⟨.noFurther, rfl, rfl⟩
  · have hlt := hright.fst
    have hheight := tier.height_le
    obtain ⟨hmember, rfl⟩ := Token.operator?_eq_some.mp hop
    obtain ⟨operand, hafter, rfl⟩ := takes_parseOperand hright
    obtain ⟨others, hmid, rfl⟩ := takes_parseChainTail htail
    refine ⟨.oneFurther op hmember place operand others, ?_, rfl⟩
    rw [hafter, hmid, ← List.append_assoc]
    rfl
termination_by 9 * ts.length
decreasing_by all_goals subst_vars; simp only [List.length_cons] at *; omega

/-- A factor that is read has a derivation. -/
theorem takes_parseFactor {ts rest : List Lexeme} {e : Expr} (h : Reads (parseFactor ts) e rest) :
    Category.factor.Takes ts e rest := by
  rcases reads_parseFactor.mp h with
    ⟨-, hpower⟩ | ⟨place, token, here, value, rfl, hvalue, rfl⟩
  · obtain ⟨only, hts, hmade⟩ := takes_parsePower hpower
    exact ⟨.power only, hts, hmade⟩
  · obtain ⟨number, rfl, rfl⟩ := Token.negated?_eq_some.mp hvalue
    exact ⟨.minus place number here, rfl, rfl⟩
termination_by 9 * ts.length + 2

/-- A power that is read has a derivation. -/
theorem takes_parsePower {ts rest : List Lexeme} {e : Expr} (h : Reads (parsePower ts) e rest) :
    Category.power.Takes ts e rest := by
  obtain ⟨base, mid, hbase, hkind⟩ := reads_parsePower.mp h
  have hlt := hbase.fst
  obtain ⟨atom, hts, rfl⟩ := takes_parseAtom hbase
  rcases hkind with ⟨-, rfl, rfl⟩ | ⟨place, after, rfl, exponent, hexponent, rfl⟩
  · exact ⟨.plain atom, hts, rfl⟩
  · rw [List.length_cons] at hlt
    obtain ⟨factor, hafter, rfl⟩ := takes_parseFactor hexponent
    refine ⟨.raised atom place factor, ?_, rfl⟩
    rw [hts, hafter, ← List.cons_append, ← List.append_assoc]
    rfl
termination_by 9 * ts.length + 1

/-- An atom that is read has a derivation. -/
theorem takes_parseAtom {ts rest : List Lexeme} {e : Expr} (h : Reads (parseAtom ts) e rest) :
    Category.atom.Takes ts e rest := by
  obtain ⟨token, place, after, rfl, hkind⟩ := reads_parseAtom.mp h
  rcases hkind with ⟨value, hvalue, rfl, rfl⟩ | ⟨id, hid, hname⟩ | ⟨rfl, hparen⟩
  · obtain ⟨written, rfl, rfl⟩ := Token.literal?_eq_some.mp hvalue
    exact ⟨.constant written place, rfl, rfl⟩
  · cases Token.name?_eq_some.mp hid
    rcases hname with ⟨-, rfl, rfl⟩ | ⟨here, inside, rfl, args, hargs, rfl⟩
    · exact ⟨.name id place, rfl, rfl⟩
    · obtain ⟨given, closing, hinside, rfl⟩ := takes_parseArgs hargs
      refine ⟨.call id place here given closing, ?_, rfl⟩
      rw [hinside, List.append_cons]
      rfl
  · rcases hparen with ⟨here, rfl, rfl⟩ | ⟨-, inner, here, hinner, rfl⟩
    · exact ⟨.empty place here, rfl, rfl⟩
    · obtain ⟨items, hafter, rfl⟩ := takes_parseList hinner
      refine ⟨.parentheses place items here, ?_, rfl⟩
      rw [hafter, List.append_cons]
      rfl
termination_by 9 * ts.length
decreasing_by all_goals subst_vars; simp only [List.length_cons] at *; omega

/-- Arguments that are read have a derivation, and the closing parenthesis follows it. -/
theorem takes_parseArgs {ts rest : List Lexeme} {args : List Expr}
    (h : Reads (parseArgs ts) args rest) :
    ∃ (d : Derivation .arguments) (closing : Location),
      ts = d.tokens ++ ⟨.symbol .rightParen, closing⟩ :: rest ∧ d.meaning = args := by
  rcases reads_parseArgs.mp h with ⟨place, rfl, rfl⟩ | ⟨-, arg, mid, harg, hkind⟩
  · exact ⟨.noArguments, place, rfl, rfl⟩
  · have hlt := harg.fst
    obtain ⟨first, hts, rfl⟩ := takes_parse harg
    rcases hkind with ⟨place, rfl, rfl⟩ | ⟨place, after, rfl, others, hothers, rfl⟩
    · refine ⟨.arguments first .noMore, place, hts.trans ?_, rfl⟩
      exact congrArg (· ++ _) (List.append_nil first.tokens).symm
    · rw [List.length_cons] at hlt
      obtain ⟨more, closing, hafter, rfl⟩ := takes_parseArgs hothers
      cases more with
      | noArguments =>
        refine ⟨.arguments first (.lastComma place), closing, ?_, rfl⟩
        rw [hts, hafter, List.append_cons]
        rfl
      | arguments second further =>
        refine ⟨.arguments first (.oneMore place second further), closing, ?_, rfl⟩
        rw [hts, hafter, ← List.cons_append, ← List.append_assoc]
        rfl
termination_by 9 * ts.length + 8

end

end Expr

end Walkthrough
