import Walkthrough.Proofs.Operands

/-!
# Derivations put together from those of operands

Tokens are derivable at a level of the grammar as an expression if they are derived there,
wherever they stand, as that expression up to places. What the printer writes is derivable, and
from operands that are derivable at the levels of their slots comes a derivable expression.
-/

namespace Walkthrough

open Lexeme Token

/-- Some tokens are derived from a rule as what they make. -/
def Category.Derives (c : Category) (ts : List Lexeme) (made : c.Meaning) : Prop :=
  ∃ d : Derivation c, d.tokens = ts ∧ d.meaning = made

namespace Expr

/-- Some tokens are derived as an expression at a level of the grammar. -/
def DerivesAt : Nat → List Lexeme → Expr → Prop
  | 6, ts, e => Category.atom.Derives ts e
  | 5, ts, e => Category.power.Derives ts e
  | 4, ts, e => Category.factor.Derives ts e
  | 3, ts, e => (Category.chain .product).Derives ts e
  | 2, ts, e => (Category.chain .sum).Derives ts e
  | 1, ts, e => Category.expression.Derives ts e
  | _, _, _ => False

/-- What is derived at a level is derived at the level below. -/
theorem DerivesAt.step {k : Nat} {ts : List Lexeme} {e : Expr} (hpos : 1 ≤ k)
    (h : DerivesAt (k + 1) ts e) : DerivesAt k ts e := by
  match k with
  | 1 =>
    obtain ⟨d, rfl, rfl⟩ := h
    exact ⟨.single d, rfl, rfl⟩
  | 2 =>
    obtain ⟨d, rfl, rfl⟩ := h
    exact ⟨.chain (.product d) .noFurther, List.append_nil _, rfl⟩
  | 3 =>
    obtain ⟨d, rfl, rfl⟩ := h
    exact ⟨.chain (.factor d) .noFurther, List.append_nil _, rfl⟩
  | 4 =>
    obtain ⟨d, rfl, rfl⟩ := h
    exact ⟨.power d, rfl, rfl⟩
  | 5 =>
    obtain ⟨d, rfl, rfl⟩ := h
    exact ⟨.plain d, rfl, rfl⟩
  | k + 6 => exact h.elim

/-- What is derived at a level is derived at every level below. -/
theorem DerivesAt.le {j k : Nat} {ts : List Lexeme} {e : Expr} (h : DerivesAt k ts e)
    (hpos : 1 ≤ j) (hle : j ≤ k) : DerivesAt j ts e := by
  induction hle with
  | refl => exact h
  | step hle ih => exact ih (h.step (Nat.le_trans hpos hle))

/-- Tokens are derived at a level as an expression, up to its places, wherever they stand. -/
def Derivable (level : Nat) (tokens : List Token) (e : Expr) : Prop :=
  ∀ ts : List Lexeme, ts.map Lexeme.token = tokens →
    ∃ read : Expr, read.placeless = e.placeless ∧ DerivesAt level ts read

theorem Derivable.le {j k : Nat} {tokens : List Token} {e : Expr} (h : Derivable k tokens e)
    (hpos : 1 ≤ j) (hle : j ≤ k) : Derivable j tokens e := by
  intro ts hts
  obtain ⟨read, hread, hderives⟩ := h ts hts
  exact ⟨read, hread, hderives.le hpos hle⟩

/-- All tokens of a derivation are taken if none is left. -/
theorem derives_of_takes {c : Category} {ts : List Lexeme} {made : c.Meaning}
    (h : c.Takes (ts ++ []) made []) : c.Derives ts made := by
  obtain ⟨d, hts, rfl⟩ := h
  exact ⟨d, (List.append_cancel_right hts).symm, rfl⟩

/-- What is read at a level is derived there. -/
theorem ReadsAt.derivesAt {level : Nat} {ts : List Lexeme} {e : Expr} (h : ReadsAt level ts e) :
    DerivesAt level ts e := by
  have hends : ∀ k, 0 < k → Ends k [] := fun k hk => hk
  match level with
  | 0 => exact h.elim
  | 1 => exact derives_of_takes (takes_parse (h [] (hends 1 (by decide))))
  | 2 => exact derives_of_takes (takes_parseChain (ReadsAt.alone .sum h (hends 2 (by decide))))
  | 3 => exact derives_of_takes (takes_parseChain (ReadsAt.alone .product h (hends 3 (by decide))))
  | 4 => exact derives_of_takes (takes_parseFactor (h [] (hends 4 (by decide))))
  | 5 => exact derives_of_takes (takes_parsePower (h [] (hends 5 (by decide))))
  | 6 => exact derives_of_takes (takes_parseAtom (h [] (hends 6 (by decide))))
  | k + 7 => exact h.elim

/-- Every expression is derivable from its tokens. -/
theorem derivable_tokens (e : Expr) : Derivable e.level e.tokens e := by
  intro ts hts
  obtain ⟨read, hread, hat⟩ := readable_tokens e ts hts
  exact ⟨read, hread, hat.derivesAt⟩

/-- An expression in parentheses is derivable as one piece. -/
theorem Derivable.grouped {tokens : List Token} {e : Expr} (h : Derivable 1 tokens e) :
    Derivable 6 (.symbol .leftParen :: (tokens ++ [.symbol .rightParen])) e := by
  intro ts hts
  obtain ⟨opening, after, rfl, hafter⟩ := map_token_eq_cons hts
  obtain ⟨inner, last, rfl, hinner, hlast⟩ := List.map_eq_append_iff.mp hafter
  obtain ⟨⟨_, closing⟩, rfl, rfl⟩ := List.map_eq_singleton_iff.mp hlast
  obtain ⟨read, hread, d, rfl, rfl⟩ := h inner hinner
  have hplaceless : ∀ x : Expr, (x.grouped opening).placeless = x.placeless :=
    fun x => by cases x <;> rfl
  refine ⟨_, (hplaceless _).trans hread, .parentheses opening (.list d .noMore) closing, ?_, rfl⟩
  rw [Derivation.tokens, Derivation.tokens, Derivation.tokens, List.append_nil]

/-- An operand is derivable at the level of its slot if it is derivable alone. -/
theorem Derivable.wrapped {o : Operand} {tokens : List Token}
    (h : Derivable o.expr.level tokens o.expr) :
    Derivable o.slot.level (o.wrappedTokens tokens) o.expr := by
  unfold Operand.wrappedTokens
  split
  · have hgroup := (h.le (Nat.le_refl 1) o.expr.one_le_level).grouped
    exact hgroup.le o.slot.one_le_level (Nat.le_trans o.slot.level_le_minimum o.slot.minimum_le)
  · next hplain =>
    have hle : o.slot.minimum ≤ o.expr.level := by
      simpa [Operand.isGrouped] using hplain
    exact h.le o.slot.one_le_level (Nat.le_trans o.slot.level_le_minimum hle)

/-- What follows the first operand of a chain may go on with one more operator. -/
theorem exists_further {tier : Tier} {op : BinaryOp} (hop : op ∈ tier.operators) (place : Location)
    (right : Derivation (.operand tier)) : (others : Derivation (.further tier)) →
    ∃ d : Derivation (.further tier),
      d.tokens = others.tokens ++ ⟨.symbol op.mark, place⟩ :: right.tokens ∧
        ∀ left, d.meaning left = binary op (others.meaning left) right.meaning place
  | .noFurther => ⟨.oneFurther op hop place right .noFurther, by simp [Derivation.tokens],
      fun _ => rfl⟩
  | .oneFurther op' hop' place' right' others => by
    obtain ⟨d, htokens, hmeaning⟩ := exists_further hop place right others
    refine ⟨.oneFurther op' hop' place' right' d, ?_, fun left => hmeaning _⟩
    rw [Derivation.tokens, htokens, Derivation.tokens, List.cons_append, List.append_assoc]

/-- A chain with one more operator of its tier. -/
theorem derives_chain {tier : Tier} {op : BinaryOp} (hop : op ∈ tier.operators)
    {lefts rights : List Lexeme} {left right : Expr}
    (hleft : (Category.chain tier).Derives lefts left)
    (hright : (Category.operand tier).Derives rights right) (place : Location) :
    (Category.chain tier).Derives (lefts ++ ⟨.symbol op.mark, place⟩ :: rights)
      (binary op left right place) := by
  obtain ⟨d, rfl, rfl⟩ := hleft
  obtain ⟨d', rfl, rfl⟩ := hright
  cases d with
  | chain first others =>
    obtain ⟨further, htokens, hmeaning⟩ := exists_further hop place d' others
    refine ⟨.chain first further, ?_, hmeaning _⟩
    rw [Derivation.tokens, htokens, Derivation.tokens, List.append_assoc]

/-- An operator with derivable operands is derivable. -/
theorem Derivable.binary {op : BinaryOp} {left right : Expr} {a b : List Token}
    (hleft : Derivable op.leftMinimum a left) (hright : Derivable op.rightLevel b right)
    (place : Location) :
    Derivable op.precedence (a ++ .symbol op.mark :: b) (binary op left right place) := by
  intro ts hts
  obtain ⟨lefts, here, rights, rfl, hlefts, hrights⟩ := map_token_eq_append_cons hts
  obtain ⟨l, hl, hderivesLeft⟩ := hleft lefts hlefts
  obtain ⟨r, hr, hderivesRight⟩ := hright rights hrights
  refine ⟨.binary op l r here, by rw [placeless, placeless, hl, hr], ?_⟩
  cases op with
  | add | sub =>
    obtain ⟨d, hd⟩ := hderivesRight
    exact derives_chain (by decide) hderivesLeft ⟨.product d, hd⟩ here
  | mul | div | floorDiv | mod =>
    obtain ⟨d, hd⟩ := hderivesRight
    exact derives_chain (by decide) hderivesLeft ⟨.factor d, hd⟩ here
  | pow =>
    obtain ⟨d, rfl, rfl⟩ := hderivesLeft
    obtain ⟨d', rfl, rfl⟩ := hderivesRight
    exact ⟨.raised d here d', rfl, rfl⟩

/-- A comparison of derivable sides is derivable. -/
theorem Derivable.compare {op : CompareOp} {left right : Expr} {a b : List Token}
    (hleft : Derivable 2 a left) (hright : Derivable 2 b right) (place : Location) :
    Derivable 1 (a ++ .symbol op.mark :: b) (compare op left right place) := by
  intro ts hts
  obtain ⟨lefts, here, rights, rfl, hlefts, hrights⟩ := map_token_eq_append_cons hts
  obtain ⟨l, hl, d, rfl, rfl⟩ := hleft lefts hlefts
  obtain ⟨r, hr, d', rfl, rfl⟩ := hright rights hrights
  exact ⟨.compare op d.meaning d'.meaning here, by rw [placeless, placeless, hl, hr],
    .compare d op here d', rfl, rfl⟩

/-- Parts of a list that are derivable are derived with a comma before each. -/
theorem exists_more {items : List Expr} {parts : List (List Token)}
    (hparts : List.Forall₂ (fun item part => Derivable 1 part item) items parts)
    {ts : List Lexeme} (h : ts.map Lexeme.token = parts.flatMap (.symbol .comma :: ·)) :
    ∃ d : Derivation .more, d.tokens = ts ∧
      placelessList (d.meaning.getD []) = placelessList items ∧
        (items ≠ [] → ∃ read, d.meaning = some read) := by
  induction hparts generalizing ts with
  | nil =>
    cases List.map_eq_nil_iff.mp h
    exact ⟨.noMore, rfl, rfl, fun hne => absurd rfl hne⟩
  | cons hpart _ ih =>
    obtain ⟨comma, after, rfl, hafter⟩ := map_token_eq_cons h
    obtain ⟨first, rest, rfl, hfirst, hrest⟩ := List.map_eq_append_iff.mp hafter
    obtain ⟨read, hread, d, rfl, rfl⟩ := hpart first hfirst
    obtain ⟨others, rfl, hothers, -⟩ := ih hrest
    refine ⟨.oneMore comma d others, rfl, ?_, fun _ => ⟨_, rfl⟩⟩
    rw [Derivation.meaning, Option.getD_some, placelessList, placelessList, hread, hothers]

/-- Parts that are derivable are derived as the parts of a tuple. -/
theorem derivable_tuple {items : List Expr} {parts : List (List Token)}
    (hparts : List.Forall₂ (fun item part => Derivable 1 part item) items parts)
    (place : Location) :
    Derivable 6 ((tuple items place).tokensOf parts) (tuple items place) := by
  intro ts hts
  obtain ⟨opening, after, rfl, hafter⟩ := map_token_eq_cons hts
  cases hparts with
  | nil =>
    obtain ⟨⟨_, closing⟩, rfl, rfl⟩ := List.map_eq_singleton_iff.mp hafter
    exact ⟨tuple [] opening, rfl, .empty opening closing, rfl, rfl⟩
  | @cons item part others rest hpart hothers =>
    rw [← List.append_assoc] at hafter
    obtain ⟨inside, last, rfl, hinside, hlast⟩ := List.map_eq_append_iff.mp hafter
    obtain ⟨⟨_, closing⟩, rfl, rfl⟩ := List.map_eq_singleton_iff.mp hlast
    rw [joined, List.append_assoc] at hinside
    obtain ⟨first, further, rfl, hfirst, hfurther⟩ := List.map_eq_append_iff.mp hinside
    obtain ⟨read, hread, d, rfl, rfl⟩ := hpart first hfirst
    -- After a single part comes a comma alone, after the first of more the others.
    obtain ⟨more, rfl, hmore, items, hitems⟩ : ∃ more : Derivation .more, more.tokens = further ∧
        placelessList (more.meaning.getD []) = placelessList others ∧
          ∃ items, more.meaning = some items := by
      cases hothers with
      | nil =>
        obtain ⟨⟨_, comma⟩, rfl, rfl⟩ := List.map_eq_singleton_iff.mp hfurther
        exact ⟨.lastComma comma, rfl, rfl, [], rfl⟩
      | cons hsecond hlater =>
        rw [if_neg (by simp), List.append_nil] at hfurther
        obtain ⟨more, htokens, hmore, hsome⟩ := exists_more (.cons hsecond hlater) hfurther
        exact ⟨more, htokens, hmore, hsome (List.cons_ne_nil _ _)⟩
    rw [hitems] at hmore
    refine ⟨tuple (d.meaning :: items) opening, ?_,
      .parentheses opening (.list d more) closing, rfl, ?_⟩
    · rw [placeless, placeless, placelessList, placelessList, hread]
      exact congrArg (fun others => tuple (item.placeless :: others) .origin) hmore
    · rw [Derivation.meaning, Derivation.meaning, hitems]
      rfl

/-- Parts that are derivable are derived as the arguments of a call. -/
theorem derivable_call {function : String} {args : List Expr} {parts : List (List Token)}
    (hparts : List.Forall₂ (fun arg part => Derivable 1 part arg) args parts)
    (place : Location) :
    Derivable 6 ((call function args place).tokensOf parts) (call function args place) := by
  intro ts hts
  obtain ⟨here, called, rfl, hcalled⟩ := map_token_eq_cons hts
  obtain ⟨opening, after, rfl, hafter⟩ := map_token_eq_cons hcalled
  obtain ⟨inside, last, rfl, hinside, hlast⟩ := List.map_eq_append_iff.mp hafter
  obtain ⟨⟨_, closing⟩, rfl, rfl⟩ := List.map_eq_singleton_iff.mp hlast
  cases hparts with
  | nil =>
    cases List.map_eq_nil_iff.mp hinside
    exact ⟨call function [] here, rfl, .call function here opening .noArguments closing, rfl, rfl⟩
  | cons hpart hothers =>
    obtain ⟨first, rest, rfl, hfirst, hrest⟩ := List.map_eq_append_iff.mp hinside
    obtain ⟨read, hread, d, rfl, rfl⟩ := hpart first hfirst
    obtain ⟨more, rfl, hmore, -⟩ := exists_more hothers hrest
    refine ⟨call function (d.meaning :: more.meaning.getD []) here, ?_,
      .call function here opening (.arguments d more) closing, rfl, rfl⟩
    rw [placeless, placeless, placelessList, placelessList, hread, hmore]

/-- Tokens of an operand that is derivable at the level of its slot. -/
def DerivableIn (o : Operand) (tokens : List Token) : Prop :=
  Derivable o.slot.level tokens o.expr

/-- An expression with derivable operands is derivable. -/
theorem derivable_tokensOf {e : Expr} {parts : List (List Token)}
    (hparts : List.Forall₂ DerivableIn e.operands parts) :
    Derivable e.level (e.tokensOf parts) e := by
  cases e with
  | literal value place => exact derivable_tokens (literal value place)
  | name id place => exact derivable_tokens (name id place)
  | binary op left right place =>
    cases hparts with
    | cons hleft hothers =>
      cases hothers with
      | cons hright hnone =>
        cases hnone
        exact Derivable.binary hleft hright place
  | compare op left right place =>
    cases hparts with
    | cons hleft hothers =>
      cases hothers with
      | cons hright hnone =>
        cases hnone
        exact Derivable.compare hleft hright place
  | tuple items place => exact derivable_tuple (List.forall₂_map_left_iff.mp hparts) place
  | call function args place => exact derivable_call (List.forall₂_map_left_iff.mp hparts) place

end Expr

namespace Program

open Walkthrough.Expr

/-- A token that starts an expression starts a simple statement. -/
theorem notMem_of_startsExpr {t : Token} (h : t.startsExpr = true) :
    t ∉ [.endOfFile, .newline, .indent] := by
  intro hlayout
  simp only [List.mem_cons, List.not_mem_nil, or_false] at hlayout
  rcases hlayout with rfl | rfl | rfl <;> cases h

/-- The tokens of a derivation on a line are a program of the expression that it makes. -/
theorem ofLexemes_derived (d : Derivation .list) (place : Location) :
    ∃ here, ofLexemes (d.tokens ++ [⟨.newline, place⟩, ⟨.endOfFile, place⟩]) =
      .ok [.expression d.meaning here] := by
  have hclosers : Token.newline ∈ Token.closers := by decide
  have hlist := d.finds [⟨.newline, place⟩, ⟨.endOfFile, place⟩] hclosers
  obtain ⟨first, mid, hfirst, -⟩ := reads_parseList.mp hlist
  have hstarts := startsExpr_of_reads_parse hfirst
  have hsides : Reads (Stmt.parseSides [⟨.newline, place⟩, ⟨.endOfFile, place⟩]) [] _ :=
    Stmt.reads_parseSides.mpr (.inl ⟨by simp [next], rfl, rfl⟩)
  have hend : Reads (Stmt.parseEnd [⟨.newline, place⟩, ⟨.endOfFile, place⟩]) () _ :=
    Stmt.reads_parseEnd.mpr (.inl ⟨place, rfl⟩)
  have hsimple := Stmt.reads_parseSimple.mpr ⟨_, _, hlist, [], _, hsides, hend, rfl⟩
  have hstatement := Stmt.reads_parse.mpr
    (.inr (.inr (.inr (.inr ⟨opensStatement_of_startsExpr hstarts, hsimple⟩))))
  exact ⟨_, (ofLexemes_statement (notMem_of_startsExpr hstarts)).mpr
    ⟨_, _, hstatement, [], ofLexemes_end rfl, rfl⟩⟩

/-- A statement of one expression is a list of expressions up to the end of a line or of the
text. -/
theorem reads_parseList_of_expression {ts rest : List Lexeme} {e : Expr} {here : Location}
    (h : Reads (Stmt.parse ts) (.expression e here) rest) :
    ∃ mid, Reads (parseList ts) e mid ∧ (next mid).token ∈ [.newline, .endOfFile] := by
  rcases Stmt.reads_parse.mp h with ⟨_, _, -, _, _, _, -, _, -, hkind⟩ | ⟨_, _, -, _, _, -, hkind⟩ |
    ⟨_, _, -, _, _, _, -, _, -, hkind⟩ | ⟨place, after, -, hback⟩ | ⟨-, hsimple⟩
  · cases hkind
  · cases hkind
  · cases hkind
  · rcases Stmt.reads_parseGiveBack.mp hback with ⟨-, -, hkind⟩ | ⟨-, _, _, -, -, hkind⟩ <;>
      cases hkind
  · obtain ⟨first, mid, hlist, others, after, hsides, hend, hkind⟩ :=
      Stmt.reads_parseSimple.mp hsimple
    unfold Stmt.ofSides at hkind
    split at hkind
    · next hlast =>
      cases hkind
      rw [List.getLast?_eq_none_iff] at hlast
      subst hlast
      rcases Stmt.reads_parseSides.mp hsides with ⟨-, -, rfl⟩ | ⟨_, _, -, _, _, -, _, -, hnone⟩
      · refine ⟨mid, hlist, ?_⟩
        rcases Stmt.reads_parseEnd.mp hend with ⟨place, rfl⟩ | ⟨hend, -⟩
        · exact List.mem_cons_self
        · rw [hend]
          exact List.mem_cons_of_mem _ List.mem_cons_self
      · cases hnone
    · cases hkind

/-- The tokens of a derivation are on one line. -/
theorem onOneLine_tokens (d : Derivation .list) (h : AllUnsigned d.tokens) :
    ∀ t ∈ d.tokens, t.token ∉ [.newline, .endOfFile] := by
  obtain ⟨ds, hfills, -⟩ := d.deep h
  have hdepths := hfills 0 []
  rw [depths, Option.map_some] at hdepths
  intro t ht
  have hmem : t.token ∈ d.tokens.map Lexeme.token := List.mem_map_of_mem ht
  exact onOneLine_of_depths hdepths t.token (List.mem_append_left _ hmem)

/-- If tokens of one line are a program of one expression, they have a derivation that makes
it. -/
theorem exists_derivation {ts : List Lexeme} (hunsigned : AllUnsigned ts)
    (hline : ∀ t ∈ ts, t.token ∉ [.newline, .endOfFile]) {first : Token} {others : List Token}
    (htokens : ts.map Lexeme.token = first :: others) (hfirst : first.startsExpr = true)
    {read : Expr} {place here : Location}
    (h : ofLexemes (ts ++ [⟨.newline, place⟩, ⟨.endOfFile, place⟩]) =
      .ok [.expression read here]) :
    ∃ d : Derivation .list, d.tokens = ts ∧ d.meaning = read := by
  have hstarts : (next (ts ++ [⟨.newline, place⟩, ⟨.endOfFile, place⟩])).token.startsExpr = true :=
    next_startsExpr htokens hfirst
  obtain ⟨s, rest, hstatement, later, -, hprogram⟩ :=
    (ofLexemes_statement (notMem_of_startsExpr hstarts)).mp h
  cases hprogram
  obtain ⟨mid, hlist, hmid⟩ := reads_parseList_of_expression hstatement
  obtain ⟨d, htaken, rfl⟩ := takes_parseList hlist
  refine ⟨d, ?_, rfl⟩
  have hall : AllUnsigned d.tokens := by
    have hsum : AllUnsigned (ts ++ [⟨.newline, place⟩, ⟨.endOfFile, place⟩]) :=
      List.forall_mem_append.mpr ⟨hunsigned, by simp [isUnsigned]⟩
    rw [htaken] at hsum
    exact hsum.append.1
  -- Neither the derivation nor the tokens before the end of the line reach over it.
  rcases List.append_eq_append_iff.mp htaken with ⟨more, hmore, hrest⟩ | ⟨more, hmore, hrest⟩
  · cases more with
    | nil => rw [hmore, List.append_nil]
    | cons t more =>
      obtain ⟨rfl, -⟩ := List.cons.inj hrest
      have ht := onOneLine_tokens d hall ⟨.newline, place⟩ (hmore ▸ by simp)
      simp at ht
  · cases more with
    | nil => rw [hmore, List.append_nil]
    | cons t more =>
      subst hrest
      exact absurd hmid (hline t (hmore ▸ by simp))

end Program

end Walkthrough
