import Walkthrough.Proofs.Functions
import Walkthrough.Proofs.Identity
import Walkthrough.Proofs.Outlines
import Walkthrough.Proofs.Positions

/-!
# Constructs and their places

A step with an id comes from a loop, a branch, an alternative, a definition, a return or a
call, and the id stands for the place of this construct. The constructs of a program that was
read are listed here in the order of its text. Each of them is at the place of a token of
its own, and the tokens are read one after the other, so no two constructs are at the same
place, and an id tells the construct.
-/

namespace Walkthrough

open Lexeme

/-- A construct that emits steps under the id of its place. -/
inductive Emitter where
  | loop (target iterable : Expr) (body : List Stmt) (location : Location)
  | branch (condition : Expr) (body : List Stmt) (location : Location)
  | alternative (body : List Stmt) (location : Location)
  | define (name : String) (params : List String) (body : List Stmt) (location : Location)
  | giveBack (value : Option Expr) (location : Location)
  | call (function : String) (args : List Expr) (location : Location)

/-- The place of a construct. -/
def Emitter.location : Emitter → Location
  | loop _ _ _ location => location
  | branch _ _ location => location
  | alternative _ location => location
  | define _ _ _ location => location
  | giveBack _ location => location
  | call _ _ location => location

namespace Expr

mutual

/-- The calls of an expression, at any depth. -/
def emitters : Expr → List Emitter
  | literal _ _ => []
  | name _ _ => []
  | binary _ left right _ => left.emitters ++ right.emitters
  | compare _ left right _ => left.emitters ++ right.emitters
  | tuple items _ => allEmitters items
  | call function args location => .call function args location :: allEmitters args

/-- The calls of some expressions, at any depth. -/
def allEmitters : List Expr → List Emitter
  | [] => []
  | item :: others => item.emitters ++ allEmitters others

end

/-- Parentheses make no call. -/
theorem emitters_grouped (e : Expr) (place : Location) :
    (e.grouped place).emitters = e.emitters := by
  cases e <;> rfl

theorem allEmitters_append (first others : List Expr) :
    allEmitters (first ++ others) = allEmitters first ++ allEmitters others := by
  induction first with
  | nil => rfl
  | cons item first ih => rw [List.cons_append, allEmitters, allEmitters, ih, List.append_assoc]

end Expr

namespace Stmt

mutual

/-- The constructs of a statement, at any depth. -/
def emitters : Stmt → List Emitter
  | .assign targets value _ => Expr.allEmitters targets ++ value.emitters
  | .loop target iterable body location =>
    .loop target iterable body location ::
      (target.emitters ++ iterable.emitters ++ allEmitters body)
  | .choose branches alternative _ => branchEmitters branches ++ otherwiseEmitters alternative
  | .define name params body location => .define name params body location :: allEmitters body
  | .giveBack none location => [.giveBack none location]
  | .giveBack (some value) location => .giveBack (some value) location :: value.emitters
  | .expression value _ => value.emitters

/-- The constructs of some statements, at any depth. -/
def allEmitters : List Stmt → List Emitter
  | [] => []
  | statement :: others => statement.emitters ++ allEmitters others

/-- The constructs of some branches, at any depth. -/
def branchEmitters : List Branch → List Emitter
  | [] => []
  | .mk condition body location :: others =>
    .branch condition body location ::
      (condition.emitters ++ allEmitters body ++ branchEmitters others)

/-- The constructs of an alternative, at any depth. -/
def otherwiseEmitters : Option Otherwise → List Emitter
  | none => []
  | some (.mk body location) => .alternative body location :: allEmitters body

end

end Stmt

/-- The constructs of a program, in the order of its text. -/
def Program.emitters (program : Program) : List Emitter := Stmt.allEmitters program

/-- Some constructs are at some of these places, in their order. -/
def Emitter.Along (emitters : List Emitter) (places : List Location) : Prop :=
  (emitters.map Emitter.location).Sublist places

namespace Emitter.Along

variable {emitters others : List Emitter} {places more : List Location}

theorem nil (places : List Location) : Along [] places := List.nil_sublist places

theorem cons (emitter : Emitter) (h : Along emitters places) :
    Along (emitter :: emitters) (emitter.location :: places) := List.Sublist.cons_cons _ h

theorem skip (place : Location) (h : Along emitters places) : Along emitters (place :: places) :=
  List.Sublist.cons place h

theorem append (h : Along emitters places) (h' : Along others more) :
    Along (emitters ++ others) (places ++ more) := by
  unfold Along
  rw [List.map_append]
  exact List.Sublist.append h h'

theorem widen (h : Along emitters places) (hmore : places.Sublist more) : Along emitters more :=
  List.Sublist.trans h hmore

end Emitter.Along

/-- The calls of what was made of some tokens are at the places of these tokens, in order. What
follows the first operand of a chain adds its calls after those of the operand. -/
def Category.Holds : (c : Category) → List Location → c.Meaning → Prop
  | list, places, e => Emitter.Along e.emitters places
  | more, places, items => Emitter.Along (Expr.allEmitters (items.getD [])) places
  | expression, places, e => Emitter.Along e.emitters places
  | chain _, places, e => Emitter.Along e.emitters places
  | further _, places, extend => ∃ added, Emitter.Along added places ∧
    ∀ left, (extend left).emitters = left.emitters ++ added
  | operand _, places, e => Emitter.Along e.emitters places
  | factor, places, e => Emitter.Along e.emitters places
  | power, places, e => Emitter.Along e.emitters places
  | atom, places, e => Emitter.Along e.emitters places
  | arguments, places, args => Emitter.Along (Expr.allEmitters args) places

/-- The calls of what a derivation makes are at the places of its tokens, in order. -/
theorem Derivation.holds {c : Category} (d : Derivation c) :
    c.Holds (places d.tokens) d.meaning := by
  induction d with
  | list first others hfirst hothers =>
    have hboth := hfirst.append hothers
    rw [← places_append] at hboth
    have hmade : (list first others).meaning.emitters =
        first.meaning.emitters ++ Expr.allEmitters (others.meaning.getD []) := by
      rw [meaning]
      cases others.meaning with
      | none => exact (List.append_nil _).symm
      | some items => rfl
    change Emitter.Along (list first others).meaning.emitters _
    rw [hmade]
    exact hboth
  | noMore => exact .nil _
  | lastComma comma => exact .nil _
  | oneMore comma item others hitem hothers =>
    have hboth := hitem.append hothers
    rw [← places_append] at hboth
    exact hboth.skip comma
  | single sum hsum => exact hsum
  | compare left op place right hleft hright =>
    have hboth := hleft.append (hright.skip place)
    exact hboth.widen (by rw [tokens, places_append]; exact List.Sublist.refl _)
  | chain first others hfirst hothers =>
    obtain ⟨added, hadded, hextend⟩ := hothers
    have hboth := hfirst.append hadded
    rw [← places_append] at hboth
    change Emitter.Along (others.meaning first.meaning).emitters _
    rw [hextend]
    exact hboth
  | noFurther => exact ⟨[], .nil _, fun left => (List.append_nil _).symm⟩
  | oneFurther op ofTier place right others hright hothers =>
    obtain ⟨added, hadded, hextend⟩ := hothers
    have hboth := Emitter.Along.append hright hadded
    rw [← places_append] at hboth
    refine ⟨_, hboth.skip place, fun left => ?_⟩
    change (others.meaning _).emitters = _
    rw [hextend, ← List.append_assoc]
    rfl
  | product factors hfactors => exact hfactors
  | factor only honly => exact honly
  | minus place number numberPlace => exact .nil _
  | power only honly => exact honly
  | plain atom hatom => exact hatom
  | raised base place exponent hbase hexponent =>
    have hboth := hbase.append (hexponent.skip place)
    exact hboth.widen (by rw [tokens, places_append]; exact List.Sublist.refl _)
  | name id place => exact .nil _
  | call id place opening args closing hargs =>
    have hinside := hargs.widen (places_sublist_append args.tokens [⟨.symbol .rightParen, closing⟩])
    exact (hinside.skip opening).cons (.call id args.meaning place)
  | constant written place => exact .nil _
  | empty opening closing => exact .nil _
  | parentheses opening inner closing hinner =>
    change Emitter.Along (inner.meaning.grouped opening).emitters _
    rw [Expr.emitters_grouped]
    have hinside :=
      hinner.widen (places_sublist_append inner.tokens [⟨.symbol .rightParen, closing⟩])
    exact hinside.skip opening
  | noArguments => exact .nil _
  | arguments first others hfirst hothers =>
    have hboth := hfirst.append hothers
    rw [← places_append] at hboth
    exact hboth

/-- The tokens of an expression are written ones. -/
theorem Derivation.isWritten_tokens {c : Category} (d : Derivation c) :
    ∀ t ∈ d.tokens, t.token.isWritten = true := by
  induction d with
  | minus place number numberPlace =>
    cases number <;> simp [tokens, WrittenNumber.token, Token.isWritten]
  | constant written place =>
    rcases written with number | truth | _
    · cases number <;> simp [tokens, WrittenConstant.token, WrittenNumber.token, Token.isWritten]
    · cases truth <;> simp [tokens, WrittenConstant.token, Token.isWritten]
    · simp [tokens, WrittenConstant.token, Token.isWritten]
  | _ => simp_all [tokens, or_imp, Token.isWritten]

/-- A list starts with a token that is written. -/
theorem Derivation.exists_first (d : Derivation .list) :
    ∃ t others, d.tokens = t :: others ∧ t.token.isWritten = true := by
  obtain ⟨t, others, htokens⟩ := List.exists_cons_of_ne_nil (d.tokens_ne_nil rfl)
  have hmem : t ∈ d.tokens := by
    rw [htokens]
    exact List.mem_cons_self
  exact ⟨t, others, htokens, d.isWritten_tokens t hmem⟩

/-- What was made of some tokens: constructs at the places of the tokens, in order, and statements
that start at places of the tokens. -/
structure Placed (emitters : List Emitter) (statements : List Stmt) (ts : List Lexeme) : Prop where
  inOrder : Emitter.Along emitters (places ts)
  started : ∀ s ∈ statements, s.location ∈ places ts

namespace Placed

variable {emitters others : List Emitter} {statements more : List Stmt} {ts us : List Lexeme}

/-- Constructs without statements. -/
theorem of_along (h : Emitter.Along emitters (places ts)) : Placed emitters [] ts :=
  ⟨h, fun _ hs => absurd hs List.not_mem_nil⟩

/-- Of any tokens nothing may be made. -/
theorem none (ts : List Lexeme) : Placed [] [] ts := of_along (.nil _)

/-- One thing is made of the tokens that follow those of another one. -/
theorem append (h : Placed emitters statements ts) (h' : Placed others more us) :
    Placed (emitters ++ others) (statements ++ more) (ts ++ us) where
  inOrder := by
    rw [places_append]
    exact h.inOrder.append h'.inOrder
  started s hs := by
    rw [places_append]
    exact (List.mem_append.mp hs).elim (fun hfirst => List.mem_append_left _ (h.started s hfirst))
      fun hmore => List.mem_append_right _ (h'.started s hmore)

/-- Tokens of which nothing is made come after the others. -/
theorem widen (h : Placed emitters statements ts) (us : List Lexeme) :
    Placed emitters statements (ts ++ us) := by
  have hall := h.append (none us)
  rwa [List.append_nil, List.append_nil] at hall

/-- A token of which nothing is made comes before the others. -/
theorem skip (h : Placed emitters statements ts) (t : Lexeme) :
    Placed emitters statements (t :: ts) := (none [t]).append h

/-- A construct at the place of a token that is written. -/
theorem cons {token : Token} (h : Placed emitters statements ts)
    (hwritten : token.isWritten = true) (emitter : Emitter) :
    Placed (emitter :: emitters) statements (⟨token, emitter.location⟩ :: ts) where
  inOrder := by
    rw [places_cons hwritten]
    exact h.inOrder.cons emitter
  started := (h.skip _).started

/-- A statement that starts at the place of one of the tokens. -/
theorem starting (h : Placed emitters statements ts) {s : Stmt} (hs : s.location ∈ places ts) :
    Placed emitters (s :: statements) ts where
  inOrder := h.inOrder
  started := List.forall_mem_cons.mpr ⟨hs, h.started⟩

end Placed

namespace Stmt

/-- A statement has the calls of its sides. -/
theorem emitters_ofSides (first : Expr) (others : List Expr) (place : Location) :
    (ofSides first others place).emitters = first.emitters ++ Expr.allEmitters others := by
  unfold ofSides
  split
  · next hnone =>
    rw [List.getLast?_eq_none_iff.mp hnone]
    exact (List.append_nil _).symm
  · next value hvalue =>
    obtain ⟨before, rfl⟩ := List.getLast?_eq_some_iff.mp hvalue
    rw [List.dropLast_concat, Expr.allEmitters_append, ← List.append_assoc]
    exact congrArg _ (List.append_nil _).symm

theorem parts_ofSides (first : Expr) (others : List Expr) (place : Location) :
    (ofSides first others place).parts = [ofSides first others place] := by
  unfold ofSides
  split <;> rfl

theorem location_ofSides (first : Expr) (others : List Expr) (place : Location) :
    (ofSides first others place).location = place := by
  unfold ofSides
  split <;> rfl

/-- The constructs of branches and an alternative. -/
def choiceEmitters (branches : List Branch) (alternative : Option Otherwise) : List Emitter :=
  branchEmitters branches ++ otherwiseEmitters alternative

theorem choiceEmitters_cons (condition : Expr) (body : List Stmt) (place : Location)
    (others : List Branch) (alternative : Option Otherwise) :
    choiceEmitters (.mk condition body place :: others) alternative =
      .branch condition body place ::
        (condition.emitters ++ (allEmitters body ++ choiceEmitters others alternative)) := by
  simp only [choiceEmitters, branchEmitters, List.cons_append, List.append_assoc]

end Stmt

/-- Constructs and statements are made of tokens at places of the tokens. A branch is made of the
tokens after its word, and is at the place of the word. -/
def Rule.Holds : (r : Rule) → List Lexeme → r.Meaning → Prop
  | ending, _, _ => True
  | sides, ts, es => Placed (Expr.allEmitters es) [] ts
  | simple, ts, s => Placed s.emitters s.parts ts
  | parameters, _, _ => True
  | moreParameters, _, _ => True
  | statement, ts, s => Placed s.emitters s.parts ts
  | block, ts, statements => Placed (Stmt.allEmitters statements) (Stmt.allParts statements) ts
  | body, ts, statements => Placed (Stmt.allEmitters statements) (Stmt.allParts statements) ts
  | branch, ts, made => ∀ token word, token.isWritten = true →
    Placed (Stmt.choiceEmitters (made word).1 (made word).2)
      (Stmt.choiceParts (made word).1 (made word).2) (⟨token, word⟩ :: ts)
  | otherwise, ts, made =>
    Placed (Stmt.choiceEmitters made.1 made.2) (Stmt.choiceParts made.1 made.2) ts
  | program, ts, statements => Placed (Stmt.allEmitters statements) (Stmt.allParts statements) ts

namespace Outline

/-- A simple statement has the calls of its sides, and starts with the first of them. -/
theorem holds_simple (first : Derivation .list) {others : Outline .sides}
    (ending : Outline .ending) (hothers : Rule.sides.Holds others.tokens others.meaning) :
    Rule.simple.Holds (simple first others ending).tokens
      (simple first others ending).meaning := by
  obtain ⟨t, after, htokens, hwritten⟩ := first.exists_first
  have hall := (Placed.of_along first.holds).append (hothers.widen ending.tokens)
  change Placed (Stmt.ofSides _ _ _).emitters (Stmt.ofSides _ _ _).parts _
  rw [Stmt.emitters_ofSides, Stmt.parts_ofSides]
  refine Placed.starting hall ?_
  rw [Stmt.location_ofSides, htokens]
  exact mem_places_cons hwritten t.location _

/-- A branch has the calls of its condition, its block and what follows it. -/
theorem holds_branch (condition : Derivation .expression) (colon : Location)
    {body : Outline .block} {others : Outline .otherwise}
    (hbody : Rule.block.Holds body.tokens body.meaning)
    (hothers : Rule.otherwise.Holds others.tokens others.meaning) :
    Rule.branch.Holds (branch condition colon body others).tokens
      (branch condition colon body others).meaning := by
  intro token word hwritten
  have hafter := (Placed.append hbody hothers).skip ⟨.symbol .colon, colon⟩
  change Placed (Stmt.choiceEmitters (.mk _ _ word :: others.meaning.1) others.meaning.2)
    (Stmt.choiceParts (.mk _ _ word :: others.meaning.1) others.meaning.2) _
  rw [Stmt.choiceEmitters_cons, Stmt.choiceParts_cons]
  exact ((Placed.of_along condition.holds).append hafter).cons hwritten
    (.branch condition.meaning body.meaning word)

/-- What an outline makes is at the places of its tokens, in order. -/
theorem holds {r : Rule} (d : Outline r) : r.Holds d.tokens d.meaning := by
  induction d with
  | line | lastLine | noParameters | parameters | noMoreParameters | oneMoreParameter => trivial
  | noSide | noStatement | nothing | finished => exact .none _
  | oneSide sign side others hothers =>
    exact ((Placed.of_along side.holds).append hothers).skip _
  | simple first others ending hothers => exact holds_simple first ending hothers
  | loop word target inWord iterable colon body hbody =>
    have hafter := ((Placed.of_along iterable.holds).append
      (Placed.skip hbody ⟨.symbol .colon, colon⟩)).skip ⟨.keyword .inWord, inWord⟩
    have hcalls := (Placed.of_along target.holds).append hafter
    rw [← List.append_assoc] at hcalls
    exact (hcalls.cons rfl (.loop target.meaning iterable.meaning body.meaning word)).starting
      (mem_places_cons rfl word _)
  | choose word first hfirst =>
    exact (hfirst (.keyword .ifWord) word rfl).starting (mem_places_cons rfl word _)
  | define word name place opening params closing colon body _ hbody =>
    have hafter := (Placed.none params.tokens).append
      ((Placed.skip hbody ⟨.symbol .colon, colon⟩).skip ⟨.symbol .rightParen, closing⟩)
    have hhead := (hafter.skip ⟨.symbol .leftParen, opening⟩).skip ⟨.name name, place⟩
    exact (hhead.cons rfl (.define name params.meaning body.meaning word)).starting
      (mem_places_cons rfl word _)
  | giveNothing word lineEnd =>
    exact ((Placed.none _).cons rfl (.giveBack none word)).starting (mem_places_cons rfl word _)
  | giveBack word value ending =>
    have hvalue := (Placed.of_along value.holds).widen ending.tokens
    exact (hvalue.cons rfl (.giveBack (some value.meaning) word)).starting
      (mem_places_cons rfl word _)
  | plain only honly => exact honly
  | inline only honly =>
    have hall := Placed.append honly (Placed.none [])
    rwa [List.append_nil only.tokens] at hall
  | indented lineEnd indent body dedent hbody => exact ((Placed.widen hbody _).skip _).skip _
  | oneStatement first others hfirst hothers => exact Placed.append hfirst hothers
  | branch condition colon body others hbody hothers =>
    exact holds_branch condition colon hbody hothers
  | further word inner hinner => exact hinner (.keyword .elifWord) word rfl
  | alternative word colon body hbody =>
    exact (Placed.skip hbody _).cons rfl (.alternative body.meaning word)
  | emptyLine place others hothers => exact Placed.skip hothers _
  | nextStatement first others hfirst hothers => exact Placed.append hfirst hothers

end Outline

namespace Program

variable {text : String} {program : Program}

/-- The constructs of a program that was read are at the places of tokens of its text, in order,
and its statements start at such places. -/
theorem placed_parse (h : parse text = .ok program) : ∃ ts, scan text = .ok ts ∧
    Placed program.emitters (Stmt.allParts program) ts := by
  obtain ⟨ts, hscan, h⟩ := except_bind_ok.mp h
  obtain ⟨rest, -, d, rfl, rfl⟩ := takes_ofLexemes h
  exact ⟨_, hscan, Placed.widen d.holds rest⟩

/-- The constructs of a program that was read are at different places. -/
theorem nodup_locations (h : parse text = .ok program) :
    (program.emitters.map Emitter.location).Nodup := by
  obtain ⟨ts, hscan, hplaced⟩ := placed_parse h
  exact ((pairwise_places hscan).sublist hplaced.inOrder).imp Location.Before.ne

/-- Constructs at the same place of a program that was read are the same. -/
theorem eq_of_location_eq (h : parse text = .ok program) {a b : Emitter}
    (ha : a ∈ program.emitters) (hb : b ∈ program.emitters) (heq : a.location = b.location) :
    a = b := by
  obtain ⟨i, hi, rfl⟩ := List.getElem_of_mem ha
  obtain ⟨j, hj, rfl⟩ := List.getElem_of_mem hb
  have hi' : i < (program.emitters.map Emitter.location).length := by rwa [List.length_map]
  have hj' : j < (program.emitters.map Emitter.location).length := by rwa [List.length_map]
  have hsame : (program.emitters.map Emitter.location)[i] =
      (program.emitters.map Emitter.location)[j] := by
    rw [List.getElem_map, List.getElem_map, heq]
  cases (List.getElem_inj (nodup_locations h)).mp hsame
  rfl

end Program

/-- Whether a construct may emit a step, by the kinds of both. -/
def Emitter.gives : Emitter → Step → Bool
  | loop .., .pass .. => true
  | branch .., .branch _ _ kind _ _ => kind != .otherwise
  | alternative .., .branch _ _ kind _ _ => kind == .otherwise
  | define name _ _ _, .define _ _ shown _ => name == shown
  | giveBack .., .giveBack .. => true
  | call function _ _, .print .. => function == "print"
  | call function _ _, .call .. => function != "print"
  | call function _ _, .endCall .. => function != "print"
  | _, _ => false

/-- A call emits its steps. -/
theorem Expr.Emits.exists_emitter {e : Expr} {step : Step} {location : Location}
    (h : e.Emits step location) :
    ∃ c ∈ e.emitters, c.location = location ∧ c.gives step = true := by
  cases h with
  | print => exact ⟨_, List.mem_cons_self, rfl, rfl⟩
  | call user => exact ⟨_, List.mem_cons_self, rfl, bne_iff_ne.mpr user⟩
  | endCall user => exact ⟨_, List.mem_cons_self, rfl, bne_iff_ne.mpr user⟩

/-- Branches and an alternative emit their steps. -/
theorem Branch.Emits.exists_emitter {alternative : Option Otherwise} {index : Nat}
    {kind found : BranchKind} {branches : List Branch} {r : Run} {place : Location}
    (h : Branch.Emits alternative index kind branches r found place) (hkind : kind ≠ .otherwise)
    (id depth : Nat) (text : String) (highlight : Highlight) :
    ∃ c ∈ Stmt.branchEmitters branches ++ Stmt.otherwiseEmitters alternative,
      c.location = place ∧ c.gives (.branch id depth found text highlight) = true := by
  induction h with
  | first => exact ⟨_, List.mem_cons_self, rfl, bne_iff_ne.mpr hkind⟩
  | further failed branch ih =>
    obtain ⟨c, hc, hgives⟩ := ih (by decide)
    refine ⟨c, ?_, hgives⟩
    rw [Stmt.branchEmitters]
    simp only [List.mem_append, List.mem_cons] at hc ⊢
    grind
  | otherwise given => subst given; exact ⟨_, List.mem_cons_self, rfl, rfl⟩

namespace Stmt

/-- The calls of the value of a statement are among its constructs. -/
theorem emitters_value {statement : Stmt} {e : Expr} (h : statement.value? = some e) :
    e.emitters ⊆ statement.emitters := by
  cases statement with
  | assign targets value location =>
    cases h
    exact List.subset_append_right _ _
  | giveBack value location =>
    cases h
    exact List.subset_cons_self _ _
  | expression value location =>
    cases h
    exact List.Subset.refl _
  | _ => cases h

/-- The steps of a statement come from its constructs. -/
theorem Emits.exists_emitter {before : Run} {index : Nat} {statement : Stmt} {step : Step}
    {location : Location} (h : statement.Emits before index step location) :
    ∃ c ∈ statement.emitters, c.location = location ∧ c.gives step = true := by
  cases h with
  | value needed emits =>
    obtain ⟨c, hc, hgives⟩ := emits.exists_emitter
    exact ⟨c, emitters_value needed hc, hgives⟩
  | pass => exact ⟨_, List.mem_cons_self, rfl, rfl⟩
  | branch emits => exact emits.exists_emitter (by decide) _ _ _ _
  | @giveBack value => cases value with
    | _ => exact ⟨_, List.mem_cons_self, rfl, rfl⟩
  | define => exact ⟨_, List.mem_cons_self, rfl, beq_self_eq_true _⟩

/-- A list with all constructs is handed on to the statements inside. -/
theorem inherited_emitters (all : List Emitter) : Inherited (emitters · ⊆ all)
    (allEmitters · ⊆ all) (branchEmitters · ⊆ all) (otherwiseEmitters · ⊆ all) where
  loop h := by
    rw [emitters, List.cons_subset, List.append_subset] at h
    exact h.2.2
  choose h := by rwa [emitters, List.append_subset] at h
  define h := by
    rw [emitters, List.cons_subset] at h
    exact h.2
  cons h := by rwa [allEmitters, List.append_subset] at h
  branch h := by
    rw [branchEmitters, List.cons_subset, List.append_subset, List.append_subset] at h
    exact ⟨h.2.1.2, h.2.2⟩
  otherwise h := by
    rw [otherwiseEmitters, List.cons_subset] at h
    exact h.2

/-- The constructs of a part of some statements are among those of the statements. -/
theorem emitters_subset_of_mem_allParts {part : Stmt} {body : List Stmt}
    (h : part ∈ allParts body) : part.emitters ⊆ allEmitters body :=
  (inherited_emitters (allEmitters body)).allParts body (List.Subset.refl _) h

end Stmt

namespace Program

/-- In the run of a program one of its constructs emits the step of an index. -/
structure EmittedBy (program : Program) (limits : Limits) (index : Nat) (step : Step)
    (emitter : Emitter) : Prop where
  mem : emitter ∈ program.emitters
  gives : emitter.gives step = true
  emits : program.Emits limits index step emitter.location

/-- What is emitted at a place is emitted by a construct of the program. -/
theorem Emits.exists_emittedBy {program : Program} {limits : Limits} {index : Nat} {step : Step}
    {location : Location} (h : program.Emits limits index step location) :
    ∃ emitter, program.EmittedBy limits index step emitter := by
  obtain ⟨calls, statement, before, after, hreach, hitself, hemits⟩ := h
  obtain ⟨emitter, hmem, rfl, hgives⟩ := hemits.exists_emitter
  exact ⟨emitter, Stmt.emitters_subset_of_mem_allParts hreach.mem_parts hmem, hgives,
    calls, statement, before, after, hreach, hitself, hemits⟩

end Program

/-- The constructs of a program that was read are at different places, at any depth. So an id
tells the construct: in a run that succeeds each step with an id is emitted by a construct of
the program, and two steps have the same id exactly if the same construct emits them. -/
theorem emitters_apart {text : String} {program : Program} (h : Program.parse text = .ok program) :
    (program.emitters.map Emitter.location).Nodup ∧
      ∀ limits trace, program.trace limits = .ok trace →
        (∀ index step id, trace.steps.toList[index]? = some step → step.id? = some id →
          ∃ emitter, program.EmittedBy limits index step emitter) ∧
        ∀ i j step step' id id' emitter emitter', trace.steps.toList[i]? = some step →
          trace.steps.toList[j]? = some step' → step.id? = some id → step'.id? = some id' →
          program.EmittedBy limits i step emitter → program.EmittedBy limits j step' emitter' →
          (id = id' ↔ emitter = emitter') := by
  refine ⟨Program.nodup_locations h, fun limits trace htrace => ?_⟩
  obtain ⟨flow, last, hrun, rfl⟩ := Program.trace_ok.mp htrace
  constructor
  · intro index step id hstep hid
    obtain ⟨location, hemits⟩ := Program.exists_emits hrun hstep hid
    exact hemits.exists_emittedBy
  · intro i j step step' id id' emitter emitter' hstep hstep' hid hid' hby hby'
    have hsource := hby.emits.sourceOf hrun hstep hid
    have hsource' := hby'.emits.sourceOf hrun hstep' hid'
    constructor
    · rintro rfl
      have hplace := Option.some.inj (hsource.symm.trans hsource')
      exact Program.eq_of_location_eq h hby.mem hby'.mem hplace
    · rintro rfl
      exact Program.sourceOf_injective hrun hsource hsource'

namespace Sample

/-- A function that calls itself in the body of a branch, and a call of it. -/
def recursion : String :=
  "def f(n):\n    if n > 1:\n        return f(n - 1)\n    else:\n        return n\nx = f(2)\n"

end Sample

/-- The outer call starts and ends under the id of one construct, and the inner call, of the same
function, under that of another one. -/
theorem recursion_apart : ∃ program trace, Program.parse Sample.recursion = .ok program ∧
    program.trace {} = .ok trace ∧ ∃ start end' inner outer other,
      trace.steps.toList[1]? = some start ∧ trace.steps.toList[5]? = some inner ∧
      trace.steps.toList[13]? = some end' ∧ outer ≠ other ∧
      program.EmittedBy {} 1 start outer ∧ program.EmittedBy {} 13 end' outer ∧
      program.EmittedBy {} 5 inner other := by
  have hseen : (traceText Sample.recursion {}).toOption.map (fun trace =>
      (trace.steps.toList[1]?, trace.steps.toList[5]?, trace.steps.toList[13]?)) =
      some (some (.call 2 0 "f" "f(n)" [⟨"n", "2"⟩]), some (.call 4 2 "f" "f(n)" [⟨"n", "1"⟩]),
        some (.endCall 2 0 "f" "1")) := by
    decide +kernel
  obtain ⟨trace, htrace, hseen⟩ := Option.map_eq_some_iff.mp hseen
  simp only [Prod.mk.injEq] at hseen
  obtain ⟨hstart, hinner, hend⟩ := hseen
  obtain ⟨program, hparse, htrace⟩ := traceText_ok (except_toOption_some.mp htrace)
  obtain ⟨hexists, hsame⟩ := (emitters_apart hparse).2 {} trace htrace
  obtain ⟨outer, houter⟩ := hexists 1 _ 2 hstart rfl
  obtain ⟨other, hother⟩ := hexists 5 _ 4 hinner rfl
  obtain ⟨closing, hclosing⟩ := hexists 13 _ 2 hend rfl
  have hclose := (hsame 1 13 _ _ 2 2 outer closing hstart hend rfl rfl houter hclosing).mp rfl
  have hapart := (hsame 1 5 _ _ 2 4 outer other hstart hinner rfl rfl houter hother).mpr
  subst hclose
  exact ⟨program, trace, hparse, htrace, _, _, _, outer, other, hstart, hinner, hend,
    fun heq => absurd (hapart heq) (by decide), houter, hclosing, hother⟩

end Walkthrough
