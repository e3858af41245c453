import Walkthrough.Proofs.Outlines

/-!
# What programs are made of

The names and constants of a program come from its tokens, and these from its text. So
every expression of a program that was read can be written, except that a number may be
too large for a double and be read as infinity.
-/

namespace Walkthrough

namespace Lexeme

/-- A property of all tokens that a text may be cut into: those of the layout, and those
that are read. -/
structure Scanned (p : Token → Prop) : Prop where
  newline : p .newline
  indent : p .indent
  dedent : p .dedent
  endOfFile : p .endOfFile
  read : ∀ {c : Char} {rest : List Char} {r : Token.Reading}, Token.read c rest = .ok r → p r.token

variable {p : Token → Prop}

/-- The marks at the end of a text are of the layout. -/
theorem Scanned.closing (hp : Scanned p) (place : Location) (blocks : List Nat) (lineOpen : Bool) :
    ∀ t ∈ closing place blocks lineOpen, p t.token := by
  intro t ht
  unfold Lexeme.closing at ht
  simp only [List.mem_append, List.mem_replicate, List.mem_singleton] at ht
  rcases ht with hline | ⟨_, rfl⟩ | rfl
  · cases lineOpen with
    | true =>
      cases List.mem_singleton.mp hline
      exact hp.newline
    | false => cases hline
  · exact hp.dedent
  · exact hp.endOfFile

/-- The marks before a line are of the layout. -/
theorem Scanned.layout (hp : Scanned p) {place : Location} {width : Nat} {blocks nested : List Nat}
    {marks : List Lexeme} (h : layout place width blocks = .ok (marks, nested)) :
    ∀ t ∈ marks, p t.token := by
  unfold Lexeme.layout at h
  intro t ht
  split at h
  · cases h
    cases List.mem_singleton.mp ht
    exact hp.indent
  · dsimp only at h
    split at h
    · cases h
      obtain ⟨_, rfl⟩ := List.mem_replicate.mp ht
      exact hp.dedent
    · cases h

mutual

/-- From the start of a line on, a text is cut into tokens with the property. -/
theorem Scanned.scanLine (hp : Scanned p) {place : Location} {blocks : List Nat} {text : List Char}
    {ts : List Lexeme} (h : scanLine place blocks text = .ok ts) : ∀ t ∈ ts, p t.token := by
  rw [Lexeme.scanLine] at h
  split at h
  · cases h
    exact hp.closing _ _ _
  · next c rest htext =>
    have hshorter : rest.length < text.length := by
      have hle := length_dropBlanks_le text
      rw [htext] at hle
      exact hle
    have hend := length_lineEnd_le rest
    dsimp only at h
    split at h
    · exact hp.scanLine h
    · split at h
      · exact hp.scanLine h
      · obtain ⟨⟨marks, nested⟩, hlayout, h⟩ := except_bind_ok.mp h
        obtain ⟨others, hothers, h⟩ := except_bind_ok.mp h
        cases except_pure_ok.mp h
        intro t ht
        rcases List.mem_append.mp ht with ht | ht
        · exact hp.layout hlayout t ht
        · exact hp.scanInner hothers t ht
termination_by 2 * text.length + 1

/-- From inside a line on, a text is cut into tokens with the property. -/
theorem Scanned.scanInner (hp : Scanned p) {place : Location} {blocks : List Nat} {parens : Nat}
    {lineOpen : Bool} {text : List Char} {ts : List Lexeme}
    (h : scanInner place blocks parens lineOpen text = .ok ts) : ∀ t ∈ ts, p t.token := by
  match text, h with
  | [], h =>
    rw [Lexeme.scanInner] at h
    cases h
    exact hp.closing _ _ _
  | c :: rest, h =>
    have hend := length_lineEnd_le rest
    rw [Lexeme.scanInner] at h
    split at h
    · exact hp.scanInner h
    · split at h
      · exact hp.scanInner h
      · split at h
        · split at h
          · obtain ⟨others, hothers, h⟩ := except_bind_ok.mp h
            cases except_pure_ok.mp h
            intro t ht
            split at ht
            · rcases List.mem_cons.mp ht with rfl | ht
              · exact hp.newline
              · exact hp.scanLine hothers t ht
            · exact hp.scanLine hothers t ht
          · exact hp.scanInner h
        · split at h
          · exact hp.scanInner h
          · split at h
            · cases h
            · next reading hread =>
              obtain ⟨others, hothers, h⟩ := except_bind_ok.mp h
              have hrest := Nat.lt_succ_of_le (Token.length_rest_of_read hread)
              have hafter := hp.scanInner hothers
              cases except_pure_ok.mp h
              intro t ht
              rcases List.mem_cons.mp ht with rfl | ht
              · exact hp.read hread
              · exact hafter t ht
termination_by 2 * text.length

end

/-- A text is cut into tokens with the property. -/
theorem Scanned.scan (hp : Scanned p) {text : String} {ts : List Lexeme} (h : scan text = .ok ts) :
    ∀ t ∈ ts, p t.token :=
  hp.scanLine h

end Lexeme

/-- A double of a rank is a number. -/
theorem Binary64.isNaN_ofRank (negative : Bool) (rank : Nat) :
    (ofRank negative rank).isNaN = false := by
  have hle : min rank infinityRank ≤ infinityRank := Nat.min_le_right _ _
  exact decide_eq_false (Nat.not_lt.mpr hle)

/-- Whether a constant is a number too large for a double. -/
def Literal.isInfinite : Literal → Bool
  | .float x => x.isInfinite
  | _ => false

/-- A token as texts are cut into: names are names, and numbers have no sign. -/
def Token.isSound : Token → Bool
  | .name text => isName text
  | .int n => 0 ≤ n
  | .float x => !x.isNaN
  | _ => true

namespace Token

/-- A number that is read has no sign and is a number. -/
theorem isSound_ofNumber {spelling : List Char} {t : Token} (h : ofNumber spelling = .ok t) :
    t.isSound = true := by
  unfold ofNumber at h
  dsimp only at h
  split at h
  · split at h
    · next hn =>
      cases h
      have hint := Int64.toInt_ofNat_of_lt hn
      simp only [isSound, decide_eq_true_eq, Int64.le_iff_toInt_le, hint]
      exact Int.natCast_nonneg _
    · cases h
  · split at h
    · next d _ =>
      cases h
      simp only [isSound, Decimal.toBinary64, Binary64.isNaN_ofRank, Bool.not_false]
    · cases h

/-- A word that is read and not reserved is a name. -/
theorem isSound_ofWord {c : Char} {cs : List Char} (hfirst : startsName c = true)
    (hothers : cs.all continuesName = true) : (ofWord (c :: cs)).isSound = true := by
  unfold ofWord
  dsimp only
  split
  · rfl
  · next hword =>
    simp only [isSound, isName, String.toList_ofList, hfirst, hothers, hword, Option.isNone_none,
      Bool.and_self]

/-- A token that is read is sound. -/
theorem isSound_read {c : Char} {rest : List Char} {r : Reading} (h : read c rest = .ok r) :
    r.token.isSound = true := by
  unfold read at h
  split at h
  · obtain ⟨t, ht, rfl⟩ := except_map_ok.mp h
    exact isSound_ofNumber ht
  · split at h
    · next hstarts =>
      cases h
      exact isSound_ofWord hstarts List.all_takeWhile
    · split at h
      · cases h
      · split at h
        · cases h
          rfl
        · cases h

/-- Texts are cut into sound tokens. -/
theorem scanned_isSound : Lexeme.Scanned fun t => t.isSound = true where
  newline := rfl
  indent := rfl
  dedent := rfl
  endOfFile := rfl
  read := isSound_read

/-- A name that a sound token stands for is a name. -/
theorem isName_of_name? {t : Token} {id : String} (ht : t.isSound = true) (h : t.name? = some id) :
    isName id = true := by
  cases t with
  | name text =>
    cases h
    exact ht
  | _ => cases h

end Token

/-- A constant as it may occur in a program that was read. -/
def Literal.isReadable (value : Literal) : Bool := value.isWritable || value.isInfinite

/-- A double that is a number is finite or infinite. -/
theorem Literal.isReadable_float {x : Binary64} (h : x.isNaN = false) :
    (Literal.float x).isReadable = true := by
  simp only [Binary64.isNaN, decide_eq_false_iff_not] at h
  simp only [isReadable, isWritable, isInfinite, Binary64.isFinite, Binary64.isInfinite,
    Bool.or_eq_true, decide_eq_true_eq]
  omega

/-- A whole number is not the least one. -/
theorem Literal.isReadable_int {n : Int64} (h : n ≠ Int64.minValue) :
    (Literal.int n).isReadable = true := by
  simp only [isReadable, isWritable, bne_iff_ne, ne_eq, h, not_false_eq_true, Bool.or_eq_true,
    true_or]

namespace Token

/-- A constant that a sound token stands for may occur in a program. -/
theorem isReadable_of_literal? {t : Token} {value : Literal} (ht : t.isSound = true)
    (h : t.literal? = some value) : value.isReadable = true := by
  cases t with
  | int n =>
    cases h
    refine Literal.isReadable_int ?_
    rintro rfl
    exact absurd ht (by decide)
  | float x =>
    cases h
    exact Literal.isReadable_float (by simpa [isSound] using ht)
  | keyword word => cases word <;> first | cases h; rfl | cases h
  | _ => cases h

/-- The opposite of a sound number may occur in a program. -/
theorem isReadable_of_negated? {t : Token} {value : Literal} (ht : t.isSound = true)
    (h : t.negated? = some value) : value.isReadable = true := by
  cases t with
  | int n =>
    cases h
    refine Literal.isReadable_int fun hmin => ?_
    have hn : n = -Int64.minValue := by rw [← hmin, Int64.neg_neg]
    rw [hn] at ht
    exact absurd ht (by decide)
  | float x =>
    cases h
    have hnumber : x.isNaN = false := by simpa [isSound] using ht
    exact Literal.isReadable_float hnumber
  | _ => cases h

end Token

/-- Only sound tokens. -/
def Lexeme.AllSound (ts : List Lexeme) : Prop := ∀ t ∈ ts, t.token.isSound = true

theorem Lexeme.allSound_cons {t : Lexeme} {ts : List Lexeme} :
    AllSound (t :: ts) ↔ t.token.isSound = true ∧ AllSound ts := List.forall_mem_cons

theorem Lexeme.allSound_append {ts us : List Lexeme} :
    AllSound (ts ++ us) ↔ AllSound ts ∧ AllSound us := List.forall_mem_append

namespace Expr

/-- An expression as it may occur in a program that was read. -/
def isReadable (e : Expr) : Bool := e.leavesAll Token.isName Literal.isReadable

/-- Some expressions as they may occur in a program that was read. -/
def allReadable (items : List Expr) : Bool := leavesAllList Token.isName Literal.isReadable items

theorem isReadable_grouped {e : Expr} (h : e.isReadable = true) (place : Location) :
    (e.grouped place).isReadable = true := by
  cases e <;> exact h

end Expr

open Lexeme

/-- What is made of tokens may occur in a program that was read. What follows the first operand
of a chain keeps this of the operand. -/
def Category.Readable : (c : Category) → c.Meaning → Prop
  | list, e => e.isReadable = true
  | more, items => Expr.allReadable (items.getD []) = true
  | expression, e => e.isReadable = true
  | chain _, e => e.isReadable = true
  | further _, extend => ∀ left, left.isReadable = true → (extend left).isReadable = true
  | operand _, e => e.isReadable = true
  | factor, e => e.isReadable = true
  | power, e => e.isReadable = true
  | atom, e => e.isReadable = true
  | arguments, args => Expr.allReadable args = true

/-- What a derivation makes of sound tokens may occur in a program. -/
theorem Derivation.readable {c : Category} (d : Derivation c) (h : AllSound d.tokens) :
    c.Readable d.meaning := by
  induction d with
  | list first others hfirst hothers =>
    obtain ⟨hleft, hright⟩ := allSound_append.mp h
    have hitems := hothers hright
    change (list first others).meaning.isReadable = true
    rw [meaning]
    cases hmade : others.meaning with
    | none => exact hfirst hleft
    | some items =>
      rw [Category.Readable, hmade] at hitems
      exact Bool.and_eq_true_iff.mpr ⟨hfirst hleft, hitems⟩
  | noMore => rfl
  | lastComma comma => rfl
  | oneMore comma item others hitem hothers =>
    obtain ⟨hleft, hright⟩ := allSound_append.mp (allSound_cons.mp h).2
    exact Bool.and_eq_true_iff.mpr ⟨hitem hleft, hothers hright⟩
  | single sum hsum => exact hsum h
  | compare left op place right hleft hright =>
    obtain ⟨hfirst, hsecond⟩ := allSound_append.mp h
    exact Bool.and_eq_true_iff.mpr ⟨hleft hfirst, hright (allSound_cons.mp hsecond).2⟩
  | chain first others hfirst hothers =>
    obtain ⟨hleft, hright⟩ := allSound_append.mp h
    exact hothers hright _ (hfirst hleft)
  | noFurther => exact fun left hleft => hleft
  | oneFurther op ofTier place right others hright hothers =>
    obtain ⟨hoperand, hmore⟩ := allSound_append.mp (allSound_cons.mp h).2
    exact fun left hleft =>
      hothers hmore _ (Bool.and_eq_true_iff.mpr ⟨hleft, hright hoperand⟩)
  | product factors hfactors => exact hfactors h
  | factor only honly => exact honly h
  | minus place number numberPlace =>
    have hnumber := (allSound_cons.mp (allSound_cons.mp h).2).1
    exact Token.isReadable_of_negated? hnumber (Token.negated?_eq_some.mpr ⟨number, rfl, rfl⟩)
  | power only honly => exact honly h
  | plain atom hatom => exact hatom h
  | raised base place exponent hbase hexponent =>
    obtain ⟨hfirst, hsecond⟩ := allSound_append.mp h
    exact Bool.and_eq_true_iff.mpr ⟨hbase hfirst, hexponent (allSound_cons.mp hsecond).2⟩
  | name id place => exact Token.isName_of_name? (allSound_cons.mp h).1 rfl
  | call id place opening args closing hargs =>
    obtain ⟨hname, hinside⟩ := allSound_cons.mp h
    have hgiven := (allSound_append.mp (allSound_cons.mp hinside).2).1
    exact Bool.and_eq_true_iff.mpr ⟨Token.isName_of_name? hname rfl, hargs hgiven⟩
  | constant written place =>
    exact Token.isReadable_of_literal? (allSound_cons.mp h).1
      (Token.literal?_eq_some.mpr ⟨written, rfl, rfl⟩)
  | empty opening closing => rfl
  | parentheses opening inner closing hinner =>
    have hinside := (allSound_append.mp (allSound_cons.mp h).2).1
    exact Expr.isReadable_grouped (hinner hinside) opening
  | noArguments => rfl
  | arguments first others hfirst hothers =>
    obtain ⟨hleft, hright⟩ := allSound_append.mp h
    exact Bool.and_eq_true_iff.mpr ⟨hfirst hleft, hothers hright⟩

namespace Stmt

mutual

/-- The expressions of a statement and of those inside it. -/
def expressions : Stmt → List Expr
  | .assign targets value _ => value :: targets
  | .loop target iterable body _ => target :: iterable :: allExpressions body
  | .choose branches alternative _ => branchExpressions branches ++ otherwiseExpressions alternative
  | .define _ _ body _ => allExpressions body
  | .giveBack value _ => value.toList
  | .expression value _ => [value]

/-- The expressions of some statements. -/
def allExpressions : List Stmt → List Expr
  | [] => []
  | statement :: others => statement.expressions ++ allExpressions others

/-- The expressions of some branches. -/
def branchExpressions : List Branch → List Expr
  | [] => []
  | .mk condition body _ :: others =>
    condition :: (allExpressions body ++ branchExpressions others)

/-- The expressions of an alternative. -/
def otherwiseExpressions : Option Otherwise → List Expr
  | none => []
  | some (.mk body _) => allExpressions body

end

end Stmt

/-- The expressions of a program. -/
def Program.expressions (program : Program) : List Expr := Stmt.allExpressions program

namespace Stmt

/-- Only expressions as they may occur in a program that was read. -/
def AllReadable (es : List Expr) : Prop := ∀ e ∈ es, e.isReadable = true

theorem AllReadable.nil : AllReadable [] := fun _ h => absurd h List.not_mem_nil

theorem AllReadable.cons {e : Expr} {es : List Expr} (he : e.isReadable = true)
    (hes : AllReadable es) : AllReadable (e :: es) :=
  fun x hx => (List.mem_cons.mp hx).elim (fun heq => heq ▸ he) (hes x)

theorem AllReadable.append {as bs : List Expr} (has : AllReadable as) (hbs : AllReadable bs) :
    AllReadable (as ++ bs) :=
  fun x hx => (List.mem_append.mp hx).elim (has x) (hbs x)

/-- A statement has the expressions of its sides. -/
theorem allReadable_ofSides {first : Expr} {others : List Expr} (hfirst : first.isReadable = true)
    (hothers : AllReadable others) (place : Location) :
    AllReadable (ofSides first others place).expressions := by
  unfold ofSides
  split
  · exact .cons hfirst .nil
  · next value hvalue =>
    refine .cons (hothers value (List.mem_of_getLast? hvalue)) (.cons hfirst fun e he => ?_)
    exact hothers e (List.dropLast_subset _ he)

end Stmt

/-- What is made of tokens may occur in a program that was read: its expressions may, and the
parameters of a definition are names. -/
def Rule.Readable : (r : Rule) → r.Meaning → Prop
  | ending, _ => True
  | sides, es => Stmt.AllReadable es
  | simple, s => Stmt.AllReadable s.expressions
  | parameters, params => ∀ id ∈ params, Token.isName id = true
  | moreParameters, params => ∀ id ∈ params, Token.isName id = true
  | statement, s => Stmt.AllReadable s.expressions
  | block, statements => Stmt.AllReadable (Stmt.allExpressions statements)
  | body, statements => Stmt.AllReadable (Stmt.allExpressions statements)
  | branch, made => ∀ word,
    Stmt.AllReadable (Stmt.branchExpressions (made word).1 ++
      Stmt.otherwiseExpressions (made word).2)
  | otherwise, made =>
    Stmt.AllReadable (Stmt.branchExpressions made.1 ++ Stmt.otherwiseExpressions made.2)
  | program, statements => Stmt.AllReadable (Stmt.allExpressions statements)

/-- What an outline makes of sound tokens may occur in a program. -/
theorem Outline.readable {r : Rule} (d : Outline r) (h : AllSound d.tokens) :
    r.Readable d.meaning := by
  induction d with
  | line | lastLine => trivial
  | noSide => exact .nil
  | oneSide sign side others hothers =>
    obtain ⟨hside, hmore⟩ := allSound_append.mp (allSound_cons.mp h).2
    exact .cons (side.readable hside) (hothers hmore)
  | simple first others ending hothers =>
    obtain ⟨hfirst, hmore⟩ := allSound_append.mp h
    exact Stmt.allReadable_ofSides (first.readable hfirst)
      (hothers (allSound_append.mp hmore).1) _
  | noParameters | noMoreParameters => exact nofun
  | parameters id place others hothers =>
    obtain ⟨hname, hmore⟩ := allSound_cons.mp h
    exact List.forall_mem_cons.mpr ⟨Token.isName_of_name? hname rfl, hothers hmore⟩
  | oneMoreParameter comma id place others hothers =>
    obtain ⟨hname, hmore⟩ := allSound_cons.mp (allSound_cons.mp h).2
    exact List.forall_mem_cons.mpr ⟨Token.isName_of_name? hname rfl, hothers hmore⟩
  | loop word target inWord iterable colon body hbody =>
    obtain ⟨htarget, hafter⟩ := allSound_append.mp (allSound_cons.mp h).2
    obtain ⟨hrange, hblock⟩ := allSound_append.mp (allSound_cons.mp hafter).2
    exact .cons (target.readable htarget)
      (.cons (iterable.readable hrange) (hbody (allSound_cons.mp hblock).2))
  | choose word first hfirst => exact hfirst (allSound_cons.mp h).2 word
  | define word name place opening params closing colon body _ hbody =>
    have hinside := (allSound_cons.mp (allSound_cons.mp (allSound_cons.mp h).2).2).2
    have hafter := (allSound_append.mp hinside).2
    exact hbody (allSound_cons.mp (allSound_cons.mp hafter).2).2
  | giveNothing => exact .nil
  | giveBack word value ending =>
    exact .cons (value.readable (allSound_append.mp (allSound_cons.mp h).2).1) .nil
  | plain only honly => exact honly h
  | inline only honly => exact .append (honly h) .nil
  | indented lineEnd indent body dedent hbody =>
    exact hbody (allSound_append.mp (allSound_cons.mp (allSound_cons.mp h).2).2).1
  | noStatement | finished => exact .nil
  | oneStatement first others hfirst hothers =>
    obtain ⟨hleft, hright⟩ := allSound_append.mp h
    exact .append (hfirst hleft) (hothers hright)
  | branch condition colon body others hbody hothers =>
    intro word
    obtain ⟨htest, hafter⟩ := allSound_append.mp h
    obtain ⟨hblock, hmore⟩ := allSound_append.mp (allSound_cons.mp hafter).2
    have hall := Stmt.AllReadable.append (hbody hblock) (hothers hmore)
    rw [← List.append_assoc] at hall
    exact .cons (condition.readable htest) hall
  | nothing => exact .nil
  | further word inner hinner => exact hinner (allSound_cons.mp h).2 word
  | alternative word colon body hbody =>
    exact hbody (allSound_cons.mp (allSound_cons.mp h).2).2
  | emptyLine place others hothers => exact hothers (allSound_cons.mp h).2
  | nextStatement first others hfirst hothers =>
    obtain ⟨hleft, hright⟩ := allSound_append.mp h
    exact .append (hfirst hleft) (hothers hright)

/-- Every expression of a program that was read can be written, unless it has a number too
large for a double. -/
theorem Program.allReadable_parse {text : String} {program : Program}
    (h : parse text = .ok program) : Stmt.AllReadable program.expressions := by
  obtain ⟨ts, hscan, h⟩ := except_bind_ok.mp h
  obtain ⟨rest, -, d, rfl, rfl⟩ := takes_ofLexemes h
  exact d.readable (allSound_append.mp (Token.scanned_isSound.scan hscan)).1

end Walkthrough
