import Walkthrough.Proofs.Emitters
import Walkthrough.Proofs.Vocabulary

/-!
# The statements inside a program

Each statement inside a program, however deep it stands, is made of some of its tokens. So what is
known of the tokens holds of all statements: the names in their expressions and in the heads of
their definitions are names.
-/

namespace Walkthrough

open Lexeme

namespace Stmt

/-- The names in the head of a definition: of the function and of its parameters. -/
def headNames : Stmt → List String
  | .define name params _ _ => name :: params
  | _ => []

/-- A statement as it may occur in a program that was read. -/
structure IsReadable (s : Stmt) : Prop where
  /-- Its expressions may. -/
  expressions : AllReadable s.expressions
  /-- The names in its head are names. -/
  names : ∀ id ∈ s.headNames, Token.isName id = true

/-- Only statements as they may occur in a program that was read. -/
def AllIsReadable (statements : List Stmt) : Prop := ∀ s ∈ statements, s.IsReadable

/-- A simple statement is no definition. -/
theorem headNames_ofSides (first : Expr) (others : List Expr) (place : Location) :
    (ofSides first others place).headNames = [] := by
  unfold ofSides
  split <;> rfl

end Stmt

/-- All statements that are made, however deep they stand, may occur in a program that was read. -/
def Rule.PartsReadable : (r : Rule) → r.Meaning → Prop
  | ending, _ => True
  | sides, _ => True
  | simple, s => Stmt.AllIsReadable s.parts
  | parameters, _ => True
  | moreParameters, _ => True
  | statement, s => Stmt.AllIsReadable s.parts
  | block, statements => Stmt.AllIsReadable (Stmt.allParts statements)
  | body, statements => Stmt.AllIsReadable (Stmt.allParts statements)
  | branch, made => ∀ word, Stmt.AllIsReadable (Stmt.choiceParts (made word).1 (made word).2)
  | otherwise, made => Stmt.AllIsReadable (Stmt.choiceParts made.1 made.2)
  | program, statements => Stmt.AllIsReadable (Stmt.allParts statements)

/-- All statements of an outline of sound tokens may occur in a program. -/
theorem Outline.partsReadable {r : Rule} (d : Outline r) (h : AllSound d.tokens) :
    r.PartsReadable d.meaning := by
  induction d with
  | line | lastLine | noSide | oneSide | noParameters | parameters | noMoreParameters
  | oneMoreParameter => trivial
  | simple first others ending =>
    have hitself := Outline.readable _ h
    change Stmt.AllIsReadable (Stmt.ofSides _ _ _).parts
    rw [Stmt.parts_ofSides]
    refine List.forall_mem_singleton.mpr ⟨hitself, ?_⟩
    rw [Stmt.headNames_ofSides]
    exact nofun
  | loop word target inWord iterable colon body hbody =>
    have hafter := (allSound_append.mp (allSound_cons.mp h).2).2
    have hblock := (allSound_append.mp (allSound_cons.mp hafter).2).2
    exact List.forall_mem_cons.mpr
      ⟨⟨Outline.readable _ h, nofun⟩, hbody (allSound_cons.mp hblock).2⟩
  | choose word first hfirst =>
    exact List.forall_mem_cons.mpr
      ⟨⟨Outline.readable _ h, nofun⟩, hfirst (allSound_cons.mp h).2 word⟩
  | define word name place opening params closing colon body _ hbody =>
    obtain ⟨hname, hhead⟩ := allSound_cons.mp (allSound_cons.mp h).2
    obtain ⟨hparams, hafter⟩ := allSound_append.mp (allSound_cons.mp hhead).2
    have hnames : ∀ id ∈ name :: params.meaning, Token.isName id = true :=
      List.forall_mem_cons.mpr ⟨Token.isName_of_name? hname rfl, params.readable hparams⟩
    exact List.forall_mem_cons.mpr
      ⟨⟨Outline.readable _ h, hnames⟩, hbody (allSound_cons.mp (allSound_cons.mp hafter).2).2⟩
  | giveNothing | giveBack => exact List.forall_mem_singleton.mpr ⟨Outline.readable _ h, nofun⟩
  | plain only honly => exact honly h
  | inline only honly => exact List.forall_mem_append.mpr ⟨honly h, nofun⟩
  | indented lineEnd indent body dedent hbody =>
    exact hbody (allSound_append.mp (allSound_cons.mp (allSound_cons.mp h).2).2).1
  | noStatement | nothing | finished => exact nofun
  | oneStatement first others hfirst hothers | nextStatement first others hfirst hothers =>
    obtain ⟨hleft, hright⟩ := allSound_append.mp h
    exact List.forall_mem_append.mpr ⟨hfirst hleft, hothers hright⟩
  | branch condition colon body others hbody hothers =>
    intro word
    obtain ⟨hblock, hmore⟩ := allSound_append.mp (allSound_cons.mp (allSound_append.mp h).2).2
    change Stmt.AllIsReadable (Stmt.choiceParts (.mk _ _ word :: others.meaning.1) others.meaning.2)
    rw [Stmt.choiceParts_cons]
    exact List.forall_mem_append.mpr ⟨hbody hblock, hothers hmore⟩
  | further word inner hinner => exact hinner (allSound_cons.mp h).2 word
  | alternative word colon body hbody => exact hbody (allSound_cons.mp (allSound_cons.mp h).2).2
  | emptyLine place others hothers => exact hothers (allSound_cons.mp h).2

/-- The statements inside a program that was read. -/
theorem Program.isReadable_parts {text : String} {program : Program}
    (h : parse text = .ok program) : ∀ part ∈ Stmt.allParts program, part.IsReadable := by
  obtain ⟨ts, hscan, h⟩ := except_bind_ok.mp h
  obtain ⟨rest, -, d, rfl, rfl⟩ := takes_ofLexemes h
  exact d.partsReadable (allSound_append.mp (Token.scanned_isSound.scan hscan)).1

end Walkthrough
