import Walkthrough.Proofs.Parts
import Walkthrough.Proofs.Points

/-!
# Properties of the state that statements keep

A property of the state that the actions of single statements keep is kept by all statements that
succeed. The statements may be restricted, if the restriction is handed on to the statements inside
them. The walk through loops, choices and blocks is made here once: a property has only to be told
for assignments, definitions, returns and calls, for the passes of loops and for tests.
-/

namespace Walkthrough

namespace Walk

/-- An action that succeeds keeps a property of the state. -/
def Preserves {α : Type} (P : Run → Prop) (m : Walk α) : Prop :=
  ∀ ⦃r : Run⦄ ⦃a : α⦄ ⦃s : Run⦄, P r → m r = .ok a s → P s

namespace Preserves

variable {α : Type} {P : Run → Prop} {body : Walk Flow} {id : Nat} {counter : Counter}

/-- An action one level deeper keeps a property that the level does not touch. -/
theorem nested {action : Walk α} (h : Preserves P action)
    (hentered : ∀ {r : Run}, P r → P r.entered) (hexited : ∀ {r : Run}, P r → P r.exited) :
    Preserves P (Walk.nested action) := by
  intro r a s hr hs
  obtain ⟨t, ht, _, rfl⟩ := nested_ok hs
  exact hexited (h (hentered hr) ht)

/-- The passes of a loop keep what its body and the starts of its passes keep. -/
theorem passes (hbody : Preserves P body)
    (hstart : ∀ later : Counter, later.target = counter.target → Preserves P (startPass id later)) :
    Preserves P (Walk.passes id body counter) := by
  intro r flow u hr hu
  induction counter using passes.induct generalizing r with
  | case1 counter range ih =>
    rcases passes_ok hu with ⟨_, _, rfl⟩ | ⟨_, s, t, hs, hran⟩
    · exact hr
    · have hstarted := hstart counter rfl hr hs
      rcases hran with ⟨value, _, hreturned⟩ | ⟨hnormal, hrest⟩
      · exact hbody hstarted hreturned
      · exact ih hstart (hbody hstarted hnormal) hrest
  | case2 counter range =>
    rcases passes_ok hu with ⟨_, _, rfl⟩ | ⟨hin, _⟩
    · exact hr
    · exact absurd hin range

/-- A pass that a loop comes to starts with what its body and the starts of its passes keep. -/
theorem passStarts (hbody : Preserves P body) (hstart : ∀ later, Preserves P (startPass id later))
    {r s : Run} (h : PassStarts id body counter r s) (hr : P r) : P s := by
  induction h with
  | next range start => exact hstart _ hr start
  | later range start ended pass ih => exact ih (hbody (hstart _ hr start) ended)

end Preserves

end Walk

namespace Stmt

open Walk

/-- A property of the state that the actions of single statements keep, where only some statements
and branches occur. -/
structure Invariant (P : Run → Prop) (caller : Caller) (ofStmt : Stmt → Prop)
    (ofBranches : List Branch → Prop) : Prop where
  movedTo : ∀ {r : Run}, P r → ∀ location, P (r.movedTo location)
  identified : ∀ {r : Run}, P r → ∀ location, P (r.identified location)
  entered : ∀ {r : Run}, P r → P r.entered
  exited : ∀ {r : Run}, P r → P r.exited
  assign : ∀ {targets value location}, ofStmt (.assign targets value location) →
    Preserves P (exec caller (.assign targets value location))
  /-- The target of a loop is bound in each of its passes. -/
  startPass : ∀ {target iterable body location name scopes counter},
    ofStmt (.loop target iterable body location) → target.loopName = .ok name →
    Expr.counter scopes name iterable = .ok counter → ∀ id (later : Counter),
    later.target = counter.target → Preserves P (Walk.startPass id later)
  test : ∀ {condition body location others}, ofBranches (.mk condition body location :: others) →
    ∀ kind, Preserves P (Walk.test kind condition location)
  enterAlternative : ∀ location, Preserves P (Walk.enterAlternative location)
  define : ∀ {name params body location}, ofStmt (.define name params body location) →
    Preserves P (exec caller (.define name params body location))
  giveBack : ∀ {value location}, ofStmt (.giveBack value location) →
    Preserves P (exec caller (.giveBack value location))
  expression : ∀ {value location}, ofStmt (.expression value location) →
    Preserves P (exec caller (.expression value location))

namespace Invariant

variable {P : Run → Prop} {caller : Caller} {ofStmt : Stmt → Prop} {ofBody : List Stmt → Prop}
  {ofBranches : List Branch → Prop} {ofOtherwise : Option Otherwise → Prop} {body : List Stmt}
  {location : Location}

/-- A loop keeps what its body keeps. -/
theorem loop (h : Invariant P caller ofStmt ofBranches) {target iterable : Expr}
    (hloop : ofStmt (.loop target iterable body location))
    (hbody : Preserves P (execAll caller body)) :
    Preserves P (exec caller (.loop target iterable body location)) := by
  intro r flow s hr hs
  obtain ⟨name, counter, hname, hcounter, hpasses⟩ := exec_loop_ok hs
  have hinside := hbody.nested h.entered h.exited
  exact hinside.passes (h.startPass hloop hname hcounter _)
    (h.identified (h.movedTo hr location) location) hpasses

/-- A choice keeps what its branches keep. -/
theorem choose (h : Invariant P caller ofStmt ofBranches) {branches : List Branch}
    {alternative : Option Otherwise}
    (hbranches : Preserves P
      (execBranches caller .first (execAlternative caller alternative) branches)) :
    Preserves P (exec caller (.choose branches alternative location)) := by
  intro r flow s hr hs
  exact hbranches (h.movedTo hr location) (exec_choose_ok hs)

/-- Some statements keep what the first and the others keep. -/
theorem cons {statement : Stmt} {others : List Stmt}
    (hstatement : Preserves P (exec caller statement))
    (hothers : Preserves P (execAll caller others)) :
    Preserves P (execAll caller (statement :: others)) := by
  intro r flow s hr hs
  rcases execAll_cons_ok hs with ⟨value, _, hfirst⟩ | ⟨t, hfirst, hrest⟩
  · exact hstatement hr hfirst
  · exact hothers (hstatement hr hfirst) hrest

/-- Some branches keep what the first and the others keep. -/
theorem branch (h : Invariant P caller ofStmt ofBranches) {condition : Expr}
    {others : List Branch} (hfirst : ofBranches (.mk condition body location :: others))
    (hbody : Preserves P (execAll caller body)) {kind : BranchKind} {action : Walk Flow}
    (hothers : Preserves P (execBranches caller .further action others)) :
    Preserves P (execBranches caller kind action (.mk condition body location :: others)) := by
  intro r flow s hr hs
  obtain ⟨t, ⟨htest, hran⟩ | ⟨htest, hrest⟩⟩ := execBranches_cons_ok hs
  · exact hbody.nested h.entered h.exited (h.test hfirst kind hr htest) hran
  · exact hothers (h.test hfirst kind hr htest) hrest

/-- An alternative keeps what its statements keep. -/
theorem alternative (h : Invariant P caller ofStmt ofBranches)
    (hbody : Preserves P (execAll caller body)) :
    Preserves P (execAlternative caller (some (.mk body location))) := by
  intro r flow s hr hs
  rcases execAlternative_ok hs with ⟨hnone, _⟩ | ⟨_, _, t, hsome, henter, hran⟩
  · cases hnone
  · cases hsome
    exact hbody.nested h.entered h.exited (h.enterAlternative _ hr henter) hran

/-- All statements keep what single ones keep. -/
theorem statements (h : Invariant P caller ofStmt ofBranches)
    (hinherited : Inherited ofStmt ofBody ofBranches ofOtherwise) :
    (∀ statement, ofStmt statement → Preserves P (exec caller statement)) ∧
    (∀ alternative, ofOtherwise alternative →
      Preserves P (execAlternative caller alternative)) ∧
    (∀ body, ofBody body → Preserves P (execAll caller body)) ∧
    (∀ kind action branches, ofBranches branches → Preserves P action →
      Preserves P (execBranches caller kind action branches)) := by
  apply exec.mutual_induct caller (fun s => ofStmt s → Preserves P (exec caller s))
    (fun a => ofOtherwise a → Preserves P (execAlternative caller a))
    (fun b => ofBody b → Preserves P (execAll caller b))
    (fun kind action branches => ofBranches branches → Preserves P action →
      Preserves P (execBranches caller kind action branches))
  case case1 => exact fun _ _ _ hassign => h.assign hassign
  case case2 =>
    intro target iterable body location hbody hloop
    exact h.loop hloop (hbody (hinherited.loop hloop))
  case case3 =>
    intro branches alternative location halternative hbranches hchoose
    obtain ⟨hof, hotherwise⟩ := hinherited.choose hchoose
    exact h.choose (hbranches hof (halternative hotherwise))
  case case4 => exact fun _ _ _ _ hdefine => h.define hdefine
  case case5 => exact fun _ _ hgiveBack => h.giveBack hgiveBack
  case case6 => exact fun _ _ hexpression => h.expression hexpression
  case case7 =>
    intro _ r flow s hr hs
    obtain ⟨_, rfl⟩ := execAll_nil_ok hs
    exact hr
  case case8 =>
    intro statement others hstatement hothers hbody
    obtain ⟨hfirst, hrest⟩ := hinherited.cons hbody
    exact cons (hstatement hfirst) (hothers hrest)
  case case9 =>
    intro kind action _ haction r flow s hr hs
    rw [execBranches] at hs
    exact haction hr hs
  case case10 =>
    intro kind action condition body location others hbody hothers hbranches haction
    obtain ⟨hinside, hrest⟩ := hinherited.branch hbranches
    exact h.branch hbranches (hbody hinside) (hothers hrest haction)
  case case11 =>
    intro _ r flow s hr hs
    rcases execAlternative_ok hs with ⟨_, _, rfl⟩ | ⟨_, _, _, hsome, _⟩
    · exact hr
    · cases hsome
  case case12 =>
    intro body location hbody halternative
    exact h.alternative (hbody (hinherited.otherwise halternative))

end Invariant

end Stmt

end Walkthrough
