import Walkthrough.Stmt

/-!
# The parts of statements

The statements inside a statement, however deep they stand, are its parts. What statements hand on
to the statements inside them holds of all their parts.
-/

namespace Walkthrough

namespace Stmt

mutual

/-- A statement and all statements inside it, those of definitions included. -/
def parts : Stmt → List Stmt
  | .assign targets value location => [.assign targets value location]
  | .loop target iterable body location =>
    .loop target iterable body location :: allParts body
  | .choose branches alternative location =>
    .choose branches alternative location :: (branchParts branches ++ otherwiseParts alternative)
  | .define name params body location => .define name params body location :: allParts body
  | .giveBack value location => [.giveBack value location]
  | .expression value location => [.expression value location]

/-- Some statements and all statements inside them. -/
def allParts : List Stmt → List Stmt
  | [] => []
  | statement :: others => statement.parts ++ allParts others

/-- All statements inside some branches. -/
def branchParts : List Branch → List Stmt
  | [] => []
  | .mk _ body _ :: others => allParts body ++ branchParts others

/-- All statements inside an alternative. -/
def otherwiseParts : Option Otherwise → List Stmt
  | none => []
  | some (.mk body _) => allParts body

end

/-- All statements inside branches and an alternative. -/
def choiceParts (branches : List Branch) (alternative : Option Otherwise) : List Stmt :=
  branchParts branches ++ otherwiseParts alternative

theorem choiceParts_cons (condition : Expr) (body : List Stmt) (place : Location)
    (others : List Branch) (alternative : Option Otherwise) :
    choiceParts (.mk condition body place :: others) alternative =
      allParts body ++ choiceParts others alternative := by
  rw [choiceParts, branchParts, List.append_assoc, ← choiceParts]

/-- A statement is a part of itself. -/
theorem mem_parts (statement : Stmt) : statement ∈ statement.parts := by
  cases statement with
  | _ => rw [parts]; exact List.mem_cons_self

/-- A property that statements hand on to those inside them. It is told for statements, for lists
of statements, for branches and for alternatives. -/
structure Inherited (ofStmt : Stmt → Prop) (ofBody : List Stmt → Prop)
    (ofBranches : List Branch → Prop) (ofOtherwise : Option Otherwise → Prop) : Prop where
  loop : ∀ {target iterable body location},
    ofStmt (.loop target iterable body location) → ofBody body
  choose : ∀ {branches alternative location},
    ofStmt (.choose branches alternative location) → ofBranches branches ∧ ofOtherwise alternative
  define : ∀ {name params body location}, ofStmt (.define name params body location) → ofBody body
  cons : ∀ {statement others}, ofBody (statement :: others) → ofStmt statement ∧ ofBody others
  branch : ∀ {condition body location others},
    ofBranches (.mk condition body location :: others) → ofBody body ∧ ofBranches others
  otherwise : ∀ {body location}, ofOtherwise (some (.mk body location)) → ofBody body

/-- What holds of all statements is handed on. -/
theorem Inherited.unrestricted :
    Inherited (fun _ => True) (fun _ => True) (fun _ => True) (fun _ => True) where
  loop := id
  choose _ := ⟨trivial, trivial⟩
  define := id
  cons _ := ⟨trivial, trivial⟩
  branch _ := ⟨trivial, trivial⟩
  otherwise := id

section Inherited

variable {ofStmt : Stmt → Prop} {ofBody : List Stmt → Prop} {ofBranches : List Branch → Prop}
  {ofOtherwise : Option Otherwise → Prop} {part : Stmt}

mutual

/-- What a statement hands on holds of all its parts. -/
theorem Inherited.parts (h : Inherited ofStmt ofBody ofBranches ofOtherwise) :
    ∀ statement, ofStmt statement → part ∈ statement.parts → ofStmt part
  | .assign .., hstatement, hpart | .giveBack .., hstatement, hpart
  | .expression .., hstatement, hpart => by
    rw [Stmt.parts, List.mem_singleton] at hpart
    rwa [hpart]
  | .loop _ _ body _, hstatement, hpart => by
    rw [Stmt.parts, List.mem_cons] at hpart
    rcases hpart with rfl | hinside
    · exact hstatement
    · exact h.allParts body (h.loop hstatement) hinside
  | .choose branches alternative _, hstatement, hpart => by
    rw [Stmt.parts, List.mem_cons, List.mem_append] at hpart
    rcases hpart with rfl | hbranch | hotherwise
    · exact hstatement
    · exact h.branchParts branches (h.choose hstatement).1 hbranch
    · exact h.otherwiseParts alternative (h.choose hstatement).2 hotherwise
  | .define _ _ body _, hstatement, hpart => by
    rw [Stmt.parts, List.mem_cons] at hpart
    rcases hpart with rfl | hinside
    · exact hstatement
    · exact h.allParts body (h.define hstatement) hinside

/-- What some statements hand on holds of all their parts. -/
theorem Inherited.allParts (h : Inherited ofStmt ofBody ofBranches ofOtherwise) :
    ∀ body, ofBody body → part ∈ Stmt.allParts body → ofStmt part
  | [], _, hpart => by
    rw [Stmt.allParts] at hpart
    cases hpart
  | statement :: others, hbody, hpart => by
    rw [Stmt.allParts, List.mem_append] at hpart
    rcases hpart with hfirst | hothers
    · exact h.parts statement (h.cons hbody).1 hfirst
    · exact h.allParts others (h.cons hbody).2 hothers

/-- What some branches hand on holds of all their parts. -/
theorem Inherited.branchParts (h : Inherited ofStmt ofBody ofBranches ofOtherwise) :
    ∀ branches, ofBranches branches → part ∈ Stmt.branchParts branches → ofStmt part
  | [], _, hpart => by
    rw [Stmt.branchParts] at hpart
    cases hpart
  | .mk _ body _ :: others, hbranches, hpart => by
    rw [Stmt.branchParts, List.mem_append] at hpart
    rcases hpart with hfirst | hothers
    · exact h.allParts body (h.branch hbranches).1 hfirst
    · exact h.branchParts others (h.branch hbranches).2 hothers

/-- What an alternative hands on holds of all its parts. -/
theorem Inherited.otherwiseParts (h : Inherited ofStmt ofBody ofBranches ofOtherwise) :
    ∀ alternative, ofOtherwise alternative → part ∈ Stmt.otherwiseParts alternative → ofStmt part
  | none, _, hpart => by
    rw [Stmt.otherwiseParts] at hpart
    cases hpart
  | some (.mk body _), hotherwise, hpart => h.allParts body (h.otherwise hotherwise) hpart

end

end Inherited

end Stmt

end Walkthrough
