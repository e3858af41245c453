import Walkthrough.Proofs.Maps
import Walkthrough.Proofs.Preservation

/-!
# The functions that a run knows

A run only ever comes to statements that stand in its program. They are not all inside the
statement that comes to them: a call runs the body of whichever definition was last run for
its name. So the functions that a run knows are followed along with it, and each of them is
the one of a definition in the program.
-/

namespace Walkthrough

open Walk

/-- The definition that gives a function. -/
def Procedure.definition (f : Procedure) : Stmt := .define f.name f.params f.body f.location

namespace Run

variable {program : List Stmt} {r s : Run}

/-- Each function that a run knows is the one of a definition in a program. -/
def KnowsOnly (run : Run) (program : List Stmt) : Prop :=
  ∀ name f, run.store.function? name = some f → f.definition.parts ⊆ Stmt.allParts program

/-- At the start no function is known. -/
theorem KnowsOnly.start (limits : Limits) : (Run.start limits).KnowsOnly program := by
  intro name f hf
  cases hf

/-- What leaves the functions alone keeps them in the program. -/
theorem KnowsOnly.of_eq (h : r.KnowsOnly program)
    (hs : s.store.functions = r.store.functions) : s.KnowsOnly program := by
  intro name f hf
  refine h name f ?_
  rwa [Store.function?, hs] at hf

theorem KnowsOnly.movedTo (h : r.KnowsOnly program) (location : Location) :
    (r.movedTo location).KnowsOnly program := h.of_eq rfl

@[simp] theorem functions_identified (r : Run) (location : Location) :
    (r.identified location).store.functions = r.store.functions := by
  obtain ⟨places, hstore⟩ := r.identified_store location
  rw [hstore]

theorem KnowsOnly.identified (h : r.KnowsOnly program) (location : Location) :
    (r.identified location).KnowsOnly program := h.of_eq (r.functions_identified location)

@[simp] theorem functions_boundAll (r : Run) (bindings : List (String × Value)) :
    (r.boundAll bindings).store.functions = r.store.functions := by
  obtain ⟨scopes, hstore⟩ := r.boundAll_store bindings
  rw [hstore]

@[simp] theorem functions_inside (r : Run) (f : Procedure) (values : List Value)
    (location : Location) : (r.inside f values location).store.functions = r.store.functions :=
  r.functions_identified location

/-- A definition of the program gives a function of the program. -/
theorem KnowsOnly.defined (h : r.KnowsOnly program) {f : Procedure}
    (hf : f.definition.parts ⊆ Stmt.allParts program) : (r.defined f).KnowsOnly program := by
  intro name g hg
  change (r.store.functions.insert f.name f).find? name = some g at hg
  rw [SortedMap.find?_insert] at hg
  split at hg
  · cases hg
    exact hf
  · exact h name g hg

end Run

/-- An action that succeeds knows afterwards only functions of a program, if it did before. -/
abbrev Walk.Keeps {α : Type} (program : List Stmt) (m : Walk α) : Prop :=
  Preserves (Run.KnowsOnly · program) m

namespace Walk.Keeps

variable {program : List Stmt} {calls : Nat} {r s : Run}

/-- An action one level deeper keeps to the program if the action does. -/
theorem nested {body : Walk Flow} (h : Keeps program body) : Keeps program (Walk.nested body) :=
  Preserves.nested h (·.of_eq rfl) (·.of_eq rfl)

/-- Testing a condition keeps to the program. -/
theorem test (kind : BranchKind) (condition : Expr) (location : Location) :
    Keeps program (Walk.test kind condition location) := by
  intro r passed s hr hs
  obtain ⟨staged, _, _, rfl⟩ := test_ok hs
  exact hr.of_eq (by rw [store_recordedAll, Run.functions_identified])

/-- Entering an alternative keeps to the program. -/
theorem enterAlternative (location : Location) :
    Keeps program (Walk.enterAlternative location) := by
  intro r _ s hr hs
  cases enterAlternative_ok hs
  exact hr.of_eq (r.functions_identified location)

/-- Starting a pass keeps to the program. -/
theorem startPass (id : Nat) (counter : Counter) :
    Keeps program (Walk.startPass id counter) := by
  intro r _ s hr hs
  cases startPass_ok hs
  exact hr.of_eq rfl

/-- The bodies of the functions that may still be called keep to the program. -/
def Bodies (program : List Stmt) (calls : Nat) : Prop :=
  ∀ fewer body, calls = fewer + 1 → Stmt.allParts body ⊆ Stmt.allParts program →
    Keeps program (Stmt.execAll (callWithin fewer) body)

/-- A call by name keeps to the program if the bodies of its functions do. -/
theorem callNamed (hfewer : Bodies program calls) (function : String) (args : List Expr)
    (location : Location) :
    Keeps program (Walk.callNamed (callWithin calls) function args location) := by
  intro r value s hr hs
  rcases callNamed_ok hs with ⟨_, _, hprint⟩ | ⟨_, f, hf, hcall⟩
  · obtain ⟨printed, _, rfl⟩ := printAll_ok hprint
    exact hr.of_eq (by rw [store_recordedAll, Run.functions_identified])
  · obtain ⟨fewer, values, flow, last, hcalls, _, answered⟩ := callWithin_ok hcall
    have hbody : Stmt.allParts f.body ⊆ Stmt.allParts program :=
      fun part hpart => hr function f hf (List.mem_cons_of_mem _ hpart)
    have hlast := hfewer fewer f.body hcalls hbody
      (hr.of_eq (r.functions_inside f values location)) answered.ran
    rw [answered.ended]
    exact hlast.of_eq rfl

/-- Finding a value keeps to the program if the bodies of its functions do. -/
theorem stagesOf (hfewer : Bodies program calls)
    (present : Scopes Value → Expr → Except Fault Staged) (e : Expr) :
    Keeps program (Walk.stagesOf (callWithin calls) present e) := by
  intro r staged s hr hs
  rcases stagesOf_ok hs with ⟨function, args, place, value, rfl, hcall, _⟩ | ⟨_, _, rfl⟩
  · exact callNamed hfewer function args place hr hcall
  · exact hr

end Walk.Keeps

namespace Stmt

variable {program : List Stmt} {calls : Nat} {location : Location}

/-- To stand in a program is handed on to the statements inside. -/
theorem inherited_parts (program : List Stmt) : Inherited (parts · ⊆ allParts program)
    (allParts · ⊆ allParts program) (branchParts · ⊆ allParts program)
    (otherwiseParts · ⊆ allParts program) where
  loop h := by
    rw [parts, List.cons_subset] at h
    exact h.2
  choose h := by
    rw [parts, List.cons_subset, List.append_subset] at h
    exact h.2
  define h := by
    rw [parts, List.cons_subset] at h
    exact h.2
  cons h := by rwa [allParts, List.append_subset] at h
  branch h := by rwa [branchParts, List.append_subset] at h
  otherwise h := by rwa [otherwiseParts] at h

/-- An assignment keeps to the program. -/
theorem assign_keeps (hfewer : Keeps.Bodies program calls) (targets : List Expr) (value : Expr) :
    Keeps program (exec (callWithin calls) (.assign targets value location)) := by
  intro r flow r' hr h
  obtain ⟨_, names, staged, s, shares, _, hstaged, _, rfl⟩ := exec_assign_ok h
  have hs := Keeps.stagesOf hfewer _ value (hr.movedTo location) hstaged
  exact hs.of_eq (by rw [store_recordedAll, Run.functions_boundAll])

/-- A definition of the program gives a function of the program. -/
theorem define_keeps {name : String} {params : List String} {body : List Stmt}
    (hparts : (define name params body location).parts ⊆ allParts program) :
    Keeps program (exec (callWithin calls) (.define name params body location)) := by
  intro r flow r' hr h
  obtain ⟨_, rfl⟩ := exec_define_ok h
  have hvisited := (hr.movedTo location).identified location
  have hdefined := hvisited.defined (f := ⟨name, params, body, location⟩) hparts
  exact hdefined.of_eq rfl

/-- A return keeps to the program. -/
theorem giveBack_keeps (hfewer : Keeps.Bodies program calls) (value : Option Expr) :
    Keeps program (exec (callWithin calls) (.giveBack value location)) := by
  intro r flow r' hr h
  obtain ⟨_, staged, s, _, hvalue, rfl⟩ := exec_giveBack_ok h
  have hs : s.KnowsOnly program := by
    rcases hvalue with ⟨_, _, rfl⟩ | ⟨e, _, hstaged⟩
    · exact hr.movedTo location
    · exact Keeps.stagesOf hfewer _ e (hr.movedTo location) hstaged
  exact hs.of_eq (by rw [store_recordedAll, Run.functions_identified])

/-- A call that stands alone keeps to the program. -/
theorem expression_keeps (hfewer : Keeps.Bodies program calls) (value : Expr) :
    Keeps program (exec (callWithin calls) (.expression value location)) := by
  intro r flow r' hr h
  obtain ⟨_, function, args, place, result, _, hcall⟩ := exec_expression_ok h
  exact Keeps.callNamed hfewer function args place (hr.movedTo location) hcall

/-- Statements of a program keep to it, if the bodies of the functions they call do. -/
theorem invariant_knowsOnly (hfewer : Keeps.Bodies program calls) :
    Invariant (Run.KnowsOnly · program) (callWithin calls) (parts · ⊆ allParts program)
      (branchParts · ⊆ allParts program) where
  movedTo := Run.KnowsOnly.movedTo
  identified := Run.KnowsOnly.identified
  entered hr := hr.of_eq rfl
  exited hr := hr.of_eq rfl
  assign _ := assign_keeps hfewer _ _
  startPass _ _ _ id later _ := Keeps.startPass id later
  test _ kind := Keeps.test kind _ _
  enterAlternative := Keeps.enterAlternative
  define hparts := define_keeps hparts
  giveBack _ := giveBack_keeps hfewer _
  expression _ := expression_keeps hfewer _

/-- Some statements of a program keep to it, however many calls may nest. -/
theorem execAll_keeps (calls : Nat) {body : List Stmt} (hbody : allParts body ⊆ allParts program) :
    Keeps program (execAll (callWithin calls) body) := by
  induction calls using Nat.strongRecOn generalizing body with
  | ind calls ih =>
    have hfewer : Keeps.Bodies program calls :=
      fun fewer _ hcalls hinside => ih fewer (by omega) hinside
    exact ((invariant_knowsOnly hfewer).statements (inherited_parts program)).2.2.1 body hbody

/-- A statement of a program keeps to it, however many calls may nest. -/
theorem exec_keeps (calls : Nat) {statement : Stmt} (h : statement.parts ⊆ allParts program) :
    Keeps program (exec (callWithin calls) statement) := by
  have hfewer : Keeps.Bodies program calls := fun fewer _ _ => execAll_keeps fewer
  exact ((invariant_knowsOnly hfewer).statements (inherited_parts program)).1 statement h

variable {fewer least : Nat} {statement inner : Stmt} {body : List Stmt} {r s t : Run}

/-- The branches that a choice comes to belong to the choice. -/
theorem branchStarts_keep {alternative : Option Otherwise} {kind : BranchKind}
    {branches : List Branch} (h : Branch.Starts alternative kind branches r body s)
    (hparts : branchParts branches ++ otherwiseParts alternative ⊆ allParts program)
    (hr : r.KnowsOnly program) : allParts body ⊆ allParts program ∧ s.KnowsOnly program := by
  induction h with
  | first passed =>
    rw [branchParts, List.append_subset, List.append_subset] at hparts
    exact ⟨hparts.1.1, Keeps.test _ _ _ hr passed⟩
  | further failed branch ih =>
    rw [branchParts, List.append_assoc, List.append_subset] at hparts
    exact ih hparts.2 (Keeps.test _ _ _ hr failed)
  | otherwise given entered =>
    rw [given] at hparts
    exact ⟨hparts, Keeps.enterAlternative _ hr entered⟩

/-- A call starts the body of a function of the program. -/
theorem callStarts_keep {value : Expr} (h : value.Starts calls r fewer body s)
    (hr : r.KnowsOnly program) : allParts body ⊆ allParts program ∧ s.KnowsOnly program := by
  cases h with
  | call user known count evaluated room =>
    exact ⟨fun part hpart => hr _ _ known (List.mem_cons_of_mem _ hpart),
      hr.of_eq (Run.functions_inside _ _ _ _)⟩

/-- What a statement of the program starts stands in the program. -/
theorem starts_keep (h : Starts calls statement r fewer body s)
    (hparts : statement.parts ⊆ allParts program) (hr : r.KnowsOnly program) :
    allParts body ⊆ allParts program ∧ s.KnowsOnly program := by
  cases h with
  | assign _ call | giveBack _ call | expression call => exact callStarts_keep call (hr.of_eq rfl)
  | loop _ _ pass =>
    rw [parts, List.cons_subset] at hparts
    have hs := (execAll_keeps calls hparts.2).nested.passStarts (Keeps.startPass _) pass
      ((hr.movedTo _).identified _)
    exact ⟨hparts.2, hs.of_eq rfl⟩
  | choose branch =>
    rw [parts, List.cons_subset] at hparts
    obtain ⟨hbody, hs⟩ := branchStarts_keep branch hparts.2 (hr.of_eq rfl)
    exact ⟨hbody, hs.of_eq rfl⟩

/-- What statements of the program come to stands in the program. -/
theorem reaches_keep (h : Reaches calls body r least inner t)
    (hbody : allParts body ⊆ allParts program) (hr : r.KnowsOnly program) :
    inner.parts ⊆ allParts program ∧ t.KnowsOnly program := by
  induction h with
  | first =>
    rw [allParts, List.append_subset] at hbody
    exact ⟨hbody.1, hr⟩
  | next ended _ ih =>
    rw [allParts, List.append_subset] at hbody
    exact ih hbody.2 (exec_keeps _ hbody.1 hr ended)
  | inner starts _ ih =>
    rw [allParts, List.append_subset] at hbody
    obtain ⟨hinside, hs⟩ := starts_keep starts hbody.1 hr
    exact ih hinside hs

end Stmt

/-- Each statement that the run of a program comes to stands in the program. -/
theorem Program.Reaches.mem_parts {program : Program} {limits : Limits} {calls : Nat}
    {statement : Stmt} {before : Run} (h : program.Reaches limits calls statement before) :
    statement ∈ Stmt.allParts program :=
  (Stmt.reaches_keep h (List.Subset.refl _) (.start limits)).1 statement.mem_parts

end Walkthrough
