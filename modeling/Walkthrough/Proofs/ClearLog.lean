import Walkthrough.Proofs.Characters
import Walkthrough.Proofs.Definitions
import Walkthrough.Proofs.Ranges

/-!
# No step of a run has a separator

What a run records are texts of values, of names and of expressions of its program. None of them
has a square bracket or a line break. A call runs the body of a function that was defined before,
so the functions that the run knows are followed along with its log.
-/

namespace Walkthrough

open Walk Text

/-- The stages of a value, with their marks, have no separator. -/
theorem Staged.IsClear.highlighted {staged : Staged} (h : staged.IsClear) :
    ∀ shown ∈ staged.highlighted, Lacks separators shown.1 :=
  fun _ hshown => h.lacks_texts _ (List.of_mem_zip hshown).1

/-- Steps that show the stages of a value have no separator if they have no other text. -/
theorem Staged.IsClear.steps {staged : Staged} (h : staged.IsClear)
    {shows : String → Highlight → Step}
    (htexts : ∀ text highlight, (shows text highlight).texts = [text]) :
    ∀ step ∈ staged.highlighted.map (fun (text, highlight) => shows text highlight),
      step.IsClear separators := by
  intro step hstep
  obtain ⟨shown, hshown, rfl⟩ := List.mem_map.mp hstep
  intro text htext
  rw [htexts, List.mem_singleton] at htext
  rw [htext]
  exact h.highlighted shown hshown

/-- The steps of an assignment have no separator. -/
theorem Target.isClear_steps {targets : List Target} {staged : Staged} (h : staged.IsClear)
    (hnames : ∀ target ∈ targets, ∀ name ∈ target.names, Token.isName name = true) (depth : Nat) :
    ∀ step ∈ Target.steps depth targets staged, step.IsClear separators := by
  intro step hstep
  obtain ⟨snapshot, hsnapshot, hstep⟩ := List.mem_flatMap.mp hstep
  obtain ⟨target, htarget, hstep⟩ := List.mem_flatMap.mp hstep
  obtain ⟨shown, hshown, rfl⟩ := List.mem_map.mp hstep
  obtain ⟨hname, htext⟩ :=
    lacks_shown (hnames target htarget) (h snapshot hsnapshot) staged.value shown hshown
  exact List.forall_mem_cons.mpr ⟨hname, List.forall_mem_singleton.mpr htext⟩

/-- The head of a function has no separator. -/
theorem Procedure.lacks_signature {f : Procedure}
    (h : ∀ id ∈ f.definition.headNames, Token.isName id = true) :
    Lacks separators f.name ∧ Lacks separators f.signature := by
  obtain ⟨hname, hparams⟩ := List.forall_mem_cons.mp h
  have hinside : Lacks separators (commaSeparated f.params) :=
    lacks_commaSeparated (List.Subset.refl _) fun param hparam =>
      Expr.lacks_name (hparams param hparam)
  refine ⟨Expr.lacks_name hname, ?_⟩
  simp only [signature, lacks_append]
  exact ⟨⟨⟨Expr.lacks_name hname, by decide⟩, hinside⟩, by decide⟩

/-- The start of a call has no separator. -/
theorem Procedure.isClear_call {f : Procedure}
    (h : ∀ id ∈ f.definition.headNames, Token.isName id = true) (id depth : Nat)
    (values : List Value) : (Step.call id depth f.name f.signature
      ((f.params.zip values).map fun (name, value) => ⟨name, value.text⟩)).IsClear separators := by
  obtain ⟨hname, hsignature⟩ := lacks_signature h
  refine List.forall_mem_cons.mpr ⟨hname, List.forall_mem_cons.mpr ⟨hsignature, ?_⟩⟩
  refine List.forall_mem_flatMap.mpr (List.forall_mem_map.mpr fun given hgiven => ?_)
  have hparam : given.1 ∈ f.definition.headNames :=
    List.mem_cons_of_mem _ (List.of_mem_zip hgiven).1
  exact List.forall_mem_cons.mpr
    ⟨Expr.lacks_name (h _ hparam), List.forall_mem_singleton.mpr given.2.lacks_text⟩

/-- A run knows only functions of a program, and no step of its log has a separator. -/
structure Run.Clear (program : List Stmt) (run : Run) : Prop where
  known : run.KnowsOnly program
  log : ∀ step ∈ run.trace.steps.toList, step.IsClear separators

namespace Run.Clear

variable {program : List Stmt} {r s : Run}

theorem start (limits : Limits) : (Run.start limits).Clear program :=
  ⟨.start limits, nofun⟩

/-- What leaves the functions and the steps alone. -/
theorem of_eq (h : r.Clear program) (hfunctions : s.store.functions = r.store.functions)
    (hsteps : s.trace.steps = r.trace.steps) : s.Clear program :=
  ⟨h.known.of_eq hfunctions, hsteps ▸ h.log⟩

theorem recordedAll (h : r.Clear program) {steps : List Step}
    (hsteps : ∀ step ∈ steps, step.IsClear separators) : (r.recordedAll steps).Clear program := by
  refine ⟨h.known.of_eq (by rw [store_recordedAll]), ?_⟩
  rw [Run.steps_recordedAll]
  exact List.forall_mem_append.mpr ⟨h.log, hsteps⟩

theorem recorded (h : r.Clear program) {step : Step} (hstep : step.IsClear separators) :
    (r.recorded step).Clear program :=
  h.recordedAll (List.forall_mem_singleton.mpr hstep)

theorem movedTo (h : r.Clear program) (location : Location) :
    (r.movedTo location).Clear program := h.of_eq rfl rfl

theorem identified (h : r.Clear program) (location : Location) :
    (r.identified location).Clear program :=
  h.of_eq (r.functions_identified location) rfl

/-- Inside a function whose head consists of names. -/
theorem inside (h : r.Clear program) {f : Procedure}
    (hnames : ∀ id ∈ f.definition.headNames, Token.isName id = true) (values : List Value)
    (location : Location) : (r.inside f values location).Clear program := by
  have hcalled := (h.identified location).recorded
    (Procedure.isClear_call hnames (r.store.idAt location).1 r.store.depth values)
  exact hcalled.of_eq rfl rfl

end Run.Clear

/-- An action that succeeds leaves a run without separators if it starts in one. -/
abbrev Walk.Clears {α : Type} (program : List Stmt) (m : Walk α) : Prop :=
  Preserves (Run.Clear program) m

namespace Walk.Clears

variable {program : List Stmt} {calls : Nat}

theorem test (kind : BranchKind) {condition : Expr} (h : condition.isReadable = true)
    (location : Location) : Clears program (Walk.test kind condition location) := by
  intro r passed s hr hs
  obtain ⟨staged, hstaged, _, rfl⟩ := test_ok hs
  exact (hr.identified location).recordedAll
    ((Expr.isClear_wholeStages h hstaged).steps fun _ _ => rfl)

theorem enterAlternative (location : Location) :
    Clears program (Walk.enterAlternative location) := by
  intro r _ s hr hs
  cases enterAlternative_ok hs
  exact (hr.identified location).recorded (List.forall_mem_singleton.mpr (by decide))

theorem startPass (id : Nat) {counter : Counter} (h : Token.isName counter.target = true) :
    Clears program (Walk.startPass id counter) := by
  intro r _ s hr hs
  cases startPass_ok hs
  have hbound : (r.bound counter.target (.int counter.current)).Clear program := hr.of_eq rfl rfl
  exact hbound.recorded (List.forall_mem_singleton.mpr (Expr.lacks_name h))

/-- The bodies of the functions that may still be called. -/
def Bodies (program : List Stmt) (calls : Nat) : Prop :=
  ∀ fewer body, calls = fewer + 1 → Stmt.allParts body ⊆ Stmt.allParts program →
    Clears program (Stmt.execAll (callWithin fewer) body)

variable (hprogram : ∀ part ∈ Stmt.allParts program, part.IsReadable)
include hprogram

/-- A call by name prints expressions, or calls a function of the program. -/
theorem callNamed (hfewer : Bodies program calls) (function : String) {args : List Expr}
    (hargs : Expr.allReadable args = true) (location : Location) :
    Clears program (Walk.callNamed (callWithin calls) function args location) := by
  intro r value s hr hs
  rcases callNamed_ok hs with ⟨_, _, hprint⟩ | ⟨_, f, hf, hcall⟩
  · obtain ⟨printed, hprinted, rfl⟩ := printAll_ok hprint
    refine (hr.identified location).recordedAll (List.forall_mem_flatMap.mpr ?_)
    intro staged hstaged
    obtain ⟨arg, harg, hshown⟩ := except_mapM_mem hprinted hstaged
    exact (Expr.isClear_wholeStages (Expr.leavesAll_of_mem hargs arg harg) hshown).steps
      fun _ _ => rfl
  · obtain ⟨fewer, values, flow, last, hcalls, _, answered⟩ := callWithin_ok hcall
    have hdefinition := hr.known function f hf
    have hnames := (hprogram _ (hdefinition (Stmt.mem_parts f.definition))).names
    have hbody : Stmt.allParts f.body ⊆ Stmt.allParts program :=
      fun part hpart => hdefinition (List.mem_cons_of_mem _ hpart)
    have hlast := hfewer fewer f.body hcalls hbody (hr.inside hnames values location)
      answered.ran
    have hleft : (last.exited.popped location).Clear program := hlast.of_eq rfl rfl
    rw [answered.ended]
    exact hleft.recorded (List.forall_mem_cons.mpr ⟨(Procedure.lacks_signature hnames).1,
      List.forall_mem_singleton.mpr flow.value.lacks_text⟩)

/-- Finding a value that is then shown. -/
theorem stagesOf (hfewer : Bodies program calls)
    {present : Scopes Value → Expr → Except Fault Staged} {e : Expr}
    (hpresent : ∀ scopes staged, present scopes e = .ok staged → staged.IsClear)
    (h : e.isReadable = true) {r s : Run} {staged : Staged} (hr : r.Clear program)
    (hs : Walk.stagesOf (callWithin calls) present e r = .ok staged s) :
    s.Clear program ∧ staged.IsClear := by
  rcases stagesOf_ok hs with ⟨function, args, place, value, rfl, hcall, rfl⟩ | ⟨_, hstaged, rfl⟩
  · have hargs : Expr.allReadable args = true := (Bool.and_eq_true_iff.mp h).2
    exact ⟨callNamed hprogram hfewer function hargs place hr hcall,
      Staged.isClear_resolved value⟩
  · exact ⟨hr, hpresent _ _ hstaged⟩

end Walk.Clears

/-- The target of a loop of a program is a name. -/
theorem Expr.isName_of_loopName {e : Expr} (h : e.isReadable = true) {id : String}
    (hname : e.loopName = .ok id) : Token.isName id = true := by
  cases e with
  | name found place =>
    cases hname
    exact h
  | _ => cases hname

namespace Stmt

variable {program : List Stmt} {calls : Nat}

/-- An assignment shows its targets, which are names, with the stages of its value. -/
theorem assign_clears (hprogram : ∀ part ∈ allParts program, part.IsReadable)
    (hfewer : Clears.Bodies program calls) {targets : List Expr} {value : Expr}
    {location : Location} (hreadable : (assign targets value location).IsReadable) :
    Clears program (exec (callWithin calls) (.assign targets value location)) := by
  intro r flow r' hr h
  obtain ⟨_, names, staged, s, shares, hnames, hstaged, _, rfl⟩ := exec_assign_ok h
  obtain ⟨hvalue, htargets⟩ := List.forall_mem_cons.mp hreadable.expressions
  obtain ⟨hs, hclear⟩ := Clears.stagesOf hprogram hfewer
    (fun _ _ => Expr.isClear_stages hvalue) hvalue (hr.movedTo location) hstaged
  have hbound : (s.boundAll shares.flatten).Clear program :=
    hs.of_eq (s.functions_boundAll _) (by rw [Run.trace_boundAll])
  refine hbound.recordedAll (Target.isClear_steps hclear (fun target htarget => ?_) _)
  obtain ⟨e, he, hetarget⟩ := except_mapM_mem hnames htarget
  exact Expr.isName_of_target (htargets e he) hetarget

/-- A definition shows the signature of its function, which is then known. -/
theorem define_clears {name : String} {params : List String} {body : List Stmt}
    {location : Location} (hreadable : (define name params body location).IsReadable)
    (hparts : (define name params body location).parts ⊆ allParts program) :
    Clears program (exec (callWithin calls) (.define name params body location)) := by
  intro r flow r' hr h
  obtain ⟨_, rfl⟩ := exec_define_ok h
  have hvisited := (hr.movedTo location).identified location
  have hsignature := Procedure.lacks_signature (f := ⟨name, params, body, location⟩)
    hreadable.names
  have hdefined : (((r.movedTo location).identified location).defined
      ⟨name, params, body, location⟩).Clear program :=
    ⟨hvisited.known.defined hparts, hvisited.log⟩
  exact hdefined.recorded
    (List.forall_mem_cons.mpr ⟨hsignature.1, List.forall_mem_singleton.mpr hsignature.2⟩)

/-- A return shows the stages of its value, or no value. -/
theorem giveBack_clears (hprogram : ∀ part ∈ allParts program, part.IsReadable)
    (hfewer : Clears.Bodies program calls) {value : Option Expr} {location : Location}
    (hreadable : (giveBack value location).IsReadable) :
    Clears program (exec (callWithin calls) (.giveBack value location)) := by
  intro r flow r' hr h
  obtain ⟨_, staged, s, _, hvalue, rfl⟩ := exec_giveBack_ok h
  have hboth : s.Clear program ∧ staged.IsClear := by
    rcases hvalue with ⟨_, rfl, rfl⟩ | ⟨e, rfl, hstaged⟩
    · exact ⟨hr.movedTo location, Staged.isClear_resolved _⟩
    · have he := hreadable.expressions e List.mem_cons_self
      exact Clears.stagesOf hprogram hfewer (fun _ _ => Expr.isClear_wholeStages he) he
        (hr.movedTo location) hstaged
  exact (hboth.1.identified location).recordedAll (hboth.2.steps fun _ _ => rfl)

/-- A call that stands alone has arguments that may occur in a program. -/
theorem expression_clears (hprogram : ∀ part ∈ allParts program, part.IsReadable)
    (hfewer : Clears.Bodies program calls) {value : Expr} {location : Location}
    (hreadable : (expression value location).IsReadable) :
    Clears program (exec (callWithin calls) (.expression value location)) := by
  intro r flow r' hr h
  obtain ⟨_, function, args, place, result, rfl, hcall⟩ := exec_expression_ok h
  have hvalue := hreadable.expressions _ List.mem_cons_self
  have hargs : Expr.allReadable args = true := (Bool.and_eq_true_iff.mp hvalue).2
  exact Clears.callNamed hprogram hfewer function hargs place (hr.movedTo location) hcall

/-- To stand in a program that was read is handed on to the statements inside. The conditions of
branches may then occur in it. -/
theorem inherited_readable (hprogram : ∀ part ∈ allParts program, part.IsReadable) :
    Inherited (parts · ⊆ allParts program) (allParts · ⊆ allParts program)
      (fun branches => branchParts branches ⊆ allParts program ∧
        AllReadable (branchExpressions branches))
      (otherwiseParts · ⊆ allParts program) where
  loop h := (inherited_parts program).loop h
  choose h := by
    obtain ⟨hbranches, hotherwise⟩ := (inherited_parts program).choose h
    have hreadable := hprogram _ (h (mem_parts _))
    exact ⟨⟨hbranches, fun e he => hreadable.expressions e (List.mem_append_left _ he)⟩, hotherwise⟩
  define h := (inherited_parts program).define h
  cons h := (inherited_parts program).cons h
  branch h := by
    obtain ⟨hbody, hothers⟩ := (inherited_parts program).branch h.1
    have hmore := (List.forall_mem_cons.mp h.2).2
    exact ⟨hbody, hothers, (List.forall_mem_append.mp hmore).2⟩
  otherwise h := (inherited_parts program).otherwise h

/-- Statements of a program, if the bodies of the functions they call record no separator. -/
theorem invariant_clear (hprogram : ∀ part ∈ allParts program, part.IsReadable)
    (hfewer : Clears.Bodies program calls) :
    Invariant (Run.Clear program) (callWithin calls) (parts · ⊆ allParts program)
      (fun branches => branchParts branches ⊆ allParts program ∧
        AllReadable (branchExpressions branches)) where
  movedTo := Run.Clear.movedTo
  identified := Run.Clear.identified
  entered hr := hr.of_eq rfl rfl
  exited hr := hr.of_eq rfl rfl
  assign hparts := assign_clears hprogram hfewer (hprogram _ (hparts (mem_parts _)))
  startPass hparts hname hcounter id later htarget := by
    have hreadable := hprogram _ (hparts (mem_parts _))
    obtain ⟨start, stop, step, -, rfl⟩ := Expr.counter_init hcounter
    have hbound : Token.isName later.target = true :=
      htarget ▸ Expr.isName_of_loopName (hreadable.expressions _ List.mem_cons_self) hname
    exact Clears.startPass id hbound
  test hbranches kind := Clears.test kind (hbranches.2 _ List.mem_cons_self) _
  enterAlternative := Clears.enterAlternative
  define hparts := define_clears (hprogram _ (hparts (mem_parts _))) hparts
  giveBack hparts := giveBack_clears hprogram hfewer (hprogram _ (hparts (mem_parts _)))
  expression hparts := expression_clears hprogram hfewer (hprogram _ (hparts (mem_parts _)))

/-- Some statements of a program, however many calls may nest. -/
theorem execAll_clears (hprogram : ∀ part ∈ allParts program, part.IsReadable) (calls : Nat)
    {body : List Stmt} (hbody : allParts body ⊆ allParts program) :
    Clears program (execAll (callWithin calls) body) := by
  induction calls using Nat.strongRecOn generalizing body with
  | ind calls ih =>
    have hfewer : Clears.Bodies program calls :=
      fun fewer _ hcalls hinside => ih fewer (by omega) hinside
    have hall := (invariant_clear hprogram hfewer).statements (inherited_readable hprogram)
    exact hall.2.2.1 body hbody

end Stmt

/-- No step of the trace of a text has a separator. -/
theorem isClear_of_traceText {source : String} {limits : Limits} {trace : Trace}
    (h : traceText source limits = .ok trace) :
    ∀ step ∈ trace.steps.toList, step.IsClear separators := by
  obtain ⟨program, hparse, htrace⟩ := except_bind_ok.mp h
  have hprogram := Program.isReadable_parts (except_mapError_ok.mp hparse)
  obtain ⟨flow, last, hrun, rfl⟩ := Program.trace_ok.mp (except_mapError_ok.mp htrace)
  exact (Stmt.execAll_clears hprogram limits.calls (List.Subset.refl _) (.start limits) hrun).log

end Walkthrough
