import Walkthrough.Proofs.Comparison
import Walkthrough.Proofs.Course
import Walkthrough.Proofs.Places

/-!
# Expressions shown in their stages

A run shows an expression that is printed, tested or returned by a step for each of its
stages, and these steps stand next to each other in the log. In the first of several stages
nothing is marked, and the last one is marked in full. All other steps with marks are those
of an alternative, which have no expression. So every highlight of a run is in order and
inside the text that it comes with.
-/

namespace Walkthrough

open Walk

namespace Staged

variable {staged : Staged}

/-- The texts of the stages come with their changed characters. -/
theorem map_snd_highlighted (staged : Staged) :
    staged.highlighted.map Prod.snd = Highlight.sequence staged.texts :=
  List.map_snd_zip (Nat.le_of_eq (Highlight.length_sequence staged.texts))

/-- Each stage comes with marks that fit its text. -/
theorem fits_of_mem_highlighted {text : String} {highlight : Highlight}
    (h : (text, highlight) ∈ staged.highlighted) : highlight.Fits text :=
  (List.forall₂_iff_zip.mp (Highlight.sequence_fits staged.texts).flip).2 h

/-- In the first of several stages nothing is marked. -/
theorem head?_highlighted (h : 2 ≤ staged.highlighted.length) :
    ∃ text, staged.highlighted.head? = some (text, []) := by
  have hlength : 2 ≤ staged.texts.length := by
    rwa [← staged.map_fst_highlighted, List.length_map]
  have hhead := Highlight.head?_sequence hlength
  rw [← staged.map_snd_highlighted, List.head?_map] at hhead
  obtain ⟨⟨text, highlight⟩, hhead, rfl⟩ := Option.map_eq_some_iff.mp hhead
  exact ⟨text, hhead⟩

/-- The last of stages that settle is the text of the value, marked in full. -/
theorem Settles.getLast?_highlighted_full (h : staged.Settles) :
    staged.highlighted.getLast? = some (staged.value.text, .full staged.value.text) := by
  obtain ⟨highlight, hlast⟩ := h.getLast?_highlighted
  have hmarks := Highlight.getLast?_sequence staged.texts
  rw [← staged.map_snd_highlighted, List.getLast?_map, hlast, h.getLast?_texts] at hmarks
  have hfull : highlight = .full staged.value.text := Option.some.inj hmarks
  rw [hlast, hfull]

end Staged

/-- An expression shown in its stages. -/
structure Presentation where
  /-- The index of its first step. -/
  start : Nat
  /-- The stages of the expression. -/
  staged : Staged
  /-- The step that shows a stage. -/
  step : String → Highlight → Step
  /-- A step shows a text with its marks as they are. -/
  highlighted?_step : ∀ text highlight, (step text highlight).highlighted? = some (text, highlight)

namespace Presentation

/-- The steps that show the expression. -/
def steps (p : Presentation) : List Step :=
  p.staged.highlighted.map fun (text, highlight) => p.step text highlight

/-- The step of an index is one of those that show the expression. -/
def Covers (p : Presentation) (index : Nat) : Prop :=
  p.start ≤ index ∧ index < p.start + p.steps.length

/-- The steps stand in a log, next to each other and from their index on. -/
def StandsIn (p : Presentation) (log : List Step) : Prop :=
  ∃ before after, log = before ++ p.steps ++ after ∧ before.length = p.start

/-- What stands in a log stays there when the log grows. -/
theorem StandsIn.later {p : Presentation} {log more : List Step} (h : p.StandsIn log)
    (hmore : log <+: more) : p.StandsIn more := by
  obtain ⟨before, after, rfl, hstart⟩ := h
  obtain ⟨rest, rfl⟩ := hmore
  exact ⟨before, after ++ rest, List.append_assoc _ _ _, hstart⟩

/-- The steps of the indices that a presentation covers belong to it. -/
theorem StandsIn.mem_steps {p : Presentation} {log : List Step} (h : p.StandsIn log) {index : Nat}
    (hindex : p.Covers index) {step : Step} (hstep : log[index]? = some step) :
    step ∈ p.steps := by
  obtain ⟨before, after, rfl, hstart⟩ := h
  obtain ⟨hlow, hhigh⟩ := hindex
  rw [List.getElem?_append_left (by rw [List.length_append]; omega),
    List.getElem?_append_right (by omega)] at hstep
  exact List.mem_of_getElem? hstep

/-- Each step of a presentation has marks that fit its text. -/
theorem fits_of_mem_steps {p : Presentation} {step : Step} (h : step ∈ p.steps) {text : String}
    {highlight : Highlight} (hshown : step.highlighted? = some (text, highlight)) :
    highlight.Fits text := by
  obtain ⟨⟨shown, marks⟩, hmem, rfl⟩ := List.mem_map.mp h
  cases (p.highlighted?_step shown marks).symm.trans hshown
  exact Staged.fits_of_mem_highlighted hmem

/-- The first of several steps marks nothing. -/
theorem head?_steps {p : Presentation} (h : 2 ≤ p.steps.length) :
    ∃ text, p.steps.head?.bind Step.highlighted? = some (text, []) := by
  rw [steps, List.length_map] at h
  obtain ⟨text, hhead⟩ := Staged.head?_highlighted h
  refine ⟨text, ?_⟩
  rw [steps, List.head?_map, hhead]
  exact p.highlighted?_step text []

/-- The last step shows the value, marked in full. -/
theorem getLast?_steps {p : Presentation} (h : p.staged.Settles) :
    p.steps.getLast?.bind Step.highlighted? =
      some (p.staged.value.text, .full p.staged.value.text) := by
  rw [steps, List.getLast?_map, h.getLast?_highlighted_full]
  exact p.highlighted?_step _ _

end Presentation

/-- Steps that are recorded one after another stand in the log. -/
theorem Run.standsIn_recordedAll (r : Run) (p : Presentation) (h : r.trace.length = p.start) :
    p.StandsIn (r.recordedAll p.steps).trace.steps.toList :=
  ⟨r.trace.steps.toList, [], by rw [r.steps_recordedAll, List.append_nil], h⟩

/-- The indices of steps that are recorded one after another are covered. -/
theorem Run.covers_recordedAll (r : Run) (p : Presentation) (h : r.trace.length = p.start)
    {index : Nat} (hnew : r.trace.length ≤ index)
    (hdone : index < (r.recordedAll p.steps).trace.length) : p.Covers index := by
  have hlength : (r.recordedAll p.steps).trace.length = r.trace.length + p.steps.length := by
    have hsteps := congrArg List.length (r.steps_recordedAll p.steps)
    rwa [List.length_append] at hsteps
  exact ⟨h ▸ hnew, by omega⟩

/-- Some branches show the condition of one of them, tested after those before it failed. -/
inductive Branch.Presents : BranchKind → List Branch → Run → Presentation → Prop
  /-- The first condition is tested. -/
  | first {kind : BranchKind} {condition : Expr} {body : List Stmt} {location : Location}
      {others : List Branch} {r : Run} {staged : Staged}
      (stages : condition.wholeStages r.store.scopes = .ok staged) :
      Presents kind (.mk condition body location :: others) r
        ⟨r.trace.length, staged, .branch (r.store.idAt location).1 r.store.depth kind,
          fun _ _ => rfl⟩
  /-- The first condition does not hold, and a later one is tested. -/
  | further {kind : BranchKind} {condition : Expr} {body : List Stmt} {location : Location}
      {others : List Branch} {r s : Run} {p : Presentation}
      (failed : test kind condition location r = .ok false s)
      (branch : Presents .further others s p) :
      Presents kind (.mk condition body location :: others) r p

/-- A statement that starts in a state, with so many calls that may still nest, shows an
expression. -/
inductive Stmt.Presents (calls : Nat) (before : Run) : Stmt → Presentation → Prop
  /-- An argument is printed, after those before it. -/
  | printed {statement : Stmt} {args : List Expr} {location : Location} {shown more : List Staged}
      {staged : Staged} (needed : statement.value? = some (.call "print" args location))
      (stages : args.mapM (Expr.wholeStages before.store.scopes) = .ok (shown ++ staged :: more)) :
      Presents calls before statement
        ⟨before.trace.length + (shown.flatMap Staged.highlighted).length, staged,
          .print (before.store.idAt location).1 before.store.depth, fun _ _ => rfl⟩
  /-- A condition is tested. -/
  | tested {branches : List Branch} {alternative : Option Otherwise} {location : Location}
      {p : Presentation} (branch : Branch.Presents .first branches (before.movedTo location) p) :
      Presents calls before (.choose branches alternative location) p
  /-- A value is returned, after what it takes to find it. -/
  | returned {e : Expr} {location : Location} {staged : Staged} {s : Run}
      (stages : stagesOf (callWithin calls) (fun scopes e => e.wholeStages scopes) e
        (before.movedTo location) = .ok staged s) :
      Presents calls before (.giveBack (some e) location)
        ⟨s.trace.length, staged, .giveBack (s.store.idAt location).1 s.store.depth,
          fun _ _ => rfl⟩
  /-- No value is given to return. -/
  | returnedNone {location : Location} :
      Presents calls before (.giveBack none location)
        ⟨before.trace.length, .resolved .none,
          .giveBack (before.store.idAt location).1 before.store.depth, fun _ _ => rfl⟩

/-- The stages of a tested condition settle. -/
theorem Branch.Presents.settles {kind : BranchKind} {branches : List Branch} {r : Run}
    {p : Presentation} (h : Branch.Presents kind branches r p) : p.staged.Settles := by
  induction h with
  | first stages => exact Expr.wholeStages_settles stages
  | further _ _ ih => exact ih

/-- The stages of all that is shown settle. -/
theorem Stmt.Presents.settles {calls : Nat} {before : Run} {statement : Stmt} {p : Presentation}
    (h : statement.Presents calls before p) : p.staged.Settles := by
  cases h with
  | printed _ stages =>
    obtain ⟨e, _, he⟩ := except_mapM_mem stages (List.mem_append_right _ List.mem_cons_self)
    exact Expr.wholeStages_settles he
  | tested branch => exact branch.settles
  | returned stages => exact stagesOf_settles stages
  | returnedNone => exact Staged.settles_resolved .none

section Statements

variable {calls : Nat} {before after r r' : Run} {flow : Flow} {statement : Stmt}

/-- A print adds the stages of its arguments to the log, in order. -/
theorem Walk.callNamed_print_steps {args : List Expr} {location : Location} {value : Value}
    (h : callNamed (callWithin calls) "print" args location r = .ok value r') :
    ∃ printed, args.mapM (Expr.wholeStages r.store.scopes) = .ok printed ∧
      r'.trace.steps.toList = r.trace.steps.toList ++
        (printed.flatMap Staged.highlighted).map fun shown =>
          Step.print (r.store.idAt location).1 r.store.depth shown.1 shown.2 := by
  rcases callNamed_ok h with ⟨_, _, hprint⟩ | ⟨huser, _⟩
  · obtain ⟨printed, hprinted, rfl⟩ := printAll_ok hprint
    rw [Run.identified_scopes] at hprinted
    refine ⟨printed, hprinted, ?_⟩
    rw [Run.steps_recordedAll, List.map_flatMap]
    rfl
  · exact absurd rfl huser

/-- A statement that needs the value of a print has its arguments printed, and prints nothing
after that. -/
theorem Stmt.prints_of_value? {args : List Expr} {location : Location}
    (h : statement.value? = some (.call "print" args location))
    (hexec : Stmt.exec (callWithin calls) statement before = .ok flow after) :
    ∃ printed more, args.mapM (Expr.wholeStages before.store.scopes) = .ok printed ∧
      after.trace.steps.toList = before.trace.steps.toList ++
        ((printed.flatMap Staged.highlighted).map fun shown =>
          Step.print (before.store.idAt location).1 before.store.depth shown.1 shown.2) ++ more ∧
      ∀ step ∈ more, ∀ id depth text highlight, step ≠ .print id depth text highlight := by
  cases statement with
  | assign targets value place =>
    cases h
    obtain ⟨_, names, staged, s, shares, _, hstaged, _, rfl⟩ := exec_assign_ok hexec
    rcases stagesOf_ok hstaged with ⟨_, _, _, result, hcall, hs, _⟩ | ⟨hother, _⟩
    · cases hcall
      obtain ⟨printed, hargs, hsteps⟩ := callNamed_print_steps hs
      refine ⟨printed, Target.steps s.store.depth names staged, hargs, ?_, ?_⟩
      · rw [Run.steps_recordedAll, Run.trace_boundAll]
        exact congrArg (· ++ _) hsteps
      · rintro step hmem id depth text highlight rfl
        obtain ⟨_, _, hassigned⟩ := Target.assigned_of_mem_steps hmem
        cases hassigned
    · exact absurd rfl (hother _ _ _)
  | giveBack value place =>
    cases h
    obtain ⟨_, staged, s, _, hvalue, rfl⟩ := exec_giveBack_ok hexec
    rcases hvalue with ⟨hnone, _⟩ | ⟨e, he, hstaged⟩
    · cases hnone
    · cases he
      rcases stagesOf_ok hstaged with ⟨_, _, _, result, hcall, hs, _⟩ | ⟨hother, _⟩
      · cases hcall
        obtain ⟨printed, hargs, hsteps⟩ := callNamed_print_steps hs
        refine ⟨printed, staged.highlighted.map fun (text, highlight) =>
          .giveBack (s.store.idAt place).1 s.store.depth text highlight, hargs, ?_, ?_⟩
        · rw [Run.steps_recordedAll]
          exact congrArg (· ++ _) hsteps
        · rintro step hmem id depth text highlight rfl
          obtain ⟨_, _, hreturned⟩ := List.mem_map.mp hmem
          cases hreturned
      · exact absurd rfl (hother _ _ _)
  | expression value place =>
    cases h
    obtain ⟨_, _, _, _, result, hcall, hs⟩ := exec_expression_ok hexec
    cases hcall
    obtain ⟨printed, hargs, hsteps⟩ := callNamed_print_steps hs
    exact ⟨printed, [], hargs, hsteps.trans (List.append_nil _).symm, by simp⟩
  | _ => cases h

/-- The condition that some branches show stands in the log after them. -/
theorem Branch.Presents.standsIn {alternative : Option Otherwise} {kind : BranchKind}
    {branches : List Branch} {p : Presentation} (h : Branch.Presents kind branches r p)
    (hexec : Stmt.execBranches (callWithin calls) kind
      (Stmt.execAlternative (callWithin calls) alternative) branches r = .ok flow r') :
    p.StandsIn r'.trace.steps.toList := by
  induction h with
  | @first kind condition body location others r staged stages =>
    obtain ⟨s, passed, hs, hlater⟩ : ∃ s passed, test kind condition location r = .ok passed s ∧
        s.Continues r' := by
      obtain ⟨s, ⟨hs, hran⟩ | ⟨hs, hrest⟩⟩ := Stmt.execBranches_cons_ok hexec
      · exact ⟨s, true, hs, Stmt.nested_continues hran⟩
      · have hstatements := closed_continues.statements (closed_continues.callWithin calls)
        exact ⟨s, false, hs, (hstatements.2.2.2 .further _ others
          (hstatements.2.1 alternative)).ok hrest⟩
    obtain ⟨staged', hstaged, _, rfl⟩ := test_ok hs
    cases stages.symm.trans hstaged
    refine Presentation.StandsIn.later ?_ hlater.steps
    exact (r.identified location).standsIn_recordedAll _ rfl
  | further failed _ ih =>
    obtain ⟨s, ⟨hs, _⟩ | ⟨hs, hrest⟩⟩ := Stmt.execBranches_cons_ok hexec
    · cases failed.symm.trans hs
    · cases failed.symm.trans hs
      exact ih hrest

/-- What a statement shows stands in the log after it. -/
theorem Stmt.Presents.standsIn {p : Presentation} (h : statement.Presents calls before p)
    (hexec : Stmt.exec (callWithin calls) statement before = .ok flow after) :
    p.StandsIn after.trace.steps.toList := by
  cases h with
  | @printed _ args location shown more staged needed stages =>
    obtain ⟨printed, rest, hprinted, hsteps, _⟩ := prints_of_value? needed hexec
    cases stages.symm.trans hprinted
    rw [List.flatMap_append, List.flatMap_cons, List.map_append, List.map_append,
      ← List.append_assoc, ← List.append_assoc, List.append_assoc] at hsteps
    refine ⟨_, _, hsteps, ?_⟩
    rw [List.length_append, List.length_map]
    rfl
  | tested branch => exact branch.standsIn (exec_choose_ok hexec)
  | @returned e location staged s stages =>
    obtain ⟨_, staged', s', _, hvalue, rfl⟩ := exec_giveBack_ok hexec
    rcases hvalue with ⟨hnone, _⟩ | ⟨e', he, hstaged⟩
    · cases hnone
    · cases he
      cases stages.symm.trans hstaged
      exact (s.identified location).standsIn_recordedAll _ rfl
  | returnedNone =>
    obtain ⟨_, staged', s', _, hvalue, rfl⟩ := exec_giveBack_ok hexec
    rcases hvalue with ⟨_, rfl, rfl⟩ | ⟨e', he, _⟩
    · exact ((before.movedTo _).identified _).standsIn_recordedAll _ rfl
    · cases he

/-- The step of an index among the steps of some lists belongs to one of the lists. -/
theorem exists_flatMap_block {α β : Type} {f : α → List β} {xs : List α} {index : Nat}
    (h : index < (xs.flatMap f).length) :
    ∃ before x after, xs = before ++ x :: after ∧ (before.flatMap f).length ≤ index ∧
      index < (before.flatMap f).length + (f x).length := by
  induction xs generalizing index with
  | nil => cases h
  | cons x xs ih =>
    rw [List.flatMap_cons, List.length_append] at h
    by_cases hfirst : index < (f x).length
    · exact ⟨[], x, xs, rfl, Nat.zero_le _, by simpa using hfirst⟩
    · have hothers : index - (f x).length < (xs.flatMap f).length := by omega
      obtain ⟨before, y, after, rfl, hlow, hhigh⟩ := ih hothers
      refine ⟨x :: before, y, after, rfl, ?_⟩
      rw [List.flatMap_cons, List.length_append]
      omega

variable {index : Nat} {step : Step}

/-- Each step that prints belongs to an argument of the print that a statement needs. -/
theorem Stmt.presented_of_print {args : List Expr} {location : Location}
    (h : statement.value? = some (.call "print" args location))
    (hexec : Stmt.exec (callWithin calls) statement before = .ok flow after)
    (hnew : before.trace.length ≤ index) {id depth : Nat} {text : String} {highlight : Highlight}
    (hstep : after.trace.steps[index]? = some (.print id depth text highlight)) :
    ∃ p, statement.Presents calls before p ∧ p.Covers index := by
  obtain ⟨printed, more, hprinted, hsteps, hmore⟩ := prints_of_value? h hexec
  have hlength : before.trace.steps.toList.length = before.trace.length := rfl
  rw [← Array.getElem?_toList, hsteps, List.append_assoc,
    List.getElem?_append_right (by omega)] at hstep
  by_cases hindex : index - before.trace.length < (printed.flatMap Staged.highlighted).length
  · obtain ⟨shown, staged, others, rfl, hlow, hhigh⟩ := exists_flatMap_block hindex
    refine ⟨_, .printed h hprinted, ?_⟩
    unfold Presentation.Covers Presentation.steps
    rw [List.length_map]
    dsimp only
    omega
  · -- Behind the printed steps there is none that prints.
    rw [List.getElem?_append_right (by rw [List.length_map]; omega)] at hstep
    exact absurd rfl (hmore _ (List.mem_of_getElem? hstep) _ _ _ _)

/-- Each step of some branches belongs to a condition that is tested, or to the alternative. -/
theorem Branch.Emits.presented {alternative : Option Otherwise} {kind found : BranchKind}
    {branches : List Branch} {place : Location}
    (h : Branch.Emits alternative index kind branches r found place) (hr : r.Consistent)
    (hexec : Stmt.execBranches (callWithin calls) kind
      (Stmt.execAlternative (callWithin calls) alternative) branches r = .ok flow r')
    (hstep : r'.trace.steps[index]? = some step) :
    (∃ id depth, step = .branch id depth .otherwise "" []) ∨
      ∃ p, Branch.Presents kind branches r p ∧ p.Covers index := by
  induction h with
  | first tested new done =>
    obtain ⟨staged, hstaged, _, rfl⟩ := test_ok tested
    exact .inr ⟨_, .first hstaged, (Run.identified _ _).covers_recordedAll _ rfl new done⟩
  | further failed _ ih =>
    obtain ⟨s, ⟨hs, _⟩ | ⟨hs, hrest⟩⟩ := Stmt.execBranches_cons_ok hexec
    · cases failed.symm.trans hs
    · cases failed.symm.trans hs
      rcases ih (((closed_continues.test _ _ _).ok hs).consistent hr) hrest with
        hother | ⟨p, hp, hcovers⟩
      · exact .inl hother
      · exact .inr ⟨p, .further hs hp, hcovers⟩
  | @otherwise kind body location r s given entered new done =>
    left
    rw [Stmt.execBranches] at hexec
    rcases Stmt.execAlternative_ok hexec with ⟨hnone, _⟩ | ⟨body', location', s', hsome, hs, hran⟩
    · cases given.symm.trans hnone
    · cases given.symm.trans hsome
      cases entered.symm.trans hs
      cases enterAlternative_ok hs
      rw [Run.length_recorded] at done
      have hindex : index = r.trace.length := Nat.le_antisymm (Nat.le_of_lt_succ done) new
      have hhas := (Run.hasStep_recorded ((Run.Continues.identified r location).consistent hr)
        (.branch (r.store.idAt location).1 r.store.depth .otherwise "" [])).later
          (Stmt.nested_continues hran)
      have hsame := hhas.1.symm.trans (hindex ▸ hstep)
      exact ⟨_, _, (Option.some.inj hsame).symm⟩

/-- Each step that returns belongs to the value that a return gives back. -/
theorem Stmt.RecordsItself.presented_of_giveBack {value : Option Expr} {location : Location}
    (h : (Stmt.giveBack value location).RecordsItself calls r r' index) (hr : r.Consistent)
    {id depth : Nat} {text : String} {highlight : Highlight}
    (hstep : r'.trace.steps[index]? = some (.giveBack id depth text highlight)) :
    ∃ p, (Stmt.giveBack value location).Presents calls r p ∧ p.Covers index := by
  obtain ⟨⟨flow, hexec⟩, hnew, hdone⟩ := h.recorded
  obtain ⟨hin, staged, s, _, hvalue, rfl⟩ := exec_giveBack_ok hexec
  rcases hvalue with ⟨rfl, rfl, rfl⟩ | ⟨e, rfl, hstaged⟩
  · exact ⟨_, .returnedNone, (Run.identified _ _).covers_recordedAll _ rfl hnew hdone⟩
  · have hlater : ∀ steps, s.Continues ((s.identified location).recordedAll steps) := fun steps =>
      (Run.Continues.identified s location).trans (Run.continues_recordedAll _ steps)
    have hfrom : s.trace.length ≤ index := by
      -- What it takes to find the value prints or calls, and does not return.
      by_contra hindex
      obtain ⟨step', place, hhas, _, _, hemits, _⟩ :=
        stagesOf_explained (hr.movedTo location) hstaged
          (fun _ _ _ _ _ hstarts hran => h.not_started (.giveBack hin hstarts) hran) hnew
          (Nat.lt_of_not_le hindex)
      cases (hhas.later (hlater _)).1.symm.trans hstep
      cases hemits
    exact ⟨_, .returned hstaged, (s.identified location).covers_recordedAll _ rfl hfrom hdone⟩

/-- Each step with marks that a statement records itself belongs to an expression that the
statement shows, or to its alternative. -/
theorem Stmt.RecordsItself.presented (h : statement.RecordsItself calls r r' index)
    (hr : r.Consistent) (hstep : r'.trace.steps[index]? = some step)
    (hshown : step.highlighted?.isSome = true) :
    (∃ id depth, step = .branch id depth .otherwise "" []) ∨
      ∃ p, statement.Presents calls r p ∧ p.Covers index := by
  obtain ⟨⟨flow, hexec⟩, hnew, hdone⟩ := h.recorded
  obtain ⟨step', place, hhas, _, haccounts⟩ := h.accounted hr
  cases hhas.1.symm.trans hstep
  obtain ⟨id, hid⟩ : ∃ id, step.id? = some id := by
    cases step <;> first | exact ⟨_, rfl⟩ | cases hshown
  obtain ⟨location, hemits, _⟩ := haccounts id hid
  cases hemits with
  | value needed emits =>
    cases emits with
    | print => exact .inr (presented_of_print needed hexec hnew hstep)
    | call => cases hshown
    | endCall => cases hshown
  | branch emits =>
    have hmoved : ∀ here, (r.movedTo here).Consistent := fun here =>
      (Run.Continues.movedTo r here).consistent hr
    rcases emits.presented (hmoved _) (exec_choose_ok hexec) hstep with hother | ⟨p, hp, hcovers⟩
    · exact .inl hother
    · exact .inr ⟨p, .tested hp, hcovers⟩
  | giveBack => exact .inr (h.presented_of_giveBack hr hstep)
  | pass => cases hshown
  | define => cases hshown

end Statements

section Programs

variable {program : Program} {limits : Limits} {trace : Trace}

/-- All that a run which succeeds shows stands in its log. -/
theorem Program.standsIn (h : program.trace limits = .ok trace) {calls : Nat} {statement : Stmt}
    {before : Run} {p : Presentation} (hreach : program.Reaches limits calls statement before)
    (hp : statement.Presents calls before p) : p.StandsIn trace.steps.toList := by
  obtain ⟨flow, final, hrun, rfl⟩ := trace_ok.mp h
  obtain ⟨ended, after, hexec⟩ := Stmt.reaches_exec hreach hrun
  exact (hp.standsIn hexec).later (Stmt.reaches_ended hreach hrun hexec).steps

/-- Each step with marks of a run that succeeds belongs to an expression that is shown, or to
an alternative. -/
theorem Program.presented (h : program.trace limits = .ok trace) {index : Nat} {step : Step}
    (hstep : trace.steps[index]? = some step) (hshown : step.highlighted?.isSome = true) :
    (∃ id depth, step = .branch id depth .otherwise "" []) ∨
      ∃ calls statement before p, program.Reaches limits calls statement before ∧
        statement.Presents calls before p ∧ p.Covers index := by
  obtain ⟨flow, final, hrun, rfl⟩ := trace_ok.mp h
  have hindex : index < final.trace.length := (Array.getElem?_eq_some_iff.mp hstep).1
  obtain ⟨calls, statement, before, after, hreach, hitself⟩ :=
    Program.exists_recordsItself hrun hindex
  obtain ⟨⟨ended, hexec⟩, _, _⟩ := hitself.recorded
  have hbefore := (Stmt.reaches_continues hreach).consistent (Run.Consistent.start limits)
  -- The step is in the log when the statement has ended, and stays there.
  obtain ⟨step', place, hhas, _⟩ := hitself.accounted hbefore
  cases (hhas.later (Stmt.reaches_ended hreach hrun hexec)).1.symm.trans hstep
  rcases hitself.presented hbefore hhas.1 hshown with hother | ⟨p, hp, hcovers⟩
  · exact .inl hother
  · exact .inr ⟨calls, statement, before, p, hreach, hp, hcovers⟩

/-- Each step of a run that succeeds has marks that fit its text. -/
theorem Program.fits (h : program.trace limits = .ok trace) {index : Nat} {step : Step}
    {text : String} {highlight : Highlight} (hstep : trace.steps[index]? = some step)
    (hshown : step.highlighted? = some (text, highlight)) : highlight.Fits text := by
  rcases Program.presented h hstep (hshown ▸ rfl) with
    ⟨id, depth, rfl⟩ | ⟨calls, statement, before, p, hreach, hp, hcovers⟩
  · cases hshown
    exact ⟨.nil, by simp⟩
  · rw [← Array.getElem?_toList] at hstep
    exact Presentation.fits_of_mem_steps
      ((Program.standsIn h hreach hp).mem_steps hcovers hstep) hshown

end Programs

open Highlight in
/-- All highlights are valid. A comparison with two cursors never looks outside the texts and
ends with the changed positions, which are in order and inside the later text, and none if
the texts are the same. Each of some stages has such a highlight, an empty one for the first
of several and a full one for the last. In a run that succeeds each step with marks has a
highlight that fits its text, and belongs to an expression that is shown or to an
alternative; the steps of an expression that is printed, tested or returned stand next to
each other, the first of several with nothing marked and the last with everything. -/
theorem every_highlight_fits :
    (∀ earlier later : String,
      (∀ steps, 2 * earlier.length + later.length < steps →
        Comparison.run earlier.toList later.toList steps .start =
          .ended (changed earlier later)) ∧
      (changed earlier later).Fits later ∧ (earlier = later → changed earlier later = [])) ∧
    (∀ stages : List String,
      List.Forall₂ Fits (sequence stages) stages ∧
      (2 ≤ stages.length → (sequence stages).head? = some []) ∧
      ∀ last, stages.getLast? = some last →
        (sequence stages).getLast? = some (List.range last.length)) ∧
    ∀ (program : Program) (limits : Limits) (trace : Trace), program.trace limits = .ok trace →
      (∀ (index : Nat) (step : Step) (text : String) (highlight : Highlight),
        trace.steps[index]? = some step → step.highlighted? = some (text, highlight) →
        highlight.Fits text ∧
          ((∃ id depth, step = .branch id depth .otherwise "" []) ∨
            ∃ calls statement before p, program.Reaches limits calls statement before ∧
              statement.Presents calls before p ∧ p.Covers index)) ∧
      ∀ calls statement before p, program.Reaches limits calls statement before →
        statement.Presents calls before p → p.StandsIn trace.steps.toList ∧
          (2 ≤ p.steps.length →
            ∃ text, p.steps.head?.bind Step.highlighted? = some (text, [])) ∧
          p.steps.getLast?.bind Step.highlighted? =
            some (p.staged.value.text, .full p.staged.value.text) := by
  refine ⟨fun earlier later => ⟨fun steps hsteps => run_start_eq_changed earlier later hsteps,
    changed_fits earlier later, ?_⟩, fun stages => ⟨sequence_fits stages, head?_sequence, ?_⟩, ?_⟩
  · rintro rfl
    exact changed_self earlier
  · intro last hlast
    rw [getLast?_sequence, hlast]
    rfl
  · intro program limits trace h
    refine ⟨fun index step text highlight hstep hshown => ?_, ?_⟩
    · exact ⟨Program.fits h hstep hshown, Program.presented h hstep (hshown ▸ rfl)⟩
    · intro calls statement before p hreach hp
      exact ⟨Program.standsIn h hreach hp, Presentation.head?_steps,
        Presentation.getLast?_steps hp.settles⟩

namespace Sample

/-- A sum that is printed in three stages. -/
def printedSum : String := "a = 10\nprint(a + 1)\n"

/-- The stage of the printed sum in which its name has been replaced. -/
def replacedSum : Step := .print 1 0 "10 + 1" [0, 1]

/-- The run of the printed sum shows that stage. -/
theorem trace_printedSum : ∃ trace, traceText printedSum {} = .ok trace ∧
    trace.steps[2]? = some replacedSum := by
  have hseen : (traceText printedSum {}).toOption.map (fun trace => trace.steps[2]?) =
      some (some replacedSum) := by
    decide +kernel
  obtain ⟨trace, htrace, hstep⟩ := Option.map_eq_some_iff.mp hseen
  exact ⟨trace, except_toOption_some.mp htrace, hstep⟩

end Sample

/-- The second stage of a printed sum belongs to an expression whose last stage is marked in
full. -/
theorem printedSum_marked : ∃ program trace, Program.parse Sample.printedSum = .ok program ∧
    program.trace {} = .ok trace ∧ trace.steps[2]? = some Sample.replacedSum ∧
    Highlight.Fits [0, 1] "10 + 1" ∧
    ∃ p : Presentation, p.Covers 2 ∧ p.StandsIn trace.steps.toList ∧
      p.steps.getLast?.bind Step.highlighted? =
        some (p.staged.value.text, .full p.staged.value.text) := by
  obtain ⟨trace, htext, hstep⟩ := Sample.trace_printedSum
  obtain ⟨program, hparse, htrace⟩ := traceText_ok htext
  obtain ⟨_, _, hruns⟩ := every_highlight_fits
  obtain ⟨hmarks, hshown⟩ := hruns program {} trace htrace
  obtain ⟨hfits, hwhere⟩ := hmarks 2 _ _ _ hstep rfl
  refine ⟨program, trace, hparse, htrace, hstep, hfits, ?_⟩
  rcases hwhere with ⟨_, _, hother⟩ | ⟨calls, statement, before, p, hreach, hp, hcovers⟩
  · cases hother
  · obtain ⟨hstands, _, hlast⟩ := hshown calls statement before p hreach hp
    exact ⟨p, hcovers, hstands, hlast⟩

end Walkthrough
