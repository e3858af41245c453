import Walkthrough.Proofs.Balance
import Walkthrough.Proofs.Ownership
import Walkthrough.Proofs.Stages

/-!
# The course of a run

A run that succeeds is put together from a few kinds of changes: names get values, a place
is visited and some steps are recorded under its id, statements run one level deeper, a
function is called, a value is returned. `Course` has one rule for each of them, so that a
property of whole runs can be proved rule by rule, by induction on the course. The first such
property is that a run adds its steps on the level where it started and on deeper ones.
-/

namespace Walkthrough

open Walk

namespace Step

/-- Whether a step is neither the start nor the end of a call nor part of a return. -/
def isOrdinary : Step → Bool
  | call .. => false
  | endCall .. => false
  | giveBack .. => false
  | _ => true

/-- Whether statements may follow a step one level deeper, calls apart. -/
def opens : Step → Bool
  | pass .. => true
  | branch .. => true
  | _ => false

/-- A step is an ordinary one under an id and on a level of nesting. -/
structure Shows (step : Step) (id depth : Nat) : Prop where
  ordinary : step.isOrdinary = true
  id : step.id? = some id
  depth : step.depth = depth

end Step

/-- The last step of the log opens a level of nesting below the current one. -/
def Run.Opened (run : Run) : Prop :=
  ∃ step, run.trace.steps.toList.getLast? = some step ∧ step.opens = true ∧
    step.depth = run.store.depth

/-- Where so many calls may nest, a run can come from one state to another and end in this way.
A place that is visited without a step has to be idle, for the length of the log then. -/
inductive Course (Idle : Nat → Location → Prop) : Nat → Run → Flow → Run → Prop where
  /-- Nothing happens. -/
  | done {calls : Nat} {r : Run} : Course Idle calls r .normal r
  /-- One part follows another. -/
  | seq {calls : Nat} {r s t : Run} {flow : Flow} (first : Course Idle calls r .normal s)
    (second : Course Idle calls s flow t) : Course Idle calls r flow t
  /-- The current place changes. -/
  | moved {calls : Nat} {r : Run} (location : Location) :
    Course Idle calls r .normal (r.movedTo location)
  /-- Names get values, and variables are shown. -/
  | bound {calls : Nat} {r : Run} (bindings : List (String × Value)) (steps : List Step)
    (shown : ∀ step ∈ steps, ∃ target text, step = .assigned r.store.depth target text) :
    Course Idle calls r .normal ((r.boundAll bindings).recordedAll steps)
  /-- A place is visited, and ordinary steps are recorded under its id. -/
  | visited {calls : Nat} {r : Run} (location : Location) (steps : List Step)
    (shown : ∀ step ∈ steps, step.Shows (r.store.idAt location).1 r.store.depth)
    (idle : steps = [] → Idle r.trace.length location) :
    Course Idle calls r .normal ((r.identified location).recordedAll steps)
  /-- An ordinary step is recorded under an id that is known. -/
  | repeated {calls : Nat} {r : Run} {id : Nat} {location : Location} (step : Step)
    (known : r.trace.sourceOf? id = some location) (shown : step.Shows id r.store.depth) :
    Course Idle calls r .normal (r.recorded step)
  /-- A function is defined. -/
  | defined {calls : Nat} {r : Run} (f : Procedure) : Course Idle calls r .normal (r.defined f)
  /-- Statements run one level deeper, after a step that opens the level. -/
  | nested {calls : Nat} {r s : Run} {flow : Flow} (opened : r.Opened)
    (body : Course Idle calls r.entered flow s) : Course Idle calls r flow s.exited
  /-- A value is returned and shown in stages. -/
  | gave {calls : Nat} {r : Run} (location : Location) (steps : List Step) (value : Value)
    (inside : r.store.inFunction = true)
    (shown : ∀ step ∈ steps, ∃ text highlight,
      step = .giveBack (r.store.idAt location).1 r.store.depth text highlight)
    (last : ∃ highlight, steps.getLast? =
      some (.giveBack (r.store.idAt location).1 r.store.depth value.text highlight)) :
    Course Idle calls r (.returned value) ((r.identified location).recordedAll steps)
  /-- A function is called, and its statements run with one call less. -/
  | called {calls : Nat} {r last : Run} {flow : Flow} (f : Procedure) (values : List Value)
    (location : Location) (body : Course Idle calls (r.inside f values location) flow last) :
    Course Idle (calls + 1) r .normal (last.returned r f location flow.value)

namespace Stmt

/-- A statement visits a place and records no step: a loop whose range is empty, or a print
without arguments. -/
inductive Idles : Stmt → Run → Location → Prop where
  | loop {target iterable : Expr} {body : List Stmt} {location : Location} {name : String}
    {counter : Counter} {r : Run} (named : target.loopName = .ok name)
    (counted : Expr.counter r.store.scopes name iterable = .ok counter)
    (empty : counter.inRange = false) : Idles (.loop target iterable body location) r location
  | print {statement : Stmt} {location : Location} {r : Run}
    (call : statement.value? = some (.call "print" [] location)) : Idles statement r location

/-- Wherever a statement that some statements come to visits a place without a step, the
place is idle. -/
def Covered (Idle : Nat → Location → Prop) (calls : Nat) (body : List Stmt) (r : Run) : Prop :=
  ∀ least inner before location, Reaches calls body r least inner before →
    inner.Idles before location → Idle before.trace.length location

/-- A statement runs in course, whatever statements follow it. -/
def InCourse (Idle : Nat → Location → Prop) (calls : Nat) (statement : Stmt) : Prop :=
  ∀ others r flow r', r.Consistent → exec (callWithin calls) statement r = .ok flow r' →
    Covered Idle calls (statement :: others) r → Course Idle calls r flow r'

/-- Statements run in course, one after another. -/
def AllInCourse (Idle : Nat → Location → Prop) (calls : Nat) (body : List Stmt) : Prop :=
  ∀ r flow r', r.Consistent → execAll (callWithin calls) body r = .ok flow r' →
    Covered Idle calls body r → Course Idle calls r flow r'

/-- The alternative of a choice runs in course. -/
def AlternativeInCourse (Idle : Nat → Location → Prop) (calls : Nat)
    (alternative : Option Otherwise) : Prop :=
  ∀ r flow r', r.Consistent → execAlternative (callWithin calls) alternative r = .ok flow r' →
    (∀ kind body s, Branch.Starts alternative kind [] r body s →
      Covered Idle calls body s.entered) → Course Idle calls r flow r'

/-- The branches of a choice run in course if its alternative does. -/
def BranchesInCourse (Idle : Nat → Location → Prop) (calls : Nat) (kind : BranchKind)
    (otherwise : Walk Flow) (branches : List Branch) : Prop :=
  ∀ alternative, otherwise = execAlternative (callWithin calls) alternative →
    AlternativeInCourse Idle calls alternative →
    ∀ r flow r', r.Consistent →
      execBranches (callWithin calls) kind otherwise branches r = .ok flow r' →
      (∀ body s, Branch.Starts alternative kind branches r body s →
        Covered Idle calls body s.entered) → Course Idle calls r flow r'

variable {Idle : Nat → Location → Prop} {calls fewer : Nat} {statement : Stmt}
  {others body : List Stmt} {r s : Run}

theorem Covered.first {location : Location} (h : Covered Idle calls (statement :: others) r)
    (hidles : statement.Idles r location) : Idle r.trace.length location :=
  h calls statement r location .first hidles

theorem Covered.next (h : Covered Idle calls (statement :: others) r)
    (hended : exec (callWithin calls) statement r = .ok .normal s) :
    Covered Idle calls others s :=
  fun _ _ _ _ hreach hidles => h _ _ _ _ (.next hended hreach) hidles

theorem Covered.inner (h : Covered Idle calls (statement :: others) r)
    (hstarts : Starts calls statement r fewer body s) : Covered Idle fewer body s :=
  fun _ _ _ _ hreach hidles => h _ _ _ _ (.inner hstarts hreach) hidles

end Stmt

namespace Run

/-- Recorded steps leave a level open if they open it. -/
theorem opened_recordedAll {r : Run} {steps : List Step} (hsome : steps ≠ [])
    (h : ∀ step ∈ steps, step.opens = true ∧ step.depth = r.store.depth) :
    (r.recordedAll steps).Opened := by
  obtain ⟨hopens, hdepth⟩ := h (steps.getLast hsome) (List.getLast_mem hsome)
  refine ⟨steps.getLast hsome, ?_, hopens, ?_⟩
  · rw [steps_recordedAll, List.getLast?_append_of_ne_nil _ hsome,
      List.getLast?_eq_getLast_of_ne_nil hsome]
  · rw [store_recordedAll]
    exact hdepth

/-- A recorded step leaves a level open if it opens it. -/
theorem opened_recorded {r : Run} {step : Step} (hopens : step.opens = true)
    (hdepth : step.depth = r.store.depth) : (r.recorded step).Opened :=
  opened_recordedAll (List.cons_ne_nil step []) (List.forall_mem_singleton.mpr ⟨hopens, hdepth⟩)

end Run

/-- The last of stages that settle shows the text of the value. -/
theorem Staged.Settles.getLast?_highlighted {staged : Staged} (h : staged.Settles) :
    ∃ highlight, staged.highlighted.getLast? = some (staged.value.text, highlight) := by
  have hlast := h.getLast?_texts
  rw [← staged.map_fst_highlighted, List.getLast?_map] at hlast
  obtain ⟨⟨text, highlight⟩, hlast, rfl⟩ := Option.map_eq_some_iff.mp hlast
  exact ⟨highlight, hlast⟩

/-- Stages that settle are not empty. -/
theorem Staged.Settles.highlighted_ne_nil {staged : Staged} (h : staged.Settles) :
    staged.highlighted ≠ [] := by
  obtain ⟨highlight, hlast⟩ := h.getLast?_highlighted
  intro hnone
  rw [hnone] at hlast
  cases hlast

namespace Walk

variable {Idle : Nat → Location → Prop} {calls : Nat} {r r' : Run} {flow : Flow}

/-- A print shows nothing only if it has no arguments. -/
theorem printed_ne_nil {args : List Expr} {scopes : Scopes Value} {printed : List Staged}
    (h : args.mapM (Expr.wholeStages scopes) = .ok printed)
    {step : String → Highlight → Step}
    (hnone : (printed.flatMap fun staged =>
      staged.highlighted.map fun (text, highlight) => step text highlight) = []) : args = [] := by
  cases except_mapM_ok.1 h with
  | nil => rfl
  | cons hfirst _ =>
    rw [List.flatMap_cons, List.append_eq_nil_iff, List.map_eq_nil_iff] at hnone
    exact absurd hnone.1 (Expr.wholeStages_settles hfirst).highlighted_ne_nil

/-- Where so many calls may nest, all statements run in course. -/
def RunsInCourse (Idle : Nat → Location → Prop) (calls : Nat) : Prop :=
  ∀ body, Stmt.AllInCourse Idle calls body

/-- A call by name visits its place and prints, or calls a function. -/
theorem callNamed_course (hfewer : ∀ fewer, calls = fewer + 1 → RunsInCourse Idle fewer)
    {function : String} {args : List Expr} {location : Location} {value : Value}
    (hr : r.Consistent)
    (h : callNamed (callWithin calls) function args location r = .ok value r')
    (hidle : function = "print" → args = [] → Idle r.trace.length location)
    (hcovered : ∀ fewer body s, (Expr.call function args location).Starts calls r fewer body s →
      Stmt.Covered Idle fewer body s) : Course Idle calls r .normal r' := by
  rcases callNamed_ok h with ⟨hprint, _, h⟩ | ⟨huser, f, hf, h⟩
  · obtain ⟨printed, hprinted, rfl⟩ := printAll_ok h
    refine .visited location _ (fun step hstep => ?_) fun hnone =>
      hidle hprint (printed_ne_nil hprinted hnone)
    obtain ⟨staged, _, hstep⟩ := List.mem_flatMap.mp hstep
    obtain ⟨shown, _, rfl⟩ := List.mem_map.mp hstep
    exact ⟨rfl, rfl, rfl⟩
  · obtain ⟨fewer, values, ended, last, rfl, _, answered⟩ := callWithin_ok h
    have hstarts : (Expr.call function args location).Starts (fewer + 1) r fewer f.body
        (r.inside f values location) :=
      .call huser hf answered.count answered.evaluated answered.room
    have hinside := (Run.continues_inside r f values location).consistent hr
    rw [answered.ended]
    exact .called f values location
      (hfewer fewer rfl f.body _ _ _ hinside answered.ran (hcovered _ _ _ hstarts))

/-- Finding a value calls a function, prints or does nothing. -/
theorem stagesOf_course (hfewer : ∀ fewer, calls = fewer + 1 → RunsInCourse Idle fewer)
    {present : Scopes Value → Expr → Except Fault Staged} {e : Expr} {staged : Staged}
    (hr : r.Consistent) (h : stagesOf (callWithin calls) present e r = .ok staged r')
    (hidle : ∀ location, e = .call "print" [] location → Idle r.trace.length location)
    (hcovered : ∀ fewer body s, e.Starts calls r fewer body s →
      Stmt.Covered Idle fewer body s) : Course Idle calls r .normal r' := by
  rcases stagesOf_ok h with ⟨function, args, location, value, rfl, hcall, _⟩ | ⟨_, _, rfl⟩
  · refine callNamed_course hfewer hr hcall (fun hprint hnone => hidle location ?_) hcovered
    rw [hprint, hnone]
  · exact .done

/-- The stages of a returned value settle. -/
theorem stagesOf_settles {caller : Caller} {e : Expr} {staged : Staged}
    (h : stagesOf caller (fun scopes e => e.wholeStages scopes) e r = .ok staged r') :
    staged.Settles := by
  rcases stagesOf_ok h with ⟨_, _, _, value, _, _, rfl⟩ | ⟨_, hstaged, _⟩
  · exact Staged.settles_resolved value
  · exact Expr.wholeStages_settles hstaged

/-- The test of a condition visits its place, and may open a level. -/
theorem test_course {kind : BranchKind} {condition : Expr} {location : Location} {passed : Bool}
    (h : test kind condition location r = .ok passed r') :
    Course Idle calls r .normal r' ∧ r'.Opened := by
  obtain ⟨staged, hstaged, _, rfl⟩ := test_ok h
  have hsome : (staged.highlighted.map fun (text, highlight) =>
      Step.branch (r.store.idAt location).1 r.store.depth kind text highlight) ≠ [] := by
    rw [Ne, List.map_eq_nil_iff]
    exact (Expr.wholeStages_settles hstaged).highlighted_ne_nil
  constructor
  · refine .visited location _ (fun step hstep => ?_) fun hnone => absurd hnone hsome
    obtain ⟨shown, _, rfl⟩ := List.mem_map.mp hstep
    exact ⟨rfl, rfl, rfl⟩
  · refine Run.opened_recordedAll hsome fun step hstep => ?_
    obtain ⟨shown, _, rfl⟩ := List.mem_map.mp hstep
    exact ⟨rfl, (r.identified_depth location).symm⟩

/-- The alternative of a choice visits its place and opens a level. -/
theorem enterAlternative_course {location : Location} {u : Unit}
    (h : enterAlternative location r = .ok u r') :
    Course Idle calls r .normal r' ∧ r'.Opened := by
  cases enterAlternative_ok h
  constructor
  · refine .visited location [.branch (r.store.idAt location).1 r.store.depth .otherwise "" []]
      (fun step hstep => ?_) fun hnone => by cases hnone
    cases List.mem_singleton.mp hstep
    exact ⟨rfl, rfl, rfl⟩
  · exact Run.opened_recorded rfl (r.identified_depth location).symm

/-- A pass that has started opens a level. -/
theorem opened_startPass {id : Nat} {counter : Counter} {u : Unit}
    (h : startPass id counter r = .ok u r') : r'.Opened := by
  cases startPass_ok h
  exact Run.opened_recorded rfl rfl

/-- The passes of a loop, whose place was visited with the first of them. -/
theorem passes_course {id : Nat} {body : List Stmt} {location : Location} {counter : Counter}
    {q : Run} (hr : r.Consistent) (hid : r.trace.sourceOf? id = some location)
    (hnone : counter.inRange = false → Course Idle calls q .normal r)
    (hfirst : ∀ s, startPass id counter r = .ok () s → Course Idle calls q .normal s)
    (h : passes id (nested (Stmt.execAll (callWithin calls) body)) counter r = .ok flow r')
    (hbody : ∀ s flow t, s.Consistent →
      PassStarts id (nested (Stmt.execAll (callWithin calls) body)) counter r s →
      nested (Stmt.execAll (callWithin calls) body) s = .ok flow t → s.Opened →
      Course Idle calls s flow t) : Course Idle calls q flow r' := by
  induction counter using passes.induct generalizing q r with
  | case1 counter range ih =>
    rcases passes_ok h with ⟨hout, _⟩ | ⟨_, s, t, hs, hran⟩
    · rw [range] at hout
      cases hout
    · have hcontinues := (closed_continues.startPass _ _).ok hs
      have hopened := opened_startPass hs
      have hpass := hbody s
      rcases hran with ⟨value, rfl, hreturned⟩ | ⟨hnormal, hrest⟩
      · exact (hfirst s hs).seq
          (hpass _ _ (hcontinues.consistent hr) (.next range hs) hreturned hopened)
      · have hended := hcontinues.trans (Stmt.nested_continues hnormal)
        have hknown := hended.sourceOf hr hid
        -- Only the first pass visits the place; each later one finds its id given.
        have hlater : ∀ u, startPass id counter.next t = .ok () u →
            Course Idle calls t .normal u := by
          intro u hu
          cases startPass_ok hu
          let step := Step.pass id t.store.depth counter.next counter.next.changed
          have hstep : Course Idle calls t .normal (t.recorded step) :=
            .repeated step hknown ⟨rfl, rfl, rfl⟩
          exact hstep.seq (.bound [(counter.next.target, .int counter.next.current)] [] (by simp))
        have hrestCourse := ih (hended.consistent hr) hknown (fun _ => .done) hlater hrest
          fun s' flow' t' hs' hstarts => hbody s' flow' t' hs' (.later range hs hnormal hstarts)
        exact ((hfirst s hs).seq
          (hpass _ _ (hcontinues.consistent hr) (.next range hs) hnormal hopened)).seq hrestCourse
  | case2 counter range =>
    rcases passes_ok h with ⟨hout, rfl, rfl⟩ | ⟨hin, _⟩
    · exact hnone hout
    · exact absurd hin range

/-- Statements one level deeper, after a step that opens the level. -/
theorem nested_course {body : List Stmt} (hr : r.Consistent) (hopened : r.Opened)
    (h : nested (Stmt.execAll (callWithin calls) body) r = .ok flow r')
    (hbody : ∀ s, r.entered.Consistent →
      Stmt.execAll (callWithin calls) body r.entered = .ok flow s →
      Course Idle calls r.entered flow s) : Course Idle calls r flow r' := by
  obtain ⟨last, hlast, _, rfl⟩ := nested_ok h
  exact .nested hopened (hbody last ((Run.Continues.entered r).consistent hr) hlast)

end Walk

namespace Stmt

variable {Idle : Nat → Location → Prop} {calls : Nat}

/-- An assignment finds its value and binds its names. -/
theorem assign_inCourse (hfewer : ∀ fewer, calls = fewer + 1 → RunsInCourse Idle fewer)
    (targets : List Expr) (value : Expr) (location : Location) :
    InCourse Idle calls (.assign targets value location) := by
  intro others r flow r' hr h hcovered
  obtain ⟨rfl, names, staged, s, shares, hnames, hstaged, _, rfl⟩ := exec_assign_ok h
  have hvalue := stagesOf_course hfewer (hr.movedTo location) hstaged
    (fun place hprint => hcovered.first (.print (congrArg some hprint)))
    fun fewer body s hstarts => hcovered.inner (.assign hnames hstarts)
  exact ((Course.moved location).seq hvalue).seq
    (.bound _ _ fun step hstep => Target.assigned_of_mem_steps hstep)

/-- The first pass of a loop visits the place of the loop. -/
theorem firstPass_course {r s : Run} {location : Location} {counter : Counter}
    (h : startPass (r.store.idAt location).1 counter (r.identified location) = .ok () s) :
    Course Idle calls r .normal s := by
  cases startPass_ok h
  let step := Step.pass (r.store.idAt location).1 (r.identified location).store.depth
    counter counter.changed
  have hvisited : Course Idle calls r .normal ((r.identified location).recordedAll [step]) :=
    .visited location [step]
      (List.forall_mem_singleton.mpr ⟨rfl, rfl, r.identified_depth location⟩) (by simp)
  exact hvisited.seq (.bound [(counter.target, .int counter.current)] [] (by simp))

/-- A loop visits its place, with its first pass if it has one, and makes its passes. -/
theorem loop_inCourse {body : List Stmt} (hbody : AllInCourse Idle calls body)
    (target iterable : Expr) (location : Location) :
    InCourse Idle calls (.loop target iterable body location) := by
  intro others r flow r' hr h hcovered
  obtain ⟨name, counter, hname, hcounter, h⟩ := exec_loop_ok h
  let here := r.movedTo location
  have hidentified :=
    (Run.Continues.identified here location).consistent (hr.movedTo location)
  have hnone : counter.inRange = false →
      Course Idle calls here .normal (here.identified location) := fun hempty =>
    .visited location [] (by simp) fun _ => hcovered.first (.loop hname hcounter hempty)
  have hpasses := passes_course hidentified (Run.sourceOf_identified here location) hnone
    (fun _ => firstPass_course) h
    fun s flow t hs hstarts hran hopened => nested_course hs hopened hran fun u hu hlast =>
      hbody _ _ _ hu hlast (hcovered.inner (.loop hname hcounter hstarts))
  exact (Course.moved location).seq hpasses

/-- A choice runs one of its branches. -/
theorem choose_inCourse {branches : List Branch} {alternative : Option Otherwise}
    (halternative : AlternativeInCourse Idle calls alternative)
    (hbranches : BranchesInCourse Idle calls .first
      (execAlternative (callWithin calls) alternative) branches) (location : Location) :
    InCourse Idle calls (.choose branches alternative location) := by
  intro others r flow r' hr h hcovered
  have hcourse := hbranches alternative rfl halternative _ _ _ (hr.movedTo location)
    (exec_choose_ok h) fun body s hbranch => hcovered.inner (.choose hbranch)
  exact (Course.moved location).seq hcourse

/-- A definition is shown, and the function is known from then on. -/
theorem define_inCourse (name : String) (params : List String) (body : List Stmt)
    (location : Location) : InCourse Idle calls (.define name params body location) := by
  intro others r flow r' hr h hcovered
  obtain ⟨rfl, rfl⟩ := exec_define_ok h
  let here := r.movedTo location
  let f : Procedure := ⟨name, params, body, location⟩
  let step := Step.define (r.store.idAt location).1 r.store.depth name f.signature
  have hvisited : Course Idle calls here .normal ((here.identified location).recordedAll [step]) :=
    .visited location [step] (List.forall_mem_singleton.mpr ⟨rfl, rfl, rfl⟩) (by simp)
  exact (Course.moved location).seq (hvisited.seq (.defined f))

/-- A return finds its value and gives it back, in stages. -/
theorem giveBack_inCourse (hfewer : ∀ fewer, calls = fewer + 1 → RunsInCourse Idle fewer)
    (value : Option Expr) (location : Location) :
    InCourse Idle calls (.giveBack value location) := by
  intro others r flow r' hr h hcovered
  obtain ⟨hin, staged, s, rfl, hvalue, rfl⟩ := exec_giveBack_ok h
  have hs : Course Idle calls (r.movedTo location) .normal s ∧
      s.store.inFunction = true ∧ staged.Settles := by
    rcases hvalue with ⟨rfl, rfl, rfl⟩ | ⟨e, rfl, hstaged⟩
    · exact ⟨.done, hin, Staged.settles_resolved _⟩
    · have hsteady := (closed_steady.stagesOf (closed_steady.callWithin calls) _ e).ok hstaged
      exact ⟨stagesOf_course hfewer (hr.movedTo location) hstaged
        (fun place hprint => hcovered.first (.print (congrArg some hprint)))
        fun fewer body s hstarts => hcovered.inner (.giveBack hin hstarts),
        hsteady.inFunction.trans hin, stagesOf_settles hstaged⟩
  obtain ⟨hcourse, hinside, hsettles⟩ := hs
  obtain ⟨highlight, hlast⟩ := hsettles.getLast?_highlighted
  refine ((Course.moved location).seq hcourse).seq
    (.gave location _ staged.value hinside (fun step hstep => ?_) ⟨highlight, ?_⟩)
  · obtain ⟨shown, _, rfl⟩ := List.mem_map.mp hstep
    exact ⟨_, _, rfl⟩
  · rw [List.getLast?_map, hlast]
    rfl

/-- An expression as a statement is a call. -/
theorem expression_inCourse (hfewer : ∀ fewer, calls = fewer + 1 → RunsInCourse Idle fewer)
    (value : Expr) (location : Location) : InCourse Idle calls (.expression value location) := by
  intro others r flow r' hr h hcovered
  obtain ⟨rfl, function, args, place, result, rfl, hcall⟩ := exec_expression_ok h
  have hcourse := callNamed_course hfewer (hr.movedTo location) hcall
    (fun hprint hnone => hcovered.first (.print (by rw [hprint, hnone]; rfl)))
    fun fewer body s hstarts => hcovered.inner (.expression hstarts)
  exact (Course.moved location).seq hcourse

theorem nil_inCourse : AllInCourse Idle calls [] := by
  intro r flow r' _ h _
  obtain ⟨rfl, rfl⟩ := execAll_nil_ok h
  exact .done

/-- The statements after a return do not run. -/
theorem cons_inCourse {statement : Stmt} {others : List Stmt}
    (hstatement : InCourse Idle calls statement) (hothers : AllInCourse Idle calls others) :
    AllInCourse Idle calls (statement :: others) := by
  intro r flow r' hr h hcovered
  rcases execAll_cons_ok h with ⟨value, rfl, hfirst⟩ | ⟨s, hfirst, hrest⟩
  · exact hstatement others r _ r' hr hfirst hcovered
  · have hs := (exec_continues hfirst).consistent hr
    exact (hstatement others r _ s hr hfirst hcovered).seq
      (hothers s flow r' hs hrest (hcovered.next hfirst))

/-- Where no branch is left the alternative runs. -/
theorem noBranch_inCourse (kind : BranchKind) (otherwise : Walk Flow) :
    BranchesInCourse Idle calls kind otherwise [] := by
  rintro alternative rfl halternative r flow r' hr h hcovered
  rw [execBranches] at h
  refine halternative r flow r' hr h fun _ body s hstarts => ?_
  cases hstarts with
  | otherwise given entered => exact hcovered body s (.otherwise given entered)

/-- A branch runs if its condition holds, and the further ones are tried if not. -/
theorem branch_inCourse {body : List Stmt} {others : List Branch} {otherwise : Walk Flow}
    (hbody : AllInCourse Idle calls body)
    (hothers : BranchesInCourse Idle calls .further otherwise others) (kind : BranchKind)
    (condition : Expr) (location : Location) :
    BranchesInCourse Idle calls kind otherwise (.mk condition body location :: others) := by
  intro alternative hotherwise halternative r flow r' hr h hcovered
  obtain ⟨s, ⟨htest, hran⟩ | ⟨htest, hrest⟩⟩ := execBranches_cons_ok h
  · have hs := ((closed_continues.test _ _ _).ok htest).consistent hr
    obtain ⟨hcourse, hopened⟩ := test_course htest
    exact hcourse.seq (nested_course hs hopened hran fun t ht hlast =>
      hbody _ _ _ ht hlast (hcovered body s (.first htest)))
  · have hs := ((closed_continues.test _ _ _).ok htest).consistent hr
    exact (test_course htest).1.seq (hothers alternative hotherwise halternative s flow r' hs hrest
      fun body' t hbranch => hcovered body' t (.further htest hbranch))

theorem noAlternative_inCourse : AlternativeInCourse Idle calls none := by
  intro r flow r' _ h _
  rcases execAlternative_ok h with ⟨_, rfl, rfl⟩ | ⟨_, _, _, hsome, _⟩
  · exact .done
  · cases hsome

theorem alternative_inCourse {body : List Stmt} (hbody : AllInCourse Idle calls body)
    (location : Location) : AlternativeInCourse Idle calls (some (.mk body location)) := by
  intro r flow r' hr h hcovered
  rcases execAlternative_ok h with ⟨hnone, _⟩ | ⟨_, _, s, hsome, henter, hran⟩
  · cases hnone
  · cases hsome
    have hs := ((closed_continues.enterAlternative _).ok henter).consistent hr
    obtain ⟨hcourse, hopened⟩ := enterAlternative_course henter
    exact hcourse.seq (nested_course hs hopened hran fun t ht hlast =>
      hbody _ _ _ ht hlast (hcovered .first body s (.otherwise rfl henter)))

/-- All statements run in course if those of the functions they call do. -/
theorem statements_course (hfewer : ∀ fewer, calls = fewer + 1 → RunsInCourse Idle fewer) :
    RunsInCourse Idle calls := by
  have hall := exec.mutual_induct (callWithin calls) (InCourse Idle calls)
    (AlternativeInCourse Idle calls) (AllInCourse Idle calls) (BranchesInCourse Idle calls)
    (assign_inCourse hfewer)
    (fun target iterable _ location hbody => loop_inCourse hbody target iterable location)
    (fun _ _ location halternative hbranches => choose_inCourse halternative hbranches location)
    define_inCourse (giveBack_inCourse hfewer) (expression_inCourse hfewer)
    nil_inCourse (fun _ _ => cons_inCourse)
    noBranch_inCourse
    (fun kind _ condition _ location _ hbody hothers =>
      branch_inCourse hbody hothers kind condition location)
    noAlternative_inCourse (fun _ location hbody => alternative_inCourse hbody location)
  exact hall.2.2.1

/-- However many calls may nest, statements run in course. -/
theorem runsInCourse (Idle : Nat → Location → Prop) (calls : Nat) : RunsInCourse Idle calls := by
  induction calls with
  | zero => exact statements_course fun fewer hcalls => by cases hcalls
  | succ calls ih =>
    refine statements_course fun fewer hcalls => ?_
    cases hcalls
    exact ih

end Stmt

/-- A run that succeeds has a course. -/
theorem Program.course {Idle : Nat → Location → Prop} {program : Program} {limits : Limits}
    {flow : Flow} {last : Run} (h : program.run limits = .ok flow last)
    (hidle : ∀ calls statement before location, program.Reaches limits calls statement before →
      statement.Idles before location → Idle before.trace.length location) :
    Course Idle limits.calls (Run.start limits) flow last :=
  Stmt.runsInCourse Idle limits.calls program _ flow last (.start limits) h hidle

namespace Run

/-- The log goes on with steps on the level of a state or on deeper ones, and the run is on
that level and in the same function again. -/
structure Adds (r s : Run) (more : List Step) : Prop where
  steps : s.trace.steps.toList = r.trace.steps.toList ++ more
  deep : ∀ step ∈ more, r.store.depth ≤ step.depth
  depth : s.store.depth = r.store.depth
  callDepth : s.store.callDepth = r.store.callDepth

theorem Adds.of_eq {r s : Run} (hsteps : s.trace.steps = r.trace.steps)
    (hdepth : s.store.depth = r.store.depth)
    (hcalls : s.store.callDepth = r.store.callDepth) : r.Adds s [] :=
  ⟨by rw [hsteps, List.append_nil], by simp, hdepth, hcalls⟩

theorem Adds.trans {r s t : Run} {more rest : List Step} (h : r.Adds s more)
    (h' : s.Adds t rest) : r.Adds t (more ++ rest) := by
  refine ⟨by rw [h'.steps, h.steps, List.append_assoc], fun step hstep => ?_,
    h'.depth.trans h.depth, h'.callDepth.trans h.callDepth⟩
  rcases List.mem_append.mp hstep with hstep | hstep
  · exact h.deep step hstep
  · exact h.depth ▸ h'.deep step hstep

theorem Adds.recordedAll (r : Run) {steps : List Step}
    (h : ∀ step ∈ steps, step.depth = r.store.depth) : r.Adds (r.recordedAll steps) steps := by
  have hstore := store_recordedAll r steps
  exact ⟨steps_recordedAll r steps, fun step hstep => Nat.le_of_eq (h step hstep).symm,
    by rw [hstore], by rw [hstore]⟩

theorem Adds.identified (r : Run) (location : Location) : r.Adds (r.identified location) [] :=
  have hsteady := closed_steady.identified r location
  .of_eq rfl hsteady.depth hsteady.callDepth

theorem Adds.boundAll (r : Run) (bindings : List (String × Value)) :
    r.Adds (r.boundAll bindings) [] := by
  induction bindings generalizing r with
  | nil => exact .of_eq rfl rfl rfl
  | cons binding others ih =>
    have hsteady := closed_steady.bound r binding.1 binding.2
    have hfirst : r.Adds (r.bound binding.1 binding.2) [] :=
      .of_eq rfl hsteady.depth hsteady.callDepth
    exact hfirst.trans (ih _)

/-- Steps under the id of a place. -/
theorem Adds.visited (r : Run) (location : Location) {steps : List Step}
    (h : ∀ step ∈ steps, step.depth = r.store.depth) :
    r.Adds ((r.identified location).recordedAll steps) steps :=
  (Adds.identified r location).trans
    (.recordedAll _ fun step hstep => (h step hstep).trans (r.identified_depth location).symm)

/-- The log at the first statement of a function ends with the start of the call. -/
theorem steps_inside (r : Run) (f : Procedure) (values : List Value) (location : Location) :
    ∃ signature args, (r.inside f values location).trace.steps.toList =
      r.trace.steps.toList ++
        [.call (r.store.idAt location).1 r.store.depth f.name signature args] := by
  refine ⟨f.signature, (f.params.zip values).map fun given => ⟨given.1, given.2.text⟩, ?_⟩
  simp [inside, called, pushed, entered, recorded, identified, Trace.append, Trace.record]

theorem depth_inside (r : Run) (f : Procedure) (values : List Value) (location : Location) :
    (r.inside f values location).store.depth = r.store.depth + 1 :=
  congrArg (· + 1) (closed_steady.identified r location).depth

theorem callDepth_inside (r : Run) (f : Procedure) (values : List Value) (location : Location) :
    (r.inside f values location).store.callDepth = r.store.callDepth + 1 :=
  congrArg (· + 1) (closed_steady.identified r location).callDepth

/-- The log after a call ends with the end of the call. -/
theorem steps_returned (last r : Run) (f : Procedure) (location : Location) (value : Value) :
    (last.returned r f location value).trace.steps.toList = last.trace.steps.toList ++
      [.endCall (r.store.idAt location).1 r.store.depth f.name value.text] := by
  simp [returned, popped, exited, recorded, Trace.append]

/-- A call adds its start, the steps of its function and its end. -/
theorem Adds.called {r last : Run} {f : Procedure} {values : List Value} {location : Location}
    {more : List Step} (h : (r.inside f values location).Adds last more) (value : Value) :
    ∃ all, r.Adds (last.returned r f location value) all := by
  obtain ⟨signature, args, hinside⟩ := r.steps_inside f values location
  let start := Step.call (r.store.idAt location).1 r.store.depth f.name signature args
  let stop := Step.endCall (r.store.idAt location).1 r.store.depth f.name value.text
  refine ⟨start :: more ++ [stop], ?_, fun step hstep => ?_, ?_, ?_⟩
  · rw [steps_returned, h.steps, hinside, List.append_assoc, List.append_assoc]
    rfl
  · simp only [List.cons_append, List.mem_cons, List.mem_append, List.not_mem_nil,
      or_false] at hstep
    rcases hstep with rfl | hstep | rfl
    · exact Nat.le_refl _
    · have hdeep := h.deep step hstep
      rw [depth_inside] at hdeep
      omega
    · exact Nat.le_refl _
  · change last.store.depth - 1 = _
    rw [h.depth, depth_inside]
    rfl
  · change last.store.scopes.frames.tail.length = _
    have hlast : last.store.scopes.frames.length = r.store.callDepth + 1 :=
      h.callDepth.trans (r.callDepth_inside f values location)
    rw [List.length_tail, hlast]
    rfl

end Run

/-- A run only adds steps on the level where it started and on deeper ones, and ends on that
level. -/
theorem Course.adds {Idle : Nat → Location → Prop} {calls : Nat} {r s : Run} {flow : Flow}
    (h : Course Idle calls r flow s) : ∃ more, r.Adds s more := by
  induction h with
  | done => exact ⟨[], .of_eq rfl rfl rfl⟩
  | seq _ _ ih ih' =>
    obtain ⟨more, hmore⟩ := ih
    obtain ⟨rest, hrest⟩ := ih'
    exact ⟨more ++ rest, hmore.trans hrest⟩
  | moved location => exact ⟨[], .of_eq rfl rfl rfl⟩
  | @bound _ r bindings steps shown =>
    refine ⟨steps, (Run.Adds.boundAll r bindings).trans (.recordedAll _ fun step hstep => ?_)⟩
    obtain ⟨target, text, rfl⟩ := shown step hstep
    exact (r.boundAll_depth bindings).symm
  | visited location steps shown _ =>
    exact ⟨steps, .visited _ location fun step hstep => (shown step hstep).depth⟩
  | @repeated _ r _ _ step _ shown =>
    have hstep : r.Adds (r.recordedAll [step]) [step] :=
      .recordedAll r (List.forall_mem_singleton.mpr shown.depth)
    exact ⟨[step], hstep⟩
  | defined f => exact ⟨[], .of_eq rfl rfl rfl⟩
  | @nested _ r s _ _ _ ih =>
    obtain ⟨more, hmore⟩ := ih
    refine ⟨more, hmore.steps, fun step hstep => Nat.le_of_succ_le (hmore.deep step hstep), ?_,
      hmore.callDepth⟩
    change s.store.depth - 1 = _
    rw [hmore.depth]
    rfl
  | gave location steps _ _ shown _ =>
    refine ⟨steps, .visited _ location fun step hstep => ?_⟩
    obtain ⟨text, highlight, rfl⟩ := shown step hstep
    rfl
  | called f values location _ ih =>
    obtain ⟨more, hmore⟩ := ih
    exact hmore.called _

end Walkthrough
