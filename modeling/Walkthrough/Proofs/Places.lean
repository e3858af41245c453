import Walkthrough.Proofs.Ownership
import Walkthrough.Proofs.Results

/-!
# The places of steps

A step is recorded at the current place of the run. A statement makes its own place the
current one when it starts, but it does not come back to it: after a call of a function
the current place is that of the call, and after a pass of a loop it is where the body
came to rest. So what a statement records first is at its own place, and what it records
after a call or in a later pass is not. The id of a step, in contrast, always stands for the
place of the construct that emits it.
-/

namespace Walkthrough

open Walk

/-- The place at which a run stands after an expression of a statement at a place. -/
def Expr.rest : Expr → Location → Location
  | .call function _ place, here => if function = "print" then here else place
  | _, here => here

namespace Stmt

mutual

/-- The places at which a run may stand after a statement that ends without a return. -/
def rests : Stmt → List Location
  | .assign _ value location => [value.rest location]
  | .loop _ _ body location => location :: restsAfter body location
  | .choose branches alternative location =>
    branchRests branches location ++ otherwiseRests alternative location
  | .define _ _ _ location => [location]
  | .giveBack _ _ => []
  | .expression value location => [value.rest location]

/-- The places at which a run may stand after some statements, from a place on. -/
def restsAfter : List Stmt → Location → List Location
  | [], here => [here]
  | statement :: others, here =>
    match others with
    | [] => statement.rests
    | _ :: _ => restsAfter others here

/-- The places at which a run may stand after some branches, from a place on. -/
def branchRests : List Branch → Location → List Location
  | [], _ => []
  | .mk _ body _ :: others, here => restsAfter body here ++ branchRests others here

/-- The places at which a run may stand after an alternative, from a place on. -/
def otherwiseRests : Option Otherwise → Location → List Location
  | none, here => [here]
  | some (.mk body _), here => restsAfter body here

end

/-- The last of some statements decides where they come to rest. -/
theorem restsAfter_cons (statement next : Stmt) (others : List Stmt) (here place : Location) :
    restsAfter (statement :: next :: others) here = restsAfter (next :: others) place := by
  induction others generalizing next statement with
  | nil => rfl
  | cons last others ih => exact ih next last

/-- From a place where statements may come to rest, they come to rest where they do from
their first place on. -/
theorem mem_restsAfter {body : List Stmt} {here place rest : Location}
    (hhere : here = place ∨ here ∈ restsAfter body place) (h : rest ∈ restsAfter body here) :
    rest ∈ restsAfter body place := by
  cases body with
  | nil =>
    have heq : here = place := hhere.elim id List.mem_singleton.mp
    rwa [heq] at h
  | cons statement others =>
    rw [← restsAfter_cons statement statement others here here,
      restsAfter_cons statement statement others here place] at h
    exact h

end Stmt

namespace Run

@[simp] theorem here_boundAll (r : Run) (bindings : List (String × Value)) :
    (r.boundAll bindings).here = r.here := by
  induction bindings generalizing r with
  | nil => rfl
  | cons binding others ih => exact ih _

@[simp] theorem here_recordedAll (r : Run) (steps : List Step) :
    (r.recordedAll steps).here = r.here := by
  induction steps generalizing r with
  | nil => rfl
  | cons step others ih => exact ih _

end Run

namespace Walk

variable {calls : Nat} {r r' : Run}

/-- A call by name ends at the place of the call, unless it prints. -/
theorem callNamed_here {function : String} {args : List Expr} {location : Location} {value : Value}
    (h : callNamed (callWithin calls) function args location r = .ok value r') :
    r'.here = (Expr.call function args location).rest r.here := by
  rw [Expr.rest]
  rcases callNamed_ok h with ⟨hprint, _, h⟩ | ⟨huser, f, _, h⟩
  · obtain ⟨printed, _, rfl⟩ := printAll_ok h
    rw [if_pos hprint, Run.here_recordedAll]
    rfl
  · obtain ⟨_, values, flow, last, _, _, answered⟩ := callWithin_ok h
    rw [if_neg huser, answered.ended]
    rfl

/-- A value that is needed is found at the place where its expression comes to rest. -/
theorem stagesOf_here {present : Scopes Value → Expr → Except Fault Staged} {e : Expr}
    {staged : Staged} (h : stagesOf (callWithin calls) present e r = .ok staged r') :
    r'.here = e.rest r.here := by
  rcases stagesOf_ok h with ⟨function, args, place, value, rfl, hcall, _⟩ | ⟨hother, _, rfl⟩
  · exact callNamed_here hcall
  · cases e with
    | call function args place => exact absurd rfl (hother _ _ _)
    | _ => rfl

/-- A condition is tested at the current place. -/
theorem test_here {kind : BranchKind} {condition : Expr} {location : Location} {passed : Bool}
    (h : test kind condition location r = .ok passed r') : r'.here = r.here := by
  obtain ⟨staged, _, _, rfl⟩ := test_ok h
  exact Run.here_recordedAll _ _

/-- An alternative is entered at the current place. -/
theorem enterAlternative_here {location : Location} (h : enterAlternative location r = .ok () r') :
    r'.here = r.here := by
  rw [enterAlternative_ok h]
  rfl

/-- A pass starts at the current place. -/
theorem startPass_here {id : Nat} {counter : Counter} (h : startPass id counter r = .ok () r') :
    r'.here = r.here := by
  rw [startPass_ok h]
  rfl

/-- A run that goes on after an action stands at one of some places, which depend on where it
started. -/
def RestsAt (rests : Location → List Location) (m : Walk Flow) : Prop :=
  ∀ ⦃r r' : Run⦄, m r = .ok .normal r' → r'.here ∈ rests r.here

/-- Statements one level deeper come to rest where they do. -/
theorem RestsAt.nested {rests : Location → List Location} {body : Walk Flow}
    (h : RestsAt rests body) : RestsAt rests (Walk.nested body) := by
  intro r r' hr
  obtain ⟨s, hs, _, rfl⟩ := nested_ok hr
  exact @h r.entered s hs

/-- A loop comes to rest at its place or where its body does. -/
theorem passes_here {id : Nat} {body : List Stmt} {location : Location} {counter : Counter}
    (hbody : RestsAt (Stmt.restsAfter body) (Stmt.execAll (callWithin calls) body))
    (hr : r.here = location ∨ r.here ∈ Stmt.restsAfter body location)
    (h : passes id (nested (Stmt.execAll (callWithin calls) body)) counter r = .ok .normal r') :
    r'.here = location ∨ r'.here ∈ Stmt.restsAfter body location := by
  induction counter using passes.induct generalizing r with
  | case1 counter range ih =>
    rcases passes_ok h with ⟨hout, _⟩ | ⟨_, s, t, hs, ⟨_, hflow, _⟩ | ⟨ht, hlater⟩⟩
    · rw [range] at hout
      cases hout
    · cases hflow
    · have hrest := hbody.nested ht
      rw [startPass_here hs] at hrest
      exact ih (.inr (Stmt.mem_restsAfter hr hrest)) hlater
  | case2 counter range =>
    rcases passes_ok h with ⟨_, _, rfl⟩ | ⟨hin, _⟩
    · exact hr
    · exact absurd hin range

end Walk

namespace Stmt

variable {calls : Nat} {body : List Stmt} {location : Location}

/-- Some statements come to rest where the last of them does. -/
theorem cons_restsAt {statement : Stmt} {others : List Stmt}
    (hstatement : RestsAt (fun _ => statement.rests) (exec (callWithin calls) statement))
    (hothers : RestsAt (restsAfter others) (execAll (callWithin calls) others)) :
    RestsAt (restsAfter (statement :: others))
      (execAll (callWithin calls) (statement :: others)) := by
  intro r r' h
  rcases execAll_cons_ok h with ⟨value, hflow, _⟩ | ⟨s, hs, h⟩
  · cases hflow
  · cases others with
    | nil =>
      obtain ⟨_, rfl⟩ := execAll_nil_ok h
      exact hstatement hs
    | cons next rest =>
      rw [restsAfter_cons statement next rest r.here s.here]
      exact hothers h

/-- Some branches come to rest where the first of them does or the others do. -/
theorem branch_restsAt {kind : BranchKind} {alternative : Walk Flow} {condition : Expr}
    {others : List Branch} {otherwise : Location → List Location}
    (hbody : RestsAt (restsAfter body) (execAll (callWithin calls) body))
    (hothers : RestsAt (fun here => branchRests others here ++ otherwise here)
      (execBranches (callWithin calls) .further alternative others)) :
    RestsAt
      (fun here => branchRests (.mk condition body location :: others) here ++ otherwise here)
      (execBranches (callWithin calls) kind alternative
        (.mk condition body location :: others)) := by
  intro r r' h
  obtain ⟨s, ⟨hs, h⟩ | ⟨hs, h⟩⟩ := execBranches_cons_ok h
  · have hrest := hbody.nested h
    rw [test_here hs] at hrest
    exact List.mem_append_left _ (List.mem_append_left _ hrest)
  · have hrest := hothers h
    rw [test_here hs] at hrest
    change _ ∈ branchRests (.mk condition body location :: others) r.here ++ otherwise r.here
    rw [branchRests, List.append_assoc]
    exact List.mem_append_right _ hrest

/-- An alternative comes to rest where its statements do. -/
theorem alternative_restsAt
    (hbody : RestsAt (restsAfter body) (execAll (callWithin calls) body)) :
    RestsAt (otherwiseRests (some (.mk body location)))
      (execAlternative (callWithin calls) (some (.mk body location))) := by
  intro r r' h
  rcases execAlternative_ok h with ⟨hnone, _⟩ | ⟨_, _, s, hsome, hs, h⟩
  · cases hnone
  · cases hsome
    have hrest := hbody.nested h
    rw [enterAlternative_here hs] at hrest
    exact hrest

/-- A run that goes on after some statements stands where they may come to rest, by the induction
of their execution. -/
theorem execAll_restsAt (calls : Nat) (body : List Stmt) :
    RestsAt (restsAfter body) (execAll (callWithin calls) body) := by
  refine (exec.mutual_induct (callWithin calls)
    (fun s => RestsAt (fun _ => s.rests) (exec (callWithin calls) s))
    (fun a => RestsAt (otherwiseRests a) (execAlternative (callWithin calls) a))
    (fun b => RestsAt (restsAfter b) (execAll (callWithin calls) b))
    (fun kind alternative branches => ∀ otherwise, RestsAt otherwise alternative →
      RestsAt (fun here => branchRests branches here ++ otherwise here)
        (execBranches (callWithin calls) kind alternative branches))
    ?assign ?loop ?choose ?define ?giveBack ?expression ?nil ?cons ?noBranch ?branch ?noAlternative
    ?alternative).2.2.1 body
  case assign =>
    intro targets value location r r' h
    obtain ⟨_, names, staged, s, shares, _, hstaged, _, rfl⟩ := exec_assign_ok h
    rw [Run.here_recordedAll, Run.here_boundAll, stagesOf_here hstaged]
    exact List.mem_singleton.mpr rfl
  case loop =>
    intro target iterable body location hbody r r' h
    obtain ⟨name, counter, _, _, h⟩ := exec_loop_ok h
    exact List.mem_cons.mpr (passes_here hbody (.inl rfl) h)
  case choose =>
    intro branches alternative location halternative hbranches r r' h
    exact hbranches _ halternative (exec_choose_ok h)
  case define =>
    intro name params body location r r' h
    obtain ⟨_, rfl⟩ := exec_define_ok h
    exact List.mem_singleton.mpr rfl
  case giveBack =>
    intro value location r r' h
    obtain ⟨_, staged, s, hflow, _⟩ := exec_giveBack_ok h
    cases hflow
  case expression =>
    intro value location r r' h
    obtain ⟨_, function, args, place, result, rfl, hcall⟩ := exec_expression_ok h
    exact List.mem_singleton.mpr (callNamed_here hcall)
  case nil =>
    intro r r' h
    obtain ⟨_, rfl⟩ := execAll_nil_ok h
    exact List.mem_singleton.mpr rfl
  case cons => exact fun _ _ hstatement hothers => cons_restsAt hstatement hothers
  case noBranch =>
    intro kind alternative otherwise halternative r r' h
    rw [execBranches] at h
    exact List.mem_append_right _ (halternative h)
  case branch =>
    intro kind alternative condition body location others hbody hothers otherwise halternative
    exact branch_restsAt hbody (hothers otherwise halternative)
  case noAlternative =>
    intro r r' h
    rcases execAlternative_ok h with ⟨_, _, rfl⟩ | ⟨_, _, _, hsome, _⟩
    · exact List.mem_singleton.mpr rfl
    · cases hsome
  case alternative => exact fun _ _ hbody => alternative_restsAt hbody

end Stmt

namespace Counter

/-- A counter on its way from its start. -/
structure Advanced (c : Counter) : Prop where
  /-- Upwards it is not below its start. -/
  upwards : 0 < c.step.toInt → c.start.toInt ≤ c.current.toInt
  /-- Downwards it is not above its start. -/
  downwards : c.step.toInt < 0 → c.current.toInt ≤ c.start.toInt

/-- A counter at its start is on its way. -/
theorem Advanced.of_eq {c : Counter} (h : c.current = c.start) : c.Advanced := by
  constructor
  · intro _
    exact Int.le_of_eq (congrArg Int64.toInt h.symm)
  · intro _
    exact Int.le_of_eq (congrArg Int64.toInt h)

/-- A counter in range moves away from its start. -/
theorem Advanced.next {c : Counter} (h : c.Advanced) (range : c.inRange = true) :
    c.next.Advanced ∧ c.next.current ≠ c.next.start := by
  have hup := h.upwards
  have hdown := h.downwards
  have hmax := c.stop.toInt_le
  have hmin := c.stop.minValue_le_toInt
  have hcurrent : c.next.current.toInt =
      max Int64.minValue.toInt (min (c.current.toInt + c.step.toInt) Int64.maxValue.toInt) :=
    toInt_clamp _
  have hstep : c.next.step = c.step := rfl
  have hstart : c.next.start = c.start := rfl
  -- In range the step is not zero, and the clamped sum still lies beyond the current value.
  have hmoves : (0 < c.step.toInt ∧ c.start.toInt < c.next.current.toInt) ∨
      (c.step.toInt < 0 ∧ c.next.current.toInt < c.start.toInt) := by
    unfold inRange at range
    split at range
    · simp only [decide_eq_true_eq] at range
      omega
    · split at range
      · simp only [decide_eq_true_eq] at range
        omega
      · cases range
  refine ⟨⟨?_, ?_⟩, ?_⟩
  · rw [hstep, hstart]
    omega
  · rw [hstep, hstart]
    omega
  · intro heq
    rw [heq, hstart] at hmoves
    omega

end Counter

/-- A loop starts with its counter at the start. -/
theorem Expr.counter_ok {scopes : Scopes Value} {target : String} {iterable : Expr}
    {counter : Counter} (h : Expr.counter scopes target iterable = .ok counter) :
    counter.current = counter.start := by
  unfold Expr.counter at h
  split at h
  · split at h
    · cases h
    · split at h
      · cases h
      · obtain ⟨bounds, _, h⟩ := except_bind_ok.mp h
        split at h
        · cases h; rfl
        · cases h; rfl
        · split at h
          · cases h
          · cases h; rfl
        · cases h
  · cases h

/-- How a call by name explains a step: what is printed and the start of a call are at the
place of the statement, the end of a call is at the place of the call. -/
def Expr.Explains (here : Location) (trace : Trace) (place : Location) : Step → Prop
  | .print .. => place = here
  | .call .. => place = here
  | .endCall id _ _ _ => trace.sourceOf? id = some place
  | _ => False

/-- How a statement explains the place of a step that it records itself. The end of a call
is at the place of the call. A variable and a return are where their value came to rest. A
pass is at the place of the loop the first time and later where the body came to rest.
All other steps are at the place of the statement. -/
def Stmt.Explains (statement : Stmt) (trace : Trace) (place : Location) : Step → Prop
  | .endCall id _ _ _ => trace.sourceOf? id = some place
  | .assigned .. => ∃ targets value location,
      statement = .assign targets value location ∧ place = value.rest location
  | .giveBack id _ _ _ => ∃ value location,
      statement = .giveBack value location ∧ trace.sourceOf? id = some location ∧
        place = value.elim location fun e => e.rest location
  | .pass id _ counter _ => ∃ target iterable body location,
      statement = .loop target iterable body location ∧ trace.sourceOf? id = some location ∧
        (counter.current = counter.start → place = location) ∧
        (counter.current ≠ counter.start → place ∈ Stmt.restsAfter body location)
  | _ => place = statement.location

/-- What explains a step for a call explains it for the statement of the call. -/
theorem Expr.Explains.of_call {here : Location} {trace : Trace} {place : Location} {step : Step}
    (h : Expr.Explains here trace place step) {statement : Stmt}
    (hhere : statement.location = here) : statement.Explains trace place step := by
  subst hhere
  cases step with
  | print => exact h
  | call => exact h
  | endCall => exact h
  | _ => exact h.elim

/-- An explanation stays one when the run goes on. -/
theorem Stmt.Explains.later {statement : Stmt} {r s : Run} {place : Location} {step : Step}
    (h : statement.Explains r.trace place step) (hr : r.Consistent) (hs : r.Continues s) :
    statement.Explains s.trace place step := by
  cases step with
  | endCall => exact hs.sourceOf hr h
  | giveBack =>
    obtain ⟨value, location, hstatement, hsource, hplace⟩ := h
    exact ⟨value, location, hstatement, hs.sourceOf hr hsource, hplace⟩
  | pass =>
    obtain ⟨target, iterable, body, location, hstatement, hsource, hplace⟩ := h
    exact ⟨target, iterable, body, location, hstatement, hs.sourceOf hr hsource, hplace⟩
  | _ => exact h

/-- A call emits a step whose id, if it has one, stands for the place of the call. -/
def Expr.Accounts (e : Expr) (trace : Trace) (step : Step) : Prop :=
  ∃ location, e.Emits step location ∧ ∀ id, step.id? = some id → trace.sourceOf? id = some location

/-- A statement emits a step that has an id, and the id stands for the place of the construct
that emits it. -/
def Stmt.Accounts (statement : Stmt) (before : Run) (index : Nat) (trace : Trace) (step : Step) :
    Prop :=
  ∀ id, step.id? = some id →
    ∃ location, statement.Emits before index step location ∧ trace.sourceOf? id = some location

/-- What a call accounts for, the statement that needs its value accounts for. -/
theorem Expr.Accounts.of_call {e : Expr} {trace : Trace} {step : Step} (h : e.Accounts trace step)
    {statement : Stmt} (hvalue : statement.value? = some e) (before : Run) (index : Nat) :
    statement.Accounts before index trace step := by
  intro id hid
  obtain ⟨location, hemits, hsource⟩ := h
  exact ⟨location, .value hvalue hemits, hsource id hid⟩

/-- What a statement accounts for stays accounted for when the run goes on. -/
theorem Stmt.Accounts.later {statement : Stmt} {before r s : Run} {index : Nat} {step : Step}
    (h : statement.Accounts before index r.trace step) (hr : r.Consistent) (hs : r.Continues s) :
    statement.Accounts before index s.trace step := by
  intro id hid
  obtain ⟨location, hemits, hsource⟩ := h id hid
  exact ⟨location, hemits, hs.sourceOf hr hsource⟩

section Own

variable {calls index : Nat} {r r' : Run} {flow : Flow}

/-- What a call by name records itself is the call and its end, or what it prints. -/
theorem Walk.callNamed_explained {function : String} {args : List Expr} {place : Location}
    {value : Value} (hr : r.Consistent)
    (h : callNamed (callWithin calls) function args place r = .ok value r')
    (hown : ∀ fewer body s flow t, (Expr.call function args place).Starts calls r fewer body s →
      Stmt.execAll (callWithin fewer) body s = .ok flow t →
      ¬ (s.trace.length ≤ index ∧ index < t.trace.length))
    (hnew : r.trace.length ≤ index) (hdone : index < r'.trace.length) :
    ∃ step shown, r'.HasStep index step shown ∧ Expr.Explains r.here r'.trace shown step ∧
      (Expr.call function args place).Accounts r'.trace step := by
  have hidentified := (Run.Continues.identified r place).consistent hr
  have hplace := Run.sourceOf_identified r place
  rcases callNamed_ok h with ⟨rfl, _, hprint⟩ | ⟨huser, f, hf, hcall⟩
  · obtain ⟨printed, _, rfl⟩ := printAll_ok hprint
    obtain ⟨step, hmem, hhas⟩ := Run.hasStep_recordedAll hidentified hnew hdone
    obtain ⟨staged, _, hmem⟩ := List.mem_flatMap.mp hmem
    obtain ⟨shown, _, rfl⟩ := List.mem_map.mp hmem
    refine ⟨_, _, hhas, rfl, place, .print, fun id hid => ?_⟩
    cases hid
    exact (Run.continues_recordedAll _ _).sourceOf hidentified hplace
  · obtain ⟨fewer, values, flow, last, rfl, _, answered⟩ := callWithin_ok hcall
    have hstarts : (Expr.call function args place).Starts (fewer + 1) r fewer f.body
        (r.inside f values place) :=
      .call huser hf answered.count answered.evaluated answered.room
    have hinside : (r.inside f values place).trace.length = r.trace.length + 1 :=
      Run.length_recorded _ _
    have hran := Stmt.execAll_continues answered.ran
    have hreturned := Run.continues_returned last r f place flow.value
    have hlength : (last.returned r f place flow.value).trace.length = last.trace.length + 1 :=
      Run.length_recorded _ _
    have hbody := hown _ _ _ _ _ hstarts answered.ran
    have hsource : (last.returned r f place flow.value).trace.sourceOf? (r.store.idAt place).1 =
        some place :=
      (hran.trans hreturned).sourceOf ((Run.continues_inside r f values place).consistent hr) hplace
    rw [answered.ended] at hdone ⊢
    by_cases hfirst : index = r.trace.length
    · -- The call is the first step, and stays there.
      have hcalled := Run.hasStep_recorded hidentified
        (.call (r.store.idAt place).1 r.store.depth f.name f.signature
          ((f.params.zip values).map fun bound => ⟨bound.1, bound.2.text⟩))
      have hpushed : (r.called f values place).Continues (r.inside f values place) :=
        (Run.Continues.pushed _ _).trans (.entered _)
      rw [hfirst]
      refine ⟨_, _, hcalled.later (hpushed.trans (hran.trans hreturned)), rfl, place, .call huser,
        fun id hid => ?_⟩
      cases hid
      exact hsource
    · -- The statements of the function are not the call itself, so the step is its end.
      have hlast : index = last.trace.length := by omega
      have hinside := (Run.continues_inside r f values place).consistent hr
      have hlastConsistent := hran.consistent hinside
      have hpopped := ((Run.Continues.exited last).trans (.popped _ place)).consistent
        hlastConsistent
      have hended := Run.hasStep_recorded hpopped
        (.endCall (r.store.idAt place).1 r.store.depth f.name flow.value.text)
      rw [hlast]
      refine ⟨_, _, hended, hsource, place, .endCall huser, fun id hid => ?_⟩
      cases hid
      exact hsource

/-- What finding a value records itself comes from a call. -/
theorem Walk.stagesOf_explained {present : Scopes Value → Expr → Except Fault Staged} {e : Expr}
    {staged : Staged} (hr : r.Consistent)
    (h : stagesOf (callWithin calls) present e r = .ok staged r')
    (hown : ∀ fewer body s flow t, e.Starts calls r fewer body s →
      Stmt.execAll (callWithin fewer) body s = .ok flow t →
      ¬ (s.trace.length ≤ index ∧ index < t.trace.length))
    (hnew : r.trace.length ≤ index) (hdone : index < r'.trace.length) :
    ∃ step shown, r'.HasStep index step shown ∧ Expr.Explains r.here r'.trace shown step ∧
      e.Accounts r'.trace step := by
  rcases stagesOf_ok h with ⟨function, args, place, value, rfl, hcall, _⟩ | ⟨_, _, rfl⟩
  · exact callNamed_explained hr hcall hown hnew hdone
  · omega

/-- What a test records are steps of its branch, at the current place. -/
theorem Walk.test_explained {kind : BranchKind} {condition : Expr} {location : Location}
    {passed : Bool} {s : Run} (hr : r.Consistent)
    (hs : test kind condition location r = .ok passed s) (hnew : r.trace.length ≤ index)
    (hindex : index < s.trace.length) :
    ∃ id depth text highlight, s.HasStep index (.branch id depth kind text highlight) r.here ∧
      s.trace.sourceOf? id = some location := by
  obtain ⟨staged, _, _, rfl⟩ := test_ok hs
  have hconsistent := (Run.Continues.identified r location).consistent hr
  obtain ⟨step, hmem, hhas⟩ := Run.hasStep_recordedAll hconsistent hnew hindex
  obtain ⟨shown, _, rfl⟩ := List.mem_map.mp hmem
  exact ⟨_, _, _, _, hhas, (Run.continues_recordedAll _ _).sourceOf hconsistent
    (Run.sourceOf_identified r location)⟩

/-- Entering an alternative records one step, at the current place. -/
theorem Walk.enterAlternative_explained {location : Location} {s : Run} (hr : r.Consistent)
    (hs : enterAlternative location r = .ok () s) :
    s.trace.length = r.trace.length + 1 ∧
      ∃ id depth, s.HasStep r.trace.length (.branch id depth .otherwise "" []) r.here ∧
        s.trace.sourceOf? id = some location := by
  have hconsistent := (Run.Continues.identified r location).consistent hr
  rw [enterAlternative_ok hs]
  exact ⟨Run.length_recorded _ _, _, _, Run.hasStep_recorded hconsistent _,
    Run.sourceOf_identified r location⟩

/-- The start of a pass records one step, at the current place. -/
theorem Walk.startPass_explained {id : Nat} {counter : Counter} {s : Run} (hr : r.Consistent)
    (hs : startPass id counter r = .ok () s) :
    s.trace.length = r.trace.length + 1 ∧
      s.HasStep r.trace.length (.pass id r.store.depth counter counter.changed) r.here := by
  have hbound := (closed_continues.bound r counter.target (.int counter.current)).consistent hr
  rw [startPass_ok hs]
  exact ⟨Run.length_recorded _ _, Run.hasStep_recorded hbound _⟩

/-- What some branches record themselves are their conditions, each from its own branch. -/
theorem Stmt.execBranches_explained {alternative : Option Otherwise} {kind : BranchKind}
    {branches : List Branch} (hr : r.Consistent)
    (h : execBranches (callWithin calls) kind (execAlternative (callWithin calls) alternative)
      branches r = .ok flow r')
    (hown : ∀ body s flow t, Branch.Starts alternative kind branches r body s →
      execAll (callWithin calls) body s.entered = .ok flow t →
      ¬ (s.trace.length ≤ index ∧ index < t.trace.length))
    (hnew : r.trace.length ≤ index) (hdone : index < r'.trace.length) :
    ∃ id depth found text highlight location,
      r'.HasStep index (.branch id depth found text highlight) r.here ∧
        Branch.Emits alternative index kind branches r found location ∧
        r'.trace.sourceOf? id = some location := by
  induction branches generalizing kind r with
  | nil =>
    rw [execBranches] at h
    rcases execAlternative_ok h with ⟨_, _, rfl⟩ | ⟨body, location, s, hsome, hs, hran⟩
    · omega
    · have hstarts : Branch.Starts alternative kind [] r body s := .otherwise hsome hs
      obtain ⟨last, hlast, _, rfl⟩ := nested_ok hran
      have hbody := hown _ _ _ _ hstarts hlast
      obtain ⟨hlength, id, depth, hhas, hsource⟩ := enterAlternative_explained hr hs
      have hindex : index = r.trace.length := by
        change index < last.trace.length at hdone
        omega
      have hs' := ((closed_continues.enterAlternative _).ok hs).consistent hr
      exact ⟨_, _, _, _, _, location, hindex ▸ hhas.later (nested_continues hran),
        .otherwise hsome hs hnew (by omega), (nested_continues hran).sourceOf hs' hsource⟩
  | cons branch others ih =>
    obtain ⟨condition, body, location⟩ := branch
    obtain ⟨s, ⟨hs, hran⟩ | ⟨hs, hrest⟩⟩ := execBranches_cons_ok h
    · by_cases hindex : index < s.trace.length
      · obtain ⟨id, depth, text, highlight, hhas, hsource⟩ :=
          test_explained hr hs hnew hindex
        have hs' := ((closed_continues.test _ _ _).ok hs).consistent hr
        exact ⟨id, depth, kind, text, highlight, location, hhas.later (nested_continues hran),
          .first hs hnew hindex, (nested_continues hran).sourceOf hs' hsource⟩
      · obtain ⟨last, hlast, _, rfl⟩ := nested_ok hran
        have hbody := hown _ _ _ _ (.first hs) hlast
        change index < last.trace.length at hdone
        omega
    · have hcontinues := (closed_continues.test _ _ _).ok hs
      by_cases hindex : index < s.trace.length
      · obtain ⟨id, depth, text, highlight, hhas, hsource⟩ :=
          test_explained hr hs hnew hindex
        have halternative := (closed_continues.statements (closed_continues.callWithin calls)).2.1
        have hlater := (closed_continues.statements (closed_continues.callWithin calls)).2.2.2
          .further _ others (halternative alternative)
        exact ⟨id, depth, kind, text, highlight, location, hhas.later (hlater.ok hrest),
          .first hs hnew hindex,
          (hlater.ok hrest).sourceOf (hcontinues.consistent hr) hsource⟩
      · obtain ⟨id, depth, found, text, highlight, place, hhas, hemits, hsource⟩ :=
          ih (hcontinues.consistent hr) hrest
            (fun body s flow t hbranch => hown body s flow t (.further hs hbranch)) (by omega)
        rw [test_here hs] at hhas
        exact ⟨id, depth, found, text, highlight, place, hhas, .further hs hemits, hsource⟩

/-- What a loop records itself are its passes: the first one at the place of the loop, each
later one where the body came to rest before it. -/
theorem Walk.passes_explained {id : Nat} {body : List Stmt} {location : Location}
    {counter : Counter} (hr : r.Consistent) (hid : r.trace.sourceOf? id = some location)
    (hadvanced : counter.Advanced) (hfirst : counter.current = counter.start → r.here = location)
    (hlater : counter.current ≠ counter.start → r.here ∈ Stmt.restsAfter body location)
    (h : passes id (nested (Stmt.execAll (callWithin calls) body)) counter r = .ok flow r')
    (hown : ∀ s flow t,
      PassStarts id (nested (Stmt.execAll (callWithin calls) body)) counter r s →
      Stmt.execAll (callWithin calls) body s.entered = .ok flow t →
      ¬ (s.trace.length ≤ index ∧ index < t.trace.length))
    (hnew : r.trace.length ≤ index) (hdone : index < r'.trace.length) :
    ∃ depth counter highlight place,
      r'.HasStep index (.pass id depth counter highlight) place ∧
      (counter.current = counter.start → place = location) ∧
      (counter.current ≠ counter.start → place ∈ Stmt.restsAfter body location) := by
  induction counter using passes.induct generalizing r with
  | case1 counter range ih =>
    have hpasses := closed_continues.passes id
      (closed_continues.nestedAction (closed_continues.execAll calls body))
    rcases passes_ok h with ⟨hout, _⟩ | ⟨_, s, t, hs, hran⟩
    · rw [range] at hout
      cases hout
    · have hcontinues := (closed_continues.startPass _ _).ok hs
      obtain ⟨hlength, hhas⟩ := startPass_explained hr hs
      by_cases hindex : index = r.trace.length
      · rw [hindex]
        refine ⟨_, _, _, _, hhas.later ?_, hfirst, hlater⟩
        rcases hran with ⟨_, _, hreturned⟩ | ⟨hnormal, hrest⟩
        · exact Stmt.nested_continues hreturned
        · exact (Stmt.nested_continues hnormal).trans ((hpasses _).ok hrest)
      · rcases hran with ⟨_, _, hreturned⟩ | ⟨hnormal, hrest⟩
        · obtain ⟨last, hlast, _, rfl⟩ := nested_ok hreturned
          have hbody := hown _ _ _ (.next range hs) hlast
          change index < last.trace.length at hdone
          omega
        · have hmore := Stmt.nested_continues hnormal
          have hrested := (Stmt.execAll_restsAt _ body).nested hnormal
          obtain ⟨last, hlast, _, rfl⟩ := nested_ok hnormal
          have hbody := hown _ _ _ (.next range hs) hlast
          obtain ⟨hnext, hmoved⟩ := hadvanced.next range
          have hhere : r.here = location ∨ r.here ∈ Stmt.restsAfter body location := by
            by_cases hat : counter.current = counter.start
            · exact .inl (hfirst hat)
            · exact .inr (hlater hat)
          rw [startPass_here hs] at hrested
          refine ih ((hcontinues.trans hmore).consistent hr)
            ((hcontinues.trans hmore).sourceOf hr hid) hnext (fun hat => absurd hat hmoved)
            (fun _ => Stmt.mem_restsAfter hhere hrested) hrest
            (fun s' flow t hpass => hown s' flow t (.later range hs hnormal hpass)) ?_
          change last.trace.length ≤ index
          omega
  | case2 counter range =>
    rcases passes_ok h with ⟨_, _, rfl⟩ | ⟨hin, _⟩
    · omega
    · exact absurd hin range

/-- The step at an index has the place by which a statement explains it, and an id for which the
statement accounts. -/
def Stmt.AccountedAt (statement : Stmt) (r r' : Run) (index : Nat) : Prop :=
  ∃ step place, r'.HasStep index step place ∧ statement.Explains r'.trace place step ∧
    statement.Accounts r index r'.trace step

namespace Stmt.RecordsItself

/-- What a statement records while it finds its value. -/
theorem value_accounted {statement : Stmt} (h : statement.RecordsItself calls r r' index)
    (hr : r.Consistent) {e : Expr} (hvalue : statement.value? = some e)
    {present : Scopes Value → Expr → Except Fault Staged} {staged : Staged} {s : Run}
    (hstaged : stagesOf (callWithin calls) present e (r.movedTo statement.location) =
      .ok staged s)
    (hstarts : ∀ fewer body s, e.Starts calls (r.movedTo statement.location) fewer body s →
      statement.Starts calls r fewer body s)
    (hlater : s.Continues r') (hindex : index < s.trace.length) :
    statement.AccountedAt r r' index := by
  obtain ⟨-, hnew, -⟩ := h.recorded
  have hs := (closed_continues.stagesOf (closed_continues.callWithin calls) _ _).ok hstaged
  have hconsistent := hs.consistent (hr.movedTo statement.location)
  obtain ⟨step, place, hhas, hexplains, haccounts⟩ :=
    stagesOf_explained (hr.movedTo statement.location) hstaged
      (fun _ _ _ _ _ hbegun hran => h.not_started (hstarts _ _ _ hbegun) hran) hnew hindex
  have hexplained : statement.Explains s.trace place step := hexplains.of_call rfl
  have haccounted : statement.Accounts r index s.trace step := haccounts.of_call hvalue r index
  exact ⟨step, place, hhas.later hlater, hexplained.later hconsistent hlater,
    haccounted.later hconsistent hlater⟩

/-- An assignment records its variables after what finding its value records. -/
theorem assign_accounted {targets : List Expr} {value : Expr} {location : Location}
    (h : (Stmt.assign targets value location).RecordsItself calls r r' index)
    (hr : r.Consistent) : (Stmt.assign targets value location).AccountedAt r r' index := by
  obtain ⟨⟨flow, hexec⟩, -, hdone⟩ := h.recorded
  obtain ⟨_, names, staged, s, shares, hnames, hstaged, _, rfl⟩ := exec_assign_ok hexec
  have hs := (closed_continues.stagesOf (closed_continues.callWithin calls) _ _).ok hstaged
  have hbound := hs.trans (Run.continues_boundAll s shares.flatten)
  by_cases hindex : index < s.trace.length
  · exact h.value_accounted hr rfl hstaged (fun _ _ _ => .assign hnames)
      ((Run.continues_boundAll s shares.flatten).trans (Run.continues_recordedAll _ _)) hindex
  · have hfrom : (s.boundAll shares.flatten).trace.length ≤ index := by
      rw [Run.trace_boundAll]
      omega
    obtain ⟨step, hmem, hhas⟩ :=
      Run.hasStep_recordedAll (hbound.consistent (hr.movedTo location)) hfrom hdone
    obtain ⟨target, expr, rfl⟩ := Target.assigned_of_mem_steps hmem
    rw [Run.here_boundAll, stagesOf_here hstaged] at hhas
    exact ⟨_, _, hhas, ⟨targets, value, location, rfl, rfl⟩, fun id hid => by cases hid⟩

/-- A loop records its passes. -/
theorem loop_accounted {target iterable : Expr} {body : List Stmt} {location : Location}
    (h : (Stmt.loop target iterable body location).RecordsItself calls r r' index)
    (hr : r.Consistent) : (Stmt.loop target iterable body location).AccountedAt r r' index := by
  obtain ⟨⟨flow, hexec⟩, hnew, hdone⟩ := h.recorded
  obtain ⟨name, counter, hname, hcounter, hpasses⟩ := exec_loop_ok hexec
  have hat := Expr.counter_ok hcounter
  have hidentified := (Run.Continues.identified (r.movedTo location) location).consistent
    (hr.movedTo location)
  obtain ⟨depth, counter', highlight, place, hhas, hplace⟩ := passes_explained
    hidentified (Run.sourceOf_identified _ location)
    (Counter.Advanced.of_eq hat) (fun _ => rfl) (fun hne => absurd hat hne) hpasses
    (fun s flow t hpass hran =>
      h.not_started (s := s.entered) (.loop hname hcounter hpass) hran) hnew hdone
  have hsource : r'.trace.sourceOf? (r.store.idAt location).1 = some location := by
    have hbody := closed_continues.nestedAction (closed_continues.execAll calls body)
    exact ((closed_continues.passes _ hbody counter).ok hpasses).sourceOf hidentified
      (Run.sourceOf_identified _ location)
  refine ⟨_, place, hhas, ⟨target, iterable, body, location, rfl, hsource, hplace⟩,
    fun id hid => ?_⟩
  cases hid
  exact ⟨location, .pass, hsource⟩

/-- A choice records the conditions that it tries and the alternative that it enters. -/
theorem choose_accounted {branches : List Branch} {alternative : Option Otherwise}
    {location : Location}
    (h : (Stmt.choose branches alternative location).RecordsItself calls r r' index)
    (hr : r.Consistent) : (Stmt.choose branches alternative location).AccountedAt r r' index := by
  obtain ⟨⟨flow, hexec⟩, hnew, hdone⟩ := h.recorded
  obtain ⟨id, depth, kind, text, highlight, place, hhas, hemits, hsource⟩ :=
    execBranches_explained (hr.movedTo location) (exec_choose_ok hexec)
      (fun body s flow t hbranch hran =>
        h.not_started (s := s.entered) (.choose hbranch) hran) hnew hdone
  refine ⟨_, _, hhas, rfl, fun id hid => ?_⟩
  cases hid
  exact ⟨place, .branch hemits, hsource⟩

/-- A definition records one step. -/
theorem define_accounted {name : String} {params : List String} {body : List Stmt}
    {location : Location}
    (h : (Stmt.define name params body location).RecordsItself calls r r' index)
    (hr : r.Consistent) : (Stmt.define name params body location).AccountedAt r r' index := by
  obtain ⟨⟨flow, hexec⟩, hnew, hdone⟩ := h.recorded
  obtain ⟨_, rfl⟩ := exec_define_ok hexec
  have hdefined := ((Run.Continues.identified (r.movedTo location) location).trans
    (closed_continues.defined _ ⟨name, params, body, location⟩)).consistent (hr.movedTo location)
  have hhas := Run.hasStep_recorded hdefined (.define (r.store.idAt location).1 r.store.depth name
    (Procedure.signature ⟨name, params, body, location⟩))
  rw [Run.length_recorded] at hdone
  have hindex : index = r.trace.length := by
    change index < r.trace.length + 1 at hdone
    omega
  rw [hindex]
  refine ⟨_, _, hhas, rfl, fun id hid => ?_⟩
  cases hid
  exact ⟨location, .define, Run.sourceOf_identified (r.movedTo location) location⟩

/-- A return records its stages after what finding its value records. -/
theorem giveBack_accounted {value : Option Expr} {location : Location}
    (h : (Stmt.giveBack value location).RecordsItself calls r r' index)
    (hr : r.Consistent) : (Stmt.giveBack value location).AccountedAt r r' index := by
  obtain ⟨⟨flow, hexec⟩, hnew, hdone⟩ := h.recorded
  obtain ⟨hin, staged, s, _, hvalue, rfl⟩ := exec_giveBack_ok hexec
  have hshown := Run.continues_recordedAll (s.identified location)
    (staged.highlighted.map fun shown =>
      .giveBack (s.store.idAt location).1 s.store.depth shown.1 shown.2)
  have hlater := (Run.Continues.identified s location).trans hshown
  by_cases hindex : index < s.trace.length
  · rcases hvalue with ⟨rfl, _, rfl⟩ | ⟨e, rfl, hstaged⟩
    · change index < r.trace.length at hindex
      omega
    · exact h.value_accounted hr rfl hstaged (fun _ _ _ => .giveBack hin) hlater hindex
  · have hs : (r.movedTo location).Continues s ∧
        s.here = value.elim location (fun e => e.rest location) := by
      rcases hvalue with ⟨rfl, _, rfl⟩ | ⟨e, rfl, hstaged⟩
      · exact ⟨.of_eq rfl rfl, rfl⟩
      · have hcalls := closed_continues.callWithin calls
        exact ⟨(closed_continues.stagesOf hcalls _ e).ok hstaged, stagesOf_here hstaged⟩
    have hidentified := (Run.Continues.identified s location).consistent
      (hs.1.consistent (hr.movedTo location))
    have hfrom : (s.identified location).trace.length ≤ index := Nat.le_of_not_lt hindex
    obtain ⟨step, hmem, hhas⟩ := Run.hasStep_recordedAll hidentified hfrom hdone
    obtain ⟨shown, _, rfl⟩ := List.mem_map.mp hmem
    have hsource := hshown.sourceOf hidentified (Run.sourceOf_identified s location)
    refine ⟨_, _, hhas, ⟨value, location, rfl, hsource, hs.2⟩, fun id hid => ?_⟩
    cases hid
    exact ⟨location, .giveBack, hsource⟩

/-- An expression as a statement records what its call does. -/
theorem expression_accounted {value : Expr} {location : Location}
    (h : (Stmt.expression value location).RecordsItself calls r r' index)
    (hr : r.Consistent) : (Stmt.expression value location).AccountedAt r r' index := by
  obtain ⟨⟨flow, hexec⟩, hnew, hdone⟩ := h.recorded
  obtain ⟨_, function, args, place, result, rfl, hcall⟩ := exec_expression_ok hexec
  obtain ⟨step, shown, hhas, hexplains, haccounts⟩ :=
    callNamed_explained (hr.movedTo location) hcall
      (fun _ _ _ _ _ hstarts hran => h.not_started (.expression hstarts) hran) hnew hdone
  exact ⟨step, shown, hhas, hexplains.of_call rfl, haccounts.of_call rfl r index⟩

/-- Each step that a statement records itself has the place by which the statement explains
it, and an id for which the statement accounts. -/
theorem accounted {statement : Stmt} (h : statement.RecordsItself calls r r' index)
    (hr : r.Consistent) : statement.AccountedAt r r' index := by
  cases statement with
  | assign => exact h.assign_accounted hr
  | loop => exact h.loop_accounted hr
  | choose => exact h.choose_accounted hr
  | define => exact h.define_accounted hr
  | giveBack => exact h.giveBack_accounted hr
  | expression => exact h.expression_accounted hr

/-- Each step that a statement records itself has the place by which the statement explains
it. -/
theorem explained {statement : Stmt} (h : statement.RecordsItself calls r r' index)
    (hr : r.Consistent) :
    ∃ step place, r'.HasStep index step place ∧ statement.Explains r'.trace place step := by
  obtain ⟨step, place, hhas, hexplains, _⟩ := h.accounted hr
  exact ⟨step, place, hhas, hexplains⟩

end Stmt.RecordsItself

end Own

/-- In a run that succeeds each step is recorded by an innermost statement, and its place is
the one by which that statement explains it: the place of the call for the end of a call,
the place where the value came to rest for a variable or a return, the place where the body
came to rest for a later pass of a loop, and the place of the statement for all others. -/
theorem explained_by_innermost {program : Program} {limits : Limits} {trace : Trace}
    (h : program.trace limits = .ok trace) {index : Nat} (hindex : index < trace.length) :
    (∃ calls statement before after, program.Reaches limits calls statement before ∧
      statement.RecordsItself calls before after index) ∧
    ∀ calls statement before after, program.Reaches limits calls statement before →
      statement.RecordsItself calls before after index →
      ∃ step place, trace.steps[index]? = some step ∧ trace.locationOf? index = some place ∧
        statement.Explains trace place step := by
  unfold Program.trace at h
  cases hrun : program.run limits with
  | error fault final => rw [hrun] at h; cases h
  | ok flow final =>
    rw [hrun] at h
    cases h
    refine ⟨Program.exists_recordsItself hrun hindex, ?_⟩
    intro calls statement before after hreach hitself
    obtain ⟨⟨_, hended⟩, _, _⟩ := hitself.recorded
    have hbefore := (Stmt.reaches_continues hreach).consistent (Run.Consistent.start limits)
    have hafter := (Stmt.exec_continues hended).consistent hbefore
    have hfinal := Stmt.reaches_ended hreach hrun hended
    obtain ⟨step, place, hhas, hexplains⟩ := hitself.explained hbefore
    obtain ⟨hstep, hplace⟩ := hhas.later hfinal
    exact ⟨step, place, hstep, hplace, hexplains.later hafter hfinal⟩

/-- A text has a trace if it is a program whose run succeeds. -/
theorem traceText_ok {text : String} {limits : Limits} {trace : Trace}
    (h : traceText text limits = .ok trace) :
    ∃ program, Program.parse text = .ok program ∧ program.trace limits = .ok trace := by
  obtain ⟨program, hprogram, htrace⟩ := except_bind_ok.mp h
  exact ⟨program, except_mapError_ok.mp hprogram, except_mapError_ok.mp htrace⟩

namespace Sample

/-- A loop of two passes over one assignment. -/
def twoPasses : String := "for i in range(2):\n    a = i\n"

/-- The second pass of the loop over `i`. -/
def secondPass : Step := .pass 1 0 ⟨"i", 1, 0, 2, 1⟩ [.current]

/-- The trace of the loop with its third step and the place of its id. -/
theorem trace_twoPasses : ∃ trace, traceText twoPasses {} = .ok trace ∧ 2 < trace.length ∧
    trace.steps[2]? = some secondPass ∧ trace.locationOf? 2 = some ⟨2, 5⟩ ∧
    trace.sourceOf? 1 = some ⟨1, 1⟩ := by
  have hseen : (traceText twoPasses {}).toOption.map (fun trace =>
      (trace.length, trace.steps[2]?, trace.locationOf? 2, trace.sourceOf? 1)) =
      some (4, some secondPass, some ⟨2, 5⟩, some ⟨1, 1⟩) := by
    decide +kernel
  obtain ⟨trace, htrace, hseen⟩ := Option.map_eq_some_iff.mp hseen
  simp only [Prod.mk.injEq] at hseen
  obtain ⟨hlength, hstep, hplace, hsource⟩ := hseen
  exact ⟨trace, except_toOption_some.mp htrace, by omega, hstep, hplace, hsource⟩

end Sample

/-- The second pass of a loop is not at the place of the loop but at that of its body. -/
theorem secondPass_elsewhere : ∃ trace place, traceText Sample.twoPasses {} = .ok trace ∧
    trace.steps[2]? = some Sample.secondPass ∧ trace.locationOf? 2 = some place ∧
    trace.sourceOf? 1 = some ⟨1, 1⟩ ∧ place ≠ ⟨1, 1⟩ := by
  obtain ⟨trace, htrace, _, hstep, hplace, hsource⟩ := Sample.trace_twoPasses
  exact ⟨trace, ⟨2, 5⟩, htrace, hstep, hplace, hsource, by decide⟩

/-- The second pass of a loop is recorded by the loop itself. -/
theorem secondPass_explained : ∃ program trace, Program.parse Sample.twoPasses = .ok program ∧
    program.trace {} = .ok trace ∧ 2 < trace.length ∧
    ∃ calls statement before after, program.Reaches {} calls statement before ∧
      statement.RecordsItself calls before after 2 ∧
      statement.Explains trace ⟨2, 5⟩ Sample.secondPass := by
  obtain ⟨trace, htext, hindex, hstep, hplace, _⟩ := Sample.trace_twoPasses
  obtain ⟨program, hparse, htrace⟩ := traceText_ok htext
  obtain ⟨⟨calls, statement, before, after, hreach, hitself⟩, hall⟩ :=
    explained_by_innermost htrace hindex
  obtain ⟨step, place, hstep', hplace', hexplains⟩ :=
    hall calls statement before after hreach hitself
  cases hstep.symm.trans hstep'
  cases hplace.symm.trans hplace'
  exact ⟨program, trace, hparse, htrace, hindex, calls, statement, before, after, hreach, hitself,
    hexplains⟩

end Walkthrough
