import Walkthrough.Run.Exec

/-!
# What an action has done when it succeeds

For each action of a run, the results and states with which it can succeed. Later
proofs take an action apart with these statements and never unfold it.
-/

namespace Walkthrough

namespace Run

/-- The run at another place. -/
def movedTo (run : Run) (location : Location) : Run := { run with here := location }

/-- The run with a value for a name. -/
def bound (run : Run) (name : String) (value : Value) : Run :=
  { run with store := run.store.set name value }

/-- The run with values for some names, bound in order. -/
def boundAll (run : Run) (bindings : List (String × Value)) : Run :=
  bindings.foldl (fun run binding => run.bound binding.1 binding.2) run

/-- Binding names changes the bindings only. -/
theorem boundAll_store (run : Run) (bindings : List (String × Value)) :
    ∃ scopes, (run.boundAll bindings).store = { run.store with scopes } := by
  induction bindings generalizing run with
  | nil => exact ⟨_, rfl⟩
  | cons binding others ih => exact ih (run.bound binding.1 binding.2)

@[simp] theorem boundAll_depth (run : Run) (bindings : List (String × Value)) :
    (run.boundAll bindings).store.depth = run.store.depth := by
  obtain ⟨scopes, h⟩ := run.boundAll_store bindings
  rw [h]

/-- The run with one more step, recorded at the current place. -/
def recorded (run : Run) (step : Step) : Run :=
  { run with trace := run.trace.append step run.here }

/-- The run with some more steps, recorded at the current place. -/
def recordedAll (run : Run) (steps : List Step) : Run := steps.foldl recorded run

/-- The run that remembers the id of a place. -/
def identified (run : Run) (location : Location) : Run :=
  { run with
    store := (run.store.idAt location).2
    trace := run.trace.record (run.store.idAt location).1 location }

/-- Giving an id changes neither the bindings nor the depth nor the functions. -/
theorem identified_store (run : Run) (location : Location) :
    ∃ places, (run.identified location).store = { run.store with places } := by
  unfold identified Store.idAt
  split
  · exact ⟨_, rfl⟩
  · exact ⟨_, rfl⟩

@[simp] theorem identified_scopes (run : Run) (location : Location) :
    (run.identified location).store.scopes = run.store.scopes := by
  obtain ⟨places, h⟩ := run.identified_store location
  rw [h]

@[simp] theorem identified_depth (run : Run) (location : Location) :
    (run.identified location).store.depth = run.store.depth := by
  obtain ⟨places, h⟩ := run.identified_store location
  rw [h]

/-- The run with one more function. -/
def defined (run : Run) (f : Procedure) : Run := { run with store := run.store.define f }

/-- The run one level deeper. -/
def entered (run : Run) : Run := { run with store := run.store.enterScope }

/-- The run after a level of nesting. -/
def exited (run : Run) : Run :=
  { run with store := { run.store with depth := run.store.depth - 1 } }

/-- The run inside a function with these local bindings. -/
def pushed (run : Run) (locals : SortedMap String Value) : Run :=
  { run with store := run.store.pushFrame locals }

/-- The run after the innermost function, which was called at a place. -/
def popped (run : Run) (location : Location) : Run :=
  { run with store := { run.store with scopes := run.store.scopes.pop }, here := location }

/-- The run in which the call of a function has just been recorded. -/
def called (run : Run) (f : Procedure) (values : List Value) (location : Location) : Run :=
  (run.identified location).recorded
    (.call (run.store.idAt location).1 run.store.depth f.name f.signature
      ((f.params.zip values).map fun (name, value) => ⟨name, value.text⟩))

/-- The run at the first statement of a function that was called. -/
def inside (run : Run) (f : Procedure) (values : List Value) (location : Location) : Run :=
  ((run.called f values location).pushed (.ofList (f.params.zip values))).entered

/-- The run after a call, from the call and from the end of the function. -/
def returned (last call : Run) (f : Procedure) (location : Location) (value : Value) : Run :=
  (last.exited.popped location).recorded
    (.endCall (call.store.idAt location).1 call.store.depth f.name value.text)

end Run

/-- The steps of an assignment show variables. -/
theorem Target.assigned_of_mem_steps {depth : Nat} {targets : List Target} {staged : Staged}
    {step : Step} (h : step ∈ Target.steps depth targets staged) :
    ∃ target expr, step = .assigned depth target expr := by
  obtain ⟨snapshot, _, h⟩ := List.mem_flatMap.mp h
  obtain ⟨target, _, h⟩ := List.mem_flatMap.mp h
  obtain ⟨shown, _, rfl⟩ := List.mem_map.mp h
  exact ⟨_, _, rfl⟩

namespace Walk

variable {α β : Type} {r r' : Run}

/-- An action gives a value if it succeeds with it. -/
theorem run'_some {m : Walk α} {a : α} : EStateM.run' m r = some a ↔ ∃ s, m r = .ok a s := by
  unfold EStateM.run' EStateM.run
  cases m r <;> simp

/-- One action after another succeeds if both do. -/
theorem bind_ok {m : Walk α} {k : α → Walk β} {b : β} :
    (m >>= k) r = .ok b r' ↔ ∃ a s, m r = .ok a s ∧ k a s = .ok b r' := by
  change EStateM.bind m k r = _ ↔ _
  unfold EStateM.bind
  cases m r with
  | error fault s => simp
  | ok a s =>
    constructor
    · intro h
      exact ⟨a, s, rfl, h⟩
    · rintro ⟨_, _, hm, hk⟩
      cases hm
      exact hk

/-- An action whose result is changed succeeds with the changed result. -/
theorem map_ok {m : Walk α} {f : α → β} {b : β} :
    (f <$> m) r = .ok b r' ↔ ∃ a, m r = .ok a r' ∧ f a = b := by
  change EStateM.map f m r = _ ↔ _
  unfold EStateM.map
  cases m r with
  | error fault s => simp
  | ok a s =>
    constructor
    · intro h
      cases h
      exact ⟨a, rfl, rfl⟩
    · rintro ⟨_, hm, rfl⟩
      cases hm
      rfl

/-- An action that does nothing succeeds without a change. -/
theorem pure_ok {a b : α} : (pure a : Walk α) r = .ok b r' ↔ a = b ∧ r = r' := by
  change EStateM.Result.ok a r = _ ↔ _
  simp

/-- A fault is no success. -/
theorem throw_ok {fault : Fault} {a : α} : ¬ (throw fault : Walk α) r = .ok a r' := by
  intro h
  cases h

/-- Looking at the state changes nothing. -/
theorem get_ok {s : Run} : (get : Walk Run) r = .ok s r' ↔ r = s ∧ r = r' := by
  change EStateM.Result.ok r r = _ ↔ _
  simp

/-- A change of the state always succeeds. -/
theorem modify_ok {f : Run → Run} {u : Unit} : (modify f : Walk Unit) r = .ok u r' ↔ r' = f r := by
  change EStateM.Result.ok () (f r) = _ ↔ _
  simp [eq_comm]

/-- A result is passed on as it is. -/
theorem lift_ok {result : Except Fault α} {a : α} :
    lift result r = .ok a r' ↔ result = .ok a ∧ r = r' := by
  unfold lift
  cases result <;> simp [eq_comm]

/-- What is computed from the bindings changes nothing. -/
theorem reading_ok {f : Scopes Value → Except Fault α} {a : α} :
    reading f r = .ok a r' ↔ f r.store.scopes = .ok a ∧ r = r' := by
  unfold reading
  exact lift_ok

/-- Reading the depth changes nothing. -/
theorem depth_ok {d : Nat} : depth r = .ok d r' ↔ d = r.store.depth ∧ r = r' := by
  change EStateM.Result.ok r.store.depth r = _ ↔ _
  simp [eq_comm]

/-- Moving always succeeds. -/
theorem moveTo_ok {location : Location} {u : Unit} :
    moveTo location r = .ok u r' ↔ r' = r.movedTo location := by
  change EStateM.Result.ok () (r.movedTo location) = _ ↔ _
  simp [eq_comm]

/-- Binding always succeeds. -/
theorem bind_name_ok {name : String} {value : Value} {u : Unit} :
    bind name value r = .ok u r' ↔ r' = r.bound name value := by
  change EStateM.Result.ok () (r.bound name value) = _ ↔ _
  simp [eq_comm]

/-- A step is recorded, or the log is full and nothing changes. -/
theorem emit_eq (step : Step) (r : Run) :
    emit step r =
      if r.trace.isFull then .error (.stepLimit r.trace.limit) r else .ok () (r.recorded step) := by
  obtain ⟨callLimit, store, trace, here⟩ := r
  unfold emit Trace.push
  dsimp only
  cases trace.isFull <;> rfl

/-- A full log stops the run. -/
theorem emit_full (step : Step) (h : r.trace.isFull = true) :
    emit step r = .error (.stepLimit r.trace.limit) r := by
  rw [emit_eq, if_pos h]

/-- A step is recorded while the log is not full. -/
theorem emit_ok {step : Step} {u : Unit} :
    emit step r = .ok u r' ↔ r.trace.isFull = false ∧ r' = r.recorded step := by
  rw [emit_eq]
  split
  · next h => simp [h]
  · next h => simp [h, eq_comm]

/-- An id can always be given. -/
theorem idAt_ok {location : Location} {id : Nat} :
    idAt location r = .ok id r' ↔
      id = (r.store.idAt location).1 ∧ r' = r.identified location := by
  change EStateM.Result.ok (r.store.idAt location).1 (r.identified location) = _ ↔ _
  simp [eq_comm]

/-- Some steps are recorded in order. -/
theorem emitAll_ok {steps : List Step} {u : Unit} (h : emitAll steps r = .ok u r') :
    r' = r.recordedAll steps := by
  induction steps generalizing r with
  | nil => exact (pure_ok.1 h).2.symm
  | cons step others ih =>
    obtain ⟨_, s, hs, h⟩ := bind_ok.1 h
    obtain ⟨_, rfl⟩ := emit_ok.1 hs
    exact ih h

/-- An action within a scope that succeeds has entered the scope, succeeded and left it. -/
theorem within_ok {enter : Run → Run} {leave : Run → EStateM.Result Unbalanced Run Unit}
    {body : Walk α} {a : α} (h : within enter leave body r = .ok a r') :
    ∃ s, body (enter r) = .ok a s ∧ leave s = .ok () r' := by
  unfold within at h
  cases hbody : body (enter r) with
  | error fault s =>
    rw [hbody] at h
    dsimp only at h
    split at h <;> cases h
  | ok b s =>
    rw [hbody] at h
    dsimp only at h
    split at h
    · next left hleft =>
      cases h
      exact ⟨s, rfl, hleft⟩
    · cases h

/-- The outermost level of nesting cannot be left, and nothing changes. -/
theorem leaving_exitScope (r : Run) :
    leaving Store.exitScope id r =
      if r.store.depth = 0 then .error .scope r else .ok () r.exited := by
  unfold leaving Store.exitScope
  by_cases hdepth : r.store.depth = 0
  · simp only [if_pos hdepth]
  · simp only [if_neg hdepth]
    rfl

/-- Where no function runs none can be left, and nothing changes. -/
theorem leaving_popFrame (location : Location) (r : Run) :
    leaving Store.popFrame (fun run => { run with here := location }) r =
      if r.store.scopes.frames = [] then .error .frame r else .ok () (r.popped location) := by
  unfold leaving Store.popFrame
  by_cases hnone : r.store.scopes.frames = []
  · simp only [if_pos hnone, Scopes.pop_eq_self hnone]
  · simp only [if_neg hnone]
    rfl

/-- An action one level deeper ends one level less deep. -/
theorem nested_ok {body : Walk α} {a : α} (h : nested body r = .ok a r') :
    ∃ s, body r.entered = .ok a s ∧ s.store.depth ≠ 0 ∧ r' = s.exited := by
  obtain ⟨s, hbody, hleave⟩ := within_ok h
  refine ⟨s, hbody, ?_⟩
  rw [leaving_exitScope] at hleave
  split at hleave
  · cases hleave
  · next hdepth =>
    cases hleave
    exact ⟨hdepth, rfl⟩

/-- An action inside a function ends outside it and at the place of the call. -/
theorem framed_ok {locals : SortedMap String Value} {location : Location} {body : Walk α} {a : α}
    (h : framed locals location body r = .ok a r') :
    ∃ s, body (r.pushed locals) = .ok a s ∧ s.store.scopes.frames ≠ [] ∧
      r' = s.popped location := by
  obtain ⟨s, hbody, hleave⟩ := within_ok h
  refine ⟨s, hbody, ?_⟩
  rw [leaving_popFrame] at hleave
  split at hleave
  · cases hleave
  · next hsome =>
    cases hleave
    exact ⟨hsome, rfl⟩

/-- Some names are bound in order. -/
theorem bindEach_ok {bindings : List (String × Value)} {u : Unit}
    (h : bindEach bindings r = .ok u r') : r' = r.boundAll bindings := by
  induction bindings generalizing r with
  | nil => exact (pure_ok.1 h).2.symm
  | cons binding others ih =>
    obtain ⟨_, s, hs, h⟩ := bind_ok.1 h
    cases bind_name_ok.1 hs
    exact ih h

/-- Targets are bound one after another, each to its share of the value. -/
theorem bindTargets_ok {location : Location} {value : Value} {targets : List Target} {u : Unit}
    (h : bindTargets location value targets r = .ok u r') :
    ∃ shares, targets.mapM (Target.bindings location value) = .ok shares ∧
      r' = r.boundAll shares.flatten := by
  induction targets generalizing r with
  | nil => exact ⟨[], rfl, (pure_ok.1 h).2.symm⟩
  | cons target others ih =>
    obtain ⟨share, s, hs, h⟩ := bind_ok.1 h
    obtain ⟨hshare, rfl⟩ := lift_ok.1 hs
    obtain ⟨_, t, ht, h⟩ := bind_ok.1 h
    cases bindEach_ok ht
    obtain ⟨shares, hshares, rfl⟩ := ih h
    refine ⟨share :: shares, ?_, ?_⟩
    · rw [List.mapM_cons, hshare, hshares]
      rfl
    · simp [Run.boundAll, List.foldl_append]

/-- The recorded steps do not touch the memory. -/
@[simp] theorem store_recordedAll (run : Run) (steps : List Step) :
    (run.recordedAll steps).store = run.store := by
  induction steps generalizing run with
  | nil => rfl
  | cons step others ih => exact ih (run.recorded step)

/-- What is printed are the stages of each expression. -/
theorem printAll_ok {id depth : Nat} {args : List Expr} {u : Unit}
    (h : printAll id depth args r = .ok u r') :
    ∃ printed, args.mapM (Expr.wholeStages r.store.scopes) = .ok printed ∧
      r' = r.recordedAll (printed.flatMap fun staged =>
        staged.highlighted.map fun (text, highlight) => .print id depth text highlight) := by
  induction args generalizing r with
  | nil => exact ⟨[], rfl, (pure_ok.1 h).2.symm⟩
  | cons arg others ih =>
    obtain ⟨staged, s, hs, h⟩ := bind_ok.1 h
    obtain ⟨hstaged, rfl⟩ := reading_ok.1 hs
    obtain ⟨_, t, ht, h⟩ := bind_ok.1 h
    cases emitAll_ok ht
    obtain ⟨printed, hprinted, rfl⟩ := ih h
    rw [store_recordedAll] at hprinted
    refine ⟨staged :: printed, ?_, ?_⟩
    · rw [List.mapM_cons, hstaged, hprinted]
      rfl
    · simp [Run.recordedAll, List.foldl_append]

/-- A call by name prints, or calls the function of that name. -/
theorem callNamed_ok {caller : Caller} {function : String} {args : List Expr}
    {location : Location} {value : Value}
    (h : callNamed caller function args location r = .ok value r') :
    (function = "print" ∧ value = .none ∧
      printAll (r.store.idAt location).1 r.store.depth args (r.identified location) = .ok () r') ∨
    (function ≠ "print" ∧ ∃ f, r.store.function? function = some f ∧
      caller f args location r = .ok value r') := by
  unfold callNamed at h
  split at h
  · next hname =>
    obtain ⟨id, s, hs, h⟩ := bind_ok.1 h
    obtain ⟨rfl, rfl⟩ := idAt_ok.1 hs
    obtain ⟨d, t, ht, h⟩ := bind_ok.1 h
    obtain ⟨rfl, rfl⟩ := depth_ok.1 ht
    obtain ⟨_, w, hw, h⟩ := bind_ok.1 h
    obtain ⟨rfl, rfl⟩ := pure_ok.1 h
    rw [Run.identified_depth] at hw
    exact .inl ⟨hname, rfl, hw⟩
  · next hname =>
    obtain ⟨s, t, hs, h⟩ := bind_ok.1 h
    obtain ⟨rfl, rfl⟩ := get_ok.1 hs
    refine .inr ⟨hname, ?_⟩
    cases hf : r.store.function? function with
    | some f => rw [hf] at h; exact ⟨f, rfl, h⟩
    | none => rw [hf] at h; exact absurd h throw_ok

/-- The stages of a call are its value; all others come from the bindings alone. -/
theorem stagesOf_ok {caller : Caller} {present : Scopes Value → Expr → Except Fault Staged}
    {e : Expr} {staged : Staged} (h : stagesOf caller present e r = .ok staged r') :
    (∃ function args location value, e = .call function args location ∧
      callNamed caller function args location r = .ok value r' ∧ staged = .resolved value) ∨
    ((∀ function args location, e ≠ .call function args location) ∧
      present r.store.scopes e = .ok staged ∧ r = r') := by
  unfold stagesOf at h
  split at h
  · next function args location =>
    obtain ⟨value, s, hs, h⟩ := bind_ok.1 h
    obtain ⟨rfl, rfl⟩ := pure_ok.1 h
    exact .inl ⟨function, args, location, value, rfl, hs, rfl⟩
  · next hcall =>
    obtain ⟨hstaged, rfl⟩ := reading_ok.1 h
    exact .inr ⟨hcall, hstaged, rfl⟩

/-- The test of a condition shows its stages. -/
theorem test_ok {kind : BranchKind} {condition : Expr} {location : Location} {passed : Bool}
    (h : test kind condition location r = .ok passed r') :
    ∃ staged, condition.wholeStages r.store.scopes = .ok staged ∧ passed = staged.value.isTrue ∧
      r' = (r.identified location).recordedAll (staged.highlighted.map fun (text, highlight) =>
        .branch (r.store.idAt location).1 r.store.depth kind text highlight) := by
  obtain ⟨id, s, hs, h⟩ := bind_ok.1 h
  obtain ⟨rfl, rfl⟩ := idAt_ok.1 hs
  obtain ⟨staged, s, hs, h⟩ := bind_ok.1 h
  obtain ⟨hstaged, rfl⟩ := reading_ok.1 hs
  obtain ⟨d, s, hs, h⟩ := bind_ok.1 h
  obtain ⟨rfl, rfl⟩ := depth_ok.1 hs
  obtain ⟨_, s, hs, h⟩ := bind_ok.1 h
  cases emitAll_ok hs
  obtain ⟨rfl, rfl⟩ := pure_ok.1 h
  rw [Run.identified_scopes] at hstaged
  rw [Run.identified_depth]
  exact ⟨staged, hstaged, rfl, rfl⟩

/-- The alternative of a choice is recorded before it runs. -/
theorem enterAlternative_ok {location : Location} {u : Unit}
    (h : enterAlternative location r = .ok u r') :
    r' = (r.identified location).recorded
      (.branch (r.store.idAt location).1 r.store.depth .otherwise "" []) := by
  obtain ⟨id, s, hs, h⟩ := bind_ok.1 h
  obtain ⟨rfl, rfl⟩ := idAt_ok.1 hs
  obtain ⟨d, s, hs, h⟩ := bind_ok.1 h
  obtain ⟨rfl, rfl⟩ := depth_ok.1 hs
  rw [Run.identified_depth] at h
  exact (emit_ok.1 h).2

/-- A pass of a loop binds the loop variable and records the pass. -/
theorem startPass_ok {id : Nat} {counter : Counter} {u : Unit}
    (h : startPass id counter r = .ok u r') :
    r' = (r.bound counter.target (.int counter.current)).recorded
      (.pass id r.store.depth counter counter.changed) := by
  obtain ⟨_, s, hs, h⟩ := bind_ok.1 h
  cases bind_name_ok.1 hs
  obtain ⟨d, s, hs, h⟩ := bind_ok.1 h
  obtain ⟨rfl, rfl⟩ := depth_ok.1 hs
  exact (emit_ok.1 h).2

/-- A loop is over, or it makes a pass and then returns or goes on. -/
theorem passes_ok {id : Nat} {body : Walk Flow} {counter : Counter} {flow : Flow}
    (h : passes id body counter r = .ok flow r') :
    (counter.inRange = false ∧ flow = .normal ∧ r = r') ∨
    (counter.inRange = true ∧ ∃ s t, startPass id counter r = .ok () s ∧
      ((∃ value, flow = .returned value ∧ body s = .ok (.returned value) r') ∨
        (body s = .ok .normal t ∧ passes id body counter.next t = .ok flow r'))) := by
  unfold passes at h
  split at h
  · next hrange =>
    obtain ⟨_, s, hs, h⟩ := bind_ok.1 h
    obtain ⟨ended, t, ht, h⟩ := bind_ok.1 h
    refine .inr ⟨hrange, s, t, hs, ?_⟩
    cases ended with
    | returned value =>
      obtain ⟨rfl, rfl⟩ := pure_ok.1 h
      exact .inl ⟨value, rfl, ht⟩
    | normal => exact .inr ⟨ht, h⟩
  · next hrange =>
    obtain ⟨rfl, rfl⟩ := pure_ok.1 h
    exact .inl ⟨by simpa using hrange, rfl, rfl⟩

/-- A call that succeeds: the arguments have values, the call was recorded, the statements
of the function ran with one call less, and the end of the call was recorded. -/
structure Answered (calls : Nat) (f : Procedure) (args : List Expr) (location : Location)
    (before : Run) (values : List Value) (flow : Flow) (last after : Run) : Prop where
  /-- There is an argument for each parameter. -/
  count : args.length = f.params.length
  /-- The arguments have these values. -/
  evaluated : Expr.evalAll before.store.scopes args = .ok values
  /-- The log had room for the call. -/
  room : before.trace.isFull = false
  /-- The statements ran to their end or to a return. -/
  ran : Stmt.execAll (callWithin calls) f.body (before.inside f values location) = .ok flow last
  /-- The scope of the statements could be left. -/
  scope : last.store.depth ≠ 0
  /-- The frame of the function could be dropped. -/
  frame : last.store.scopes.frames ≠ []
  /-- The call ends with its value. -/
  ended : after = last.returned before f location flow.value

/-- A call within a limit succeeds only in the way of `Answered`. -/
theorem callWithin_ok {calls : Nat} {f : Procedure} {args : List Expr} {location : Location}
    {value : Value} (h : callWithin calls f args location r = .ok value r') :
    ∃ fewer values flow last, calls = fewer + 1 ∧ value = flow.value ∧
      Answered fewer f args location r values flow last r' := by
  cases calls with
  | zero =>
    obtain ⟨_, s, _, h⟩ := bind_ok.1 h
    obtain ⟨t, s, _, h⟩ := bind_ok.1 h
    exact absurd h throw_ok
  | succ fewer =>
    obtain ⟨_, s, hs, h⟩ := bind_ok.1 h
    obtain ⟨hcount, rfl⟩ := lift_ok.1 hs
    obtain ⟨values, s, hs, h⟩ := bind_ok.1 h
    obtain ⟨hvalues, rfl⟩ := reading_ok.1 hs
    obtain ⟨id, s, hs, h⟩ := bind_ok.1 h
    obtain ⟨rfl, rfl⟩ := idAt_ok.1 hs
    obtain ⟨d, s, hs, h⟩ := bind_ok.1 h
    obtain ⟨rfl, rfl⟩ := depth_ok.1 hs
    rw [Run.identified_depth] at h
    obtain ⟨_, s, hs, h⟩ := bind_ok.1 h
    obtain ⟨hroom, rfl⟩ := emit_ok.1 hs
    obtain ⟨flow, s, hs, h⟩ := bind_ok.1 h
    obtain ⟨t, ht, hframe, rfl⟩ := framed_ok hs
    obtain ⟨last, hlast, hscope, rfl⟩ := nested_ok ht
    obtain ⟨_, s, hs, h⟩ := bind_ok.1 h
    obtain ⟨_, rfl⟩ := emit_ok.1 hs
    obtain ⟨rfl, rfl⟩ := pure_ok.1 h
    have hcount : args.length = f.params.length := by
      unfold Procedure.checkCount at hcount
      split at hcount
      · assumption
      · cases hcount
    exact ⟨fewer, values, flow, last, rfl, rfl,
      ⟨hcount, hvalues, hroom, hlast, hscope, hframe, rfl⟩⟩

end Walk

namespace Stmt

open Walk

variable {caller : Caller} {r r' : Run} {flow : Flow}

/-- An assignment binds its targets to their shares of the value and then shows its stages. -/
theorem exec_assign_ok {targets : List Expr} {value : Expr} {location : Location}
    (h : exec caller (.assign targets value location) r = .ok flow r') :
    flow = .normal ∧ ∃ names staged s shares, targets.mapM Expr.target = .ok names ∧
      stagesOf caller (fun scopes e => e.stages scopes) value (r.movedTo location) = .ok staged s ∧
      names.mapM (Target.bindings location staged.value) = .ok shares ∧
      r' = (s.boundAll shares.flatten).recordedAll (Target.steps s.store.depth names staged) := by
  rw [exec] at h
  obtain ⟨_, s, hs, h⟩ := bind_ok.1 h
  cases moveTo_ok.1 hs
  obtain ⟨_, s, hassign, h⟩ := bind_ok.1 h
  obtain ⟨rfl, rfl⟩ := pure_ok.1 h
  obtain ⟨names, s, hs, h⟩ := bind_ok.1 hassign
  obtain ⟨hnames, rfl⟩ := lift_ok.1 hs
  obtain ⟨staged, s, hstaged, h⟩ := bind_ok.1 h
  obtain ⟨_, t, ht, h⟩ := bind_ok.1 h
  obtain ⟨shares, hshares, rfl⟩ := bindTargets_ok ht
  obtain ⟨d, t, ht, h⟩ := bind_ok.1 h
  obtain ⟨rfl, rfl⟩ := depth_ok.1 ht
  cases emitAll_ok h
  refine ⟨rfl, names, staged, s, shares, hnames, hstaged, hshares, ?_⟩
  rw [Run.boundAll_depth]

/-- A loop makes passes from its counter on. -/
theorem exec_loop_ok {target iterable : Expr} {body : List Stmt} {location : Location}
    (h : exec caller (.loop target iterable body location) r = .ok flow r') :
    ∃ name counter, target.loopName = .ok name ∧
      Expr.counter r.store.scopes name iterable = .ok counter ∧
      passes (r.store.idAt location).1 (nested (execAll caller body)) counter
        ((r.movedTo location).identified location) = .ok flow r' := by
  rw [exec] at h
  obtain ⟨_, s, hs, h⟩ := bind_ok.1 h
  cases moveTo_ok.1 hs
  obtain ⟨name, s, hs, h⟩ := bind_ok.1 h
  obtain ⟨hname, rfl⟩ := lift_ok.1 hs
  obtain ⟨counter, s, hs, h⟩ := bind_ok.1 h
  obtain ⟨hcounter, rfl⟩ := reading_ok.1 hs
  obtain ⟨id, s, hs, h⟩ := bind_ok.1 h
  obtain ⟨rfl, rfl⟩ := idAt_ok.1 hs
  exact ⟨name, counter, hname, hcounter, h⟩

/-- A choice tries its branches in order. -/
theorem exec_choose_ok {branches : List Branch} {alternative : Option Otherwise}
    {location : Location}
    (h : exec caller (.choose branches alternative location) r = .ok flow r') :
    execBranches caller .first (execAlternative caller alternative) branches
      (r.movedTo location) = .ok flow r' := by
  rw [exec] at h
  obtain ⟨_, s, hs, h⟩ := bind_ok.1 h
  cases moveTo_ok.1 hs
  exact h

/-- A definition is remembered and recorded. -/
theorem exec_define_ok {name : String} {params : List String} {body : List Stmt}
    {location : Location} (h : exec caller (.define name params body location) r = .ok flow r') :
    flow = .normal ∧
      r' = (((r.movedTo location).identified location).defined
        ⟨name, params, body, location⟩).recorded
          (.define (r.store.idAt location).1 r.store.depth name
            (Procedure.signature ⟨name, params, body, location⟩)) := by
  rw [exec] at h
  obtain ⟨_, s, hs, h⟩ := bind_ok.1 h
  cases moveTo_ok.1 hs
  obtain ⟨_, s, hdefine, h⟩ := bind_ok.1 h
  obtain ⟨rfl, rfl⟩ := pure_ok.1 h
  obtain ⟨id, s, hs, h⟩ := bind_ok.1 hdefine
  obtain ⟨rfl, rfl⟩ := idAt_ok.1 hs
  obtain ⟨_, s, hs, h⟩ := bind_ok.1 h
  cases modify_ok.1 hs
  obtain ⟨d, s, hs, h⟩ := bind_ok.1 h
  obtain ⟨rfl, rfl⟩ := depth_ok.1 hs
  obtain ⟨_, rfl⟩ := emit_ok.1 h
  refine ⟨rfl, ?_⟩
  rw [← Run.identified_depth r location]
  rfl

/-- The stages of a returned value are shown under the id of the return. -/
theorem showReturned_ok {location : Location} {staged : Staged} {value : Value}
    (h : (do
      let id ← idAt location
      let depth ← depth
      emitAll (staged.highlighted.map fun (text, highlight) => .giveBack id depth text highlight)
      return staged.value) r = EStateM.Result.ok value r') :
    value = staged.value ∧
      r' = (r.identified location).recordedAll (staged.highlighted.map fun (text, highlight) =>
        .giveBack (r.store.idAt location).1 r.store.depth text highlight) := by
  obtain ⟨id, s, hs, h⟩ := bind_ok.1 h
  obtain ⟨rfl, rfl⟩ := idAt_ok.1 hs
  obtain ⟨d, s, hs, h⟩ := bind_ok.1 h
  obtain ⟨rfl, rfl⟩ := depth_ok.1 hs
  obtain ⟨_, s, hs, h⟩ := bind_ok.1 h
  cases emitAll_ok hs
  obtain ⟨rfl, rfl⟩ := pure_ok.1 h
  rw [Run.identified_depth]
  exact ⟨rfl, rfl⟩

/-- A return shows the stages of its value, where it has one. -/
theorem exec_giveBack_ok {value : Option Expr} {location : Location}
    (h : exec caller (.giveBack value location) r = .ok flow r') :
    r.store.inFunction = true ∧ ∃ staged s, flow = .returned staged.value ∧
      ((value = none ∧ staged = .resolved .none ∧ s = r.movedTo location) ∨
        (∃ e, value = some e ∧ stagesOf caller (fun scopes e => e.wholeStages scopes) e
          (r.movedTo location) = .ok staged s)) ∧
      r' = (s.identified location).recordedAll (staged.highlighted.map fun (text, highlight) =>
        .giveBack (s.store.idAt location).1 s.store.depth text highlight) := by
  rw [exec] at h
  obtain ⟨_, s, hs, h⟩ := bind_ok.1 h
  cases moveTo_ok.1 hs
  obtain ⟨result, s, hgive, h⟩ := bind_ok.1 h
  obtain ⟨rfl, rfl⟩ := pure_ok.1 h
  obtain ⟨now, t, ht, h⟩ := bind_ok.1 hgive
  obtain ⟨rfl, rfl⟩ := get_ok.1 ht
  split at h
  · next hin =>
    refine ⟨hin, ?_⟩
    cases value with
    | none =>
      obtain ⟨staged, t, hstaged, h⟩ := bind_ok.1 h
      obtain ⟨rfl, rfl⟩ := pure_ok.1 hstaged
      obtain ⟨rfl, rfl⟩ := showReturned_ok h
      exact ⟨_, _, rfl, .inl ⟨rfl, rfl, rfl⟩, rfl⟩
    | some e =>
      obtain ⟨staged, t, hstaged, h⟩ := bind_ok.1 h
      obtain ⟨rfl, rfl⟩ := showReturned_ok h
      exact ⟨staged, t, rfl, .inr ⟨e, rfl, hstaged⟩, rfl⟩
  · exact absurd h throw_ok

/-- An expression on its own is a call. -/
theorem exec_expression_ok {value : Expr} {location : Location}
    (h : exec caller (.expression value location) r = .ok flow r') :
    flow = .normal ∧ ∃ function args place result, value = .call function args place ∧
      callNamed caller function args place (r.movedTo location) = .ok result r' := by
  rw [exec] at h
  obtain ⟨_, s, hs, h⟩ := bind_ok.1 h
  cases moveTo_ok.1 hs
  obtain ⟨_, s, hcall, h⟩ := bind_ok.1 h
  obtain ⟨rfl, rfl⟩ := pure_ok.1 h
  cases value with
  | call function args place =>
    obtain ⟨result, hresult, _⟩ := map_ok.1 hcall
    exact ⟨rfl, function, args, place, result, rfl, hresult⟩
  | _ => exact absurd hcall throw_ok

/-- A list of statements runs its first one and, unless that returns, the others. -/
theorem execAll_cons_ok {statement : Stmt} {others : List Stmt}
    (h : execAll caller (statement :: others) r = .ok flow r') :
    (∃ value, flow = .returned value ∧ exec caller statement r = .ok (.returned value) r') ∨
    ∃ s, exec caller statement r = .ok .normal s ∧ execAll caller others s = .ok flow r' := by
  rw [execAll] at h
  obtain ⟨ended, s, hs, h⟩ := bind_ok.1 h
  cases ended with
  | returned value =>
    obtain ⟨rfl, rfl⟩ := pure_ok.1 h
    exact .inl ⟨value, rfl, hs⟩
  | normal => exact .inr ⟨s, hs, h⟩

/-- No statements change nothing. -/
theorem execAll_nil_ok (h : execAll caller [] r = .ok flow r') : flow = .normal ∧ r = r' := by
  rw [execAll] at h
  obtain ⟨rfl, rfl⟩ := pure_ok.1 h
  exact ⟨rfl, rfl⟩

/-- A branch runs if its condition holds, and otherwise the branches after it do. -/
theorem execBranches_cons_ok {kind : BranchKind} {alternative : Walk Flow} {condition : Expr}
    {body : List Stmt} {location : Location} {others : List Branch}
    (h : execBranches caller kind alternative (.mk condition body location :: others) r =
      .ok flow r') :
    ∃ s, (test kind condition location r = .ok true s ∧
        nested (execAll caller body) s = .ok flow r') ∨
      (test kind condition location r = .ok false s ∧
        execBranches caller .further alternative others s = .ok flow r') := by
  rw [execBranches] at h
  obtain ⟨passed, s, hs, h⟩ := bind_ok.1 h
  cases passed with
  | true => exact ⟨s, .inl ⟨hs, h⟩⟩
  | false => exact ⟨s, .inr ⟨hs, h⟩⟩

/-- The alternative of a choice, if there is one, is recorded and run. -/
theorem execAlternative_ok {alternative : Option Otherwise}
    (h : execAlternative caller alternative r = .ok flow r') :
    (alternative = none ∧ flow = .normal ∧ r = r') ∨
    ∃ body location s, alternative = some (.mk body location) ∧
      enterAlternative location r = .ok () s ∧ nested (execAll caller body) s = .ok flow r' := by
  cases alternative with
  | none =>
    rw [execAlternative] at h
    obtain ⟨rfl, rfl⟩ := pure_ok.1 h
    exact .inl ⟨rfl, rfl, rfl⟩
  | some otherwise =>
    obtain ⟨body, location⟩ := otherwise
    rw [execAlternative] at h
    obtain ⟨_, s, hs, h⟩ := bind_ok.1 h
    exact .inr ⟨body, location, s, rfl, hs, h⟩

end Stmt

namespace Program

/-- A program has a trace if its run succeeds. -/
theorem trace_ok {program : Program} {limits : Limits} {trace : Trace} :
    program.trace limits = .ok trace ↔
      ∃ flow last, program.run limits = .ok flow last ∧ last.trace = trace := by
  unfold Program.trace
  cases program.run limits with
  | ok flow last =>
    constructor
    · intro h
      cases h
      exact ⟨flow, last, rfl, rfl⟩
    · rintro ⟨_, _, hrun, rfl⟩
      cases hrun
      rfl
  | error fault last => simp

/-- A program has no trace if its run stops. -/
theorem trace_error {program : Program} {limits : Limits} {fault : Fault} :
    program.trace limits = .error fault ↔ ∃ last, program.run limits = .error fault last := by
  unfold Program.trace
  cases program.run limits with
  | ok flow last => simp
  | error fault last => simp

end Program

end Walkthrough
