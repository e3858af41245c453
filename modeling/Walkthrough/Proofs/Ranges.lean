import Mathlib.Tactic.Ring
import Walkthrough.Proofs.Course

/-!
# Loops over ranges

A counter that counts in 64-bit numbers goes through the values that a range of whole numbers
has without any bound on them. Where the next value would leave the 64-bit numbers, counting
stops at the last of them, and the stop of the range is not beyond it. A loop makes its passes
along the states of its counter: all of them if it comes to its end, and some first ones if its
body returns or fails. What the body does to the loop variable does not matter, since the
counter is kept apart from the bindings.
-/

namespace Walkthrough

open Walk

namespace Counter

/-- The states in which a counter is in range, from one on. -/
def states (c : Counter) : List Counter :=
  if h : c.inRange = true then
    have := distance_next_lt h
    c :: c.next.states
  else []
termination_by c.distance

theorem states_of_inRange {c : Counter} (h : c.inRange = true) :
    c.states = c :: c.next.states := by
  rw [states, dif_pos h]

theorem states_of_not_inRange {c : Counter} (h : c.inRange = false) : c.states = [] := by
  rw [states, dif_neg (by simp [h])]

/-- A value is on the near side of the stop. -/
def Before (c : Counter) (value : Int) : Prop :=
  0 < c.step.toInt ∧ value < c.stop.toInt ∨ c.step.toInt < 0 ∧ c.stop.toInt < value

theorem inRange_iff (c : Counter) : c.inRange = true ↔ c.Before c.current.toInt := by
  unfold inRange Before
  split
  · simp only [decide_eq_true_eq]
    omega
  · split
    · simp only [decide_eq_true_eq]
      omega
    · simp only [Bool.false_eq_true, false_iff]
      omega

/-- The value of the next pass is the sum, if the range goes on, and otherwise the counter has
left the range. -/
theorem next_cases (c : Counter) :
    c.Before (c.current.toInt + c.step.toInt) ∧
        c.next.current.toInt = c.current.toInt + c.step.toInt ∨
      ¬ c.Before (c.current.toInt + c.step.toInt) ∧ c.next.inRange = false := by
  have hmax := c.stop.toInt_le
  have hmin := c.stop.minValue_le_toInt
  have hbelow := c.current.toInt_le
  have habove := c.current.minValue_le_toInt
  have hcurrent : c.next.current.toInt =
      max Int64.minValue.toInt (min (c.current.toInt + c.step.toInt) Int64.maxValue.toInt) :=
    toInt_clamp _
  have hout : c.next.inRange = false ↔ ¬ c.Before c.next.current.toInt := by
    rw [← Bool.not_eq_true, inRange_iff]
    rfl
  rw [hout, hcurrent]
  unfold Before
  omega

/-- The states of a counter differ only in their values, which go up or down by its step and
stop before the first one that is not on the near side of the stop. -/
theorem states_eq (c : Counter) : ∃ n : Nat,
    c.states.map (·.current.toInt) =
      (List.range n).map (fun k : Nat => c.current.toInt + k * c.step.toInt) ∧
    (∀ k < n, c.Before (c.current.toInt + k * c.step.toInt)) ∧
    ¬ c.Before (c.current.toInt + n * c.step.toInt) ∧
    ∀ s ∈ c.states, s = c.withCurrent s.current := by
  induction c using states.induct with
  | case1 c h _ ih =>
    rw [states_of_inRange h]
    rcases c.next_cases with ⟨hbefore, hnext⟩ | ⟨hbeyond, hout⟩
    · obtain ⟨n, hvalues, hinside, hcut, hsame⟩ := ih
      have hshift : ∀ k : Nat, c.next.current.toInt + k * c.next.step.toInt =
          c.current.toInt + (k + 1 : Nat) * c.step.toInt := by
        intro k
        rw [hnext]
        push_cast
        change c.current.toInt + c.step.toInt + k * c.step.toInt = _
        ring
      refine ⟨n + 1, ?_, fun k hk => ?_, ?_, ?_⟩
      · rw [List.map_cons, hvalues, List.range_succ_eq_map, List.map_cons, List.map_map]
        simp [hshift]
      · cases k with
        | zero => simpa using (inRange_iff c).mp h
        | succ k =>
          rw [← hshift]
          exact hinside k (by omega)
      · rw [← hshift]
        exact hcut
      · exact List.forall_mem_cons.mpr ⟨rfl, hsame⟩
    · rw [states_of_not_inRange hout]
      refine ⟨1, by simp, fun k hk => ?_, by simpa using hbeyond, ?_⟩
      · cases Nat.lt_one_iff.mp hk
        simpa using (inRange_iff c).mp h
      · simp [withCurrent]
  | case2 c h =>
    rw [states_of_not_inRange (by simpa using h)]
    refine ⟨0, rfl, by simp, ?_, by simp⟩
    rw [inRange_iff] at h
    simpa using h

/-- From its start on, a counter goes through the first so many values of its range. -/
structure Ranges (c : Counter) (n : Nat) : Prop where
  /-- The values go up or down from the start by the step. -/
  values : c.states.map (·.current.toInt) =
    (List.range n).map fun k : Nat => c.start.toInt + k * c.step.toInt
  /-- They are on the near side of the stop. -/
  before : ∀ k < n, c.Before (c.start.toInt + k * c.step.toInt)
  /-- The next one is not. -/
  cut : ¬ c.Before (c.start.toInt + n * c.step.toInt)
  /-- Nothing but the value changes. -/
  same : ∀ s ∈ c.states, s = c.withCurrent s.current
  /-- All parts are new at first, and then only the value. -/
  changed : c.states.map changed =
    (List.range n).map fun k => if k = 0 then CounterField.all else [.current]

theorem ranges_init (target : String) (start stop : Int64) {step : Int64} (hstep : step ≠ 0) :
    ∃ n, (init target start stop step).Ranges n := by
  obtain ⟨n, hvalues, hbefore, hcut, hsame⟩ := (init target start stop step).states_eq
  refine ⟨n, hvalues, hbefore, hcut, hsame, ?_⟩
  have hlength : (init target start stop step).states.length = n := by
    simpa using congrArg List.length hvalues
  refine List.ext_getElem (by simp [hlength]) fun k hk _ => ?_
  rw [List.length_map] at hk
  have hvalue := List.getElem_of_eq hvalues (by simpa using hk)
  simp only [List.getElem_map, List.getElem_range] at hvalue ⊢
  have hstart : (init target start stop step).states[k].start = start :=
    congrArg Counter.start (hsame _ (List.getElem_mem hk))
  have hfirst : (init target start stop step).states[k].current = start ↔ k = 0 := by
    have hmoves : step.toInt ≠ 0 := by
      rw [← Int64.toInt_zero]
      exact fun h => hstep (Int64.toInt_inj.mp h)
    rw [← Int64.toInt_inj, hvalue]
    simp [init, hmoves]
  rw [Counter.changed, hstart]
  simp only [hfirst]

end Counter

/-- The run in which a pass of a loop has just been recorded. -/
def Run.inPass (run : Run) (id : Nat) (counter : Counter) : Run :=
  (run.bound counter.target (.int counter.current)).recorded
    (.pass id run.store.depth counter counter.changed)

namespace Walk

/-- From a state on, a loop makes passes in these states of its counter and has this result. -/
inductive Rounds (id : Nat) (body : Walk Flow) :
    Run → List Counter → EStateM.Result Fault Run Flow → Prop where
  /-- The range is at its end. -/
  | finished {r : Run} : Rounds id body r [] (.ok .normal r)
  /-- The log has no room for the step of another pass. -/
  | full {r : Run} {counter : Counter} (full : r.trace.isFull = true) :
    Rounds id body r [] (.error (.stepLimit r.trace.limit)
      (r.bound counter.target (.int counter.current)))
  /-- The body of a pass returns. -/
  | returned {r s : Run} {counter : Counter} {value : Value}
    (ended : body (r.inPass id counter) = .ok (.returned value) s) :
    Rounds id body r [counter] (.ok (.returned value) s)
  /-- The body of a pass fails. -/
  | failed {r s : Run} {counter : Counter} {fault : Fault}
    (ended : body (r.inPass id counter) = .error fault s) :
    Rounds id body r [counter] (.error fault s)
  /-- The body of a pass comes to its end, and further passes may follow. -/
  | next {r s : Run} {counter : Counter} {others : List Counter}
    {result : EStateM.Result Fault Run Flow}
    (ended : body (r.inPass id counter) = .ok .normal s) (rest : Rounds id body s others result) :
    Rounds id body r (counter :: others) result

/-- A pass is recorded if the log has room for it. -/
theorem startPass_eq (id : Nat) (counter : Counter) (r : Run) :
    startPass id counter r =
      if r.trace.isFull then
        .error (.stepLimit r.trace.limit) (r.bound counter.target (.int counter.current))
      else .ok () (r.inPass id counter) :=
  emit_eq _ (r.bound counter.target (.int counter.current))

/-- What a loop does where its counter is in range. -/
theorem passes_of_inRange (id : Nat) (body : Walk Flow) {counter : Counter}
    (h : counter.inRange = true) (r : Run) :
    passes id body counter r =
      match startPass id counter r with
      | .error fault s => .error fault s
      | .ok _ s =>
        match body s with
        | .error fault t => .error fault t
        | .ok (.returned value) t => .ok (.returned value) t
        | .ok .normal t => passes id body counter.next t := by
  rw [passes, dif_pos h]
  change EStateM.bind (startPass id counter) _ r = _
  unfold EStateM.bind
  cases startPass id counter r with
  | error fault s => rfl
  | ok u s =>
    change EStateM.bind body _ s = _
    unfold EStateM.bind
    dsimp only
    cases body s with
    | error fault t => rfl
    | ok ended t => cases ended <;> rfl

/-- A loop makes passes along the states of its counter, and through all of them if it comes to
its end. -/
theorem passes_rounds (id : Nat) (body : Walk Flow) (counter : Counter) (r : Run) :
    ∃ begun, begun <+: counter.states ∧ Rounds id body r begun (passes id body counter r) ∧
      ∀ s, passes id body counter r = .ok .normal s → begun = counter.states := by
  induction counter using passes.induct generalizing r with
  | case1 counter range ih =>
    rw [passes_of_inRange id body range, startPass_eq, Counter.states_of_inRange range]
    by_cases hfull : r.trace.isFull = true
    · rw [if_pos hfull]
      exact ⟨[], List.nil_prefix, .full hfull, fun _ hs => by cases hs⟩
    · rw [if_neg hfull]
      dsimp only
      split
      · next fault s hbody =>
        exact ⟨[counter], by simp, .failed hbody, fun _ hs => by cases hs⟩
      · next value s hbody =>
        exact ⟨[counter], by simp, .returned hbody, fun _ hs => by cases hs⟩
      · next s hbody =>
        obtain ⟨begun, hprefix, hrounds, hall⟩ := ih s
        exact ⟨counter :: begun, List.cons_prefix_cons.mpr ⟨rfl, hprefix⟩, .next hbody hrounds,
          fun t ht => by rw [hall t ht]⟩
  | case2 counter range =>
    have hnone : counter.states = [] := Counter.states_of_not_inRange (by simpa using range)
    rw [passes, dif_neg range, hnone]
    exact ⟨[], List.prefix_rfl, .finished, fun _ _ => rfl⟩

end Walk

namespace Run

/-- The log goes on with steps on deeper levels only, and the run is on its level again. -/
structure Deepens (r s : Run) : Prop where
  steps : ∃ more, s.trace.steps.toList = r.trace.steps.toList ++ more ∧
    ∀ step ∈ more, r.store.depth < step.depth
  depth : s.store.depth = r.store.depth
  consistent : s.Consistent

/-- The log goes on, and of its new steps these are on the level of a state. -/
def Levels (r s : Run) (own : List Step) : Prop :=
  ∃ more, s.trace.steps.toList = r.trace.steps.toList ++ more ∧
    more.filter (·.depth = r.store.depth) = own

theorem steps_inPass (r : Run) (id : Nat) (counter : Counter) :
    (r.inPass id counter).trace.steps.toList =
      r.trace.steps.toList ++ [.pass id r.store.depth counter counter.changed] := by
  simp [inPass, recorded, bound, Trace.append]

theorem continues_inPass (r : Run) (id : Nat) (counter : Counter) :
    r.Continues (r.inPass id counter) :=
  (closed_continues.bound r _ _).trans (Continues.recorded _ _)

/-- A pass with a body that only adds steps on deeper levels. -/
theorem Deepens.inPass {r s : Run} {id : Nat} {counter : Counter}
    (h : (r.inPass id counter).Deepens s) :
    r.Levels s [.pass id r.store.depth counter counter.changed] := by
  obtain ⟨more, hsteps, hdeep⟩ := h.steps
  refine ⟨.pass id r.store.depth counter counter.changed :: more, ?_, ?_⟩
  · rw [hsteps, steps_inPass, List.append_assoc]
    rfl
  · have hnone : more.filter (·.depth = r.store.depth) = [] := by
      rw [List.filter_eq_nil_iff]
      intro step hstep
      have hlt : r.store.depth < step.depth := hdeep step hstep
      simp only [decide_eq_true_eq]
      omega
    rw [List.filter_cons_of_pos (by simp [Step.depth]), hnone]

end Run

namespace Walk

/-- Of the steps of a loop that ends, those on its level are those of its passes. -/
theorem Rounds.levels {id : Nat} {body : Walk Flow}
    (hbody : ∀ s flow t, s.Consistent → body s = .ok flow t → s.Deepens t) {r s : Run}
    {begun : List Counter} {flow : Flow} {result : EStateM.Result Fault Run Flow}
    (h : Rounds id body r begun result) (hr : r.Consistent) (hresult : result = .ok flow s) :
    r.Levels s (begun.map fun counter => .pass id r.store.depth counter counter.changed) := by
  induction h with
  | finished =>
    cases hresult
    exact ⟨[], by simp, rfl⟩
  | full _ => cases hresult
  | failed _ => cases hresult
  | @returned r t counter value ended =>
    cases hresult
    have hpass := (r.continues_inPass id counter).consistent hr
    exact (hbody _ _ _ hpass ended).inPass
  | @next r t counter others result ended rest ih =>
    have hpass := (r.continues_inPass id counter).consistent hr
    have hdeep := hbody _ _ _ hpass ended
    obtain ⟨first, hfirst, hown⟩ := hdeep.inPass
    obtain ⟨later, hlater, hothers⟩ := ih hdeep.consistent hresult
    have hdepth : t.store.depth = r.store.depth := hdeep.depth
    rw [hdepth] at hothers
    refine ⟨first ++ later, ?_, ?_⟩
    · rw [hlater, hfirst, List.append_assoc]
    · rw [List.filter_append, hown, hothers]
      rfl

end Walk

namespace Stmt

/-- The statements inside a statement only add steps on deeper levels. -/
theorem nested_deepens {calls : Nat} {body : List Stmt} {r s : Run} {flow : Flow}
    (hr : r.Consistent) (h : nested (execAll (callWithin calls) body) r = .ok flow s) :
    r.Deepens s := by
  have hconsistent := (nested_continues h).consistent hr
  obtain ⟨last, hlast, _, rfl⟩ := nested_ok h
  have hentered := (Run.Continues.entered r).consistent hr
  have hcourse : Course (fun _ _ => True) calls r.entered flow last :=
    runsInCourse _ calls body _ flow last hentered hlast fun _ _ _ _ _ _ => trivial
  obtain ⟨more, hmore⟩ := hcourse.adds
  refine ⟨⟨more, hmore.steps, hmore.deep⟩, ?_, hconsistent⟩
  change last.store.depth - 1 = _
  rw [hmore.depth]
  rfl

/-- A loop fails before its first pass, or makes the passes of its counter. -/
theorem exec_loop (caller : Caller) (target iterable : Expr) (body : List Stmt)
    (location : Location) (r : Run) :
    exec caller (.loop target iterable body location) r =
      match target.loopName with
      | .error fault => .error fault (r.movedTo location)
      | .ok name =>
        match Expr.counter r.store.scopes name iterable with
        | .error fault => .error fault (r.movedTo location)
        | .ok counter =>
          passes (r.store.idAt location).1 (nested (execAll caller body)) counter
            ((r.movedTo location).identified location) := by
  rw [exec]
  cases target.loopName with
  | error fault => rfl
  | ok name =>
    have hreading : reading (fun scopes => Expr.counter scopes name iterable)
        (r.movedTo location) = lift (Expr.counter r.store.scopes name iterable)
          (r.movedTo location) := rfl
    change EStateM.bind (reading _) _ (r.movedTo location) = _
    unfold EStateM.bind
    rw [hreading]
    dsimp only
    cases Expr.counter r.store.scopes name iterable <;> rfl

end Stmt

/-- The counter of a loop is at the start of its range, and its step is not zero. -/
theorem Expr.counter_init {scopes : Scopes Value} {target : String} {iterable : Expr}
    {counter : Counter} (h : Expr.counter scopes target iterable = .ok counter) :
    ∃ start stop step, step ≠ 0 ∧ counter = .init target start stop step := by
  unfold Expr.counter at h
  split at h
  · split at h
    · cases h
    · split at h
      · cases h
      · obtain ⟨bounds, _, h⟩ := except_bind_ok.mp h
        split at h
        · cases h
          exact ⟨_, _, 1, by decide, rfl⟩
        · cases h
          exact ⟨_, _, 1, by decide, rfl⟩
        · split at h
          · cases h
          · next hstep =>
            cases h
            exact ⟨_, _, _, hstep, rfl⟩
        · cases h
  · cases h

namespace Program

/-- A loop with a counter that starts in a state makes passes in these states of the counter. -/
structure FollowsRange (id : Nat) (body : Walk Flow) (counter : Counter) (before : Run)
    (begun : List Counter) (result : EStateM.Result Fault Run Flow) : Prop where
  /-- They are first ones of the counter's states. -/
  along : begun <+: counter.states
  /-- In each of them the loop variable is bound, the pass is recorded and the body runs, up to
  the last one, whatever its end. -/
  rounds : Rounds id body before begun result
  /-- A loop that comes to its end makes all passes. -/
  all : ∀ after, result = .ok .normal after → begun = counter.states
  /-- A loop that ends without a fault records nothing else on its level. -/
  own : ∀ flow after, result = .ok flow after → before.Levels after
    (begun.map fun c => .pass id before.store.depth c c.changed)

/-- Loops follow their ranges. A counter in 64-bit numbers goes through the values of a range of
unbounded numbers, from its start by its step up to the first one that is not on the near side
of the stop, and highlights all its parts in the first pass and only its value in later ones. A
loop that a run comes to fails before its first pass, or makes passes along the states of such
a counter, whatever its body does. -/
theorem loops_follow_ranges :
    (∀ (target : String) (start stop step : Int64), step ≠ 0 →
      ∃ n, (Counter.init target start stop step).Ranges n) ∧
    ∀ (program : Program) (limits : Limits) (calls : Nat) (target iterable : Expr)
      (body : List Stmt) (location : Location) (before : Run),
      program.Reaches limits calls (.loop target iterable body location) before →
      (∃ fault, Stmt.exec (callWithin calls) (.loop target iterable body location) before =
        .error fault (before.movedTo location)) ∨
      ∃ name start stop step begun, step ≠ 0 ∧ target.loopName = .ok name ∧
        Expr.counter before.store.scopes name iterable = .ok (.init name start stop step) ∧
        FollowsRange (before.store.idAt location).1 (nested (Stmt.execAll (callWithin calls) body))
          (.init name start stop step) ((before.movedTo location).identified location) begun
          (Stmt.exec (callWithin calls) (.loop target iterable body location) before) := by
  refine ⟨fun target start stop step hstep => Counter.ranges_init target start stop hstep, ?_⟩
  intro program limits calls target iterable body location before hreach
  have hbefore := (Stmt.reaches_continues hreach).consistent (Run.Consistent.start limits)
  rw [Stmt.exec_loop]
  cases hname : target.loopName with
  | error fault => exact .inl ⟨fault, rfl⟩
  | ok name =>
    cases hcounter : Expr.counter before.store.scopes name iterable with
    | error fault =>
      dsimp only
      rw [hcounter]
      exact .inl ⟨fault, rfl⟩
    | ok counter =>
      obtain ⟨start, stop, step, hstep, rfl⟩ := Expr.counter_init hcounter
      dsimp only
      rw [hcounter]
      let first := (before.movedTo location).identified location
      have hfirst : first.Consistent := by
        have hmoved := (Run.Continues.movedTo before location).consistent hbefore
        exact (Run.Continues.identified _ location).consistent hmoved
      obtain ⟨begun, halong, hrounds, hall⟩ := passes_rounds (before.store.idAt location).1
        (nested (Stmt.execAll (callWithin calls) body)) (.init name start stop step) first
      refine .inr ⟨name, start, stop, step, begun, hstep, rfl, hcounter, halong, hrounds, hall, ?_⟩
      exact fun flow after hafter =>
        hrounds.levels (fun _ _ _ hs h => Stmt.nested_deepens hs h) hfirst hafter

namespace Sample

/-- A range that ends with the last number of 64 bits. -/
def lastNumbers : Expr :=
  .call "range" [.literal (.int 9223372036854775800) ⟨1, 16⟩,
    .literal (.int 9223372036854775807) ⟨1, 37⟩, .literal (.int 5) ⟨1, 58⟩] ⟨1, 10⟩

/-- The body of a loop that sets its variable back to zero. -/
def settingBack : List Stmt := [.assign [.name "i" ⟨2, 5⟩] (.literal (.int 0) ⟨2, 9⟩) ⟨2, 5⟩]

/-- The loop with this range and this body. -/
def lastLoop : Stmt := .loop (.name "i" ⟨1, 5⟩) lastNumbers settingBack ⟨1, 1⟩

end Sample

/-- The loop makes two passes. The value of a third one would be beyond the last number. -/
theorem lastLoop_follows_range :
    (∃ n, (Counter.init "i" 9223372036854775800 9223372036854775807 5).Ranges n) ∧
    ∃ begun, begun.map (·.current) = [9223372036854775800, 9223372036854775805] ∧
      FollowsRange 1 (nested (Stmt.execAll (callWithin 64) Sample.settingBack))
        (.init "i" 9223372036854775800 9223372036854775807 5)
        (((Run.start ⟨9, 64⟩).movedTo ⟨1, 1⟩).identified ⟨1, 1⟩) begun
        (Stmt.exec (callWithin 64) Sample.lastLoop (Run.start ⟨9, 64⟩)) := by
  refine ⟨loops_follow_ranges.1 "i" _ _ 5 (by decide), ?_⟩
  have hends : (match Stmt.exec (callWithin 64) Sample.lastLoop (Run.start ⟨9, 64⟩) with
      | .ok .normal _ => true
      | _ => false) = true := by
    decide +kernel
  have hrange : (Expr.counter (Run.start ⟨9, 64⟩).store.scopes "i" Sample.lastNumbers).toOption =
      some (.init "i" 9223372036854775800 9223372036854775807 5) := by
    decide +kernel
  have hstates : (Counter.init "i" 9223372036854775800 9223372036854775807 5).states.map
      (·.current) = [9223372036854775800, 9223372036854775805] := by
    decide +kernel
  have hloop := loops_follow_ranges.2 [Sample.lastLoop] ⟨9, 64⟩ 64 (.name "i" ⟨1, 5⟩)
    Sample.lastNumbers Sample.settingBack ⟨1, 1⟩ (Run.start ⟨9, 64⟩) .first
  change (∃ fault, Stmt.exec _ Sample.lastLoop _ = _) ∨ _ at hloop
  rcases hloop with ⟨fault, hfault⟩ | ⟨name, start, stop, step, begun, _, hname, hcounter, hfollows⟩
  · rw [hfault] at hends
    cases hends
  · cases hname
    cases (except_toOption_some.mp hrange).symm.trans hcounter
    split at hends
    · next after hafter =>
      refine ⟨begun, ?_, hfollows⟩
      rw [hfollows.all after hafter]
      exact hstates
    · cases hends

end Program

end Walkthrough
