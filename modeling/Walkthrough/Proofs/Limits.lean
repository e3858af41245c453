import Walkthrough.Proofs.Balance
import Walkthrough.Proofs.Results

/-!
# Limits only cut runs off

Two runs of a program that differ in a limit only do the same until one of them stops at
its limit. A smaller step limit either is never noticed or ends the run with its own
fault; a smaller limit of nested calls likewise.
-/

namespace Walkthrough

namespace Run

/-- The run with another limit of its log. -/
def limited (run : Run) (steps : Nat) : Run :=
  { run with trace := { run.trace with limit := steps } }

theorem isFull_limited (run : Run) (steps : Nat) :
    (run.limited steps).trace.isFull = decide (steps ≤ run.trace.length) := rfl

/-- The run with another limit of nested calls. -/
def allowing (run : Run) (calls : Nat) : Run := { run with callLimit := calls }

end Run

namespace Walk

open Run

variable {α β : Type}

/-- How an action ends with a log of a smaller limit: as before if the log stays within
that limit, and otherwise at the limit. -/
inductive CutShort (steps : Nat) :
    EStateM.Result Fault Run α → EStateM.Result Fault Run α → Prop where
  /-- The log stays within the limit. -/
  | same {result : EStateM.Result Fault Run α} (h : (final result).trace.length ≤ steps) :
    CutShort steps result (mapState (·.limited steps) result)
  /-- The log would have become longer, or was full already. -/
  | cut {result : EStateM.Result Fault Run α} {last : Run}
    (h : steps < (final result).trace.length ∨
      ∃ limit full, result = .error (.stepLimit limit) full) :
    CutShort steps result (.error (.stepLimit steps) last)

/-- An action in front of another one that may be cut short: both leave the scopes that
they enter, and from any log within both limits the second is the first, cut short. -/
structure Cuts (steps : Nat) (m m' : Walk α) : Prop where
  steady : Respects Steady m
  steady' : Respects Steady m'
  cuts : ∀ r, r.trace.length ≤ steps → steps ≤ r.trace.limit →
    CutShort steps (m r) (m' (r.limited steps))

/-- An action that leaves the log as long as it is and does not depend on its limit. -/
theorem Cuts.of_eq {steps : Nat} {m : Walk α} (hsteady : Respects Steady m)
    (hlength : ∀ r, (final (m r)).trace.length = r.trace.length)
    (h : ∀ r, m (r.limited steps) = mapState (·.limited steps) (m r)) : Cuts steps m m := by
  refine ⟨hsteady, hsteady, fun r hr _ => ?_⟩
  rw [h r]
  exact .same (by rw [hlength r]; exact hr)

/-- One action after another is cut short in the first or in the second. -/
theorem Cuts.bind {steps : Nat} {m m' : Walk α} {k k' : α → Walk β} (hm : Cuts steps m m')
    (hk : ∀ a, Cuts steps (k a) (k' a)) : Cuts steps (m >>= k) (m' >>= k') := by
  refine ⟨closed_steady.bind hm.steady fun a => (hk a).steady,
    closed_steady.bind hm.steady' fun a => (hk a).steady', fun r hr hlimit => ?_⟩
  have hfirst := hm.cuts r hr hlimit
  have hsteady := hm.steady r
  change CutShort steps (EStateM.bind m k r) (EStateM.bind m' k' (r.limited steps))
  unfold EStateM.bind
  generalize m r = result at hfirst hsteady
  generalize m' (r.limited steps) = result' at hfirst
  cases hfirst with
  | same h =>
    cases result with
    | error fault s => exact .same h
    | ok a s => exact (hk a).cuts s h (hsteady.limit ▸ hlimit)
  | cut h =>
    refine .cut ?_
    cases result with
    | error fault s =>
      rcases h with hlonger | ⟨limit, full, hstop⟩
      · exact .inl hlonger
      · cases hstop
        exact .inr ⟨limit, s, rfl⟩
    | ok a s =>
      have hlonger : steps < s.trace.length := by simpa [final] using h
      exact .inl (Nat.lt_of_lt_of_le hlonger ((hk a).steady s).length)

/-- A step is recorded unless one of the two logs is full. -/
theorem Cuts.emit {steps : Nat} (step : Step) : Cuts steps (Walk.emit step) (Walk.emit step) := by
  refine ⟨closed_steady.emit step, closed_steady.emit step, fun r hr hlimit => ?_⟩
  have hlast : (r.recorded step).trace.length = r.trace.length + 1 := by
    simp [Run.recorded, Trace.append, Trace.length]
  by_cases hfull : steps ≤ r.trace.length
  · have hcut : Walk.emit step (r.limited steps) = .error (.stepLimit steps) (r.limited steps) :=
      emit_full step (by rw [isFull_limited]; exact decide_eq_true hfull)
    rw [hcut]
    refine .cut ?_
    rw [emit_eq]
    split
    · exact .inr ⟨_, _, rfl⟩
    · refine .inl ?_
      change steps < (r.recorded step).trace.length
      omega
  · have hroom : r.trace.isFull = false := by
      simp only [Trace.isFull, decide_eq_false_iff_not]
      omega
    have hroom' : (r.limited steps).trace.isFull = false := by
      rw [isFull_limited]
      exact decide_eq_false hfull
    have hone : Walk.emit step r = .ok () (r.recorded step) := emit_ok.2 ⟨hroom, rfl⟩
    have hother : Walk.emit step (r.limited steps) = .ok () ((r.limited steps).recorded step) :=
      emit_ok.2 ⟨hroom', rfl⟩
    have hfits : (final (Walk.emit step r)).trace.length ≤ steps := by
      rw [hone]
      change (r.recorded step).trace.length ≤ steps
      omega
    have hsame := CutShort.same hfits
    rw [hone] at hsame ⊢
    rw [hother]
    exact hsame

/-- An action between entering and leaving a scope is cut short where the action is. -/
theorem CutShort.left {steps : Nat} (leave : Run → Run)
    (hlength : ∀ s, (leave s).trace.length = s.trace.length)
    (hleave : ∀ s, leave (s.limited steps) = (leave s).limited steps)
    {result result' : EStateM.Result Fault Run α} (h : CutShort steps result result') :
    CutShort steps (mapState leave result) (mapState leave result') := by
  cases h with
  | same h =>
    have hsame : mapState leave (mapState (·.limited steps) result) =
        mapState (·.limited steps) (mapState leave result) := by
      cases result <;> simp [mapState, hleave]
    rw [hsame]
    exact .same (by rw [final_mapState, hlength]; exact h)
  | cut h =>
    refine .cut ?_
    cases result with
    | ok a s => simpa [mapState, final, hlength] using h
    | error fault s => simpa [mapState, final, hlength] using h

/-- Being cut short at most passes through each way of putting actions together. -/
theorem congruence_cuts (steps : Nat) : Congruence (Cuts steps) where
  pure a := .of_eq (closed_steady.congruence.pure a) (fun _ => rfl) fun _ => rfl
  throw fault h := .of_eq (closed_steady.congruence.throw fault h) (fun _ => rfl) fun _ => rfl
  bind hm hk := hm.bind hk
  consult k k' h :=
    ⟨fun r => (h r.store.seen).steady r, fun r => (h r.store.seen).steady' r,
      fun r hr hlimit => (h r.store.seen).cuts r hr hlimit⟩
  moveTo location := .of_eq (closed_steady.congruence.moveTo location) (fun _ => rfl) fun _ => rfl
  bindName name value :=
    .of_eq (closed_steady.congruence.bindName name value) (fun _ => rfl) fun _ => rfl
  emit step := .emit step
  idAt location := .of_eq (closed_steady.congruence.idAt location) (fun _ => rfl) fun _ => rfl
  defined f := .of_eq (closed_steady.congruence.defined f) (fun _ => rfl) fun _ => rfl
  nested {_ m m'} h := by
    refine ⟨closed_steady.nestedAction h.steady, closed_steady.nestedAction h.steady',
      fun r hr hlimit => ?_⟩
    rw [nested_eq h.steady, nested_eq h.steady']
    exact (h.cuts r.entered hr hlimit).left exited (fun _ => rfl) fun _ => rfl
  framed {_ m m'} locals location h := by
    refine ⟨closed_steady.framedAction locals location h.steady,
      closed_steady.framedAction locals location h.steady', fun r hr hlimit => ?_⟩
    rw [framed_eq h.steady, framed_eq h.steady']
    exact (h.cuts (r.pushed locals) hr hlimit).left (·.popped location) (fun _ => rfl)
      fun _ => rfl

/-- Calls are cut short at most, however many calls may still nest. -/
theorem cuts_callWithin (steps calls : Nat) (f : Procedure) (args : List Expr)
    (location : Location) :
    Cuts steps (callWithin calls f args location) (callWithin calls f args location) := by
  refine (congruence_cuts steps).callWithin (fun name place => ?_) calls f args location
  -- The fault names the limit of nested calls, which is the same in both runs.
  exact .of_eq (closed_steady.unchanged fun _ => rfl) (fun _ => rfl) fun _ => rfl

/-- An action that stops for too many nested calls, or else does the same where more calls
may nest. -/
structure Deepens (calls : Nat) (m m' : Walk α) : Prop where
  steady : Respects Steady m
  steady' : Respects Steady m'
  deepens : ∀ r, (∃ name limit location s, m r = .error (.callLimit name limit location) s) ∨
    m' (r.allowing calls) = mapState (·.allowing calls) (m r)

/-- An action that does not depend on the limit of nested calls. -/
theorem Deepens.of_eq {calls : Nat} {m : Walk α} (hsteady : Respects Steady m)
    (h : ∀ r, m (r.allowing calls) = mapState (·.allowing calls) (m r)) : Deepens calls m m :=
  ⟨hsteady, hsteady, fun r => .inr (h r)⟩

/-- One action after another stops for too many nested calls if one of them does. -/
theorem Deepens.bind {calls : Nat} {m m' : Walk α} {k k' : α → Walk β} (hm : Deepens calls m m')
    (hk : ∀ a, Deepens calls (k a) (k' a)) : Deepens calls (m >>= k) (m' >>= k') := by
  refine ⟨closed_steady.bind hm.steady fun a => (hk a).steady,
    closed_steady.bind hm.steady' fun a => (hk a).steady', fun r => ?_⟩
  change (∃ name limit location s, EStateM.bind m k r = .error (.callLimit name limit location) s) ∨
    EStateM.bind m' k' (r.allowing calls) = mapState (·.allowing calls) (EStateM.bind m k r)
  unfold EStateM.bind
  rcases hm.deepens r with ⟨name, limit, location, s, hstop⟩ | hsame
  · rw [hstop]
    exact .inl ⟨name, limit, location, s, rfl⟩
  · rw [hsame]
    cases m r with
    | error fault s => exact .inr rfl
    | ok a s => exact (hk a).deepens s

/-- An action between entering and leaving a scope stops where the action does. -/
theorem Deepens.left {calls : Nat} {m m' : Walk α} (h : Deepens calls m m') (leave : Run → Run)
    (hleave : ∀ s, leave (s.allowing calls) = (leave s).allowing calls) (r : Run) :
    (∃ name limit location s,
      mapState leave (m r) = .error (.callLimit name limit location) s) ∨
    mapState leave (m' (r.allowing calls)) =
      mapState (·.allowing calls) (mapState leave (m r)) := by
  rcases h.deepens r with ⟨name, limit, location, s, hstop⟩ | hsame
  · rw [hstop]
    exact .inl ⟨name, limit, location, leave s, rfl⟩
  · rw [hsame]
    refine .inr ?_
    cases m r <;> simp [mapState, hleave]

/-- Doing the same up to a limit of nested calls passes through each way of putting actions
together. -/
theorem congruence_deepens (calls : Nat) : Congruence (Deepens calls) where
  pure a := .of_eq (closed_steady.congruence.pure a) fun _ => rfl
  throw fault h := .of_eq (closed_steady.congruence.throw fault h) fun _ => rfl
  bind hm hk := hm.bind hk
  consult k k' h :=
    ⟨fun r => (h r.store.seen).steady r, fun r => (h r.store.seen).steady' r,
      fun r => (h r.store.seen).deepens r⟩
  moveTo location := .of_eq (closed_steady.congruence.moveTo location) fun _ => rfl
  bindName name value := .of_eq (closed_steady.congruence.bindName name value) fun _ => rfl
  emit step := by
    refine .of_eq (closed_steady.emit step) fun r => ?_
    rw [emit_eq, emit_eq]
    change (if r.trace.isFull then _ else _) = mapState _ (if r.trace.isFull then _ else _)
    split <;> rfl
  idAt location := .of_eq (closed_steady.congruence.idAt location) fun _ => rfl
  defined f := .of_eq (closed_steady.congruence.defined f) fun _ => rfl
  nested {_ m m'} h := by
    refine ⟨closed_steady.nestedAction h.steady, closed_steady.nestedAction h.steady', fun r => ?_⟩
    rw [nested_eq h.steady, nested_eq h.steady']
    exact h.left exited (fun _ => rfl) r.entered
  framed {_ m m'} locals location h := by
    refine ⟨closed_steady.framedAction locals location h.steady,
      closed_steady.framedAction locals location h.steady', fun r => ?_⟩
    rw [framed_eq h.steady, framed_eq h.steady']
    exact h.left (·.popped location) (fun _ => rfl) (r.pushed locals)

/-- Where more calls may nest, a call does the same or had stopped for too many of them. -/
theorem deepens_callWithin (limit : Nat) {calls more : Nat} (hmore : calls ≤ more) (f : Procedure)
    (args : List Expr) (location : Location) :
    Deepens limit (callWithin calls f args location) (callWithin more f args location) := by
  have hdeepens := congruence_deepens limit
  induction calls generalizing more f args location with
  | zero =>
    refine ⟨closed_steady.callWithin 0 f args location,
      closed_steady.callWithin more f args location, fun r => ?_⟩
    -- The arguments are counted before the limit is looked at.
    cases hcount : f.checkCount args location with
    | ok _ => exact .inl ⟨f.name, r.callLimit, location, r, by
        simp only [callWithin, hcount]; rfl⟩
    | error fault =>
      refine .inr ?_
      cases more <;> (simp only [callWithin, hcount]; rfl)
  | succ calls ih =>
    obtain ⟨fewer, rfl⟩ : ∃ fewer, more = fewer + 1 := ⟨more - 1, by omega⟩
    refine hdeepens.bind (hdeepens.lift (f.observes_checkCount args location)) fun _ => ?_
    have hbody := (hdeepens.statements (ih (by omega : calls ≤ fewer))).2.2.1 f.body
    exact hdeepens.invoke hbody args location

end Walk

namespace Program

open Walk

/-- A run with a smaller step limit is the run, cut short. -/
theorem run_cutShort (program : Program) {steps more : Nat} (h : steps ≤ more) (calls : Nat) :
    CutShort steps (program.run ⟨more, calls⟩) (program.run ⟨steps, calls⟩) :=
  (((congruence_cuts steps).statements (cuts_callWithin steps calls)).2.2.1 program).cuts
    (Run.start ⟨more, calls⟩) (Nat.zero_le _) h

/-- A run with a larger limit of nested calls is the run, unless that stopped at its own
limit. -/
theorem run_deepens (program : Program) {calls more : Nat} (h : calls ≤ more) (steps : Nat) :
    (∃ name limit location s,
      program.run ⟨steps, calls⟩ = .error (.callLimit name limit location) s) ∨
    program.run ⟨steps, more⟩ = mapState (·.allowing more) (program.run ⟨steps, calls⟩) :=
  (((congruence_deepens more).statements (deepens_callWithin more h)).2.2.1 program).deepens
    (Run.start ⟨steps, calls⟩)

end Program

open Walk

/-- Limits cut runs off and do not change them. With fewer steps a run that succeeds leaves
the same log if the log fits and stops at the limit if it does not, and a run that stops
stops in the same way or at the limit. With more nested calls a run that succeeds leaves
the same log, and a run that stops for another reason than its calls stops in the same way. -/
theorem limits_only_cut (program : Program) (steps calls : Nat) :
    (∀ more, steps ≤ more →
      (∀ trace, program.trace ⟨more, calls⟩ = .ok trace →
        (trace.length ≤ steps →
          program.trace ⟨steps, calls⟩ = .ok { trace with limit := steps }) ∧
        (steps < trace.length → program.trace ⟨steps, calls⟩ = .error (.stepLimit steps))) ∧
      (∀ fault, program.trace ⟨more, calls⟩ = .error fault →
        (∀ limit, fault ≠ .stepLimit limit) →
        program.trace ⟨steps, calls⟩ = .error fault ∨
          program.trace ⟨steps, calls⟩ = .error (.stepLimit steps))) ∧
    (∀ deeper, calls ≤ deeper →
      (∀ trace, program.trace ⟨steps, calls⟩ = .ok trace →
        program.trace ⟨steps, deeper⟩ = .ok trace) ∧
      (∀ fault, program.trace ⟨steps, calls⟩ = .error fault →
        (∀ name limit location, fault ≠ .callLimit name limit location) →
        program.trace ⟨steps, deeper⟩ = .error fault)) := by
  refine ⟨fun more hmore => ⟨fun trace htrace => ?_, fun fault hfault hother => ?_⟩,
    fun deeper hdeeper => ⟨fun trace htrace => ?_, fun fault hfault hother => ?_⟩⟩
  · obtain ⟨flow, last, hrun, rfl⟩ := Program.trace_ok.1 htrace
    have hcut := program.run_cutShort hmore calls
    rw [hrun] at hcut
    generalize hshort : program.run ⟨steps, calls⟩ = result at hcut
    cases hcut with
    | same h =>
      refine ⟨fun _ => Program.trace_ok.2 ⟨flow, _, hshort, rfl⟩, fun hlonger => ?_⟩
      exact absurd hlonger (Nat.not_lt.2 h)
    | cut h =>
      refine ⟨fun hfits => ?_, fun _ => Program.trace_error.2 ⟨_, hshort⟩⟩
      have hlonger : steps < last.trace.length := by simpa [final] using h
      exact absurd hlonger (Nat.not_lt.2 hfits)
  · obtain ⟨last, hrun⟩ := Program.trace_error.1 hfault
    have hcut := program.run_cutShort hmore calls
    rw [hrun] at hcut
    generalize hshort : program.run ⟨steps, calls⟩ = result at hcut
    cases hcut with
    | same h => exact .inl (Program.trace_error.2 ⟨_, hshort⟩)
    | cut h => exact .inr (Program.trace_error.2 ⟨_, hshort⟩)
  · obtain ⟨flow, last, hrun, rfl⟩ := Program.trace_ok.1 htrace
    have hdeep := program.run_deepens hdeeper steps
    rw [hrun] at hdeep
    rcases hdeep with ⟨_, _, _, _, hstop⟩ | hsame
    · cases hstop
    · exact Program.trace_ok.2 ⟨flow, _, hsame, rfl⟩
  · obtain ⟨last, hrun⟩ := Program.trace_error.1 hfault
    have hdeep := program.run_deepens hdeeper steps
    rw [hrun] at hdeep
    rcases hdeep with ⟨name, limit, location, _, hstop⟩ | hsame
    · cases hstop
      exact absurd rfl (hother name limit location)
    · exact Program.trace_error.2 ⟨_, hsame⟩

namespace Sample

/-- A function that is called once. -/
def doubling : String := "def twice(n):\n    return n * 2\nx = twice(4)\n"

end Sample

/-- With a limit of seven steps the function is called and its value is bound, with six steps
or without calls the run stops. -/
theorem doubling_cut : ∃ program trace, Program.parse Sample.doubling = .ok program ∧
    program.trace ⟨100, 1⟩ = .ok trace ∧ trace.length = 7 ∧
    program.trace ⟨7, 1⟩ = .ok { trace with limit := 7 } ∧
    program.trace ⟨6, 1⟩ = .error (.stepLimit 6) ∧
    program.trace ⟨100, 64⟩ = .ok trace ∧
    program.trace ⟨6, 64⟩ = .error (.stepLimit 6) ∧
    program.trace ⟨100, 0⟩ = .error (.callLimit "twice" 0 ⟨3, 5⟩) ∧
    (program.trace ⟨1, 0⟩ = .error (.callLimit "twice" 0 ⟨3, 5⟩) ∨
      program.trace ⟨1, 0⟩ = .error (.stepLimit 1)) := by
  have hseen : (Program.parse Sample.doubling).toOption.map (fun program =>
      ((program.trace ⟨100, 1⟩).toOption.map Trace.length,
        match program.trace ⟨100, 0⟩ with
        | .ok _ => none
        | .error fault => some fault)) =
      some (some 7, some (.callLimit "twice" 0 ⟨3, 5⟩)) := by
    decide +kernel
  obtain ⟨program, hparse, hseen⟩ := Option.map_eq_some_iff.mp hseen
  obtain ⟨htrace, hfault⟩ := Prod.mk.injEq .. ▸ hseen
  obtain ⟨trace, htrace, hlength⟩ := Option.map_eq_some_iff.mp htrace
  have htrace := except_toOption_some.mp htrace
  have hstopped : program.trace ⟨100, 0⟩ = .error (.callLimit "twice" 0 ⟨3, 5⟩) := by
    generalize program.trace ⟨100, 0⟩ = result at hfault
    cases result with
    | ok _ => cases hfault
    | error fault => exact congrArg _ (Option.some.inj hfault)
  have hfits := (((limits_only_cut program 7 1).1 100 (by decide)).1 trace htrace).1 (by omega)
  have hcut := (((limits_only_cut program 6 1).1 100 (by decide)).1 trace htrace).2 (by omega)
  have hdeeper := ((limits_only_cut program 100 1).2 64 (by decide)).1 trace htrace
  have hcutDeeper := ((limits_only_cut program 6 1).2 64 (by decide)).2 _ hcut
    (fun _ _ _ h => by cases h)
  have hearlier := ((limits_only_cut program 1 0).1 100 (by decide)).2 _ hstopped
    (fun _ h => by cases h)
  exact ⟨program, trace, except_toOption_some.mp hparse, htrace, hlength, hfits, hcut, hdeeper,
    hcutDeeper, hstopped, hearlier⟩

end Walkthrough
