import Walkthrough.Proofs.Maps
import Walkthrough.Proofs.Preservation
import Walkthrough.Proofs.Stages

/-!
# Replay agrees with execution

The bindings replayed from the log are the bindings in memory, written as texts, whenever
a statement has just completed. Inside a statement the two may differ: names are bound
before their steps are recorded, and a call is recorded before its frame is opened. So
the agreement is shown to hold before and after whole statements, and each action in
between is followed on both sides.
-/

namespace Walkthrough

namespace Step

/-- Whether a step neither binds a name nor opens or drops a frame. -/
def isSilent : Step → Bool
  | print .. => true
  | branch .. => true
  | giveBack .. => true
  | define .. => true
  | _ => false

/-- Silent steps leave the replayed bindings as they are. -/
theorem foldl_replay_of_isSilent {steps : List Step} (h : ∀ step ∈ steps, step.isSilent = true)
    (scopes : Scopes String) : steps.foldl replay scopes = scopes := by
  induction steps generalizing scopes with
  | nil => rfl
  | cons step others ih =>
    have hstep : replay scopes step = scopes := by
      have := h step List.mem_cons_self
      cases step <;> first | rfl | cases this
    rw [List.foldl_cons, hstep]
    exact ih (fun other hmem => h other (List.mem_cons_of_mem _ hmem)) scopes

/-- Steps of variables bind their names in order. -/
theorem foldl_replay_assigned (depth : Nat) (shown : List (String × String))
    (scopes : Scopes String) :
    (shown.map fun (name, text) => assigned depth name text).foldl replay scopes =
      scopes.bindAll shown := by
  induction shown generalizing scopes with
  | nil => rfl
  | cons binding others ih => exact ih (scopes.bind binding.1 binding.2)

end Step

namespace Target

variable {location : Location} {value : Value}

/-- A target binds one name to the value, or names to the parts of a tuple. -/
theorem bindings_ok {target : Target} {share : List (String × Value)}
    (h : target.bindings location value = .ok share) :
    (∃ name, target = .single name ∧ share = [(name, value)]) ∨
    ∃ names items, target = .unpack names ∧ value = .tuple items ∧
      items.length = names.length ∧ share = names.zip items := by
  cases target with
  | single name =>
    cases h
    exact .inl ⟨name, rfl, rfl⟩
  | unpack names =>
    cases value with
    | tuple items =>
      simp only [bindings] at h
      split at h
      · next hlength =>
        cases h
        exact .inr ⟨names, items, rfl, rfl, hlength, rfl⟩
      · cases h
    | _ => cases h

/-- The names that a stage shows are names that the target binds. -/
theorem shown_names {target : Target} {share : List (String × Value)}
    (h : target.bindings location value = .ok share) (snapshot : Snapshot) :
    ∀ name ∈ (target.shown value snapshot).map Prod.fst, name ∈ share.map Prod.fst := by
  rcases bindings_ok h with ⟨name, rfl, rfl⟩ | ⟨names, items, rfl, rfl, hlength, rfl⟩
  · simp [shown]
  · intro name hmem
    rw [List.map_fst_zip (by omega)]
    obtain ⟨binding, hbinding, rfl⟩ := List.mem_map.mp hmem
    exact (List.of_mem_zip hbinding).1

/-- A stage that shows the value shows at each name what the target binds it to. -/
theorem shown_of_shows {target : Target} {share : List (String × Value)}
    (h : target.bindings location value = .ok share) {snapshot : Snapshot}
    (hshows : snapshot.Shows value) :
    target.shown value snapshot = share.map fun binding => (binding.1, binding.2.text) := by
  rcases bindings_ok h with ⟨name, rfl, rfl⟩ | ⟨names, items, rfl, rfl, _, rfl⟩
  · simp [shown, hshows.text_eq]
  · have hparts : partTexts (.tuple items) snapshot = items.map Value.text := by
      cases hshows with
      | whole => exact Value.texts_eq_map items
      | parts => exact Value.texts_eq_map items
    rw [shown, hparts, List.zip_map_right]
    rfl

/-- What one stage shows at all targets. -/
def shownAll (value : Value) (targets : List Target) (snapshot : Snapshot) :
    List (String × String) :=
  targets.flatMap (shown value snapshot)

/-- What all targets bind, as texts. -/
def boundTexts (shares : List (List (String × Value))) : List (String × String) :=
  shares.flatten.map fun binding => (binding.1, binding.2.text)

/-- The names that a stage shows at some targets are names that these bind. -/
theorem shownAll_names {targets : List Target} {shares : List (List (String × Value))}
    (h : targets.mapM (Target.bindings location value) = .ok shares) (snapshot : Snapshot) :
    ∀ name ∈ (shownAll value targets snapshot).map Prod.fst,
      name ∈ (boundTexts shares).map Prod.fst := by
  have hall := except_mapM_ok.1 h
  clear h
  induction hall with
  | nil => simp [shownAll]
  | @cons target share others shares hshare _ ih =>
    intro name hmem
    simp only [shownAll, List.flatMap_cons, List.map_append, List.mem_append] at hmem
    simp only [boundTexts, List.flatten_cons, List.map_append, List.mem_append]
    rcases hmem with hmem | hmem
    · have hname := shown_names hshare snapshot name hmem
      exact .inl (by simpa [List.map_map] using hname)
    · exact .inr (ih name hmem)

/-- A stage that shows the value shows at all targets what they bind. -/
theorem shownAll_of_shows {targets : List Target} {shares : List (List (String × Value))}
    (h : targets.mapM (Target.bindings location value) = .ok shares) {snapshot : Snapshot}
    (hshows : snapshot.Shows value) : shownAll value targets snapshot = boundTexts shares := by
  have hall := except_mapM_ok.1 h
  clear h
  induction hall with
  | nil => rfl
  | @cons target share others shares hshare _ ih =>
    simp only [shownAll, boundTexts] at ih
    simp only [shownAll, boundTexts, List.flatMap_cons, List.flatten_cons, List.map_append,
      shown_of_shows hshare hshows, ih]

/-- The steps of an assignment, stage after stage. -/
theorem foldl_replay_steps (depth : Nat) (targets : List Target) (value : Value)
    (snapshots : List Snapshot) (scopes : Scopes String) :
    (steps depth targets ⟨snapshots, value⟩).foldl Step.replay scopes =
      scopes.bindAll (snapshots.flatMap (shownAll value targets)) := by
  have hsteps : steps depth targets ⟨snapshots, value⟩ =
      (snapshots.flatMap (shownAll value targets)).map
        fun (name, text) => Step.assigned depth name text := by
    simp [steps, shownAll, List.map_flatMap]
  rw [hsteps, Step.foldl_replay_assigned]

/-- The steps of an assignment bind each name to the text of what it was given: the last
stage binds all the names again that the stages before it bound. -/
theorem replay_steps {depth : Nat} {targets : List Target} {staged : Staged}
    {shares : List (List (String × Value))} (hsettles : staged.Settles)
    (h : targets.mapM (Target.bindings location staged.value) = .ok shares)
    (scopes : Scopes String) :
    (steps depth targets staged).foldl Step.replay scopes = scopes.bindAll (boundTexts shares) := by
  obtain ⟨last, hlast, hshows⟩ := hsettles
  obtain ⟨earlier, hsnapshots⟩ := List.getLast?_eq_some_iff.mp hlast
  have hnames : ∀ name ∈ (earlier.flatMap (shownAll staged.value targets)).map Prod.fst,
      name ∈ (boundTexts shares).map Prod.fst := by
    intro name hmem
    obtain ⟨binding, hbinding, rfl⟩ := List.mem_map.mp hmem
    obtain ⟨snapshot, _, hshown⟩ := List.mem_flatMap.mp hbinding
    exact shownAll_names h snapshot _ (List.mem_map_of_mem hshown)
  rw [foldl_replay_steps, hsnapshots, List.flatMap_append, List.flatMap_singleton,
    shownAll_of_shows h hshows, Scopes.bindAll_append, Scopes.bindAll_bindAll_of_subset _ hnames]

end Target

namespace Run

/-- The bindings replayed from all steps recorded so far. -/
def replayed (run : Run) : Scopes String := Step.replayAll run.trace.steps.toList

/-- The bindings in memory, written as texts. -/
def written (run : Run) : Scopes String := run.store.scopes.map Value.text

/-- The replayed bindings are the bindings in memory. -/
def Mirrored (run : Run) : Prop := run.replayed = run.written

@[simp] theorem replayed_recorded (run : Run) (step : Step) :
    (run.recorded step).replayed = step.replay run.replayed := by
  simp [replayed, recorded, Trace.append, Step.replayAll, List.foldl_append]

@[simp] theorem replayed_recordedAll (run : Run) (steps : List Step) :
    (run.recordedAll steps).replayed = steps.foldl Step.replay run.replayed := by
  induction steps generalizing run with
  | nil => rfl
  | cons step others ih => rw [recordedAll, List.foldl_cons] ; exact (ih _).trans (by simp)

@[simp] theorem replayed_boundAll (run : Run) (bindings : List (String × Value)) :
    (run.boundAll bindings).replayed = run.replayed := by
  induction bindings generalizing run with
  | nil => rfl
  | cons binding others ih => exact ih (run.bound binding.1 binding.2)

@[simp] theorem written_recordedAll (run : Run) (steps : List Step) :
    (run.recordedAll steps).written = run.written := by
  simp [written]

@[simp] theorem written_identified (run : Run) (location : Location) :
    (run.identified location).written = run.written := by
  simp [written]

@[simp] theorem written_boundAll (run : Run) (bindings : List (String × Value)) :
    (run.boundAll bindings).written =
      run.written.bindAll (bindings.map fun binding => (binding.1, binding.2.text)) := by
  induction bindings generalizing run with
  | nil => rfl
  | cons binding others ih =>
    have hbound : (run.bound binding.1 binding.2).written =
        run.written.bind binding.1 binding.2.text :=
      Scopes.map_bind Value.text run.store.scopes binding.1 binding.2
    rw [List.map_cons, Scopes.bindAll_cons, ← hbound]
    exact ih (run.bound binding.1 binding.2)

theorem Mirrored.movedTo {run : Run} (h : run.Mirrored) (location : Location) :
    (run.movedTo location).Mirrored := h

theorem Mirrored.entered {run : Run} (h : run.Mirrored) : run.entered.Mirrored := h

theorem Mirrored.exited {run : Run} (h : run.Mirrored) : run.exited.Mirrored := h

theorem Mirrored.defined {run : Run} (h : run.Mirrored) (f : Procedure) :
    (run.defined f).Mirrored := h

/-- Silent steps and new ids leave the agreement as it is. -/
theorem Mirrored.recordedAll {run : Run} (h : run.Mirrored) {s : List Step}
    (hsilent : ∀ step ∈ s, step.isSilent = true) : (run.recordedAll s).Mirrored := by
  unfold Mirrored at *
  rw [replayed_recordedAll, Step.foldl_replay_of_isSilent hsilent, h, written_recordedAll]

theorem Mirrored.recorded {run : Run} (h : run.Mirrored) {step : Step}
    (hsilent : step.isSilent = true) : (run.recorded step).Mirrored :=
  h.recordedAll (s := [step]) (by simpa using hsilent)

theorem Mirrored.identified {run : Run} (h : run.Mirrored) (location : Location) :
    (run.identified location).Mirrored := by
  unfold Mirrored at *
  rw [written_identified, ← h]
  rfl

/-- A call opens the same frame in memory as its step does in the replay. -/
theorem Mirrored.inside {run : Run} (h : run.Mirrored) (f : Procedure) (values : List Value)
    (location : Location) : (run.inside f values location).Mirrored := by
  have hwritten : (run.inside f values location).written =
      run.written.push (.ofList ((f.params.zip values).map fun binding =>
        (binding.1, binding.2.text))) := by
    rw [← SortedMap.map_ofList, ← written_identified run location]
    exact Scopes.map_push Value.text _ _
  have hreplayed : (run.inside f values location).replayed =
      run.replayed.push (.ofList ((f.params.zip values).map fun binding =>
        (binding.1, binding.2.text))) := by
    refine (replayed_recorded (run.identified location) _).trans ?_
    simp only [Step.replay, List.map_map]
    rfl
  unfold Mirrored at *
  rw [hwritten, hreplayed, h]

/-- The end of a call drops the frame in memory and in the replay. -/
theorem Mirrored.returned {last : Run} (h : last.Mirrored) (call : Run) (f : Procedure)
    (location : Location) (value : Value) : (last.returned call f location value).Mirrored := by
  unfold Mirrored at *
  have hwritten : (last.returned call f location value).written = last.written.pop :=
    Scopes.map_pop Value.text last.store.scopes
  rw [hwritten, Run.returned, replayed_recorded, ← h]
  rfl

end Run

namespace Walk

variable {α : Type}

/-- An action that keeps the agreement whenever it succeeds. -/
abbrev KeepsMirrored (m : Walk α) : Prop := Preserves Run.Mirrored m

/-- A call by name keeps the agreement if calls of functions do. -/
theorem callNamed_mirrored {caller : Caller}
    (hcaller : ∀ f args location, KeepsMirrored (caller f args location))
    (function : String) (args : List Expr) (location : Location) :
    KeepsMirrored (callNamed caller function args location) := by
  intro r value r' hr h
  rcases callNamed_ok h with ⟨_, _, h⟩ | ⟨_, f, _, h⟩
  · obtain ⟨printed, _, rfl⟩ := printAll_ok h
    apply (hr.identified location).recordedAll
    intro step hmem
    obtain ⟨staged, _, hstep⟩ := List.mem_flatMap.mp hmem
    obtain ⟨shown, _, rfl⟩ := List.mem_map.mp hstep
    rfl
  · exact hcaller f args location hr h

/-- The stages of a value settle, and computing them keeps the agreement. -/
theorem stagesOf_mirrored {caller : Caller}
    (hcaller : ∀ f args location, KeepsMirrored (caller f args location))
    {present : Scopes Value → Expr → Except Fault Staged}
    (hpresent : ∀ {scopes e staged}, present scopes e = .ok staged → staged.Settles)
    {e : Expr} {staged : Staged} {r r' : Run} (hr : r.Mirrored)
    (h : stagesOf caller present e r = .ok staged r') : staged.Settles ∧ r'.Mirrored := by
  rcases stagesOf_ok h with ⟨function, args, location, value, rfl, hcall, rfl⟩ | ⟨_, hstaged, rfl⟩
  · exact ⟨Staged.settles_resolved value,
      callNamed_mirrored hcaller function args location hr hcall⟩
  · exact ⟨hpresent hstaged, hr⟩

/-- A test keeps the agreement. -/
theorem test_mirrored (kind : BranchKind) (condition : Expr) (location : Location) :
    KeepsMirrored (test kind condition location) := by
  intro r passed r' hr h
  obtain ⟨staged, _, _, rfl⟩ := test_ok h
  apply (hr.identified location).recordedAll
  intro step hmem
  obtain ⟨shown, _, rfl⟩ := List.mem_map.mp hmem
  rfl

/-- Entering an alternative keeps the agreement. -/
theorem enterAlternative_mirrored (location : Location) :
    KeepsMirrored (enterAlternative location) := by
  intro r u r' hr h
  cases enterAlternative_ok h
  exact (hr.identified location).recorded rfl

/-- A pass binds its variable in memory and in the replay. -/
theorem startPass_mirrored (id : Nat) (counter : Counter) :
    KeepsMirrored (startPass id counter) := by
  intro r u r' hr h
  cases startPass_ok h
  have hwritten : (r.bound counter.target (.int counter.current)).written =
      r.written.bind counter.target (Value.int counter.current).text :=
    Scopes.map_bind Value.text r.store.scopes counter.target (.int counter.current)
  unfold Run.Mirrored at *
  rw [Run.replayed_recorded]
  refine Eq.trans ?_ hwritten.symm
  rw [← hr]
  rfl

end Walk

namespace Stmt

open Walk

variable {caller : Caller} {location : Location}

/-- An assignment binds its targets in memory and in the replay. -/
theorem assign_mirrored (hcaller : ∀ f args location, KeepsMirrored (caller f args location))
    (targets : List Expr) (value : Expr) :
    KeepsMirrored (exec caller (.assign targets value location)) := by
  intro r flow r' hr h
  obtain ⟨_, names, staged, s, shares, _, hstaged, hshares, rfl⟩ := exec_assign_ok h
  obtain ⟨hsettles, hs⟩ := stagesOf_mirrored hcaller Expr.stages_settles
    (hr.movedTo location) hstaged
  unfold Run.Mirrored at *
  rw [Run.replayed_recordedAll, Run.replayed_boundAll, Target.replay_steps hsettles hshares, hs,
    Run.written_recordedAll, Run.written_boundAll]
  rfl

/-- A return keeps the agreement. -/
theorem giveBack_mirrored (hcaller : ∀ f args location, KeepsMirrored (caller f args location))
    (value : Option Expr) : KeepsMirrored (exec caller (.giveBack value location)) := by
  intro r flow r' hr h
  obtain ⟨_, staged, s, _, hvalue, rfl⟩ := exec_giveBack_ok h
  have hs : s.Mirrored := by
    rcases hvalue with ⟨_, _, rfl⟩ | ⟨e, _, hstaged⟩
    · exact hr.movedTo location
    · exact (stagesOf_mirrored hcaller Expr.wholeStages_settles (hr.movedTo location) hstaged).2
  apply (hs.identified location).recordedAll
  intro step hmem
  obtain ⟨shown, _, rfl⟩ := List.mem_map.mp hmem
  rfl

/-- Every statement keeps the agreement if calls of functions do. -/
theorem invariant_mirrored (hcaller : ∀ f args location, KeepsMirrored (caller f args location)) :
    Invariant Run.Mirrored caller (fun _ => True) (fun _ => True) where
  movedTo := Run.Mirrored.movedTo
  identified := Run.Mirrored.identified
  entered := Run.Mirrored.entered
  exited := Run.Mirrored.exited
  assign _ := assign_mirrored hcaller _ _
  startPass _ _ _ id later _ := startPass_mirrored id later
  test _ kind := test_mirrored kind _ _
  enterAlternative := enterAlternative_mirrored
  define _ := by
    intro r flow r' hr h
    obtain ⟨_, rfl⟩ := exec_define_ok h
    exact (hr.identified _).recorded rfl
  giveBack _ := giveBack_mirrored hcaller _
  expression _ := by
    intro r flow r' hr h
    obtain ⟨_, function, args, place, result, _, h⟩ := exec_expression_ok h
    exact callNamed_mirrored hcaller function args place (hr.movedTo _) h

/-- Some statements keep the agreement if calls of functions do. -/
theorem execAll_mirrored_of_caller
    (hcaller : ∀ f args location, KeepsMirrored (caller f args location)) (body : List Stmt) :
    KeepsMirrored (execAll caller body) :=
  ((invariant_mirrored hcaller).statements .unrestricted).2.2.1 body trivial

end Stmt

/-- A call of a function keeps the agreement, however many calls may nest. -/
theorem Walk.callWithin_mirrored (calls : Nat) (f : Procedure) (args : List Expr)
    (location : Location) : KeepsMirrored (callWithin calls f args location) := by
  induction calls generalizing f args location with
  | zero =>
    intro r value r' hr h
    obtain ⟨_, _, _, _, hcalls, _⟩ := callWithin_ok h
    cases hcalls
  | succ calls ih =>
    intro r value r' hr h
    obtain ⟨fewer, values, flow, last, hcalls, rfl, answered⟩ := callWithin_ok h
    cases hcalls
    have hbody := Stmt.execAll_mirrored_of_caller ih f.body
    rw [answered.ended]
    exact (hbody (hr.inside f values location) answered.ran).returned r f location _

/-- Every statement that completes keeps the agreement. -/
theorem Stmt.exec_mirrored (calls : Nat) (statement : Stmt) :
    Walk.KeepsMirrored (Stmt.exec (Walk.callWithin calls) statement) := by
  have hinvariant := invariant_mirrored (Walk.callWithin_mirrored calls)
  exact (hinvariant.statements .unrestricted).1 statement trivial

namespace Stmt

open Walk

/-- The statements of a branch start in agreement. -/
theorem branchStarts_mirrored {alternative : Option Otherwise} {kind : BranchKind}
    {branches : List Branch} {body : List Stmt} {r s : Run}
    (h : Branch.Starts alternative kind branches r body s) (hr : r.Mirrored) : s.Mirrored := by
  induction h with
  | first passed => exact test_mirrored _ _ _ hr passed
  | further failed _ ih => exact ih (test_mirrored _ _ _ hr failed)
  | otherwise _ entered => exact enterAlternative_mirrored _ hr entered

/-- The statements of a function start in agreement. -/
theorem callStarts_mirrored {calls fewer : Nat} {value : Expr} {body : List Stmt} {r s : Run}
    (h : value.Starts calls r fewer body s) (hr : r.Mirrored) : s.Mirrored := by
  cases h with
  | call _ _ _ _ _ => exact hr.inside _ _ _

/-- Whatever statements a statement starts, they start in agreement. -/
theorem starts_mirrored {calls fewer : Nat} {statement : Stmt} {body : List Stmt} {r s : Run}
    (h : Starts calls statement r fewer body s) (hr : r.Mirrored) : s.Mirrored := by
  cases h with
  | assign _ call => exact callStarts_mirrored call (hr.movedTo _)
  | giveBack _ call => exact callStarts_mirrored call (hr.movedTo _)
  | expression call => exact callStarts_mirrored call (hr.movedTo _)
  | loop _ _ pass =>
    have hbody := execAll_mirrored_of_caller (callWithin_mirrored calls) body
    have hpass := hbody.nested Run.Mirrored.entered Run.Mirrored.exited
    exact (hpass.passStarts (startPass_mirrored _) pass ((hr.movedTo _).identified _)).entered
  | choose branch => exact (branchStarts_mirrored branch (hr.movedTo _)).entered

/-- Every statement that a run comes to starts in agreement. -/
theorem reaches_mirrored {calls fewer : Nat} {body : List Stmt} {statement : Stmt} {r s : Run}
    (h : Reaches calls body r fewer statement s) (hr : r.Mirrored) : s.Mirrored := by
  induction h with
  | first => exact hr
  | next ended _ ih => exact ih (exec_mirrored _ _ hr ended)
  | inner starts _ ih => exact ih (starts_mirrored starts hr)

end Stmt

/-- At the start there are no bindings in memory and none in the log. -/
theorem Run.mirrored_start (limits : Limits) : (Run.start limits).Mirrored := rfl

/-- In agreement, the bindings replayed from all steps are the visible bindings in memory,
each value replaced by its text. -/
theorem Run.Mirrored.bindingsAfter_eq {run : Run} (h : run.Mirrored) {count : Nat}
    (hcount : run.trace.length ≤ count) :
    run.trace.bindingsAfter count =
      run.store.visible.map fun binding => (binding.1, binding.2.text) := by
  have hvisible := Scopes.visible_map Value.text run.store.scopes
  rw [Trace.bindingsAfter_of_length_le hcount]
  change (run.replayed).visible.entries = _
  rw [h]
  unfold Run.written
  rw [hvisible]
  rfl

/-- The same of the bindings at the index of the last step or at a later one. -/
theorem Run.Mirrored.bindingsAt_eq {run : Run} (h : run.Mirrored) {index : UInt64}
    (hlargest : index ≠ Trace.largestIndex) (hindex : run.trace.length ≤ index.toNat + 1) :
    run.trace.bindingsAt index =
      run.store.visible.map fun binding => (binding.1, binding.2.text) := by
  rw [Trace.bindingsAt_of_ne hlargest]
  exact h.bindingsAfter_eq hindex

/-- Whenever a statement has just completed, at any nesting and inside any calls, in a run
that goes on to succeed or to fail, replaying the steps recorded so far gives the visible
bindings in memory, each value replaced by its text; and so does replaying the trace of a
finished run up to its last step. At the largest index nothing is replayed. -/
theorem bindingsAt_eq_visible (program : Program) (limits : Limits) :
    (∀ statement before flow after, program.Completes limits statement before flow after →
      (∀ count, after.trace.length ≤ count →
        after.trace.bindingsAfter count =
          after.store.visible.map fun binding => (binding.1, binding.2.text)) ∧
      ∀ index, index ≠ Trace.largestIndex → after.trace.length ≤ index.toNat + 1 →
        after.trace.bindingsAt index =
          after.store.visible.map fun binding => (binding.1, binding.2.text)) ∧
    (∀ flow final, program.run limits = .ok flow final →
      final.trace.bindingsAfter final.trace.length =
        final.store.visible.map (fun binding => (binding.1, binding.2.text)) ∧
      ∀ index, index ≠ Trace.largestIndex → index.toNat + 1 = final.trace.length →
        final.trace.bindingsAt index =
          final.store.visible.map fun binding => (binding.1, binding.2.text)) := by
  constructor
  · rintro statement before flow after ⟨calls, reached, ended⟩
    have hbefore := Stmt.reaches_mirrored reached (Run.mirrored_start limits)
    have hafter := Stmt.exec_mirrored calls statement hbefore ended
    exact ⟨fun _ => hafter.bindingsAfter_eq, fun _ => hafter.bindingsAt_eq⟩
  · intro flow final hrun
    have hprogram := Stmt.execAll_mirrored_of_caller (Walk.callWithin_mirrored limits.calls) program
    have hfinal := hprogram (Run.mirrored_start limits) hrun
    exact ⟨hfinal.bindingsAfter_eq (Nat.le_refl _), fun _ hlargest hlast =>
      hfinal.bindingsAt_eq hlargest (Nat.le_of_eq hlast.symm)⟩

namespace Sample

/-- The assignment `a, b = t`. -/
def unpacking : Stmt :=
  .assign [.tuple [.name "a" ⟨2, 5⟩, .name "b" ⟨2, 8⟩] ⟨2, 5⟩] (.name "t" ⟨2, 12⟩) ⟨2, 5⟩

/-- A function that unpacks its argument, and the call `a = f((2, True))`. -/
def unpackingCall : Program :=
  [.define "f" ["t"] [unpacking, .giveBack (some (.name "b" ⟨3, 12⟩)) ⟨3, 5⟩] ⟨1, 1⟩,
    .assign [.name "a" ⟨4, 1⟩]
      (.call "f" [.tuple [.literal (.int 2) ⟨4, 8⟩, .literal (.bool true) ⟨4, 11⟩] ⟨4, 7⟩]
        ⟨4, 5⟩) ⟨4, 1⟩]

/-- The visible bindings after a run that succeeded and recorded so many steps. -/
def visibleTexts (steps : Nat) :
    EStateM.Result Fault Run Flow → Option (List (String × String))
  | .ok _ final =>
    if steps = final.trace.length then
      some (final.store.visible.map fun binding => (binding.1, binding.2.text))
    else none
  | .error .. => none

end Sample

open Sample in
/-- Inside the call the local `a` hides the global one, which the call then binds. -/
theorem bindingsAt_unpackingCall :
    (∃ before after, unpackingCall.Completes {} unpacking before .normal after ∧
      after.trace.bindingsAt 3 = [("a", "2"), ("b", "True"), ("t", "(2, True)")]) ∧
    ∃ flow final, unpackingCall.run {} = .ok flow final ∧
      7 = final.trace.length ∧ final.trace.bindingsAt 6 = [("a", "True")] := by
  constructor
  · have point : unpackingCall.Completes {} unpacking _ .normal _ :=
      ⟨63, .next rfl (.inner (.assign rfl (.call (by decide) rfl rfl rfl rfl)) .first), rfl⟩
    have hbindings := ((bindingsAt_eq_visible unpackingCall {}).1 _ _ _ _ point).2 3 (by decide)
      (by decide)
    exact ⟨_, _, point, hbindings.trans rfl⟩
  · have hvisible : visibleTexts 7 (unpackingCall.run {}) = some [("a", "True")] := by
      decide +kernel
    generalize hrun : unpackingCall.run {} = result at hvisible
    cases result with
    | error fault final => cases hvisible
    | ok flow final =>
      obtain ⟨hlength, htexts⟩ := Option.ite_none_right_eq_some.mp hvisible
      have hbindings := ((bindingsAt_eq_visible unpackingCall {}).2 flow final hrun).2 6
        (by decide) hlength
      exact ⟨flow, final, rfl, hlength, hbindings.trans (Option.some.inj htexts)⟩

end Walkthrough
