import Mathlib.Data.List.Chain
import Walkthrough.Proofs.Course

/-!
# The levels of the steps

A log starts on the outermost level. From one step to the next it goes down by one level at
most, and only from a pass of a loop, a branch or a call, whose statements follow. It may come
up by any number of levels, when a function returns from within a loop.
-/

namespace Walkthrough

open Walk

/-- A step may stand before another one: if the other one is deeper, then by one level and as
part of what the step starts. -/
def Step.Leads (step next : Step) : Prop :=
  step.depth < next.depth → next.depth = step.depth + 1 ∧ step.kind ∈ ["for", "if", "call"]

/-- A step that opens a level is a pass or a branch. -/
theorem Step.kind_of_opens {step : Step} (h : step.opens = true) :
    step.kind ∈ ["for", "if", "call"] := by
  cases step with
  | pass | branch => simp [kind]
  | assigned | print | call | giveBack | endCall | define => cases h

/-- A log starts on the outermost level, and each step may stand before the next one. -/
structure WellNested (steps : List Step) : Prop where
  outermost : ∀ first ∈ steps.head?, first.depth = 0
  chain : steps.IsChain Step.Leads

namespace WellNested

theorem nil : WellNested [] := ⟨by simp, .nil⟩

theorem singleton_iff {step : Step} : WellNested [step] ↔ step.depth = 0 :=
  ⟨fun h => h.outermost step rfl, fun h => ⟨by simpa using h, .singleton step⟩⟩

/-- One more step of a log that has some. -/
theorem snoc_iff {steps : List Step} {last next : Step} :
    WellNested (steps ++ [last] ++ [next]) ↔ WellNested (steps ++ [last]) ∧ last.Leads next := by
  have hchain : (steps ++ [last] ++ [next]).IsChain Step.Leads ↔
      (steps ++ [last]).IsChain Step.Leads ∧ last.Leads next := by
    rw [List.append_assoc, List.singleton_append, List.isChain_append_cons_cons]
    simp
  have hhead : (steps ++ [last] ++ [next]).head? = (steps ++ [last]).head? := by
    cases steps <;> rfl
  constructor
  · intro h
    obtain ⟨hbefore, hleads⟩ := hchain.mp h.chain
    exact ⟨⟨hhead ▸ h.outermost, hbefore⟩, hleads⟩
  · rintro ⟨h, hleads⟩
    exact ⟨hhead.symm ▸ h.outermost, hchain.mpr ⟨h.chain, hleads⟩⟩

end WellNested

/-- A log can go on with any step on a level. -/
def Accepts (steps : List Step) (depth : Nat) : Prop :=
  ∀ step, step.depth = depth → WellNested (steps ++ [step])

namespace Accepts

variable {steps : List Step} {depth : Nat}

/-- An empty log can go on with the outermost level. -/
theorem start : Accepts [] 0 := fun _ hstep => WellNested.singleton_iff.mpr hstep

/-- After a step a log can go on with the level of the step. -/
theorem snoc (h : Accepts steps depth) {step : Step} (hstep : step.depth = depth) :
    Accepts (steps ++ [step]) depth := by
  intro next hnext
  exact WellNested.snoc_iff.mpr ⟨h step hstep, fun hdeeper => by omega⟩

theorem append (h : Accepts steps depth) {more : List Step}
    (hmore : ∀ step ∈ more, step.depth = depth) : Accepts (steps ++ more) depth := by
  induction more generalizing steps with
  | nil => rwa [List.append_nil]
  | cons step others ih =>
    obtain ⟨hstep, hothers⟩ := List.forall_mem_cons.mp hmore
    rw [← List.singleton_append, ← List.append_assoc]
    exact ih (h.snoc hstep) hothers

/-- After a step that opens a level a log can go on with that level. -/
theorem deeper {last : Step} (h : Accepts (steps ++ [last]) depth) (hlast : last.depth = depth)
    (hkind : last.kind ∈ ["for", "if", "call"]) : Accepts (steps ++ [last]) (depth + 1) := by
  intro next hnext
  have hsteps := (WellNested.snoc_iff.mp (h last hlast)).1
  exact WellNested.snoc_iff.mpr ⟨hsteps, fun _ => ⟨by omega, hkind⟩⟩

/-- A log that can go on with a level can go on with the level above it. -/
theorem shallower (h : Accepts steps (depth + 1)) : Accepts steps depth := by
  -- Some step of the deeper level tells where the last step of the log stands.
  have hdeeper := h (.assigned (depth + 1) "" "") rfl
  intro step hstep
  rcases List.eq_nil_or_concat steps with rfl | ⟨before, last, rfl⟩
  · cases WellNested.singleton_iff.mp hdeeper
  · rw [List.concat_eq_append] at hdeeper ⊢
    obtain ⟨hbefore, hleads⟩ := WellNested.snoc_iff.mp hdeeper
    refine WellNested.snoc_iff.mpr ⟨hbefore, fun hlast => ?_⟩
    have hlevel : depth + 1 = last.depth + 1 := (hleads (by change _ < depth + 1; omega)).1
    omega

/-- A log that can go on is a log. -/
theorem wellNested (h : Accepts steps depth) : WellNested steps := by
  have hmore := h (.assigned depth "" "") rfl
  rcases List.eq_nil_or_concat steps with rfl | ⟨before, last, rfl⟩
  · exact .nil
  · rw [List.concat_eq_append] at hmore ⊢
    exact (WellNested.snoc_iff.mp hmore).1

end Accepts

namespace Run

/-- The log can go on with the current level. -/
def AcceptsHere (run : Run) : Prop := Accepts run.trace.steps.toList run.store.depth

namespace AcceptsHere

variable {r : Run} (h : r.AcceptsHere)
include h

/-- What neither records a step nor changes the level. -/
theorem of_eq {s : Run} (hsteps : s.trace.steps = r.trace.steps)
    (hdepth : s.store.depth = r.store.depth) : s.AcceptsHere := by
  unfold AcceptsHere
  rwa [hsteps, hdepth]

theorem recordedAll {steps : List Step} (hsteps : ∀ step ∈ steps, step.depth = r.store.depth) :
    (r.recordedAll steps).AcceptsHere := by
  unfold AcceptsHere
  rw [steps_recordedAll, store_recordedAll]
  exact h.append hsteps

/-- A step that opens a level is followed by that level. -/
theorem entered (hopened : r.Opened) : r.entered.AcceptsHere := by
  obtain ⟨last, hlast, hopens, hdepth⟩ := hopened
  obtain ⟨before, hsteps⟩ := List.getLast?_eq_some_iff.mp hlast
  unfold AcceptsHere at h
  rw [hsteps] at h
  have hdeeper := h.deeper hdepth (Step.kind_of_opens hopens)
  rwa [← hsteps] at hdeeper

/-- A call is followed by the level of the statements of the function. -/
theorem inside (f : Procedure) (values : List Value) (location : Location) :
    (r.inside f values location).AcceptsHere := by
  obtain ⟨signature, args, hsteps⟩ := r.steps_inside f values location
  unfold AcceptsHere
  rw [hsteps, depth_inside]
  exact (h.snoc rfl).deeper rfl (by simp [Step.kind])

/-- The level above the current one. -/
theorem exited {depth : Nat} (hdepth : r.store.depth = depth + 1) : r.exited.AcceptsHere := by
  unfold AcceptsHere at h
  rw [hdepth] at h
  change Accepts r.trace.steps.toList (r.store.depth - 1)
  rw [hdepth]
  exact h.shallower

/-- The end of a call is followed by the level of the call. -/
theorem returned {call : Run} (hdepth : r.store.depth = call.store.depth + 1) (f : Procedure)
    (location : Location) (value : Value) :
    (r.returned call f location value).AcceptsHere := by
  unfold AcceptsHere at h
  rw [hdepth] at h
  unfold AcceptsHere
  have hlevel : (r.returned call f location value).store.depth = call.store.depth := by
    change r.store.depth - 1 = _
    omega
  rw [steps_returned, hlevel]
  exact h.shallower.snoc rfl

end AcceptsHere

end Run

/-- In the course of a run the log can always go on with the current level. -/
theorem Course.acceptsHere {Idle : Nat → Location → Prop} {calls : Nat} {r s : Run} {flow : Flow}
    (h : Course Idle calls r flow s) (hr : r.AcceptsHere) : s.AcceptsHere := by
  induction h with
  | done => exact hr
  | seq _ _ ih ih' => exact ih' (ih hr)
  | moved location => exact hr.of_eq rfl rfl
  | @bound _ r bindings steps shown =>
    have hbound : (r.boundAll bindings).AcceptsHere :=
      hr.of_eq (by rw [Run.trace_boundAll]) (r.boundAll_depth bindings)
    refine hbound.recordedAll fun step hstep => ?_
    obtain ⟨target, text, rfl⟩ := shown step hstep
    exact (r.boundAll_depth bindings).symm
  | @visited _ r location steps shown _ =>
    have hidentified := hr.of_eq (s := r.identified location) rfl (r.identified_depth location)
    exact hidentified.recordedAll fun step hstep =>
      (shown step hstep).depth.trans (r.identified_depth location).symm
  | @repeated _ r _ _ step _ shown =>
    exact hr.recordedAll (List.forall_mem_singleton.mpr shown.depth)
  | defined f => exact hr.of_eq rfl rfl
  | nested opened body ih =>
    obtain ⟨more, hadds⟩ := body.adds
    exact (ih (hr.entered opened)).exited hadds.depth
  | @gave _ r location steps _ _ shown _ =>
    have hidentified := hr.of_eq (s := r.identified location) rfl (r.identified_depth location)
    refine hidentified.recordedAll fun step hstep => ?_
    obtain ⟨text, highlight, rfl⟩ := shown step hstep
    exact (r.identified_depth location).symm
  | @called _ r _ _ f values location body ih =>
    obtain ⟨more, hadds⟩ := body.adds
    have hdepth := hadds.depth.trans (r.depth_inside f values location)
    exact (ih (hr.inside f values location)).returned hdepth f location _

/-- The depths of the steps tell how they are nested. The first step of a trace has depth zero.
A step that is deeper than the one before it is so by one, and then the one before it is a pass
of a loop, a branch or a call. -/
theorem depth_tells_nesting {program : Program} {limits : Limits} {trace : Trace}
    (h : program.trace limits = .ok trace) :
    (∀ first, trace.steps[0]? = some first → first.depth = 0) ∧
      ∀ index step next, trace.steps[index]? = some step →
        trace.steps[index + 1]? = some next → step.depth < next.depth →
        next.depth = step.depth + 1 ∧ step.kind ∈ ["for", "if", "call"] := by
  obtain ⟨flow, last, hrun, rfl⟩ := Program.trace_ok.mp h
  have hcourse : Course (fun _ _ => True) limits.calls (Run.start limits) flow last :=
    Program.course hrun fun _ _ _ _ _ _ => trivial
  have hnested : WellNested last.trace.steps.toList :=
    (hcourse.acceptsHere Accepts.start).wellNested
  constructor
  · intro first hfirst
    refine hnested.outermost first ?_
    rwa [List.head?_eq_getElem?, Array.getElem?_toList]
  · intro index step next hstep hnext
    rw [← Array.getElem?_toList] at hstep hnext
    obtain ⟨_, rfl⟩ := List.getElem?_eq_some_iff.mp hstep
    obtain ⟨hbound, rfl⟩ := List.getElem?_eq_some_iff.mp hnext
    exact List.isChain_iff_getElem.mp hnested.chain index hbound

/-- A function `f` that returns its argument from within a loop, a loop that calls it in its
second pass only, and a statement after the loop. -/
def Sample.staircase : Program :=
  [.define "f" ["n"]
      [.loop (.name "j" ⟨2, 9⟩) (.call "range" [.literal (.int 3) ⟨2, 20⟩] ⟨2, 14⟩)
        [.giveBack (some (.name "n" ⟨3, 16⟩)) ⟨3, 9⟩] ⟨2, 5⟩] ⟨1, 1⟩,
    .loop (.name "i" ⟨4, 5⟩) (.call "range" [.literal (.int 2) ⟨4, 16⟩] ⟨4, 10⟩)
      [.choose [.mk (.compare .greater (.name "i" ⟨5, 8⟩) (.literal (.int 0) ⟨5, 12⟩) ⟨5, 10⟩)
          [.assign [.name "y" ⟨6, 9⟩] (.call "f" [.name "i" ⟨6, 15⟩] ⟨6, 13⟩) ⟨6, 9⟩] ⟨5, 5⟩]
        none ⟨5, 5⟩] ⟨4, 1⟩,
    .assign [.name "z" ⟨7, 1⟩] (.literal (.int 1) ⟨7, 5⟩) ⟨7, 1⟩]

open Sample in
/-- The steps go down one level at a time, from the pass to the branch, the call, the pass in the
function and the return, and come up by two levels at once. -/
theorem staircase_nests : ∃ trace, staircase.trace ⟨100, 2⟩ = .ok trace ∧
    trace.steps.toList.map Step.depth = [0, 0, 1, 1, 1, 0, 1, 1, 1, 2, 3, 4, 2, 2, 0] ∧
    ∀ index step next, trace.steps[index]? = some step → trace.steps[index + 1]? = some next →
      step.depth < next.depth → step.kind ∈ ["for", "if", "call"] := by
  have hseen : (staircase.trace ⟨100, 2⟩).toOption.map (fun trace =>
      trace.steps.toList.map Step.depth) =
      some [0, 0, 1, 1, 1, 0, 1, 1, 1, 2, 3, 4, 2, 2, 0] := by
    decide +kernel
  obtain ⟨trace, htrace, hdepths⟩ := Option.map_eq_some_iff.mp hseen
  have htrace := except_toOption_some.mp htrace
  refine ⟨trace, htrace, hdepths, fun index step next hstep hnext hdeeper => ?_⟩
  exact ((depth_tells_nesting htrace).2 index step next hstep hnext hdeeper).2

end Walkthrough
