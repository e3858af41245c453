import Walkthrough.Proofs.Invariants
import Walkthrough.Proofs.Maps

/-!
# The log only grows

A run adds steps at the end of its log and places at the end of its list of ids, and
never changes what is there. In the log each step has a place, and each id has the place
that it was given for.
-/

namespace Walkthrough

open Walk

namespace Run

/-- The log agrees with itself and with the memory. -/
structure Consistent (run : Run) : Prop where
  /-- Each step has a place. -/
  located : run.trace.locations.size = run.trace.steps.size
  /-- Ids count from one. -/
  numbered : run.trace.sourceOf? 0 = none
  /-- An id stands for the place that it was given for. -/
  sourced : ∀ index, run.trace.sourceOf? (index + 1) = run.store.places[index]?

/-- A later state of a run: the log and the places with an id have only grown. -/
structure Continues (run later : Run) : Prop where
  /-- Earlier steps stay. -/
  steps : run.trace.steps.toList <+: later.trace.steps.toList
  /-- Their places stay. -/
  locations : run.trace.locations.toList <+: later.trace.locations.toList
  /-- Ids stay with their places. -/
  places : run.store.places <+: later.store.places
  /-- The log stays consistent. -/
  consistent : run.Consistent → later.Consistent

/-- A change that leaves the log and the places with an id alone. -/
theorem Continues.of_eq {r s : Run} (htrace : s.trace = r.trace)
    (hplaces : s.store.places = r.store.places) : r.Continues s := by
  refine ⟨?_, ?_, ?_, fun h => ⟨?_, ?_, ?_⟩⟩
  · simp only [htrace, List.prefix_refl]
  · simp only [htrace, List.prefix_refl]
  · simp only [hplaces, List.prefix_refl]
  · rw [htrace]
    exact h.located
  · rw [htrace]
    exact h.numbered
  · rw [htrace, hplaces]
    exact h.sourced

theorem Continues.movedTo (r : Run) (location : Location) : r.Continues (r.movedTo location) :=
  .of_eq rfl rfl

/-- Moving on keeps a log consistent. -/
theorem Consistent.movedTo {r : Run} (h : r.Consistent) (location : Location) :
    (r.movedTo location).Consistent :=
  (Continues.movedTo r location).consistent h

theorem Continues.entered (r : Run) : r.Continues r.entered := .of_eq rfl rfl

theorem Continues.exited (r : Run) : r.Continues r.exited := .of_eq rfl rfl

theorem Continues.pushed (r : Run) (locals : SortedMap String Value) :
    r.Continues (r.pushed locals) := .of_eq rfl rfl

theorem Continues.popped (r : Run) (location : Location) : r.Continues (r.popped location) :=
  .of_eq rfl rfl

/-- A run that continues a continuation continues the run. -/
theorem Continues.trans {r s t : Run} (h : r.Continues s) (h' : s.Continues t) : r.Continues t :=
  ⟨h.steps.trans h'.steps, h.locations.trans h'.locations, h.places.trans h'.places,
    fun hr => h'.consistent (h.consistent hr)⟩

/-- A recorded step comes with its place. -/
theorem Continues.recorded (r : Run) (step : Step) : r.Continues (r.recorded step) := by
  refine ⟨?_, ?_, List.prefix_refl _, fun h => ⟨?_, h.numbered, h.sourced⟩⟩
  · simp [Run.recorded, Trace.append]
  · simp [Run.recorded, Trace.append]
  · simp [Run.recorded, Trace.append, h.located]

/-- Recorded steps come after those of the log, in order. -/
theorem steps_recordedAll (r : Run) (steps : List Step) :
    (r.recordedAll steps).trace.steps.toList = r.trace.steps.toList ++ steps := by
  induction steps generalizing r with
  | nil => simp [recordedAll]
  | cons step others ih =>
    have hone : (r.recorded step).trace.steps.toList = r.trace.steps.toList ++ [step] := by
      simp [recorded, Trace.append]
    have hall := ih (r.recorded step)
    rw [hone, List.append_assoc] at hall
    exact hall

/-- Some recorded steps continue the run. -/
theorem continues_recordedAll (r : Run) (steps : List Step) :
    r.Continues (r.recordedAll steps) := by
  induction steps generalizing r with
  | nil => exact .of_eq rfl rfl
  | cons step others ih => exact (Continues.recorded r step).trans (ih _)

@[simp] theorem trace_boundAll (r : Run) (bindings : List (String × Value)) :
    (r.boundAll bindings).trace = r.trace := by
  induction bindings generalizing r with
  | nil => rfl
  | cons binding others ih => exact ih _

/-- Some names that get values leave the log alone. -/
theorem continues_boundAll (r : Run) (bindings : List (String × Value)) :
    r.Continues (r.boundAll bindings) := by
  obtain ⟨scopes, hstore⟩ := r.boundAll_store bindings
  refine .of_eq (r.trace_boundAll bindings) ?_
  rw [hstore]

/-- The place of an id is known once the id has been given. -/
theorem places_identified (r : Run) (location : Location) :
    ∃ index, (r.store.idAt location).1 = index + 1 ∧
      (r.identified location).store.places[index]? = some location ∧
      ∀ other, other ≠ index →
        (r.identified location).store.places[other]? = r.store.places[other]? := by
  unfold identified Store.idAt
  cases hfound : r.store.places.idxOf? location with
  | some index =>
    refine ⟨index, rfl, ?_, fun _ _ => rfl⟩
    have hmem := List.idxOf?_eq_some_iff.mp hfound
    grind
  | none =>
    refine ⟨r.store.places.length, rfl, ?_, fun other hother => ?_⟩
    · simp
    · grind

/-- A place that gets an id is remembered. -/
theorem Continues.identified (r : Run) (location : Location) :
    r.Continues (r.identified location) := by
  obtain ⟨index, hid, hthere, helse⟩ := r.places_identified location
  refine ⟨List.prefix_refl _, List.prefix_refl _, ?_, fun h => ⟨h.located, ?_, fun other => ?_⟩⟩
  · unfold Run.identified Store.idAt
    split
    · exact List.prefix_refl _
    · exact List.prefix_append _ _
  · change (r.trace.sources.insert (r.store.idAt location).1 location).find? 0 = _
    rw [SortedMap.find?_insert, hid, if_neg (by omega)]
    exact h.numbered
  · change (r.trace.sources.insert (r.store.idAt location).1 location).find? (other + 1) = _
    rw [SortedMap.find?_insert, hid]
    by_cases hother : other = index
    · rw [if_pos (by omega), hother, hthere]
    · rw [if_neg (by omega), helse other hother]
      exact h.sourced other

/-- The run at its start has an empty log. -/
theorem Consistent.start (limits : Limits) : (Run.start limits).Consistent :=
  ⟨rfl, rfl, fun _ => rfl⟩

/-- The log has this step at this index, with this place. -/
def HasStep (run : Run) (index : Nat) (step : Step) (place : Location) : Prop :=
  run.trace.steps[index]? = some step ∧ run.trace.locationOf? index = some place

/-- The log gets no shorter. -/
theorem Continues.length_le {r s : Run} (h : r.Continues s) : r.trace.length ≤ s.trace.length :=
  h.steps.length_le

/-- A step stays where it is. -/
theorem HasStep.later {r s : Run} {index : Nat} {step : Step} {place : Location}
    (h : r.HasStep index step place) (hs : r.Continues s) : s.HasStep index step place := by
  obtain ⟨moreSteps, hsteps⟩ := hs.steps
  obtain ⟨morePlaces, hplaces⟩ := hs.locations
  obtain ⟨hstep, hplace⟩ := h
  unfold Trace.locationOf? at hplace
  rw [← Array.getElem?_toList] at hstep hplace
  constructor
  · rw [← Array.getElem?_toList, ← hsteps]
    exact List.getElem?_append_left (List.getElem?_eq_some_iff.mp hstep).1 ▸ hstep
  · unfold Trace.locationOf?
    rw [← Array.getElem?_toList, ← hplaces]
    exact List.getElem?_append_left (List.getElem?_eq_some_iff.mp hplace).1 ▸ hplace

/-- The place of an id stays the same. -/
theorem Continues.sourceOf {r s : Run} {id : Nat} {location : Location} (hs : r.Continues s)
    (hr : r.Consistent) (h : r.trace.sourceOf? id = some location) :
    s.trace.sourceOf? id = some location := by
  cases id with
  | zero => rw [hr.numbered] at h; cases h
  | succ index =>
    rw [hr.sourced] at h
    obtain ⟨more, hmore⟩ := hs.places
    rw [(hs.consistent hr).sourced, ← hmore,
      List.getElem?_append_left (List.getElem?_eq_some_iff.mp h).1]
    exact h

/-- An id that was just given stands for its place. -/
theorem sourceOf_identified (r : Run) (location : Location) :
    (r.identified location).trace.sourceOf? (r.store.idAt location).1 = some location := by
  change (r.trace.sources.insert _ location).find? _ = _
  rw [SortedMap.find?_insert, if_pos rfl]

/-- A recorded step is the last one of the log, at the current place. -/
theorem hasStep_recorded {r : Run} (hr : r.Consistent) (step : Step) :
    (r.recorded step).HasStep r.trace.length step r.here := by
  constructor
  · simp [recorded, Trace.append, Trace.length]
  · simp [recorded, Trace.append, Trace.length, Trace.locationOf?, ← hr.located]

theorem length_recorded (r : Run) (step : Step) :
    (r.recorded step).trace.length = r.trace.length + 1 := by
  simp [recorded, Trace.append, Trace.length]

/-- Some recorded steps stand at the end of the log, all at the current place. -/
theorem hasStep_recordedAll {r : Run} (hr : r.Consistent) {steps : List Step} {index : Nat}
    (hfrom : r.trace.length ≤ index) (hto : index < (r.recordedAll steps).trace.length) :
    ∃ step ∈ steps, (r.recordedAll steps).HasStep index step r.here := by
  induction steps generalizing r with
  | nil =>
    change index < r.trace.length at hto
    omega
  | cons step others ih =>
    by_cases hlast : index = r.trace.length
    · refine ⟨step, List.mem_cons_self, ?_⟩
      rw [hlast]
      exact (hasStep_recorded hr step).later (continues_recordedAll (r.recorded step) others)
    · have hlater : (r.recorded step).trace.length ≤ index := by
        rw [length_recorded]
        omega
      obtain ⟨found, hfound, hhas⟩ := ih ((Continues.recorded r step).consistent hr) hlater hto
      exact ⟨found, List.mem_cons_of_mem _ hfound, hhas⟩

end Run

/-- All changes of a run only add to the log. -/
theorem Walk.closed_continues : Closed Run.Continues where
  refl _ := .of_eq rfl rfl
  trans h h' := h.trans h'
  movedTo r location := .movedTo r location
  bound _ _ _ := .of_eq rfl rfl
  recorded r step _ := .recorded r step
  identified r location := .identified r location
  defined _ _ := .of_eq rfl rfl
  nested {r s} h := by
    have hr : r.Continues s := (Run.Continues.entered r).trans h
    split
    · exact hr
    · exact hr.trans (.exited s)
  framed {r s} locals location h := by
    have hr : r.Continues s := (Run.Continues.pushed r locals).trans h
    split
    · exact hr
    · exact hr.trans (.popped s location)

end Walkthrough
