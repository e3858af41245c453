import Walkthrough.Proofs.Course
import Walkthrough.Proofs.Places

/-!
# Ids and the places they stand for

A place gets the next number as its id when a run first visits it, and keeps it. So the ids of
a log count from one, stand for different places, and each step has the id of the construct
that emits it. Ids come up in the log in increasing order, except that a loop over an empty
range and a print without arguments get an id and record no step.
-/

namespace Walkthrough

open Walk

/-- Places with their numbers, from a first one on. -/
def numbered (first : Nat) (places : List Location) : List (Nat × Location) :=
  (places.zipIdx first).map Prod.swap

theorem map_fst_numbered (first : Nat) (places : List Location) :
    (numbered first places).map Prod.fst = List.range' first places.length := by
  rw [numbered, List.map_map, ← List.zipIdx_map_snd first places]
  rfl

/-- A place that has a number already stays where it is. -/
theorem insertEntry_numbered {first index : Nat} {places : List Location} {location : Location}
    (h : places[index]? = some location) :
    SortedMap.insertEntry (first + index) location (numbered first places) =
      numbered first places := by
  induction places generalizing first index with
  | nil => cases h
  | cons place others ih =>
    change SortedMap.insertEntry _ _ ((first, place) :: numbered (first + 1) others) = _
    cases index with
    | zero =>
      cases h
      exact if_pos rfl
    | succ index =>
      have hnext : first + (index + 1) = first + 1 + index := by omega
      rw [SortedMap.insertEntry, if_neg (by omega), if_neg (by omega), hnext, ih h]
      rfl

/-- A new place gets the next number. -/
theorem insertEntry_numbered_length (first : Nat) (places : List Location) (location : Location) :
    SortedMap.insertEntry (first + places.length) location (numbered first places) =
      numbered first (places ++ [location]) := by
  induction places generalizing first with
  | nil => rfl
  | cons place others ih =>
    have hnext : first + (place :: others).length = first + 1 + others.length := by
      rw [List.length_cons]
      omega
    change SortedMap.insertEntry _ _ ((first, place) :: numbered (first + 1) others) = _
    rw [SortedMap.insertEntry, if_neg (by omega), if_neg (by omega), hnext, ih]
    rfl

/-- The log keeps to its limit, and its ids number different places from one on. -/
structure Run.Indexed (run : Run) : Prop where
  fits : run.trace.length ≤ run.trace.limit
  entries : run.trace.sources.entries = numbered 1 run.store.places
  distinct : run.store.places.Nodup

namespace Run.Indexed

variable {r s : Run}

theorem of_eq (h : r.Indexed) (htrace : s.trace = r.trace)
    (hplaces : s.store.places = r.store.places) : s.Indexed :=
  ⟨htrace ▸ h.fits, by rw [htrace, hplaces]; exact h.entries, hplaces ▸ h.distinct⟩

/-- A place is given an id, or has it already. -/
theorem identified (h : r.Indexed) (location : Location) : (r.identified location).Indexed := by
  have hentries : (r.identified location).trace.sources.entries =
      SortedMap.insertEntry (r.store.idAt location).1 location (numbered 1 r.store.places) := by
    rw [← h.entries]
    rfl
  refine ⟨h.fits, hentries.trans ?_, ?_⟩
  · unfold Run.identified Store.idAt
    cases hfound : r.store.places.idxOf? location with
    | some index =>
      dsimp only
      rw [Nat.add_comm index 1]
      exact insertEntry_numbered (by grind [List.idxOf?_eq_some_iff])
    | none =>
      dsimp only
      rw [Nat.add_comm _ 1]
      exact insertEntry_numbered_length 1 r.store.places location
  · unfold Run.identified Store.idAt
    cases hfound : r.store.places.idxOf? location with
    | some index => exact h.distinct
    | none =>
      have hnew : location ∉ r.store.places := List.idxOf?_eq_none_iff.mp hfound
      refine List.nodup_append.mpr ⟨h.distinct, by simp, fun place hplace other hother => ?_⟩
      rw [List.mem_singleton.mp hother]
      exact fun heq => hnew (heq ▸ hplace)

theorem start (limits : Limits) : (Run.start limits).Indexed :=
  ⟨Nat.zero_le _, rfl, List.nodup_nil⟩

end Run.Indexed

/-- Every run keeps its log within the limit and its ids in order. -/
theorem Walk.closed_indexed : Closed fun r s => r.Indexed → s.Indexed where
  refl _ h := h
  trans h h' hr := h' (h hr)
  movedTo _ _ h := h.of_eq rfl rfl
  bound _ _ _ h := h.of_eq rfl rfl
  recorded r step hroom h := by
    have hlt : r.trace.length < r.trace.limit := by
      simpa [Trace.isFull] using hroom
    refine ⟨?_, h.entries, h.distinct⟩
    rw [Run.length_recorded]
    exact hlt
  identified r location h := h.identified location
  defined _ _ h := h.of_eq rfl rfl
  nested {r s} h hr := by
    have hs := h (hr.of_eq rfl rfl)
    split
    · exact hs
    · exact hs.of_eq rfl rfl
  framed {r s} locals location h hr := by
    have hs := h (hr.of_eq rfl rfl)
    split
    · exact hs
    · exact hs.of_eq rfl rfl

/-- What some branches emit is recorded when they run. -/
theorem Branch.Emits.le {alternative : Option Otherwise} {index : Nat} {kind found : BranchKind}
    {branches : List Branch} {r : Run} {location : Location}
    (h : Branch.Emits alternative index kind branches r found location) :
    r.trace.length ≤ index := by
  induction h with
  | first _ new _ => exact new
  | further failed _ ih =>
    exact Nat.le_trans ((closed_continues.test _ _ _).ok failed).length_le ih
  | otherwise _ _ new _ => exact new

/-- Only one of some branches emits a step. -/
theorem Branch.Emits.unique {alternative : Option Otherwise} {index : Nat}
    {kind found found' : BranchKind} {branches : List Branch} {r : Run}
    {location location' : Location}
    (h : Branch.Emits alternative index kind branches r found location)
    (h' : Branch.Emits alternative index kind branches r found' location') :
    location = location' := by
  induction h with
  | first tested _ done =>
    cases h' with
    | first => rfl
    | further failed branch =>
      cases tested.symm.trans failed
      exact absurd branch.le (Nat.not_le_of_lt done)
  | further failed branch ih =>
    cases h' with
    | first tested _ done =>
      cases tested.symm.trans failed
      exact absurd branch.le (Nat.not_le_of_lt done)
    | further failed' branch' =>
      cases failed.symm.trans failed'
      exact ih branch'
  | otherwise given =>
    cases h' with
    | otherwise given' =>
      cases given.symm.trans given'
      rfl

/-- A call emits its steps from one place. -/
theorem Expr.Emits.unique {e : Expr} {step : Step} {location location' : Location}
    (h : e.Emits step location) (h' : e.Emits step location') : location = location' := by
  cases h <;> cases h' <;> rfl

/-- A statement emits a step from one construct. -/
theorem Stmt.Emits.unique {before : Run} {index : Nat} {statement : Stmt} {step : Step}
    {location location' : Location} (h : statement.Emits before index step location)
    (h' : statement.Emits before index step location') : location = location' := by
  cases h with
  | value needed emits =>
    cases h' with
    | value needed' emits' =>
      cases needed.symm.trans needed'
      exact emits.unique emits'
    | giveBack => cases emits
    | pass | branch | define => cases needed
  | giveBack =>
    cases h' with
    | value _ emits => cases emits
    | giveBack => rfl
  | branch emits =>
    cases h' with
    | value needed _ => cases needed
    | branch emits' => exact emits.unique emits'
  | pass | define =>
    cases h' with
    | value needed _ => cases needed
    | _ => rfl

namespace Program

/-- In the run of a program a construct at a place emits the step of an index: it belongs to
the innermost statement that records the step. -/
def Emits (program : Program) (limits : Limits) (index : Nat) (step : Step)
    (location : Location) : Prop :=
  ∃ calls statement before after, program.Reaches limits calls statement before ∧
    statement.RecordsItself calls before after index ∧ statement.Emits before index step location

variable {program : Program} {limits : Limits} {flow : Flow} {last before after : Run}
  {calls index id : Nat} {statement : Stmt} {step : Step} {location : Location}

/-- The innermost statement that records a step accounts for it. -/
theorem accounts (h : program.run limits = .ok flow last)
    (hreach : program.Reaches limits calls statement before)
    (hitself : statement.RecordsItself calls before after index)
    (hstep : last.trace.steps.toList[index]? = some step) :
    statement.Accounts before index last.trace step := by
  obtain ⟨⟨_, hended⟩, _, _⟩ := hitself.recorded
  have hbefore := (Stmt.reaches_continues hreach).consistent (Run.Consistent.start limits)
  have hafter := (Stmt.exec_continues hended).consistent hbefore
  have hlast := Stmt.reaches_ended hreach h hended
  obtain ⟨found, place, hhas, _, haccounts⟩ := hitself.accounted hbefore
  have hfound := (hhas.later hlast).1
  rw [← Array.getElem?_toList] at hfound
  cases hstep.symm.trans hfound
  exact haccounts.later hafter hlast

/-- Each step that has an id is emitted by a construct. -/
theorem exists_emits (h : program.run limits = .ok flow last)
    (hstep : last.trace.steps.toList[index]? = some step) (hid : step.id? = some id) :
    ∃ location, program.Emits limits index step location := by
  have hindex : index < last.trace.length := (List.getElem?_eq_some_iff.mp hstep).1
  obtain ⟨calls, statement, before, after, hreach, hitself⟩ := exists_recordsItself h hindex
  obtain ⟨location, hemits, _⟩ := accounts h hreach hitself hstep id hid
  exact ⟨location, calls, statement, before, after, hreach, hitself, hemits⟩

/-- The id of a step stands for the place of the construct that emits it. -/
theorem Emits.sourceOf (hemits : program.Emits limits index step location)
    (h : program.run limits = .ok flow last)
    (hstep : last.trace.steps.toList[index]? = some step) (hid : step.id? = some id) :
    last.trace.sourceOf? id = some location := by
  obtain ⟨calls, statement, before, after, hreach, hitself, hemits⟩ := hemits
  obtain ⟨place, hemits', hsource⟩ := accounts h hreach hitself hstep id hid
  cases hemits.unique hemits'
  exact hsource

end Program

namespace Trace

/-- Before an index of the log an id has come up, or the place it stands for was idle. -/
def Seen (Idle : Nat → Location → Prop) (trace : Trace) (id : Nat) (location : Location)
    (index : Nat) : Prop :=
  (∃ i < index, ∃ step, trace.steps.toList[i]? = some step ∧ step.id? = some id) ∨
    ∃ i ≤ index, Idle i location

/-- Each id that was given has come up in the log, or its place was idle; and whenever an id
comes up, this is so for all smaller ones. -/
structure Ordered (Idle : Nat → Location → Prop) (trace : Trace) : Prop where
  given : ∀ id location, trace.sourceOf? id = some location →
    trace.Seen Idle id location trace.length
  smaller : ∀ index step id, trace.steps.toList[index]? = some step → step.id? = some id →
    ∀ a, 1 ≤ a → a < id →
      ∃ location, trace.sourceOf? a = some location ∧ trace.Seen Idle a location index

variable {Idle : Nat → Location → Prop} {trace later : Trace} {more : List Step}

/-- What was seen stays seen when steps are added. -/
theorem Seen.append {id index index' : Nat} {location : Location}
    (h : trace.Seen Idle id location index)
    (hsteps : later.steps.toList = trace.steps.toList ++ more) (hindex : index ≤ index') :
    later.Seen Idle id location index' := by
  rcases h with ⟨i, hi, step, hstep, hid⟩ | ⟨i, hi, hidle⟩
  · refine .inl ⟨i, Nat.lt_of_lt_of_le hi hindex, step, ?_, hid⟩
    rw [hsteps, List.getElem?_append_left (List.getElem?_eq_some_iff.mp hstep).1]
    exact hstep
  · exact .inr ⟨i, Nat.le_trans hi hindex, hidle⟩

/-- Steps can be added if all ids smaller than theirs were given, and ids can be given if they
have then been seen. -/
theorem Ordered.append (h : trace.Ordered Idle)
    (hsteps : later.steps.toList = trace.steps.toList ++ more)
    (hstay : ∀ a place, trace.sourceOf? a = some place → later.sourceOf? a = some place)
    (hnew : ∀ a place, later.sourceOf? a = some place →
      trace.sourceOf? a = some place ∨ later.Seen Idle a place later.length)
    (hids : ∀ step ∈ more, ∀ id, step.id? = some id → ∀ a, 1 ≤ a → a < id →
      ∃ place, trace.sourceOf? a = some place) : later.Ordered Idle := by
  have hlength : trace.length ≤ later.length := by
    change trace.length ≤ later.steps.toList.length
    rw [hsteps, List.length_append]
    exact Nat.le_add_right _ _
  constructor
  · intro id location hsource
    rcases hnew id location hsource with hold | hseen
    · exact (h.given id location hold).append hsteps hlength
    · exact hseen
  · intro index step id hstep hid a hone hlt
    by_cases hold : index < trace.steps.toList.length
    · rw [hsteps, List.getElem?_append_left hold] at hstep
      obtain ⟨location, hsource, hseen⟩ := h.smaller index step id hstep hid a hone hlt
      exact ⟨location, hstay a location hsource, hseen.append hsteps (Nat.le_refl _)⟩
    · rw [hsteps, List.getElem?_append_right (Nat.le_of_not_lt hold)] at hstep
      obtain ⟨location, hsource⟩ := hids step (List.mem_of_getElem? hstep) id hid a hone hlt
      exact ⟨location, hstay a location hsource,
        (h.given a location hsource).append hsteps (Nat.le_of_not_lt hold)⟩

end Trace

namespace Run

variable {Idle : Nat → Location → Prop} {r s : Run} {more : List Step}

/-- Recorded steps give no ids. -/
theorem sources_recordedAll (r : Run) (steps : List Step) :
    (r.recordedAll steps).trace.sources = r.trace.sources := by
  induction steps generalizing r with
  | nil => rfl
  | cons step others ih => exact ih (r.recorded step)

/-- Up to an id that was given, all ids were given. -/
theorem Consistent.sourceOf_le (h : r.Consistent) {id a : Nat} {location : Location}
    (hid : r.trace.sourceOf? id = some location) (hone : 1 ≤ a) (hle : a ≤ id) :
    ∃ place, r.trace.sourceOf? a = some place := by
  obtain ⟨index, rfl⟩ : ∃ index, id = index + 1 := ⟨id - 1, by omega⟩
  obtain ⟨before, rfl⟩ : ∃ before, a = before + 1 := ⟨a - 1, by omega⟩
  rw [h.sourced] at hid ⊢
  have hlt := (List.getElem?_eq_some_iff.mp hid).1
  exact ⟨_, List.getElem?_eq_getElem (by omega)⟩

/-- Steps under an id that was given keep the order, and so do steps without an id. -/
theorem ordered_repeated (hr : r.Consistent) (h : r.trace.Ordered Idle)
    (hsteps : s.trace.steps.toList = r.trace.steps.toList ++ more)
    (hsources : s.trace.sources = r.trace.sources)
    (hids : ∀ step ∈ more, ∀ id, step.id? = some id →
      ∃ place, r.trace.sourceOf? id = some place) : s.trace.Ordered Idle := by
  have hsame : ∀ a, s.trace.sourceOf? a = r.trace.sourceOf? a := fun a => by
    unfold Trace.sourceOf?
    rw [hsources]
  refine h.append hsteps (fun a place ha => (hsame a).trans ha)
    (fun a place ha => .inl ((hsame a).symm.trans ha)) fun step hstep id hid a hone hlt => ?_
  obtain ⟨place, hplace⟩ := hids step hstep id hid
  exact hr.sourceOf_le hplace hone (Nat.le_of_lt hlt)

/-- Steps under the id of a place that is visited keep the order. Without steps the place has
to be idle. -/
theorem ordered_visited (hr : r.Consistent) (h : r.trace.Ordered Idle) {location : Location}
    (hsteps : s.trace.steps.toList = r.trace.steps.toList ++ more)
    (hsources : s.trace.sources = (r.identified location).trace.sources)
    (hids : ∀ step ∈ more, step.id? = some (r.store.idAt location).1)
    (hidle : more = [] → Idle r.trace.length location) : s.trace.Ordered Idle := by
  have hcontinues := Continues.identified r location
  have hsame : ∀ a, s.trace.sourceOf? a = (r.identified location).trace.sourceOf? a := fun a => by
    unfold Trace.sourceOf?
    rw [hsources]
  have hother : ∀ a, a ≠ (r.store.idAt location).1 →
      (r.identified location).trace.sourceOf? a = r.trace.sourceOf? a := fun a ha => by
    change (r.trace.sources.insert (r.store.idAt location).1 location).find? a = _
    rw [SortedMap.find?_insert, if_neg ha]
    rfl
  have hgiven := sourceOf_identified r location
  refine h.append hsteps (fun a place ha => (hsame a).trans (hcontinues.sourceOf hr ha))
    (fun a place ha => ?_) fun step hstep id hid a hone hlt => ?_
  · rw [hsame a] at ha
    by_cases hid : a = (r.store.idAt location).1
    · -- The id has just come up, unless the place is idle.
      subst hid
      cases hgiven.symm.trans ha
      refine .inr ?_
      cases hmore : more with
      | nil =>
        refine .inr ⟨r.trace.length, ?_, hidle hmore⟩
        change _ ≤ s.trace.steps.toList.length
        rw [hsteps, List.length_append]
        exact Nat.le_add_right _ _
      | cons step others =>
        refine .inl ⟨r.trace.length, ?_, step, ?_, hids step (hmore ▸ List.mem_cons_self)⟩
        · change _ < s.trace.steps.toList.length
          rw [hsteps, hmore, List.length_append, List.length_cons]
          exact Nat.lt_add_of_pos_right (Nat.succ_pos _)
        · rw [hsteps, hmore]
          change (r.trace.steps.toList ++ step :: others)[r.trace.steps.toList.length]? = _
          simp
    · exact .inl ((hother a hid).symm.trans ha)
  · cases (hids step hstep).symm.trans hid
    obtain ⟨place, hplace⟩ := (hcontinues.consistent hr).sourceOf_le hgiven hone (Nat.le_of_lt hlt)
    exact ⟨place, (hother a (Nat.ne_of_lt hlt)).symm.trans hplace⟩

end Run

namespace Course

variable {Idle : Nat → Location → Prop} {calls : Nat} {r s : Run} {flow : Flow}

/-- A course only adds to the log. -/
theorem continues (h : Course Idle calls r flow s) : r.Continues s := by
  induction h with
  | done => exact .of_eq rfl rfl
  | seq _ _ ih ih' => exact ih.trans ih'
  | moved location => exact .movedTo _ location
  | bound bindings steps _ =>
    exact (Run.continues_boundAll _ bindings).trans (Run.continues_recordedAll _ steps)
  | visited location steps _ _ =>
    exact (Run.Continues.identified _ location).trans (Run.continues_recordedAll _ steps)
  | repeated step _ _ => exact .recorded _ step
  | defined f => exact .of_eq rfl rfl
  | nested _ _ ih => exact ((Run.Continues.entered _).trans ih).trans (.exited _)
  | gave location steps _ _ _ _ =>
    exact (Run.Continues.identified _ location).trans (Run.continues_recordedAll _ steps)
  | called f values location _ ih =>
    exact ((Run.continues_inside _ f values location).trans ih).trans
      (Run.continues_returned _ _ f location _)

/-- Along a course ids come up in order. -/
theorem ordered (h : Course Idle calls r flow s) (hr : r.Consistent)
    (ho : r.trace.Ordered Idle) : s.trace.Ordered Idle := by
  induction h with
  | done => exact ho
  | seq first _ ih ih' => exact ih' (first.continues.consistent hr) (ih hr ho)
  | moved location => exact ho
  | @bound _ r bindings steps shown =>
    have hsteps := Run.steps_recordedAll (r.boundAll bindings) steps
    have hsources := Run.sources_recordedAll (r.boundAll bindings) steps
    rw [Run.trace_boundAll] at hsteps hsources
    refine Run.ordered_repeated hr ho hsteps hsources fun step hstep id hid => ?_
    obtain ⟨target, text, rfl⟩ := shown step hstep
    cases hid
  | @visited _ r location steps shown idle =>
    exact Run.ordered_visited hr ho (Run.steps_recordedAll _ steps)
      (Run.sources_recordedAll _ steps) (fun step hstep => (shown step hstep).id) idle
  | @repeated _ r id location step known shown =>
    refine Run.ordered_repeated hr ho (Run.steps_recordedAll r [step]) rfl ?_
    intro other hother id' hid
    cases List.mem_singleton.mp hother
    cases shown.id.symm.trans hid
    exact ⟨location, known⟩
  | defined f => exact ho
  | nested _ _ ih => exact ih ((Run.Continues.entered _).consistent hr) ho
  | @gave _ r location steps value _ shown last =>
    refine Run.ordered_visited hr ho (Run.steps_recordedAll _ steps)
      (Run.sources_recordedAll _ steps) (fun step hstep => ?_) fun hnone => ?_
    · obtain ⟨text, highlight, rfl⟩ := shown step hstep
      rfl
    · obtain ⟨highlight, hlast⟩ := last
      rw [hnone] at hlast
      cases hlast
  | @called _ r last flow f values location body ih =>
    obtain ⟨signature, args, hinside⟩ := r.steps_inside f values location
    have hconsistent := (Run.continues_inside r f values location).consistent hr
    have hstarted : (r.inside f values location).trace.Ordered Idle :=
      Run.ordered_visited hr ho hinside rfl (List.forall_mem_singleton.mpr rfl) (by simp)
    refine Run.ordered_repeated (body.continues.consistent hconsistent) (ih hconsistent hstarted)
      (Run.steps_returned last r f location flow.value) rfl ?_
    intro step hstep id hid
    cases List.mem_singleton.mp hstep
    cases hid
    exact ⟨location, body.continues.sourceOf hconsistent (Run.sourceOf_identified r location)⟩

end Course

namespace Trace

/-- The index of the first step with an id. -/
def first? (trace : Trace) (id : Nat) : Option Nat :=
  trace.steps.toList.findIdx? fun step => step.id? == some id

variable {trace : Trace} {id index : Nat}

theorem exists_of_first? (h : trace.first? id = some index) :
    ∃ step, trace.steps.toList[index]? = some step ∧ step.id? = some id := by
  obtain ⟨hlt, hid, _⟩ := List.findIdx?_eq_some_iff_getElem.mp h
  exact ⟨_, List.getElem?_eq_getElem hlt, beq_iff_eq.mp hid⟩

theorem exists_first? {step : Step} (hstep : trace.steps.toList[index]? = some step)
    (hid : step.id? = some id) : ∃ first ≤ index, trace.first? id = some first := by
  cases hfirst : trace.first? id with
  | none =>
    have hnone := List.findIdx?_eq_none_iff.mp hfirst step (List.mem_of_getElem? hstep)
    rw [hid, beq_self_eq_true] at hnone
    cases hnone
  | some first =>
    obtain ⟨_, _, hbefore⟩ := List.findIdx?_eq_some_iff_getElem.mp hfirst
    refine ⟨first, Nat.le_of_not_lt fun hlt => ?_, rfl⟩
    obtain ⟨_, hget⟩ := List.getElem?_eq_some_iff.mp hstep
    exact hbefore index hlt (by rw [hget, hid]; exact beq_self_eq_true _)

end Trace

namespace Program

/-- The run of a program visits a place without a step when its log has a length. -/
def Idles (program : Program) (limits : Limits) (length : Nat) (location : Location) : Prop :=
  ∃ calls statement before, program.Reaches limits calls statement before ∧
    statement.Idles before location ∧ before.trace.length = length

variable {program : Program} {limits : Limits} {flow : Flow} {last : Run}

/-- The log of a run that succeeds is indexed. -/
theorem indexed (h : program.run limits = .ok flow last) : last.Indexed :=
  (closed_indexed.execAll limits.calls program).ok h (.start limits)

/-- The ids of a run that succeeds come up in order. -/
theorem ordered (h : program.run limits = .ok flow last) :
    last.trace.Ordered (program.Idles limits) := by
  have hcourse : Course (program.Idles limits) limits.calls (Run.start limits) flow last :=
    Program.course h fun calls statement before location hreach hidles =>
      ⟨calls, statement, before, hreach, hidles, rfl⟩
  refine hcourse.ordered (.start limits) ⟨fun id location hsource => ?_, ?_⟩
  · cases hsource
  · intro index step id hstep
    cases hstep

/-- Ids stand for different places. -/
theorem sourceOf_injective (h : program.run limits = .ok flow last) {id id' : Nat}
    {location : Location} (hid : last.trace.sourceOf? id = some location)
    (hid' : last.trace.sourceOf? id' = some location) : id = id' := by
  have hlast := (Stmt.execAll_continues h).consistent (Run.Consistent.start limits)
  have hplace : ∀ id, last.trace.sourceOf? id = some location →
      ∃ index, id = index + 1 ∧ last.store.places[index]? = some location := by
    intro id hid
    cases id with
    | zero =>
      rw [hlast.numbered] at hid
      cases hid
    | succ index => exact ⟨index, rfl, (hlast.sourced index).symm.trans hid⟩
  obtain ⟨index, rfl, hindex⟩ := hplace id hid
  obtain ⟨index', rfl, hindex'⟩ := hplace id' hid'
  have hlt := (List.getElem?_eq_some_iff.mp hindex).1
  have hsame := (List.getElem?_inj hlt (indexed h).distinct).mp (hindex.trans hindex'.symm)
  rw [hsame]

end Program

/-- Ids, the places they stand for and the log agree in every run that succeeds. Each step has
a place, and the log keeps to its limit. The ids count from one and stand for different places.
A step that has an id is emitted by a construct, and its id stands for the place of whatever
construct emits it, so that two steps from one place have the same id. Where an id comes up
first, all smaller ids have come up before, except for those of places that the run has visited
without a step until then, at a loop over an empty range or a print without arguments. -/
theorem ids_agree {program : Program} {limits : Limits} {trace : Trace}
    (h : program.trace limits = .ok trace) :
    trace.locations.size = trace.steps.size ∧ trace.steps.size ≤ limits.steps ∧
      (∃ k, trace.sources.entries.map Prod.fst = List.range' 1 k) ∧
      (∀ id id' location, trace.sourceOf? id = some location →
        trace.sourceOf? id' = some location → id = id') ∧
      (∀ index step id, trace.steps.toList[index]? = some step → step.id? = some id →
        (∃ location, program.Emits limits index step location) ∧
        ∀ location, program.Emits limits index step location →
          trace.sourceOf? id = some location) ∧
      (∀ i j step step' id id' location, trace.steps.toList[i]? = some step →
        trace.steps.toList[j]? = some step' → step.id? = some id → step'.id? = some id' →
        program.Emits limits i step location → program.Emits limits j step' location → id = id') ∧
      ∀ a b j, 1 ≤ a → a < b → trace.first? b = some j →
        (∃ i, trace.first? a = some i ∧ i < j) ∨
          ∃ length ≤ j, ∃ location, trace.sourceOf? a = some location ∧
            program.Idles limits length location := by
  obtain ⟨flow, last, hrun, rfl⟩ := Program.trace_ok.mp h
  have hlast := (Stmt.execAll_continues hrun).consistent (Run.Consistent.start limits)
  have hindexed := Program.indexed hrun
  have hlimit : last.trace.limit = limits.steps :=
    ((closed_steady.execAll limits.calls program).ok hrun).limit
  refine ⟨hlast.located, hlimit ▸ hindexed.fits, ⟨last.store.places.length, ?_⟩,
    fun _ _ _ => Program.sourceOf_injective hrun, ?_, ?_, ?_⟩
  · rw [hindexed.entries, map_fst_numbered]
  · intro index step id hstep hid
    exact ⟨Program.exists_emits hrun hstep hid,
      fun location hemits => hemits.sourceOf hrun hstep hid⟩
  · intro i j step step' id id' location hstep hstep' hid hid' hemits hemits'
    exact Program.sourceOf_injective hrun (hemits.sourceOf hrun hstep hid)
      (hemits'.sourceOf hrun hstep' hid')
  · intro a b j hone hlt hfirst
    obtain ⟨step, hstep, hid⟩ := Trace.exists_of_first? hfirst
    obtain ⟨location, hsource, hseen⟩ :=
      (Program.ordered hrun).smaller j step b hstep hid a hone hlt
    rcases hseen with ⟨i, hi, earlier, hearlier, ha⟩ | ⟨length, hlength, hidles⟩
    · obtain ⟨first, hle, hfirst⟩ := Trace.exists_first? hearlier ha
      exact .inl ⟨first, hfirst, Nat.lt_of_le_of_lt hle hi⟩
    · exact .inr ⟨length, hlength, location, hsource, hidles⟩

namespace Sample

/-- A loop inside another one, over a range that is empty in the first pass. -/
def emptyFirst : String :=
  "for i in range(2):\n    for j in range(i):\n        x = j\n    print(i)\n"

/-- The trace of the loops with the print of its first pass. -/
theorem trace_emptyFirst : ∃ trace, traceText emptyFirst {} = .ok trace ∧
    trace.first? 2 = some 3 ∧ trace.first? 3 = some 1 ∧
    trace.steps.toList[1]? = some (.print 3 1 "0" [0]) ∧ trace.sourceOf? 2 = some ⟨2, 5⟩ ∧
    trace.sourceOf? 3 = some ⟨4, 5⟩ := by
  have hseen : (traceText emptyFirst {}).toOption.map (fun trace =>
      (trace.first? 2, trace.first? 3, trace.steps.toList[1]?, trace.sourceOf? 2,
        trace.sourceOf? 3)) =
      some (some 3, some 1, some (.print 3 1 "0" [0]), some ⟨2, 5⟩, some ⟨4, 5⟩) := by
    decide +kernel
  obtain ⟨trace, htrace, hseen⟩ := Option.map_eq_some_iff.mp hseen
  simp only [Prod.mk.injEq] at hseen
  exact ⟨trace, except_toOption_some.mp htrace, hseen⟩

end Sample

/-- The print comes up before the inner loop, whose id is smaller. -/
theorem emptyFirst_overtaken : ∃ trace, traceText Sample.emptyFirst {} = .ok trace ∧
    trace.first? 2 = some 3 ∧ trace.first? 3 = some 1 := by
  obtain ⟨trace, htrace, hsecond, hthird, _⟩ := Sample.trace_emptyFirst
  exact ⟨trace, htrace, hsecond, hthird⟩

/-- The print is emitted where its id stands for, and the inner loop was idle before it. -/
theorem emptyFirst_agrees : ∃ program trace, Program.parse Sample.emptyFirst = .ok program ∧
    program.trace {} = .ok trace ∧ trace.first? 3 = some 1 ∧
    program.Emits {} 1 (.print 3 1 "0" [0]) ⟨4, 5⟩ ∧
    ∃ length ≤ 1, program.Idles {} length ⟨2, 5⟩ := by
  obtain ⟨trace, htext, hsecond, hthird, hstep, hsource, hsource'⟩ := Sample.trace_emptyFirst
  obtain ⟨program, hparse, htrace⟩ := traceText_ok htext
  obtain ⟨_, _, _, _, hsteps, _, horder⟩ := ids_agree htrace
  obtain ⟨⟨location, hemits⟩, hall⟩ := hsteps 1 _ 3 hstep rfl
  cases hsource'.symm.trans (hall location hemits)
  refine ⟨program, trace, hparse, htrace, hthird, hemits, ?_⟩
  rcases horder 2 3 1 (by decide) (by decide) hthird with
    ⟨i, hi, hlt⟩ | ⟨length, hle, place, hplace, hidles⟩
  · cases hsecond.symm.trans hi
    omega
  · cases hsource.symm.trans hplace
    exact ⟨length, hle, hidles⟩

end Walkthrough
