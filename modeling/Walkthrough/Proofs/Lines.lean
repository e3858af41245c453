import Walkthrough.Proofs.Emitters

/-!
# The lines of steps

A step is at the place where its run stood, which need not be that of the statement that
records it. It is in any case the place of a statement or of a construct of the program. So
it is the place of a token, and each step of a text that was traced is on a line of the text.
-/

namespace Walkthrough

open Lexeme Walk

/-- A place is that of one of some statements or constructs. -/
def Spot (statements : List Stmt) (emitters : List Emitter) (place : Location) : Prop :=
  (∃ s ∈ statements, s.location = place) ∨ ∃ c ∈ emitters, c.location = place

namespace Spot

variable {statements more : List Stmt} {emitters others : List Emitter} {place : Location}

/-- A place stays a spot when there are more statements and constructs. -/
theorem widen (h : Spot statements emitters place) (hstatements : statements ⊆ more)
    (hemitters : emitters ⊆ others) : Spot more others place := by
  rcases h with ⟨s, hs, heq⟩ | ⟨c, hc, heq⟩
  · exact .inl ⟨s, hstatements hs, heq⟩
  · exact .inr ⟨c, hemitters hc, heq⟩

theorem left (h : Spot statements emitters place) (more : List Stmt) (others : List Emitter) :
    Spot (statements ++ more) (emitters ++ others) place :=
  h.widen (List.subset_append_left _ _) (List.subset_append_left _ _)

theorem right (h : Spot statements emitters place) (more : List Stmt) (others : List Emitter) :
    Spot (more ++ statements) (others ++ emitters) place :=
  h.widen (List.subset_append_right _ _) (List.subset_append_right _ _)

/-- Spots are at places of the tokens of which their statements and constructs were made. -/
theorem mem_places {ts : List Lexeme} (h : Spot statements emitters place)
    (hplaced : Placed emitters statements ts) : place ∈ places ts := by
  rcases h with ⟨s, hs, rfl⟩ | ⟨c, hc, rfl⟩
  · exact hplaced.started s hs
  · exact List.Sublist.subset hplaced.inOrder (List.mem_map_of_mem hc)

end Spot

namespace Stmt

/-- The place of a statement is a spot of it. -/
theorem spot_location (statement : Stmt) :
    Spot statement.parts statement.emitters statement.location :=
  .inl ⟨statement, statement.mem_parts, rfl⟩

/-- The value of a statement comes to rest at the place of the statement or of a call. -/
theorem spot_rest (statement : Stmt) {e : Expr} (h : statement.value? = some e) :
    Spot statement.parts statement.emitters (e.rest statement.location) := by
  cases e with
  | call function args place =>
    rw [Expr.rest]
    split
    · exact statement.spot_location
    · exact .inr ⟨_, emitters_value h List.mem_cons_self, rfl⟩
  | _ => exact statement.spot_location

mutual

/-- A statement comes to rest at a spot of it. -/
theorem spot_rests (statement : Stmt) {place : Location} (h : place ∈ statement.rests) :
    Spot statement.parts statement.emitters place := by
  cases statement with
  | assign targets value location =>
    cases List.mem_singleton.mp h
    exact spot_rest (.assign targets value location) rfl
  | loop target iterable body location =>
    rcases List.mem_cons.mp h with rfl | hbody
    · exact spot_location _
    · rcases spot_restsAfter body hbody with rfl | hspot
      · exact spot_location _
      · exact hspot.widen (List.subset_cons_self _ _)
          (List.subset_cons_of_subset _ (List.subset_append_right _ _))
  | choose branches alternative location =>
    have hinside : place = location ∨ Spot (branchParts branches ++ otherwiseParts alternative)
        (branchEmitters branches ++ otherwiseEmitters alternative) place := by
      rcases List.mem_append.mp h with hbranch | hotherwise
      · exact (spot_branchRests branches hbranch).imp_right fun hspot => hspot.left _ _
      · exact (spot_otherwiseRests alternative hotherwise).imp_right fun hspot => hspot.right _ _
    rcases hinside with rfl | hspot
    · exact spot_location _
    · exact hspot.widen (List.subset_cons_self _ _) (List.Subset.refl _)
  | define name params body location =>
    cases List.mem_singleton.mp h
    exact spot_location _
  | giveBack value location => cases h
  | expression value location =>
    cases List.mem_singleton.mp h
    exact spot_rest (.expression value location) rfl

/-- Some statements come to rest where they started or at a spot of theirs. -/
theorem spot_restsAfter (body : List Stmt) {here place : Location}
    (h : place ∈ restsAfter body here) :
    place = here ∨ Spot (allParts body) (allEmitters body) place := by
  match body with
  | [] => exact .inl (List.mem_singleton.mp h)
  | [statement] => exact .inr ((spot_rests statement h).left _ _)
  | statement :: next :: others =>
    exact (spot_restsAfter (next :: others) h).imp_right fun hspot => hspot.right _ _

/-- Some branches come to rest where they started or at a spot of theirs. -/
theorem spot_branchRests (branches : List Branch) {here place : Location}
    (h : place ∈ branchRests branches here) :
    place = here ∨ Spot (branchParts branches) (branchEmitters branches) place := by
  match branches with
  | [] => cases h
  | .mk condition body location :: others =>
    have hinside : place = here ∨ Spot (allParts body ++ branchParts others)
        (allEmitters body ++ branchEmitters others) place := by
      rcases List.mem_append.mp h with hbody | hothers
      · exact (spot_restsAfter body hbody).imp_right fun hspot => hspot.left _ _
      · exact (spot_branchRests others hothers).imp_right fun hspot => hspot.right _ _
    refine hinside.imp_right fun hspot => hspot.widen (List.Subset.refl _) ?_
    rw [branchEmitters, List.append_assoc]
    exact List.subset_cons_of_subset _ (List.subset_append_right _ _)

/-- An alternative comes to rest where it started or at a spot of it. -/
theorem spot_otherwiseRests (alternative : Option Otherwise) {here place : Location}
    (h : place ∈ otherwiseRests alternative here) :
    place = here ∨ Spot (otherwiseParts alternative) (otherwiseEmitters alternative) place := by
  match alternative with
  | none => exact .inl (List.mem_singleton.mp h)
  | some (.mk body location) =>
    exact (spot_restsAfter body h).imp_right fun hspot =>
      hspot.widen (List.Subset.refl _) (List.subset_cons_self _ _)

end

/-- A step that a statement records itself is at a spot of the statement. -/
theorem RecordsItself.spot {calls index : Nat} {statement : Stmt} {before after : Run}
    (h : statement.RecordsItself calls before after index) (hbefore : before.Consistent) :
    ∃ step place, after.HasStep index step place ∧
      Spot statement.parts statement.emitters place := by
  obtain ⟨step, place, hhas, hexplains, haccounts⟩ := h.accounted hbefore
  refine ⟨step, place, hhas, ?_⟩
  cases step with
  | endCall id depth name value =>
    obtain ⟨location, hemits, hsource⟩ := haccounts id rfl
    cases hsource.symm.trans hexplains
    obtain ⟨c, hc, hplace, _⟩ := hemits.exists_emitter
    exact .inr ⟨c, hc, hplace⟩
  | assigned depth target expr =>
    obtain ⟨targets, value, location, rfl, rfl⟩ := hexplains
    exact spot_rest (.assign targets value location) rfl
  | giveBack id depth expr highlight =>
    obtain ⟨value, location, rfl, _, rfl⟩ := hexplains
    cases value with
    | none => exact spot_location (.giveBack none location)
    | some e => exact spot_rest (.giveBack (some e) location) rfl
  | pass id depth counter highlight =>
    obtain ⟨target, iterable, body, location, rfl, _, hfirst, hlater⟩ := hexplains
    by_cases hat : counter.current = counter.start
    · rw [hfirst hat]
      exact spot_location (.loop target iterable body location)
    · exact spot_rests (.loop target iterable body location)
        (List.mem_cons_of_mem _ (hlater hat))
  | _ =>
    cases hexplains
    exact statement.spot_location

end Stmt

namespace Program

variable {text : String} {program : Program} {limits : Limits} {flow : Flow} {last : Run}

/-- Each step of a run that succeeds is at the place of a statement or of a construct of the
program. -/
theorem spot_step (h : program.run limits = .ok flow last) {index : Nat}
    (hindex : index < last.trace.length) :
    ∃ place, last.trace.locationOf? index = some place ∧
      Spot (Stmt.allParts program) program.emitters place := by
  obtain ⟨calls, statement, before, after, hreach, hitself⟩ := exists_recordsItself h hindex
  obtain ⟨⟨_, hended⟩, _, _⟩ := hitself.recorded
  have hbefore := (Stmt.reaches_continues hreach).consistent (Run.Consistent.start limits)
  have hlast := Stmt.reaches_ended hreach h hended
  obtain ⟨step, place, hhas, hspot⟩ := hitself.spot hbefore
  have hparts := (Stmt.reaches_keep hreach (List.Subset.refl _) (.start limits)).1
  have hemitters := Stmt.emitters_subset_of_mem_allParts hreach.mem_parts
  exact ⟨place, (hhas.later hlast).2, hspot.widen hparts hemitters⟩

/-- Each step of a text that was traced is on a line of the text. -/
theorem line_step (hparse : parse text = .ok program) (h : program.run limits = .ok flow last)
    {index : Nat} (hindex : index < last.trace.length) :
    ∃ place, last.trace.locationOf? index = some place ∧ 1 ≤ place.line ∧
      place.line ≤ (Text.lines text.toList).length := by
  obtain ⟨place, hplace, hspot⟩ := spot_step h hindex
  obtain ⟨ts, hscan, hplaced⟩ := placed_parse hparse
  exact ⟨place, hplace, onLine_places hscan (hspot.mem_places hplaced)⟩

end Program

end Walkthrough
