import Mathlib.Data.List.Basic
import Mathlib.Data.List.Induction
import Walkthrough.Proofs.ScopeChanges
import Walkthrough.Store

/-!
# The laws of the memory

The memory of a run takes requests in any order. After any of them what is visible is what can be
looked up, in the order of the names; a name that is set changes no other name; a function that
has returned has changed nothing outside; ids number the places in the order in which they were
first seen; and a request that fails changes nothing.
-/

namespace Walkthrough

namespace Store

open Scopes (Change Balanced)

/-- A request to the memory. -/
inductive Request where
  /-- A name gets a value. -/
  | set (name : String) (value : Value)
  /-- A level of nesting is entered. -/
  | enterScope
  /-- A level of nesting is left. -/
  | exitScope
  /-- A function starts with some local bindings. -/
  | pushFrame (locals : List (String × Value))
  /-- The innermost function ends. -/
  | popFrame
  /-- The id of a place is asked for. -/
  | idAt (location : Location)
  /-- A function is defined. -/
  | define (f : Procedure)

/-- What a request is answered with. -/
inductive Answer where
  /-- It is done. -/
  | done
  /-- The id that was asked for. -/
  | id (number : Nat)
  /-- It cannot be done. -/
  | failed (what : Unbalanced)
  deriving DecidableEq, Repr

/-- The answer to what may fail, and the memory after it or in which it failed. -/
def outcome : EStateM.Result Unbalanced Store Unit → Answer × Store
  | .ok _ later => (.done, later)
  | .error what stopped => (.failed what, stopped)

/-- The answer to a request and the memory after it. -/
def serve (s : Store) : Request → Answer × Store
  | .set name value => (.done, s.set name value)
  | .enterScope => (.done, s.enterScope)
  | .exitScope => outcome s.exitScope
  | .pushFrame locals => (.done, s.pushFrame (.ofList locals))
  | .popFrame => outcome s.popFrame
  | .idAt location => (.id (s.idAt location).1, (s.idAt location).2)
  | .define f => (.done, s.define f)

/-- The memory after some requests. -/
def serveAll (s : Store) (requests : List Request) : Store :=
  requests.foldl (fun s request => (s.serve request).2) s

/-- The answers to some requests, in order. -/
def answers (s : Store) : List Request → List Answer
  | [] => []
  | request :: others => (s.serve request).1 :: answers (s.serve request).2 others

@[simp] theorem serveAll_nil (s : Store) : s.serveAll [] = s := rfl

@[simp] theorem serveAll_cons (s : Store) (request : Request) (others : List Request) :
    s.serveAll (request :: others) = (s.serve request).2.serveAll others := rfl

/-- A request fails where the outermost level of nesting is left or where a function ends and none
runs. -/
theorem serve_eq_failed_iff {s : Store} {request : Request} {what : Unbalanced} :
    (s.serve request).1 = .failed what ↔
      (request = .exitScope ∧ s.depth = 0 ∧ what = .scope) ∨
        (request = .popFrame ∧ s.callDepth = 0 ∧ what = .frame) := by
  cases request with
  | exitScope =>
    by_cases h : s.depth = 0
    · simp [serve, exitScope, outcome, h, eq_comm]
    · simp [serve, exitScope, outcome, h]
  | popFrame =>
    by_cases h : s.scopes.frames = []
    · simp [serve, popFrame, outcome, callDepth, h, eq_comm]
    · simp [serve, popFrame, outcome, callDepth, h]
  | set | enterScope | pushFrame | idAt | define => simp [serve]

/-- A request that fails changes nothing. -/
theorem serve_of_failed {s : Store} {request : Request} {what : Unbalanced}
    (h : (s.serve request).1 = .failed what) : (s.serve request).2 = s := by
  rcases serve_eq_failed_iff.mp h with ⟨rfl, hdepth, -⟩ | ⟨rfl, hcalls, -⟩
  · simp [serve, exitScope, outcome, hdepth]
  · -- The frame was dropped before the failure was found, but there was none.
    have hframes : s.scopes.frames = [] := List.length_eq_zero_iff.mp hcalls
    simp [serve, popFrame, outcome, hframes, Scopes.pop_eq_self hframes]

/-- What a request does to the bindings. -/
def Request.change? : Request → Option (Change Value)
  | set name value => some (.bind name value)
  | pushFrame locals => some (.push locals)
  | popFrame => some .pop
  | _ => none

/-- A request changes the bindings as told, whether it fails or not. -/
theorem scopes_serve (s : Store) (request : Request) :
    (s.serve request).2.scopes = s.scopes.applyAll request.change?.toList := by
  cases request with
  | exitScope =>
    by_cases h : s.depth = 0
    · simp [serve, exitScope, outcome, Request.change?, h]
    · simp [serve, exitScope, outcome, Request.change?, h]
  | popFrame =>
    unfold serve popFrame
    dsimp only
    split <;> rfl
  | idAt location =>
    change (s.idAt location).2.scopes = s.scopes
    unfold idAt
    split <;> rfl
  | set | enterScope | pushFrame | define => rfl

/-- Requests change the bindings one after another. -/
theorem scopes_serveAll (s : Store) (requests : List Request) :
    (s.serveAll requests).scopes = s.scopes.applyAll (requests.filterMap Request.change?) := by
  induction requests generalizing s with
  | nil => rfl
  | cons request others ih =>
    rw [serveAll_cons, ih, scopes_serve, ← Scopes.applyAll_append]
    cases h : request.change? <;> simp [h]

/-- A name has a value if it is found with it. -/
theorem get_eq_ok_iff {s : Store} {name : String} {location : Location} {value : Value} :
    s.get name location = .ok value ↔ s.scopes.find? name = some value := by
  unfold get Scopes.get
  cases s.scopes.find? name <;> simp

/-- A name that is set has its value, and the other names have theirs. -/
theorem get_set (s : Store) (name : String) (value : Value) (other : String)
    (location : Location) :
    (s.set name value).get other location =
      if other = name then .ok value else s.get other location := by
  unfold get Scopes.get set
  rw [Scopes.find?_bind]
  by_cases h : other = name
  · rw [if_pos h, if_pos h]
  · rw [if_neg h, if_neg h]

/-- The place whose id a request asks for. -/
def Request.place? : Request → Option Location
  | idAt location => some location
  | _ => none

/-- The id that an answer gives. -/
def Answer.id? : Answer → Option Nat
  | id number => some number
  | _ => none

/-- The places seen so far with one that is seen now. -/
def sight (seen : List Location) (location : Location) : List Location :=
  if location ∈ seen then seen else seen ++ [location]

theorem mem_sight (seen : List Location) (location : Location) :
    location ∈ sight seen location := by
  unfold sight
  split
  · assumption
  · simp

theorem prefix_sight (seen : List Location) (location : Location) :
    seen <+: sight seen location := by
  unfold sight
  split
  · exact List.prefix_rfl
  · exact List.prefix_append seen [location]

/-- What was seen stays where it is. -/
theorem prefix_foldl_sight (seen asked : List Location) : seen <+: asked.foldl sight seen := by
  induction asked generalizing seen with
  | nil => exact List.prefix_rfl
  | cons location others ih => exact (prefix_sight seen location).trans (ih _)

/-- The places are seen in the order in which they are first asked for. -/
theorem foldl_sight (asked : List Location) : asked.foldl sight [] = asked.eraseDups := by
  induction asked using List.reverseRecOn with
  | nil => rfl
  | append_singleton earlier location ih =>
    rw [List.foldl_append, ih, List.foldl_cons, List.foldl_nil, sight, List.eraseDups_append]
    by_cases h : location ∈ earlier
    · simp [List.removeAll, h]
    · simp [List.removeAll, h, List.eraseDups_cons]

/-- The place that is asked for is seen, and its id is its number among the places. -/
theorem idAt_eq (s : Store) (location : Location) :
    s.idAt location = ((sight s.places location).idxOf location + 1,
      { s with places := sight s.places location }) := by
  unfold idAt sight
  cases h : s.places.idxOf? location with
  | none =>
    have hnew : location ∉ s.places := List.idxOf?_eq_none_iff.mp h
    simp [hnew, List.idxOf_append_of_notMem]
  | some index =>
    have hold : location ∈ s.places := by
      refine Decidable.byContradiction fun hnew => ?_
      cases h.symm.trans (List.idxOf?_eq_none_iff.mpr hnew)
    have hindex : s.places.idxOf location = index := by simp [List.idxOf_eq_getD_idxOf?, h]
    simp [hold, hindex]

/-- A request changes the places only if it asks for the id of one. -/
theorem places_serve (s : Store) (request : Request) :
    (s.serve request).2.places = request.place?.toList.foldl sight s.places := by
  cases request with
  | exitScope | popFrame =>
    simp only [serve, exitScope, popFrame]
    split <;> rfl
  | idAt location =>
    change (s.idAt location).2.places = _
    rw [idAt_eq]
    rfl
  | set | enterScope | pushFrame | define => rfl

theorem places_serveAll (s : Store) (requests : List Request) :
    (s.serveAll requests).places = (requests.filterMap Request.place?).foldl sight s.places := by
  induction requests generalizing s with
  | nil => rfl
  | cons request others ih =>
    rw [serveAll_cons, ih, places_serve, ← List.foldl_append]
    cases h : request.place? <;> simp [h]

/-- The id that is given is the number of its place among those seen then. -/
theorem id?_serve (s : Store) (request : Request) :
    (s.serve request).1.id? =
      request.place?.map fun location => (s.serve request).2.places.idxOf location + 1 := by
  cases request with
  | exitScope | popFrame =>
    simp only [serve, exitScope, popFrame]
    split <;> rfl
  | idAt location =>
    simp only [serve, idAt_eq]
    rfl
  | set | enterScope | pushFrame | define => rfl

/-- Each id that is given is the number of its place among those seen in the end. -/
theorem ids_answers (s : Store) (requests : List Request) :
    (s.answers requests).filterMap Answer.id? =
      (requests.filterMap Request.place?).map fun location =>
        (s.serveAll requests).places.idxOf location + 1 := by
  induction requests generalizing s with
  | nil => rfl
  | cons request others ih =>
    have hid := id?_serve s request
    rw [answers, serveAll_cons]
    cases hplace : request.place? with
    | none =>
      rw [hplace] at hid
      rw [List.filterMap_cons_none hid, List.filterMap_cons_none hplace, ih]
    | some location =>
      rw [hplace] at hid
      -- The place keeps its number, whatever is seen later.
      have hseen : location ∈ (s.serve request).2.places := by
        rw [places_serve, hplace]
        exact mem_sight s.places location
      have hprefix : (s.serve request).2.places <+:
          ((s.serve request).2.serveAll others).places := by
        rw [places_serveAll]
        exact prefix_foldl_sight _ _
      rw [List.filterMap_cons_some hid, List.filterMap_cons_some hplace, ih, List.map_cons,
        ← hprefix.idxOf_eq_of_mem hseen]

/-- The memory after some requests to a new one. -/
def after (requests : List Request) : Store := empty.serveAll requests

/-- The places whose ids some requests ask for, in order. -/
def asked (requests : List Request) : List Location := requests.filterMap Request.place?

/-- The ids that a new memory gives to some requests, in order. -/
def given (requests : List Request) : List Nat :=
  (empty.answers requests).filterMap Answer.id?

theorem after_append (requests others : List Request) :
    after (requests ++ others) = (after requests).serveAll others := List.foldl_append

theorem ordered_after (requests : List Request) : (after requests).scopes.Ordered := by
  rw [after, scopes_serveAll]
  exact Scopes.ordered_empty.applyAll _

/-- An id is the number of its place in the order in which places are first asked for. -/
theorem given_eq (requests : List Request) :
    given requests =
      (asked requests).map fun location => (asked requests).eraseDups.idxOf location + 1 := by
  have hplaces : (empty.serveAll requests).places = (asked requests).eraseDups := by
    rw [places_serveAll]
    exact foldl_sight (asked requests)
  rw [given, ids_answers, hplaces]
  rfl

/-- Ids are equal where the places are. -/
theorem given_eq_iff (requests : List Request) (i j : Nat) :
    (given requests)[i]? = (given requests)[j]? ↔ (asked requests)[i]? = (asked requests)[j]? := by
  rw [given_eq, List.getElem?_map, List.getElem?_map]
  cases hi : (asked requests)[i]? with
  | none => cases (asked requests)[j]? <;> simp
  | some location =>
    have hmem : location ∈ (asked requests).eraseDups :=
      List.mem_eraseDups.mpr (List.mem_of_getElem? hi)
    cases (asked requests)[j]? with
    | none => simp
    | some other => simp [List.idxOf_inj hmem]

/-- Inside a function that has not ended the frames outside are as they were. -/
theorem above_after (requests : List Request) (locals : List (String × Value))
    {inner : List Request} (h : Balanced (inner.filterMap Request.change?)) :
    Scopes.Above (after requests).scopes 1
      (after (requests ++ .pushFrame locals :: inner)).scopes := by
  rw [after_append, serveAll_cons, scopes_serveAll]
  have hpushed : Scopes.Above (after requests).scopes 1
      ((after requests).serve (.pushFrame locals)).2.scopes := ⟨rfl, [.ofList locals], rfl, rfl⟩
  exact hpushed.applyAll h

/-- The memory is a lawful store, whatever was requested before. What is visible is in the order of
the names and is what can be looked up. A name that is set has its value, and the others have
theirs. A function that starts, any requests that end no function but those they start, and its
end, which succeeds, leave all names as they were. Ids are equal exactly where the places are, and
number them in the order in which they are first asked for. A request fails only on the outermost
level or outside all functions, and then changes nothing. -/
theorem memory_is_lawful (requests : List Request) :
    (after requests).visible.Pairwise (fun a b => a.1 < b.1) ∧
    (∀ name value location, (name, value) ∈ (after requests).visible ↔
      (after requests).get name location = .ok value) ∧
    (∀ name value other location,
      (after (requests ++ [.set name value])).get other location =
        if other = name then .ok value else (after requests).get other location) ∧
    (∀ locals inner, Balanced (inner.filterMap Request.change?) →
      ((after (requests ++ .pushFrame locals :: inner)).serve .popFrame).1 = .done ∧
      ∀ name location,
        (after (requests ++ .pushFrame locals :: inner ++ [.popFrame])).get name location =
          (after requests).get name location) ∧
    (∀ i j : Nat, (given requests)[i]? = (given requests)[j]? ↔
      (asked requests)[i]? = (asked requests)[j]?) ∧
    given requests =
      (asked requests).map (fun location => (asked requests).eraseDups.idxOf location + 1) ∧
    (∀ request what, ((after requests).serve request).1 = .failed what ↔
      (request = .exitScope ∧ (after requests).depth = 0 ∧ what = .scope) ∨
        (request = .popFrame ∧ (after requests).callDepth = 0 ∧ what = .frame)) ∧
    (∀ request what, ((after requests).serve request).1 = .failed what →
      ((after requests).serve request).2 = after requests) := by
  have hordered := ordered_after requests
  refine ⟨hordered.visible, fun name value location => ?_, fun name value other location => ?_,
    fun locals inner hinner => ⟨?_, fun name location => ?_⟩, given_eq_iff requests,
    given_eq requests, fun _ _ => serve_eq_failed_iff, fun _ _ => serve_of_failed⟩
  · rw [get_eq_ok_iff]
    exact hordered.mem_visible_iff
  · rw [after_append]
    exact get_set (after requests) name value other location
  · obtain ⟨-, opened, hlength, hframes⟩ := above_after requests locals hinner
    have hsome : (after (requests ++ .pushFrame locals :: inner)).scopes.frames ≠ [] := by
      rw [hframes]
      exact List.append_ne_nil_of_left_ne_nil (List.ne_nil_of_length_eq_add_one hlength) _
    simp [serve, popFrame, outcome, hsome]
  · have hscopes : (after (requests ++ .pushFrame locals :: inner ++ [.popFrame])).scopes =
        (after requests).scopes := by
      rw [List.append_assoc, after_append, scopes_serveAll, List.filterMap_append]
      exact Scopes.applyAll_push_pop _ locals hinner
    unfold get
    rw [hscopes]

/-- Requests with a call in them, of which one fails. -/
def Sample.innerCall : List Request :=
  [.set "x" (.int 5), .exitScope, .pushFrame [("y", .int 3)], .set "x" (.int 7), .popFrame,
    .idAt ⟨2, 1⟩]

/-- A global name that a call and a call inside it bind again has its old value after them. -/
theorem innerCall_restores :
    Balanced (Sample.innerCall.filterMap Request.change?) ∧
    (after ([.set "x" (.int 1)] ++ .pushFrame [("x", .int 9)] :: Sample.innerCall)).get
      "x" .origin = .ok (.int 5) ∧
    (after ([.set "x" (.int 1)] ++
      .pushFrame [("x", .int 9)] :: Sample.innerCall ++ [.popFrame])).get
      "x" .origin = .ok (.int 1) := by
  have hinner : Balanced (Sample.innerCall.filterMap Request.change?) := by decide
  obtain ⟨-, -, -, hcalls, -⟩ := memory_is_lawful [.set "x" (.int 1)]
  have hrestored := (hcalls [("x", .int 9)] Sample.innerCall hinner).2 "x" .origin
  exact ⟨hinner, rfl, hrestored.trans rfl⟩

end Store

end Walkthrough
