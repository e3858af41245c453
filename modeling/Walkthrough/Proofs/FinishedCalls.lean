import Walkthrough.Proofs.ScopeChanges
import Walkthrough.Trace

/-!
# Calls that have ended leave no trace in the bindings

The bindings after some steps are rebuilt from the steps alone. A call opens a frame of its own and
its end drops it, so the steps of a call that has ended might as well be missing, in any list of
steps, whether a run has recorded it or not.
-/

namespace Walkthrough

open Scopes (Change Balanced)

namespace Step

/-- What the replay of a step does to the bindings. -/
def change? : Step → Option (Change String)
  | assigned _ target expr => some (.bind target expr)
  | pass _ _ counter _ => some (.bind counter.target (counter.fieldText .current))
  | call _ _ _ _ args => some (.push (args.map fun arg => (arg.name, arg.value)))
  | endCall .. => some .pop
  | _ => none

/-- The changes of the bindings by some steps. -/
def changes (steps : List Step) : List (Change String) := steps.filterMap change?

theorem changes_append (first second : List Step) :
    changes (first ++ second) = changes first ++ changes second := List.filterMap_append

theorem replay_eq (scopes : Scopes String) (step : Step) :
    replay scopes step = scopes.applyAll step.change?.toList := by
  cases step <;> rfl

/-- Steps are replayed by their changes. -/
theorem foldl_replay (scopes : Scopes String) (steps : List Step) :
    steps.foldl replay scopes = scopes.applyAll (changes steps) := by
  induction steps generalizing scopes with
  | nil => rfl
  | cons step others ih =>
    rw [List.foldl_cons, ih, replay_eq, ← Scopes.applyAll_append, changes, changes]
    cases h : step.change? <;> simp [h]

theorem replayAll_eq (steps : List Step) :
    replayAll steps = Scopes.empty.applyAll (changes steps) :=
  foldl_replay .empty steps

/-- The steps of one call that has ended: its start, any steps and calls that have ended between,
and its end. -/
inductive FinishedCall : List Step → Prop where
  | mk (id depth : Nat) (name signature : String) (args : List Argument) (inner : List Step)
    (id' depth' : Nat) (name' value : String) (balanced : Balanced (changes inner)) :
    FinishedCall (call id depth name signature args :: inner ++ [endCall id' depth' name' value])

/-- A call that has ended leaves the bindings as they were. -/
theorem FinishedCall.applyAll {steps : List Step} (h : FinishedCall steps)
    (scopes : Scopes String) : scopes.applyAll (changes steps) = scopes := by
  obtain ⟨_, _, _, _, _, _, _, _, _, _, balanced⟩ := h
  rw [changes_append]
  exact Scopes.applyAll_push_pop scopes _ balanced

end Step

namespace Trace

/-- The bindings are in the order of the names. -/
theorem pairwise_bindingsAfter (t : Trace) (count : Nat) :
    (t.bindingsAfter count).Pairwise (fun a b => a.1 < b.1) := by
  rw [bindingsAfter, Step.replayAll_eq]
  exact (Scopes.ordered_empty.applyAll _).visible

end Trace

namespace Sample

/-- Steps before a call, with the end of a call that did not start. -/
def earlierSteps : List Step :=
  [.assigned 0 "x" "1", .endCall 1 0 "g" "None", .call 2 0 "f" "f(a)" [⟨"a", "2"⟩]]

/-- A call that binds the names around it again, in a loop and in a call of its own. -/
def wholeCall : List Step :=
  [.call 3 1 "h" "h(a, a)" [⟨"a", "3"⟩, ⟨"a", "4"⟩], .pass 4 2 ⟨"x", 0, 0, 5, 1⟩ [],
    .call 5 3 "h" "h(x)" [⟨"x", "6"⟩], .assigned 4 "x" "7", .endCall 5 3 "h" "None",
    .endCall 3 1 "h" "None"]

/-- Steps after it. -/
def laterSteps : List Step := [.assigned 1 "b" "x", .print 6 1 "b" []]

/-- A log of one step. -/
def oneStep : Trace := ⟨10, #[.assigned 0 "a" "1"], #[.origin], .empty⟩

end Sample

end Walkthrough
