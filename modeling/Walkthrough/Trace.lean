import Walkthrough.Fault
import Walkthrough.Scopes
import Walkthrough.Step

/-!
# Traces

A trace is the bounded log of a run: its steps, the place of the statement behind
each step, and the place of each id. The bindings at any step can be rebuilt from
the log alone.
-/

namespace Walkthrough

/-- The log of a run. -/
structure Trace where
  /-- The largest number of steps. -/
  limit : Nat
  /-- The steps, in order. -/
  steps : Array Step
  /-- The place of the statement behind each step. -/
  locations : Array Location
  /-- The place of the construct of each id. -/
  sources : SortedMap Nat Location

namespace Trace

/-- The log without steps. -/
def empty (limit : Nat) : Trace := ⟨limit, #[], #[], .empty⟩

/-- The number of steps. -/
def length (t : Trace) : Nat := t.steps.size

/-- Whether the log holds no further step. -/
def isFull (t : Trace) : Bool := t.limit ≤ t.length

/-- The log with one more step, whether it is full or not. -/
def append (t : Trace) (step : Step) (location : Location) : Trace :=
  { t with steps := t.steps.push step, locations := t.locations.push location }

/-- The log with one more step, as long as it is not full. -/
def push (t : Trace) (step : Step) (location : Location) : EStateM.Result Fault Trace Unit :=
  if t.isFull then .error (.stepLimit t.limit) t else .ok () (t.append step location)

/-- The log with the place of an id. -/
def record (t : Trace) (id : Nat) (location : Location) : Trace :=
  { t with sources := t.sources.insert id location }

/-- The place of the statement behind a step. -/
def locationOf? (t : Trace) (index : Nat) : Option Location := t.locations[index]?

/-- The place of the construct of an id. -/
def sourceOf? (t : Trace) (id : Nat) : Option Location := t.sources.find? id

/-- A place as data. -/
def placeData (location : Location) : Json :=
  .obj [("line", .nat location.line), ("column", .nat location.column)]

/-- A trace as data. -/
def data (t : Trace) : Json :=
  .obj [("steps", .arr (t.steps.toList.map Step.data)),
    ("locations", .arr (t.locations.toList.map placeData)),
    ("sources", .obj (t.sources.entries.map fun (id, location) =>
      (toString id, placeData location)))]

end Trace

namespace Step

/-- The bindings after a step. A variable and a pass of a loop bind a name, a call
opens a frame with its arguments, and its end drops that frame. -/
def replay (scopes : Scopes String) : Step → Scopes String
  | assigned _ target expr => scopes.bind target expr
  | pass _ _ counter _ => scopes.bind counter.target (counter.fieldText .current)
  | call _ _ _ _ args => scopes.push (.ofList (args.map fun arg => (arg.name, arg.value)))
  | endCall .. => scopes.pop
  | _ => scopes

/-- The bindings after some steps. -/
def replayAll (steps : List Step) : Scopes String := steps.foldl replay .empty

end Step

/-- The bindings as they stood after so many steps, by name. -/
def Trace.bindingsAfter (t : Trace) (count : Nat) : List (String × String) :=
  (Step.replayAll (t.steps.toList.take count)).visible.entries

/-- The bindings as they stood after the step of an index, by name. The steps up to it are
counted in 64 bits, so at the largest index the count is zero again. -/
def Trace.bindingsAt (t : Trace) (index : UInt64) : List (String × String) :=
  t.bindingsAfter (index + 1).toNat

namespace Trace

/-- The largest index. -/
def largestIndex : UInt64 := 18446744073709551615

/-- After all steps the bindings stay the same. -/
theorem bindingsAfter_of_length_le {t : Trace} {count : Nat} (h : t.length ≤ count) :
    t.bindingsAfter count = (Step.replayAll t.steps.toList).visible.entries := by
  have hall : t.steps.toList.length ≤ count := h
  rw [bindingsAfter, List.take_of_length_le hall]

/-- Up to any index but the largest there is one step more than the index tells. -/
theorem bindingsAt_of_ne {index : UInt64} (h : index ≠ largestIndex) (t : Trace) :
    t.bindingsAt index = t.bindingsAfter (index.toNat + 1) := by
  have hsmaller : index.toNat < 18446744073709551615 := by
    have hbound := index.toNat_lt
    have hne : index.toNat ≠ largestIndex.toNat := fun heq => h (UInt64.toNat_inj.mp heq)
    have hlargest : largestIndex.toNat = 18446744073709551615 := rfl
    omega
  rw [bindingsAt, UInt64.toNat_add, UInt64.toNat_one, Nat.mod_eq_of_lt (by omega)]

/-- Up to the largest index there is no step. -/
theorem bindingsAt_largestIndex (t : Trace) : t.bindingsAt largestIndex = [] := rfl

end Trace

end Walkthrough
