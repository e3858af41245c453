import Walkthrough.SortedMap

/-!
# Scoped bindings

Names are bound in the innermost frame of a running function, or globally where
none runs. A name is looked up in the innermost frame and then globally, never in
the frames between. The running program keeps values in such scopes, and the
replay of a trace keeps their texts.
-/

namespace Walkthrough

/-- Global bindings and those of the running functions. -/
structure Scopes (α : Type) where
  /-- The bindings outside every function. -/
  globals : SortedMap String α
  /-- The bindings of the running functions, innermost first. -/
  frames : List (SortedMap String α)

namespace Scopes

variable {α β : Type}

/-- No bindings. -/
def empty : Scopes α := ⟨.empty, []⟩

instance : Inhabited (Scopes α) := ⟨empty⟩

/-- The value of a name. -/
def find? (s : Scopes α) (name : String) : Option α :=
  (s.frames.head?.bind (·.find? name)).or (s.globals.find? name)

/-- The scopes with a value for a name in the innermost frame. -/
def bind (s : Scopes α) (name : String) (value : α) : Scopes α :=
  match s.frames with
  | [] => { s with globals := s.globals.insert name value }
  | frame :: outer => { s with frames := frame.insert name value :: outer }

/-- The scopes with a frame of its own for a function. -/
def push (s : Scopes α) (locals : SortedMap String α) : Scopes α :=
  { s with frames := locals :: s.frames }

/-- The scopes without the innermost frame. Where no function runs nothing
changes. -/
def pop (s : Scopes α) : Scopes α := { s with frames := s.frames.tail }

theorem pop_eq_self {s : Scopes α} (h : s.frames = []) : s.pop = s := by
  rw [pop, h, List.tail_nil, ← h]

/-- The bindings seen from the innermost frame. -/
def visible (s : Scopes α) : SortedMap String α :=
  match s.frames with
  | [] => s.globals
  | frame :: _ => s.globals.union frame

/-- The scopes with a function applied to each value. -/
def map (f : α → β) (s : Scopes α) : Scopes β :=
  ⟨s.globals.map f, s.frames.map (·.map f)⟩

end Scopes

end Walkthrough
