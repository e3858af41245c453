/-!
# Loop counters

A counter runs through a range from its start by its step, up to but not including
its stop. Counting stops at the ends of the 64-bit numbers; a counter there is no
longer in range, so each pass brings the stop nearer.
-/

namespace Walkthrough

/-- The parts of a counter. -/
inductive CounterField where
  | target
  | current
  | start
  | stop
  | step
  deriving DecidableEq, Repr

namespace CounterField

/-- All parts, in the order in which they are shown. -/
def all : List CounterField := [target, current, start, stop, step]

/-- The name of a part. -/
def name : CounterField → String
  | target => "target"
  | current => "cur"
  | start => "start"
  | stop => "end"
  | step => "step"

/-- The part with a name. -/
def ofName? (text : String) : Option CounterField := all.find? fun field => field.name = text

end CounterField

/-- The state of a loop over a range in one pass. -/
structure Counter where
  /-- The loop variable. -/
  target : String
  /-- Its value in this pass. -/
  current : Int64
  /-- Its value in the first pass. -/
  start : Int64
  /-- The value that is not reached. -/
  stop : Int64
  /-- The difference between two passes. -/
  step : Int64
  deriving DecidableEq, Repr

namespace Counter

/-- The counter before its first pass. -/
def init (target : String) (start stop step : Int64) : Counter := ⟨target, start, start, stop, step⟩

/-- The parts that differ from the pass before: all of them in the first pass. -/
def changed (c : Counter) : List CounterField :=
  if c.current = c.start then CounterField.all else [.current]

/-- The counter at another value. -/
def withCurrent (c : Counter) (current : Int64) : Counter := { c with current }

/-- The counter of the next pass. -/
def next (c : Counter) : Counter :=
  c.withCurrent (Int64.ofIntClamp (c.current.toInt + c.step.toInt))

/-- Whether the counter has not reached its stop. -/
def inRange (c : Counter) : Bool :=
  if 0 < c.step.toInt then c.current.toInt < c.stop.toInt
  else if c.step.toInt < 0 then c.stop.toInt < c.current.toInt
  else false

/-- How far the counter is from its stop. -/
def distance (c : Counter) : Nat :=
  if 0 < c.step.toInt then (c.stop.toInt - c.current.toInt).toNat
  else (c.current.toInt - c.stop.toInt).toNat

/-- The text of a part. -/
def fieldText (c : Counter) : CounterField → String
  | .target => c.target
  | .current => toString c.current.toInt
  | .start => toString c.start.toInt
  | .stop => toString c.stop.toInt
  | .step => toString c.step.toInt

/-- Clamping keeps an integer of 64 bits and moves any other to the nearer end. -/
theorem toInt_clamp (n : Int) :
    (Int64.ofIntClamp n).toInt = max Int64.minValue.toInt (min n Int64.maxValue.toInt) := by
  have order : Int64.minValue.toInt ≤ Int64.maxValue.toInt := by decide
  by_cases low : Int64.minValue.toInt ≤ n
  · by_cases high : n ≤ Int64.maxValue.toInt
    · rw [Int64.toInt_ofIntClamp low high]
      omega
    · unfold Int64.ofIntClamp
      rw [dif_pos low, dif_neg high]
      omega
  · unfold Int64.ofIntClamp
    rw [dif_neg low]
    omega

/-- Each pass brings the counter nearer to its stop. -/
theorem distance_next_lt {c : Counter} (h : c.inRange = true) : c.next.distance < c.distance := by
  have := c.stop.toInt_le
  have := c.stop.minValue_le_toInt
  unfold inRange at h
  unfold next distance withCurrent
  dsimp only
  rw [toInt_clamp]
  split at h
  · simp only [decide_eq_true_eq] at h
    split <;> omega
  · split at h
    · simp only [decide_eq_true_eq] at h
      split <;> omega
    · cases h

end Counter

end Walkthrough
