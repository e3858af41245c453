/-!
# Finite maps in the order of their keys

A map is a list of keys with their values, in increasing order of the keys. A new
value for a key takes the place of the old one.
-/

namespace Walkthrough

/-- A finite map. -/
structure SortedMap (κ α : Type) where
  /-- The keys with their values, in increasing order of the keys. -/
  entries : List (κ × α)
  deriving DecidableEq, Repr

namespace SortedMap

variable {κ α β : Type} [DecidableEq κ] [LT κ] [DecidableLT κ]

/-- The map without keys. -/
def empty : SortedMap κ α := ⟨[]⟩

instance : Inhabited (SortedMap κ α) := ⟨empty⟩

/-- A list of entries with one more entry at its place, or in place of the one with
the same key. -/
def insertEntry (key : κ) (value : α) : List (κ × α) → List (κ × α)
  | [] => [(key, value)]
  | (k, v) :: rest =>
    if key = k then (key, value) :: rest
    else if key < k then (key, value) :: (k, v) :: rest
    else (k, v) :: insertEntry key value rest

/-- The map with a value for a key. -/
def insert (m : SortedMap κ α) (key : κ) (value : α) : SortedMap κ α :=
  ⟨insertEntry key value m.entries⟩

/-- The value of a key. -/
def find? (m : SortedMap κ α) (key : κ) : Option α := m.entries.lookup key

/-- The map with all given entries. Of several for one key the last one counts. -/
def insertAll (m : SortedMap κ α) (entries : List (κ × α)) : SortedMap κ α :=
  entries.foldl (fun m entry => m.insert entry.1 entry.2) m

/-- The map of the given entries. Of several for one key the last one counts. -/
def ofList (entries : List (κ × α)) : SortedMap κ α := empty.insertAll entries

/-- The first map with the entries of the second, which win. -/
def union (m n : SortedMap κ α) : SortedMap κ α := m.insertAll n.entries

omit [DecidableEq κ] [LT κ] [DecidableLT κ] in
/-- The map with a function applied to each value. -/
def map (f : α → β) (m : SortedMap κ α) : SortedMap κ β :=
  ⟨m.entries.map fun entry => (entry.1, f entry.2)⟩

end SortedMap

end Walkthrough
