import Walkthrough.Scopes

/-!
# Laws of maps and scopes

A later value for a key takes the place of an earlier one, values for different keys
may be given in either order, and a function applied to all values passes through
every operation.
-/

namespace Walkthrough

namespace SortedMap

variable {κ α β : Type} [DecidableEq κ] [LT κ] [DecidableLT κ]

/-- Of two values for one key the later one counts. -/
theorem insertEntry_insertEntry (key : κ) (u v : α) (entries : List (κ × α)) :
    insertEntry key v (insertEntry key u entries) = insertEntry key v entries := by
  induction entries with
  | nil => simp [insertEntry]
  | cons entry rest ih => grind [insertEntry]

/-- Two different keys may be given their values in either order. -/
theorem insertEntry_comm [LE κ] [Std.LawfulOrderLT κ] [Std.IsLinearOrder κ] {j k : κ}
    (h : j ≠ k) (u v : α) (entries : List (κ × α)) :
    insertEntry j u (insertEntry k v entries) = insertEntry k v (insertEntry j u entries) := by
  induction entries with
  | nil => grind [insertEntry]
  | cons entry rest ih => grind [insertEntry]

/-- A key has the value it was given last; the other keys keep theirs. -/
theorem find?_insert (m : SortedMap κ α) (key : κ) (value : α) (other : κ) :
    (m.insert key value).find? other = if other = key then some value else m.find? other := by
  unfold find? insert
  dsimp only
  induction m.entries with
  | nil => grind [insertEntry]
  | cons entry rest ih => grind [insertEntry]

/-- A function applied to all values passes through giving a key its value. -/
theorem map_insert (f : α → β) (m : SortedMap κ α) (key : κ) (value : α) :
    (m.insert key value).map f = (m.map f).insert key (f value) := by
  unfold map insert
  dsimp only
  congr 1
  induction m.entries with
  | nil => rfl
  | cons entry rest ih => grind [insertEntry]

/-- A function applied to all values passes through adding entries. -/
theorem map_insertAll (f : α → β) (m : SortedMap κ α) (entries : List (κ × α)) :
    (m.insertAll entries).map f =
      (m.map f).insertAll (entries.map fun entry => (entry.1, f entry.2)) := by
  unfold insertAll
  induction entries generalizing m with
  | nil => rfl
  | cons entry rest ih =>
    rw [List.foldl_cons, ih, map_insert]
    rfl

/-- A function applied to all values passes through making a map. -/
theorem map_ofList (f : α → β) (entries : List (κ × α)) :
    (ofList entries).map f = ofList (entries.map fun entry => (entry.1, f entry.2)) :=
  map_insertAll f empty entries

/-- A function applied to all values passes through joining maps. -/
theorem map_union (f : α → β) (m n : SortedMap κ α) :
    (m.union n).map f = (m.map f).union (n.map f) :=
  map_insertAll f m n.entries

end SortedMap

namespace Scopes

variable {α β : Type}

/-- The scopes with values for some names, bound in order. -/
def bindAll (s : Scopes α) (bindings : List (String × α)) : Scopes α :=
  bindings.foldl (fun s binding => s.bind binding.1 binding.2) s

@[simp] theorem bindAll_nil (s : Scopes α) : s.bindAll [] = s := rfl

@[simp] theorem bindAll_cons (s : Scopes α) (binding : String × α) (others : List (String × α)) :
    s.bindAll (binding :: others) = (s.bind binding.1 binding.2).bindAll others := rfl

theorem bindAll_append (s : Scopes α) (first second : List (String × α)) :
    s.bindAll (first ++ second) = (s.bindAll first).bindAll second := by
  simp [bindAll, List.foldl_append]

/-- Of two values for one name the later one counts. -/
theorem bind_bind (s : Scopes α) (name : String) (u v : α) :
    (s.bind name u).bind name v = s.bind name v := by
  obtain ⟨globals, frames⟩ := s
  cases frames <;> simp [bind, SortedMap.insert, SortedMap.insertEntry_insertEntry]

/-- Different names may be bound in either order. -/
theorem bind_comm (s : Scopes α) {name other : String} (h : name ≠ other) (u v : α) :
    (s.bind name u).bind other v = (s.bind other v).bind name u := by
  obtain ⟨globals, frames⟩ := s
  cases frames <;> simp [bind, SortedMap.insert, SortedMap.insertEntry_comm h]

/-- A value that is bound over later does not count. -/
theorem bindAll_bind_of_mem (s : Scopes α) {name : String} (u : α)
    {bindings : List (String × α)} (h : name ∈ bindings.map Prod.fst) :
    (s.bind name u).bindAll bindings = s.bindAll bindings := by
  induction bindings generalizing s with
  | nil => simp at h
  | cons binding others ih =>
    rw [bindAll_cons, bindAll_cons]
    by_cases hname : name = binding.1
    · rw [hname, bind_bind]
    · have hother : name ∈ others.map Prod.fst := by
        simpa [hname] using h
      rw [bind_comm s hname, ih _ hother]

/-- Bindings of names that are all bound over later do not count. -/
theorem bindAll_bindAll_of_subset (s : Scopes α) {first second : List (String × α)}
    (h : ∀ name ∈ first.map Prod.fst, name ∈ second.map Prod.fst) :
    (s.bindAll first).bindAll second = s.bindAll second := by
  induction first generalizing s with
  | nil => rfl
  | cons binding others ih =>
    have hhead : binding.1 ∈ second.map Prod.fst := h binding.1 (by simp)
    have htail : ∀ name ∈ others.map Prod.fst, name ∈ second.map Prod.fst := by
      intro name hmem
      exact h name (by simp [hmem])
    rw [bindAll_cons, ih _ htail, bindAll_bind_of_mem s binding.2 hhead]

/-- A function applied to all values passes through binding a name. -/
theorem map_bind (f : α → β) (s : Scopes α) (name : String) (value : α) :
    (s.bind name value).map f = (s.map f).bind name (f value) := by
  obtain ⟨globals, frames⟩ := s
  cases frames <;> simp [bind, map, SortedMap.map_insert]

/-- A function applied to all values passes through opening a frame. -/
theorem map_push (f : α → β) (s : Scopes α) (locals : SortedMap String α) :
    (s.push locals).map f = (s.map f).push (locals.map f) := rfl

/-- A function applied to all values passes through dropping a frame. -/
theorem map_pop (f : α → β) (s : Scopes α) : s.pop.map f = (s.map f).pop := by
  simp [pop, map, List.map_tail]

/-- A function applied to all values passes through looking at the visible bindings. -/
theorem visible_map (f : α → β) (s : Scopes α) : (s.map f).visible = s.visible.map f := by
  obtain ⟨globals, frames⟩ := s
  cases frames with
  | nil => rfl
  | cons frame outer => exact (SortedMap.map_union f globals frame).symm

end Scopes

end Walkthrough
