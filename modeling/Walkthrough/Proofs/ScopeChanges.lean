import Walkthrough.Proofs.Maps

/-!
# Changes of scopes

A map that is built by giving keys their values is in the order of its keys, and its entries are
what is found in it. So the bindings seen from the innermost frame are the names that can be
looked up, in order, each with its value.

The running program and the replay of its log change their scopes in three ways: they bind a name,
open a frame and drop a frame. Changes that drop no frame but those they have opened leave
everything below alone.
-/

namespace Walkthrough

namespace SortedMap

variable {κ α : Type} [DecidableEq κ] [LT κ] [DecidableLT κ]

omit [DecidableEq κ] [DecidableLT κ] in
/-- The keys of a map are strictly increasing. -/
def Ordered (m : SortedMap κ α) : Prop := m.entries.Pairwise (fun a b => a.1 < b.1)

omit [DecidableEq κ] [DecidableLT κ] in
theorem ordered_empty : (empty : SortedMap κ α).Ordered := List.Pairwise.nil

/-- The entries after giving a key its value are the new one and some of the old ones. -/
theorem mem_insertEntry {key : κ} {value : α} {entries : List (κ × α)} {entry : κ × α}
    (h : entry ∈ insertEntry key value entries) : entry = (key, value) ∨ entry ∈ entries := by
  induction entries with
  | nil => exact .inl (List.mem_singleton.mp h)
  | cons head rest ih => grind [insertEntry]

section LawfulOrder

variable [LE κ] [Std.LawfulOrderLT κ]

omit [DecidableLT κ] in
/-- A key that is smaller than all others is none of them. -/
theorem lookup_eq_none_of_lt {entries : List (κ × α)} {key : κ}
    (h : ∀ entry ∈ entries, key < entry.1) : entries.lookup key = none := by
  refine List.lookup_eq_none_iff.mpr fun entry hentry => bne_iff_ne.mpr fun heq => ?_
  exact Std.lt_irrefl (heq ▸ h entry hentry)

omit [DecidableLT κ] in
/-- In a map in order each key has one value, which is the one that is found. -/
theorem Ordered.mem_entries_iff {m : SortedMap κ α} (h : m.Ordered) {key : κ} {value : α} :
    (key, value) ∈ m.entries ↔ m.find? key = some value := by
  obtain ⟨entries⟩ := m
  change _ ↔ entries.lookup key = some value
  induction entries with
  | nil => simp
  | cons head rest ih =>
    obtain ⟨k, v⟩ := head
    obtain ⟨hhead, hrest⟩ := List.pairwise_cons.mp h
    rw [List.mem_cons, ih hrest, List.lookup_cons]
    by_cases hkey : key = k
    · subst hkey
      simp [lookup_eq_none_of_lt hhead, eq_comm]
    · rw [beq_false_of_ne hkey]
      simp [hkey]

/-- Of the entries that are added to a map each key finds its own, and else what it found before. -/
theorem find?_insertAll {entries : List (κ × α)} (h : entries.Pairwise (fun a b => a.1 < b.1))
    (m : SortedMap κ α) (key : κ) :
    (m.insertAll entries).find? key = (entries.lookup key).or (m.find? key) := by
  induction entries generalizing m with
  | nil => rfl
  | cons head rest ih =>
    obtain ⟨k, v⟩ := head
    obtain ⟨hhead, hrest⟩ := List.pairwise_cons.mp h
    change ((m.insert k v).insertAll rest).find? key = _
    rw [ih hrest, find?_insert, List.lookup_cons]
    by_cases hkey : key = k
    · subst hkey
      simp [lookup_eq_none_of_lt hhead]
    · rw [beq_false_of_ne hkey]
      simp [hkey]

variable [Std.IsLinearOrder κ]

/-- Giving a key its value keeps the keys in order. -/
theorem Ordered.insert {m : SortedMap κ α} (h : m.Ordered) (key : κ) (value : α) :
    (m.insert key value).Ordered := by
  obtain ⟨entries⟩ := m
  change (insertEntry key value entries).Pairwise _
  induction entries with
  | nil => exact List.pairwise_singleton _ _
  | cons head rest ih =>
    obtain ⟨k, v⟩ := head
    obtain ⟨hhead, hrest⟩ := List.pairwise_cons.mp h
    rw [insertEntry]
    split
    · next heq => exact List.pairwise_cons.mpr ⟨fun entry hentry => heq ▸ hhead entry hentry, hrest⟩
    · next hne =>
      split
      · next hlt =>
        refine List.pairwise_cons.mpr ⟨fun entry hentry => ?_, h⟩
        rcases List.mem_cons.mp hentry with rfl | hentry
        · exact hlt
        · exact Std.lt_trans hlt (hhead entry hentry)
      · next hnlt =>
        refine List.pairwise_cons.mpr ⟨fun entry hentry => ?_, ih hrest⟩
        rcases mem_insertEntry hentry with rfl | hentry
        · exact Std.lt_of_le_of_ne (Std.not_lt.mp hnlt) (Ne.symm hne)
        · exact hhead entry hentry

/-- Adding entries keeps the keys in order. -/
theorem Ordered.insertAll {m : SortedMap κ α} (h : m.Ordered) (entries : List (κ × α)) :
    (m.insertAll entries).Ordered := by
  induction entries generalizing m with
  | nil => exact h
  | cons entry rest ih => exact ih (h.insert entry.1 entry.2)

theorem ordered_ofList (entries : List (κ × α)) : (ofList entries).Ordered :=
  ordered_empty.insertAll entries

end LawfulOrder

end SortedMap

namespace Scopes

variable {α : Type}

/-- All maps of the scopes are in order. -/
structure Ordered (s : Scopes α) : Prop where
  globals : s.globals.Ordered
  frames : ∀ frame ∈ s.frames, frame.Ordered

theorem ordered_empty : (empty : Scopes α).Ordered := ⟨SortedMap.ordered_empty, by simp [empty]⟩

/-- The visible bindings are in order. -/
theorem Ordered.visible {s : Scopes α} (h : s.Ordered) : s.visible.Ordered := by
  obtain ⟨globals, frames⟩ := s
  cases frames with
  | nil => exact h.globals
  | cons frame outer => exact h.globals.insertAll frame.entries

/-- A name is found with the value that is visible. -/
theorem Ordered.find?_visible {s : Scopes α} (h : s.Ordered) (name : String) :
    s.visible.find? name = s.find? name := by
  obtain ⟨globals, frames⟩ := s
  cases frames with
  | nil => rfl
  | cons frame outer =>
    exact SortedMap.find?_insertAll (h.frames frame List.mem_cons_self) globals name

/-- The visible bindings are those that can be looked up. -/
theorem Ordered.mem_visible_iff {s : Scopes α} (h : s.Ordered) {name : String} {value : α} :
    (name, value) ∈ s.visible.entries ↔ s.find? name = some value := by
  rw [h.visible.mem_entries_iff, h.find?_visible]

/-- A name that is bound is found with its value, and the other names as before. -/
theorem find?_bind (s : Scopes α) (name : String) (value : α) (other : String) :
    (s.bind name value).find? other = if other = name then some value else s.find? other := by
  obtain ⟨globals, frames⟩ := s
  cases frames with
  | nil => simp [bind, find?, SortedMap.find?_insert]
  | cons frame outer =>
    by_cases h : other = name
    · simp [bind, find?, SortedMap.find?_insert, h]
    · simp [bind, find?, SortedMap.find?_insert, h]

/-- A change of scopes. -/
inductive Change (α : Type) where
  /-- A name gets a value in the innermost frame. -/
  | bind (name : String) (value : α)
  /-- A frame is opened with some bindings. -/
  | push (locals : List (String × α))
  /-- The innermost frame is dropped. -/
  | pop
  deriving DecidableEq, Repr

/-- The scopes after a change. -/
def apply (s : Scopes α) : Change α → Scopes α
  | .bind name value => s.bind name value
  | .push locals => s.push (.ofList locals)
  | .pop => s.pop

/-- The scopes after some changes. -/
def applyAll (s : Scopes α) (changes : List (Change α)) : Scopes α := changes.foldl apply s

@[simp] theorem applyAll_nil (s : Scopes α) : s.applyAll [] = s := rfl

@[simp] theorem applyAll_cons (s : Scopes α) (change : Change α) (others : List (Change α)) :
    s.applyAll (change :: others) = (s.apply change).applyAll others := rfl

theorem applyAll_append (s : Scopes α) (first second : List (Change α)) :
    s.applyAll (first ++ second) = (s.applyAll first).applyAll second := List.foldl_append

/-- A change keeps the maps in order. -/
theorem Ordered.apply {s : Scopes α} (h : s.Ordered) (change : Change α) :
    (s.apply change).Ordered := by
  obtain ⟨globals, frames⟩ := s
  obtain ⟨hglobals, hframes⟩ := h
  cases change with
  | bind name value =>
    cases frames with
    | nil => exact ⟨hglobals.insert name value, hframes⟩
    | cons frame outer =>
      obtain ⟨hframe, houter⟩ := List.forall_mem_cons.mp hframes
      exact ⟨hglobals, List.forall_mem_cons.mpr ⟨hframe.insert name value, houter⟩⟩
  | push locals =>
    exact ⟨hglobals, List.forall_mem_cons.mpr ⟨SortedMap.ordered_ofList locals, hframes⟩⟩
  | pop => exact ⟨hglobals, fun frame hframe => hframes frame (List.mem_of_mem_tail hframe)⟩

/-- Whatever is done to scopes, their maps stay in order. -/
theorem Ordered.applyAll {s : Scopes α} (h : s.Ordered) (changes : List (Change α)) :
    (s.applyAll changes).Ordered := by
  induction changes generalizing s with
  | nil => exact h
  | cons change others ih => exact ih (h.apply change)

/-- How many frames of their own changes have open after one more of them. None can be dropped
where none of their own is open. -/
def Change.level : Nat → Change α → Option Nat
  | opened, bind .. => some opened
  | opened, push .. => some (opened + 1)
  | 0, pop => none
  | opened + 1, pop => some opened

/-- Changes that drop each frame they open and no other. -/
def Balanced (changes : List (Change α)) : Prop := changes.foldlM Change.level 0 = some 0

instance (changes : List (Change α)) : Decidable (Balanced changes) :=
  inferInstanceAs (Decidable (changes.foldlM Change.level 0 = some 0))

/-- Scopes with so many frames more than others, which are unchanged below. -/
structure Above (base : Scopes α) (count : Nat) (s : Scopes α) : Prop where
  globals : s.globals = base.globals
  frames : ∃ opened, opened.length = count ∧ s.frames = opened ++ base.frames

/-- A change above a frame of the changes stays above it. -/
theorem Above.apply {base s : Scopes α} {opened later : Nat} {change : Change α}
    (h : Above base (opened + 1) s) (hlevel : change.level opened = some later) :
    Above base (later + 1) (s.apply change) := by
  obtain ⟨globals, frames⟩ := s
  obtain ⟨hglobals, own, hlength, rfl⟩ := h
  obtain ⟨frame, own, rfl⟩ := List.exists_cons_of_length_eq_add_one hlength
  cases change with
  | bind name value =>
    cases hlevel
    exact ⟨hglobals, frame.insert name value :: own, hlength, rfl⟩
  | push locals =>
    cases hlevel
    exact ⟨hglobals, .ofList locals :: frame :: own, congrArg Nat.succ hlength, rfl⟩
  | pop =>
    cases opened with
    | zero => cases hlevel
    | succ opened =>
      cases hlevel
      exact ⟨hglobals, own, Nat.succ.inj hlength, rfl⟩

/-- Changes above a frame stay above it as long as they drop no frame but their own. -/
theorem Above.applyAll {base s : Scopes α} {opened later : Nat} {changes : List (Change α)}
    (h : Above base (opened + 1) s) (hlevels : changes.foldlM Change.level opened = some later) :
    Above base (later + 1) (s.applyAll changes) := by
  induction changes generalizing s opened with
  | nil =>
    cases hlevels
    exact h
  | cons change others ih =>
    rw [List.foldlM_cons] at hlevels
    obtain ⟨next, hnext, hothers⟩ := Option.bind_eq_some_iff.mp hlevels
    exact ih (h.apply hnext) hothers

/-- Opening a frame, balanced changes and dropping the frame leave the scopes as they were. -/
theorem applyAll_push_pop (s : Scopes α) (locals : List (String × α)) {inner : List (Change α)}
    (h : Balanced inner) : s.applyAll (.push locals :: inner ++ [.pop]) = s := by
  have hpushed : Above s 1 (s.apply (.push locals)) := ⟨rfl, [.ofList locals], rfl, rfl⟩
  obtain ⟨hglobals, own, hlength, hframes⟩ := hpushed.applyAll h
  obtain ⟨frame, rfl⟩ := List.length_eq_one_iff.mp hlength
  rw [applyAll_append, applyAll_cons, applyAll_cons, applyAll_nil]
  change Scopes.mk _ (List.tail _) = s
  rw [hglobals, hframes]
  rfl

end Scopes

end Walkthrough
