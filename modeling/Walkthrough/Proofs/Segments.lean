import Mathlib.Data.List.Chain
import Walkthrough.Highlight

/-!
# The runs of a marked text

A list of positions, in any order and with any repetitions, cuts a text into runs that are marked
or not. There is one way to cut it so that no run is empty, nothing is lost, marked and unmarked
runs take turns, and a character is marked if its position is in the list: the one that is taken.
-/

namespace Walkthrough

namespace Text

variable {α κ : Type} {key : α → κ} {xs : List α}

/-- A list cut into maximal runs of neighbours with equal key. -/
structure RunsOf (key : α → κ) (xs : List α) (runs : List (κ × List α)) : Prop where
  /-- Nothing is lost or reordered. -/
  joined : runs.flatMap Prod.snd = xs
  /-- No run is empty. -/
  nonempty : ∀ run ∈ runs, run.2 ≠ []
  /-- The elements of a run have its key. -/
  keyed : ∀ run ∈ runs, ∀ a ∈ run.2, key a = run.1
  /-- Neighbouring runs have different keys. -/
  alternating : runs.IsChain (fun run next => run.1 ≠ next.1)

/-- What follows the first run starts with another key, or is nothing. -/
theorem RunsOf.head_ne {run : κ × List α} {runs : List (κ × List α)}
    (h : RunsOf key xs (run :: runs)) {a : α} (ha : (runs.flatMap Prod.snd).head? = some a) :
    key a ≠ run.1 := by
  cases runs with
  | nil => cases ha
  | cons next others =>
    obtain ⟨b, bs, hnext⟩ := List.exists_cons_of_ne_nil (h.nonempty next (by simp))
    have hkey := h.keyed next (by simp) b (by simp [hnext])
    rw [List.flatMap_cons, hnext] at ha
    cases ha
    rw [hkey]
    exact ((List.isChain_cons_cons.mp h.alternating).1).symm

variable [DecidableEq κ]

/-- There is one way only to cut a list into maximal runs. -/
theorem RunsOf.eq_runsBy {runs : List (κ × List α)} (h : RunsOf key xs runs) :
    runs = runsBy key xs := by
  induction runs generalizing xs with
  | nil =>
    cases h.joined
    rfl
  | cons run others ih =>
    obtain ⟨hne, hothersNe⟩ := List.forall_mem_cons.mp h.nonempty
    obtain ⟨hkeyed, hothersKeyed⟩ := List.forall_mem_cons.mp h.keyed
    have hothers : RunsOf key (others.flatMap Prod.snd) others :=
      ⟨rfl, hothersNe, hothersKeyed, h.alternating.tail⟩
    rw [← h.joined, List.flatMap_cons, runsBy_append hne hkeyed fun a ha => h.head_ne ha,
      ← ih hothers]

/-- A list is cut into maximal runs. -/
theorem runsOf_runsBy (key : α → κ) (xs : List α) : RunsOf key xs (runsBy key xs) := by
  induction xs with
  | nil => exact ⟨rfl, by simp [runsBy], by simp [runsBy], .nil⟩
  | cons a rest ih =>
    rw [runsBy]
    split
    · next hnone =>
      rw [hnone] at ih
      cases ih.joined
      exact ⟨rfl, by simp, by simp, .singleton _⟩
    · next k run runs hruns =>
      rw [hruns] at ih
      obtain ⟨hjoined, hnonempty, hkeyed, halternating⟩ := ih
      split
      · next hkey =>
        -- The element goes in front of the first run, whose key it has.
        obtain ⟨-, hrunsNe⟩ := List.forall_mem_cons.mp hnonempty
        obtain ⟨hrunKeyed, hrunsKeyed⟩ := List.forall_mem_cons.mp hkeyed
        refine ⟨by simp [← hjoined], List.forall_mem_cons.mpr ⟨by simp, hrunsNe⟩,
          List.forall_mem_cons.mpr ⟨List.forall_mem_cons.mpr ⟨hkey, hrunKeyed⟩, hrunsKeyed⟩, ?_⟩
        exact List.isChain_cons.mpr (List.isChain_cons.mp halternating)
      · next hkey =>
        exact ⟨by simp [← hjoined], List.forall_mem_cons.mpr ⟨by simp, hnonempty⟩,
          List.forall_mem_cons.mpr ⟨by simp, hkeyed⟩,
          List.isChain_cons_cons.mpr ⟨hkey, halternating⟩⟩

omit [DecidableEq κ] in
/-- The elements whose keys pass a test are those of the runs whose keys do. -/
theorem RunsOf.filter_eq {runs : List (κ × List α)} (h : RunsOf key xs runs) (p : κ → Bool) :
    xs.filter (fun a => p (key a)) = (runs.filter fun run => p run.1).flatMap Prod.snd := by
  have hkeyed := h.keyed
  rw [← h.joined]
  clear h
  induction runs with
  | nil => rfl
  | cons run others ih =>
    obtain ⟨hrun, hothers⟩ := List.forall_mem_cons.mp hkeyed
    have hself : run.2.filter (fun a => p (key a)) = if p run.1 then run.2 else [] := by
      rw [List.filter_congr fun a ha => congrArg p (hrun a ha)]
      cases p run.1 <;> simp
    rw [List.flatMap_cons, List.filter_append, hself, ih hothers, List.filter_cons]
    cases p run.1 <;> simp

end Text

namespace Highlight

/-- For each character of some runs, whether its run is marked. -/
def flags (runs : List (String × Bool)) : List Bool :=
  runs.flatMap fun run => List.replicate run.1.length run.2

/-- A text cut into maximal runs that are marked or not, as a list of positions tells. -/
structure Splits (text : String) (highlight : Highlight) (runs : List (String × Bool)) : Prop where
  /-- No run is empty. -/
  nonempty : ∀ run ∈ runs, run.1 ≠ ""
  /-- The runs are the text, one after another. -/
  joined : String.join (runs.map Prod.fst) = text
  /-- Marked and unmarked runs take turns. -/
  alternating : runs.IsChain (fun run next => run.2 ≠ next.2)
  /-- A character is in a marked run if its position is in the list. -/
  marked : ∀ position < text.length,
    (flags runs)[position]? = some (decide (position ∈ highlight))

/-- The runs of a text as runs of characters with their marks. -/
def charRuns (runs : List (String × Bool)) : List (Bool × List (Char × Bool)) :=
  runs.map fun run => (run.2, run.1.toList.map fun c => (c, run.2))

theorem map_fst_charRuns (runs : List (String × Bool)) :
    ((charRuns runs).flatMap Prod.snd).map Prod.fst = runs.flatMap (·.1.toList) := by
  simp [charRuns, List.flatMap_map, List.map_flatMap, Function.comp_def]

theorem map_snd_charRuns (runs : List (String × Bool)) :
    ((charRuns runs).flatMap Prod.snd).map Prod.snd = flags runs := by
  simp [charRuns, flags, List.flatMap_map, List.map_flatMap, Function.comp_def, List.map_const',
    String.length_toList]

theorem map_fst_marks (text : String) (highlight : Highlight) :
    (marks text highlight).map Prod.fst = text.toList := by
  rw [marks, List.map_map]
  exact List.zipIdx_map_fst 0 text.toList

theorem map_snd_marks (text : String) (highlight : Highlight) :
    (marks text highlight).map Prod.snd =
      (List.range text.length).map fun position => decide (position ∈ highlight) := by
  have hpositions : text.toList.zipIdx.map Prod.snd = List.range text.length := by
    rw [List.zipIdx_map_snd, String.length_toList, List.range_eq_range']
  rw [← hpositions, marks, List.map_map, List.map_map]
  exact List.map_congr_left fun entry _ => List.contains_eq_mem entry.2 highlight

theorem toList_join_runs (runs : List (String × Bool)) :
    (String.join (runs.map Prod.fst)).toList = runs.flatMap (·.1.toList) := by
  rw [String.toList_join, List.flatMap_map]

/-- There is one mark for each character. -/
theorem length_flags (runs : List (String × Bool)) :
    (flags runs).length = (String.join (runs.map Prod.fst)).length := by
  rw [← map_snd_charRuns, List.length_map, ← String.length_toList, toList_join_runs,
    ← map_fst_charRuns, List.length_map]

/-- Runs have the marks of a text if they have them character by character. -/
theorem flags_eq_iff {text : String} {highlight : Highlight} {runs : List (String × Bool)}
    (h : String.join (runs.map Prod.fst) = text) :
    flags runs = (marks text highlight).map Prod.snd ↔
      ∀ position < text.length, (flags runs)[position]? = some (decide (position ∈ highlight)) := by
  have hlength : (flags runs).length = text.length := (length_flags runs).trans (congrArg _ h)
  rw [map_snd_marks]
  constructor
  · intro heq position hposition
    simp [heq, List.getElem?_range hposition]
  · intro hall
    refine List.ext_getElem? fun position => ?_
    by_cases hposition : position < text.length
    · rw [hall position hposition, List.getElem?_map, List.getElem?_range hposition]
      rfl
    · have hbeyond : text.length ≤ position := Nat.le_of_not_lt hposition
      rw [List.getElem?_eq_none (by omega), List.getElem?_eq_none (by simpa using hbeyond)]

/-- A text is cut into maximal runs if its marked characters are. -/
theorem splits_iff {text : String} {highlight : Highlight} {runs : List (String × Bool)} :
    Splits text highlight runs ↔ Text.RunsOf Prod.snd (marks text highlight) (charRuns runs) := by
  have hkeyed : ∀ run ∈ charRuns runs, ∀ a ∈ run.2, a.2 = run.1 := by
    simp only [charRuns, List.mem_map]
    rintro _ ⟨run, -, rfl⟩ a ha
    obtain ⟨c, -, rfl⟩ := List.mem_map.mp ha
    rfl
  have hnonempty : (∀ run ∈ charRuns runs, run.2 ≠ []) ↔ ∀ run ∈ runs, run.1 ≠ "" := by
    simp only [charRuns, List.forall_mem_map, ne_eq, List.map_eq_nil_iff, String.toList_eq_nil_iff]
  have halternating : (charRuns runs).IsChain (fun run next => run.1 ≠ next.1) ↔
      runs.IsChain (fun run next => run.2 ≠ next.2) := List.isChain_map _
  constructor
  · intro h
    refine ⟨?_, hnonempty.mpr h.nonempty, hkeyed, halternating.mpr h.alternating⟩
    have hchars : ((charRuns runs).flatMap Prod.snd).map Prod.fst = text.toList := by
      rw [map_fst_charRuns, ← toList_join_runs, h.joined]
    have hmarks := (map_snd_charRuns runs).trans ((flags_eq_iff h.joined).mpr h.marked)
    rw [List.zip_of_prod hchars hmarks]
    exact (List.zip_of_prod (map_fst_marks text highlight) rfl).symm
  · intro h
    have hjoined : String.join (runs.map Prod.fst) = text := by
      rw [← String.toList_inj, toList_join_runs, ← map_fst_charRuns, h.joined, map_fst_marks]
    refine ⟨hnonempty.mp h.nonempty, hjoined, halternating.mp h.alternating, ?_⟩
    rw [← flags_eq_iff hjoined, ← map_snd_charRuns, h.joined]

/-- A run of marked characters as a run of a text. -/
def textRun (run : Bool × List (Char × Bool)) : String × Bool :=
  (String.ofList (run.2.map Prod.fst), run.1)

theorem segments_eq (text : String) (highlight : Highlight) :
    segments text highlight = (Text.runsBy Prod.snd (marks text highlight)).map textRun := rfl

theorem map_textRun_charRuns (runs : List (String × Bool)) :
    (charRuns runs).map textRun = runs := by
  rw [charRuns, List.map_map]
  refine (List.map_congr_left fun run _ => ?_).trans (List.map_id _)
  simp [textRun, Function.comp_def]

/-- The runs into which a text is cut are those of its marked characters. -/
theorem charRuns_segments (text : String) (highlight : Highlight) :
    charRuns (segments text highlight) = Text.runsBy Prod.snd (marks text highlight) := by
  have hkeyed := (Text.runsOf_runsBy Prod.snd (marks text highlight)).keyed
  rw [charRuns, segments_eq, List.map_map]
  refine (List.map_congr_left fun run hrun => ?_).trans (List.map_id _)
  have hself : run.2.map (fun a => (a.1, run.1)) = run.2 := by
    refine (List.map_congr_left fun a ha => ?_).trans (List.map_id _)
    rw [← hkeyed run hrun a ha]
    rfl
  simp [textRun, Function.comp_def, hself]

/-- The runs have the characters of the text. -/
theorem flatMap_segments (text : String) (highlight : Highlight) :
    (segments text highlight).flatMap (·.1.toList) = text.toList := by
  rw [← map_fst_charRuns, charRuns_segments, Text.flatMap_runsBy, map_fst_marks]

/-- The marked runs have the marked characters. -/
theorem flatMap_marked_segments (text : String) (highlight : Highlight) :
    ((segments text highlight).filter Prod.snd).flatMap (·.1.toList) =
      ((marks text highlight).filter Prod.snd).map Prod.fst := by
  have hfilter := (Text.runsOf_runsBy Prod.snd (marks text highlight)).filter_eq id
  rw [segments_eq, List.filter_map, List.flatMap_map]
  calc ((Text.runsBy Prod.snd (marks text highlight)).filter (Prod.snd ∘ textRun)).flatMap
        (fun run => (textRun run).1.toList)
      = ((Text.runsBy Prod.snd (marks text highlight)).filter Prod.fst).flatMap
          (fun run => run.2.map Prod.fst) :=
        List.flatMap_congr fun run _ => String.toList_ofList
    _ = (((Text.runsBy Prod.snd (marks text highlight)).filter Prod.fst).flatMap Prod.snd).map
          Prod.fst := List.map_flatMap.symm
    _ = ((marks text highlight).filter Prod.snd).map Prod.fst :=
        congrArg (List.map Prod.fst) hfilter.symm

/-- A text is cut in the one way in which no run is empty, the runs are the text, marked and
unmarked runs take turns and a character is marked if its position is in the list. The marked runs
together are the marked characters of the text. -/
theorem segments_split_text (text : String) (highlight : Highlight) :
    (∀ runs, Splits text highlight runs ↔ runs = segments text highlight) ∧
    String.join (((segments text highlight).filter Prod.snd).map Prod.fst) =
      render text highlight := by
  refine ⟨fun runs => ?_, ?_⟩
  · rw [splits_iff]
    constructor
    · intro h
      rw [segments_eq, ← h.eq_runsBy, map_textRun_charRuns]
    · rintro rfl
      rw [charRuns_segments]
      exact Text.runsOf_runsBy Prod.snd (marks text highlight)
  · rw [← String.toList_inj, toList_join_runs, flatMap_marked_segments, render,
      String.toList_ofList]

example : segments "né + 20" [1, 0, 9, 1] = [("né", true), (" + 20", false)] := by decide

end Highlight

end Walkthrough
