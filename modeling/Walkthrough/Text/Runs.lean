/-!
# Maximal runs

A list is cut wherever the key of its elements changes. Marked text, words
of a line and equally styled cells of a screen row are all read off this one
partition.
-/

namespace Walkthrough.Text

/-- Cuts a list into maximal runs of neighbours with equal key. Each run is
listed with its key, and no run is empty. -/
def runsBy {α κ : Type} [DecidableEq κ] (key : α → κ) : List α → List (κ × List α)
  | [] => []
  | a :: rest =>
    match runsBy key rest with
    | [] => [(key a, [a])]
    | (k, run) :: runs =>
      if key a = k then (k, a :: run) :: runs else (key a, [a]) :: (k, run) :: runs

/-- Nothing is lost or reordered by cutting a list into runs. -/
theorem flatMap_runsBy {α κ : Type} [DecidableEq κ] (key : α → κ) (xs : List α) :
    (runsBy key xs).flatMap Prod.snd = xs := by
  induction xs with
  | nil => rfl
  | cons a rest ih =>
    unfold runsBy
    split
    · next h => rw [h] at ih; simpa using ih
    · next k run runs h =>
      rw [h] at ih
      split <;> simpa using ih

/-- The first run has the key of the first element. -/
theorem runsBy_eq_cons {α κ : Type} [DecidableEq κ] (key : α → κ) (a : α) (rest : List α) :
    ∃ run runs, runsBy key (a :: rest) = (key a, a :: run) :: runs := by
  unfold runsBy
  split
  · exact ⟨[], [], rfl⟩
  · next k run runs _ =>
    split
    · next h => exact ⟨run, runs, by rw [h]⟩
    · exact ⟨[], (k, run) :: runs, rfl⟩

/-- Elements with one key are a run of their own where an element with another key follows, or
nothing. -/
theorem runsBy_append {α κ : Type} [DecidableEq κ] {key : α → κ} {k : κ} {run rest : List α}
    (hne : run ≠ []) (hrun : ∀ a ∈ run, key a = k)
    (hrest : ∀ a, rest.head? = some a → key a ≠ k) :
    runsBy key (run ++ rest) = (k, run) :: runsBy key rest := by
  induction run with
  | nil => exact absurd rfl hne
  | cons a others ih =>
    obtain ⟨rfl, hothers⟩ := List.forall_mem_cons.mp hrun
    cases others with
    | nil =>
      cases rest with
      | nil => simp [runsBy]
      | cons b rest =>
        obtain ⟨next, runs, hruns⟩ := runsBy_eq_cons key b rest
        rw [List.singleton_append, runsBy, hruns]
        simp [Ne.symm (hrest b rfl)]
    | cons b others =>
      have hmore := ih (List.cons_ne_nil _ _) hothers
      rw [List.cons_append, runsBy, hmore]
      simp

end Walkthrough.Text
