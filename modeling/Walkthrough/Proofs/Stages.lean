import Walkthrough.Proofs.Results
import Walkthrough.Run.Exec

/-!
# The last stage of an expression

Whatever stages an expression goes through, the last one shows its value: as one text,
or as the texts of its parts.
-/

namespace Walkthrough

/-- A stage shows a value: by its text, or part by part. -/
inductive Snapshot.Shows : Value → Snapshot → Prop
  | whole (value : Value) : Shows value (.scalar value.text)
  | parts (items : List Value) : Shows (.tuple items) (.tuple (Value.texts items))

/-- The text of a stage that shows a value is the text of the value. -/
theorem Snapshot.Shows.text_eq {value : Value} {snapshot : Snapshot} (h : snapshot.Shows value) :
    snapshot.text = value.text := by
  cases h with
  | whole => rfl
  | parts items => rw [Snapshot.text, Value.text]

/-- The stages come to an end with one that shows the value. -/
def Staged.Settles (staged : Staged) : Prop :=
  ∃ last, staged.snapshots.getLast? = some last ∧ last.Shows staged.value

theorem Staged.settles_resolved (value : Value) : (Staged.resolved value).Settles :=
  ⟨_, rfl, .whole value⟩

/-- The last text of stages that settle is the text of the value. -/
theorem Staged.Settles.getLast?_texts {staged : Staged} (h : staged.Settles) :
    staged.texts.getLast? = some staged.value.text := by
  obtain ⟨last, hlast, hshows⟩ := h
  rw [Staged.texts, List.getLast?_map, hlast, Option.map_some, hshows.text_eq]

/-- Each stage has its changed characters. -/
theorem Highlight.length_sequence (stages : List String) :
    (Highlight.sequence stages).length = stages.length := by
  have hfollowing : ∀ previous, (Highlight.following previous stages).length = stages.length := by
    induction stages with
    | nil => exact fun _ => rfl
    | cons stage others ih =>
      intro previous
      cases others with
      | nil => rfl
      | cons next more => exact congrArg (· + 1) (ih stage)
  exact hfollowing _

/-- The changed characters come with the texts of the stages. -/
theorem Staged.map_fst_highlighted (staged : Staged) :
    staged.highlighted.map Prod.fst = staged.texts :=
  List.map_fst_zip (Nat.le_of_eq (Highlight.length_sequence staged.texts).symm)

namespace Expr

/-- The stages of an operator expression end with its value. -/
theorem operationStages_settles {scopes : Scopes Value} {e : Expr} {staged : Staged}
    (h : e.operationStages scopes = .ok staged) : staged.Settles := by
  obtain ⟨value, _, h⟩ := except_bind_ok.1 h
  obtain ⟨replaced, _, h⟩ := except_bind_ok.1 h
  cases except_pure_ok.1 h
  exact ⟨.scalar value.text, List.getLast?_concat, .whole value⟩

/-- The stages of an expression in one piece have its value. -/
theorem eval_of_wholeStages {scopes : Scopes Value} {e : Expr} {staged : Staged}
    (h : e.wholeStages scopes = .ok staged) : e.eval scopes = .ok staged.value := by
  unfold wholeStages at h
  split at h
  · obtain ⟨value, hvalue, h⟩ := except_bind_ok.1 h
    obtain ⟨replaced, _, h⟩ := except_bind_ok.1 h
    cases except_pure_ok.1 h
    exact hvalue
  · obtain ⟨value, hvalue, rfl⟩ := except_map_ok.1 h
    exact hvalue

/-- The stages of an expression in one piece end with its value. -/
theorem wholeStages_settles {scopes : Scopes Value} {e : Expr} {staged : Staged}
    (h : e.wholeStages scopes = .ok staged) : staged.Settles := by
  unfold wholeStages at h
  split at h
  · exact operationStages_settles h
  · obtain ⟨value, _, rfl⟩ := except_map_ok.1 h
    exact Staged.settles_resolved value

end Expr

namespace Snapshot

/-- No list of stages is longer than there are rounds, and there is at least one. -/
theorem le_foldl_max (lengths : List Nat) (least : Nat) :
    least ≤ lengths.foldl max least ∧ ∀ n ∈ lengths, n ≤ lengths.foldl max least := by
  induction lengths generalizing least with
  | nil => simp
  | cons n others ih =>
    have hleast := (ih (max least n)).1
    have hothers := (ih (max least n)).2
    rw [List.foldl_cons]
    refine ⟨by omega, ?_⟩
    intro k hk
    rcases List.mem_cons.mp hk with rfl | hk
    · omega
    · exact hothers k hk

/-- In each round a list shows its own stage of that round, or its last one where it is
exhausted. -/
theorem getElem?_or_getLast? (texts : List String) (index : Nat) :
    (texts[index]?).or texts.getLast? = texts[min index (texts.length - 1)]? := by
  by_cases h : index < texts.length
  · rw [Nat.min_eq_left (by omega), List.getElem?_eq_getElem h, Option.some_or]
  · rw [Nat.min_eq_right (by omega), List.getElem?_eq_none (by omega), Option.none_or,
      List.getLast?_eq_getElem?]

/-- A round shows one text of each list. -/
theorem round_shows {stages : List (List String)} (h : ∀ texts ∈ stages, texts ≠ [])
    (index : Nat) : ∃ shown, round stages index = .tuple shown ∧
      List.Forall₂ (fun texts text => texts[min index (texts.length - 1)]? = some text)
        stages shown := by
  unfold round
  induction stages with
  | nil => exact ⟨[], rfl, .nil⟩
  | cons texts others ih =>
    obtain ⟨shown, hround, hshown⟩ := ih fun other hother => h other (List.mem_cons_of_mem _ hother)
    have hlength : 0 < texts.length := List.length_pos_iff.mpr (h texts List.mem_cons_self)
    have hindex : min index (texts.length - 1) < texts.length := by omega
    have htext := List.getElem?_eq_getElem hindex
    refine ⟨_ :: shown, ?_, .cons htext hshown⟩
    simp only [List.filterMap_cons, (getElem?_or_getLast? texts index).trans htext]
    cases hround
    rfl

/-- The stages side by side are the rounds in order. -/
theorem eq_round_of_sideBySide {stages : List (List String)} {index : Nat} {snapshot : Snapshot}
    (h : (sideBySide stages)[index]? = some snapshot) : snapshot = round stages index := by
  unfold sideBySide at h
  rw [List.getElem?_map] at h
  obtain ⟨number, hnumber, rfl⟩ := Option.map_eq_some_iff.mp h
  obtain ⟨hindex, hnumber⟩ := List.getElem?_eq_some_iff.mp hnumber
  rw [← hnumber, List.getElem_range]

/-- The last round shows the last stage of each part. -/
theorem getLast?_sideBySide (stages : List (List String)) :
    (sideBySide stages).getLast? = some (.tuple (stages.filterMap List.getLast?)) := by
  unfold sideBySide
  dsimp only
  have hmax := le_foldl_max (stages.map List.length) 1
  generalize (stages.map List.length).foldl max 1 = rounds at hmax
  obtain ⟨hpos, hle⟩ := hmax
  have hround : round stages (rounds - 1) = .tuple (stages.filterMap List.getLast?) := by
    unfold round
    congr 1
    apply List.filterMap_congr
    intro texts hmem
    have hlength := hle _ (List.mem_map_of_mem hmem)
    rw [getElem?_or_getLast?, Nat.min_eq_right (by omega), List.getLast?_eq_getElem?]
  rw [List.getLast?_map, List.getLast?_range, if_neg (by omega), Option.map_some, hround]

end Snapshot

/-- The last texts of stages that settle are the texts of the values. -/
theorem Staged.filterMap_getLast?_texts {parts : List Staged} (h : ∀ part ∈ parts, part.Settles) :
    (parts.map Staged.texts).filterMap List.getLast? =
      Value.texts (parts.map Staged.value) := by
  induction parts with
  | nil => rfl
  | cons part others ih =>
    have hpart := (h part List.mem_cons_self).getLast?_texts
    have hothers := ih fun other hmem => h other (List.mem_cons_of_mem _ hmem)
    rw [List.map_cons, List.filterMap_cons_some hpart, hothers, List.map_cons, Value.texts]

/-- The stages of an expression end with its value, also where a tuple goes part by part. -/
theorem Expr.stages_settles {scopes : Scopes Value} {e : Expr} {staged : Staged}
    (h : e.stages scopes = .ok staged) : staged.Settles := by
  unfold Expr.stages at h
  split at h
  · obtain ⟨parts, hparts, h⟩ := except_bind_ok.1 h
    cases except_pure_ok.1 h
    have hsettles : ∀ part ∈ parts, part.Settles := by
      intro part hmem
      obtain ⟨item, _, hitem⟩ := except_mapM_mem hparts hmem
      exact Expr.wholeStages_settles hitem
    refine ⟨_, Snapshot.getLast?_sideBySide _, ?_⟩
    rw [Staged.filterMap_getLast?_texts hsettles]
    exact .parts _
  · exact Expr.wholeStages_settles h

end Walkthrough
