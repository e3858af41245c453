import Walkthrough.Proofs.Highlights

/-!
# Comparing with two cursors

Two texts can be compared with a cursor in each of them: one step looks at the characters
at the cursors, moves them and may mark a position. A step that looks at a character which
is not there has no next state. No comparison comes to such a step, and after a number of
steps that the lengths of the texts bound it has ended with exactly the changed characters.
-/

namespace Walkthrough

namespace Highlight

/-- A comparison on its way. -/
structure Comparison where
  /-- The cursor in the earlier text. -/
  before : Nat
  /-- The cursor in the later text. -/
  here : Nat
  /-- Whether a name has just been passed, so that the later text is marked. -/
  passing : Bool
  /-- The positions marked so far. -/
  marked : Highlight

/-- How a comparison stands after some steps. -/
inductive Comparison.Outcome where
  /-- Both texts are at their end. -/
  | ended (marked : Highlight)
  /-- A character was needed that is not there. -/
  | outside
  /-- There are steps to come. -/
  | unfinished

namespace Comparison

/-- Both cursors at the start. -/
def start : Comparison := ⟨0, 0, false, []⟩

section Texts

variable (earlier later : List Char)

/-- Whether both texts are at their end. -/
def isDone (s : Comparison) : Bool :=
  !s.passing && later.length ≤ s.here && earlier.length ≤ s.before

/-- One step, which has no result where a character is needed that is not there. While a name
is passed the later text is marked up to the character at the earlier cursor. Else a
character that does not stay is taken for a name, unless one of the texts is at its end or
the earlier one at its last character; then each cursor moves on that can. -/
def step (s : Comparison) : Option Comparison :=
  if s.passing then
    if s.here < later.length then do
      let x ← earlier[s.before]?
      let c ← later[s.here]?
      return if x = c then { s with passing := false }
        else { s with here := s.here + 1, marked := s.marked ++ [s.here] }
    else some { s with passing := false }
  else if s.before + 1 < earlier.length ∧ s.here < later.length then do
    let x ← earlier[s.before]?
    let c ← later[s.here]?
    return if x = c then { s with before := s.before + 1, here := s.here + 1 }
      else { s with before := s.before + 1, passing := true }
  else some { s with
    before := if s.before < earlier.length then s.before + 1 else s.before
    here := if s.here < later.length then s.here + 1 else s.here }

/-- Some steps, or fewer if the texts are at their end. -/
def run : Nat → Comparison → Outcome
  | 0, _ => .unfinished
  | n + 1, s =>
    if s.isDone earlier later then .ended s.marked
    else match s.step earlier later with
      | none => .outside
      | some next => run n next

/-- The cursors are inside the texts or at their end, and inside where a character will be
needed. -/
structure Within (s : Comparison) : Prop where
  before_le : s.before ≤ earlier.length
  here_le : s.here ≤ later.length
  passing_lt : s.passing = true → s.before < earlier.length

/-- What will have been marked in the end. -/
def outlook (s : Comparison) : Highlight :=
  s.marked ++
    if s.passing then passedFrom s.here (earlier.drop s.before) (later.drop s.here)
    else changedFrom s.here (earlier.drop s.before) (later.drop s.here)

/-- No more steps than this are to come. To pass a name takes a step of its own. -/
def remaining (s : Comparison) : Nat :=
  2 * (earlier.length - s.before) + (later.length - s.here) + s.passing.toNat

end Texts

variable {earlier later : List Char}

theorem outlook_passing (before here : Nat) (marked : Highlight) :
    outlook earlier later ⟨before, here, true, marked⟩ =
      marked ++ passedFrom here (earlier.drop before) (later.drop here) := rfl

theorem outlook_comparing (before here : Nat) (marked : Highlight) :
    outlook earlier later ⟨before, here, false, marked⟩ =
      marked ++ changedFrom here (earlier.drop before) (later.drop here) := rfl

/-- What a step has to keep, so that a comparison comes to its end with what it set out to
mark. -/
structure Proceeds (earlier later : List Char) (s next : Comparison) : Prop where
  /-- The cursors stay within the texts. -/
  within : next.Within earlier later
  /-- The outlook stays the same. -/
  outlook_eq : next.outlook earlier later = s.outlook earlier later
  /-- There are fewer steps to come. -/
  remaining_lt : next.remaining earlier later < s.remaining earlier later

/-- While a name is passed, a step marks a position or comes to the next agreement. -/
theorem step_passing {before here : Nat} {marked : Highlight}
    (h : Within earlier later ⟨before, here, true, marked⟩) :
    ∃ next, step earlier later ⟨before, here, true, marked⟩ = some next ∧
      Proceeds earlier later ⟨before, here, true, marked⟩ next := by
  have hbefore : before < earlier.length := h.passing_lt rfl
  have hearlier := List.drop_eq_getElem_cons hbefore
  by_cases hhere : here < later.length
  · have hlater := List.drop_eq_getElem_cons hhere
    by_cases hsame : earlier[before] = later[here]
    · refine ⟨⟨before, here, false, marked⟩, ?_, ⟨h.before_le, h.here_le, nofun⟩, ?_, ?_⟩
      · simp [step, hhere, hbefore, hsame]
      · rw [outlook_passing, outlook_comparing, hearlier, hlater, hsame, passedFrom_cons_same]
      · simp [remaining]
    · refine ⟨⟨before, here + 1, true, marked ++ [here]⟩, ?_,
        ⟨h.before_le, hhere, fun _ => hbefore⟩, ?_, ?_⟩
      · simp [step, hhere, hbefore, hsame]
      · rw [outlook_passing, outlook_passing, hearlier, hlater,
          passedFrom_cons_ne (Ne.symm hsame), List.append_assoc, List.singleton_append]
      · simp only [remaining]
        omega
  · have hend : later.drop here = [] := List.drop_eq_nil_of_le (Nat.le_of_not_lt hhere)
    refine ⟨⟨before, here, false, marked⟩, ?_, ⟨h.before_le, h.here_le, nofun⟩, ?_, ?_⟩
    · simp [step, hhere]
    · rw [outlook_passing, outlook_comparing, hend, passedFrom_nil,
        changedFrom_eq_nil (.inr rfl)]
    · simp [remaining]

/-- Where no name is passed, a step goes on with both texts, or with the earlier one past a
name. -/
theorem step_comparing {before here : Nat} {marked : Highlight}
    (hnext : before + 1 < earlier.length) (hhere : here < later.length) :
    ∃ next, step earlier later ⟨before, here, false, marked⟩ = some next ∧
      Proceeds earlier later ⟨before, here, false, marked⟩ next := by
  have hbefore : before < earlier.length := Nat.lt_of_succ_lt hnext
  have hearlier := List.drop_eq_getElem_cons hbefore
  have hfollowing := List.drop_eq_getElem_cons hnext
  have hlater := List.drop_eq_getElem_cons hhere
  by_cases hsame : earlier[before] = later[here]
  · refine ⟨⟨before + 1, here + 1, false, marked⟩, ?_, ⟨hbefore, hhere, nofun⟩, ?_, ?_⟩
    · simp [step, hnext, hhere, hbefore, hsame]
    · rw [outlook_comparing, outlook_comparing, hearlier, hlater, hsame, changedFrom_cons_same]
    · simp only [remaining]
      omega
  · refine ⟨⟨before + 1, here, true, marked⟩, ?_,
      ⟨hbefore, Nat.le_of_lt hhere, fun _ => hnext⟩, ?_, ?_⟩
    · simp [step, hnext, hhere, hbefore, hsame]
    · rw [outlook_comparing, outlook_passing, hearlier, hfollowing, hlater,
        changedFrom_cons_ne hsame]
    · simp [remaining]
      omega

/-- Where one of the texts is at its end, or the earlier one at its last character, nothing
more is marked. -/
theorem step_ending {before here : Nat} {marked : Highlight}
    (h : Within earlier later ⟨before, here, false, marked⟩)
    (hdone : isDone earlier later ⟨before, here, false, marked⟩ = false)
    (hending : ¬ (before + 1 < earlier.length ∧ here < later.length)) :
    ∃ next, step earlier later ⟨before, here, false, marked⟩ = some next ∧
      Proceeds earlier later ⟨before, here, false, marked⟩ next := by
  have hbefore : before ≤ earlier.length := h.before_le
  have hhere : here ≤ later.length := h.here_le
  have hopen : here < later.length ∨ before < earlier.length := by
    simp [isDone] at hdone
    omega
  have hstep : step earlier later ⟨before, here, false, marked⟩ = some
      ⟨if before < earlier.length then before + 1 else before,
        if here < later.length then here + 1 else here, false, marked⟩ := by
    rw [step, if_neg Bool.false_ne_true, if_neg hending]
  generalize hbefore' : (if before < earlier.length then before + 1 else before) = before' at hstep
  generalize hhere' : (if here < later.length then here + 1 else here) = here' at hstep
  have hmoves : before ≤ before' ∧ before' ≤ earlier.length ∧ here ≤ here' ∧
      here' ≤ later.length ∧ before + here < before' + here' := by
    split at hbefore' <;> split at hhere' <;> omega
  have hnothing : ∀ b c, before ≤ b → here ≤ c →
      changedFrom c (earlier.drop b) (later.drop c) = [] := by
    intro b c hb hc
    refine changedFrom_eq_nil ?_
    rw [List.length_drop, List.drop_eq_nil_iff]
    omega
  refine ⟨_, hstep, ⟨hmoves.2.1, hmoves.2.2.2.1, nofun⟩, ?_, ?_⟩
  · rw [outlook_comparing, outlook_comparing, hnothing before here (Nat.le_refl _) (Nat.le_refl _),
      hnothing before' here' hmoves.1 hmoves.2.2.1]
  · simp only [remaining]
    omega

/-- Before its end a comparison has a next step, which keeps the outlook. -/
theorem step_proceeds {s : Comparison} (h : s.Within earlier later)
    (hdone : s.isDone earlier later = false) :
    ∃ next, s.step earlier later = some next ∧ Proceeds earlier later s next := by
  obtain ⟨before, here, passing, marked⟩ := s
  cases passing with
  | true => exact step_passing h
  | false =>
    by_cases hboth : before + 1 < earlier.length ∧ here < later.length
    · exact step_comparing hboth.1 hboth.2
    · exact step_ending h hdone hboth

/-- At the end of both texts all is marked that was to be marked. -/
theorem outlook_of_isDone {s : Comparison} (h : s.isDone earlier later = true) :
    s.outlook earlier later = s.marked := by
  obtain ⟨before, here, passing, marked⟩ := s
  simp only [isDone, Bool.and_eq_true, Bool.not_eq_true', decide_eq_true_eq] at h
  obtain ⟨⟨rfl, hhere⟩, _⟩ := h
  have hend : later.drop here = [] := List.drop_eq_nil_of_le hhere
  rw [outlook_comparing, hend, changedFrom_eq_nil (.inr rfl), List.append_nil]

/-- With more steps than are to come, a comparison ends with its outlook. -/
theorem run_eq_ended {s : Comparison} {steps : Nat} (h : s.Within earlier later)
    (hsteps : s.remaining earlier later < steps) :
    run earlier later steps s = .ended (s.outlook earlier later) := by
  induction steps generalizing s with
  | zero => omega
  | succ steps ih =>
    rw [run]
    by_cases hdone : s.isDone earlier later = true
    · rw [if_pos hdone, outlook_of_isDone hdone]
    · obtain ⟨next, hstep, hnext⟩ := step_proceeds h (Bool.not_eq_true _ ▸ hdone)
      have hfewer := hnext.remaining_lt
      rw [if_neg hdone, hstep, ← hnext.outlook_eq]
      exact ih hnext.within (by omega)

end Comparison

/-- A comparison with two cursors never looks at a character that is not there, and ends
with the characters that changed. -/
theorem run_start_eq_changed (earlier later : String) {steps : Nat}
    (h : 2 * earlier.length + later.length < steps) :
    Comparison.run earlier.toList later.toList steps .start = .ended (changed earlier later) := by
  have hstart : Comparison.start.Within earlier.toList later.toList :=
    ⟨Nat.zero_le _, Nat.zero_le _, nofun⟩
  refine Comparison.run_eq_ended hstart ?_
  rw [← String.length_toList, ← String.length_toList] at h
  exact h

end Highlight

end Walkthrough
