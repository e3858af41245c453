import Walkthrough.Proofs.Stages
import Walkthrough.Proofs.Substitution

/-!
# Showing the stages of an expression costs nothing

Whoever shows an expression in stages looks up all words of its text that are short names.
In the text of an expression from a program these are names of its variables, and they are
bound where the expression has a value. So the stages can be shown whenever the expression
has a value, and end with that value.
-/

namespace Walkthrough

namespace Expr

variable {e : Expr}

/-- The short names in the text of an expression with a value can be replaced. -/
theorem substitute_ok (hnames : ∀ id ∈ e.names, Token.isIdentifier id = true)
    {scopes : Scopes Value} {value : Value} (heval : e.eval scopes = .ok value)
    (location : Location) : ∃ replaced, substitute scopes e.text location = .ok replaced :=
  ⟨_, substitute_textWith (e.isCallFree_of_eval value heval) hnames
    (fun id hid _ => e.bound_of_eval value heval id hid) location⟩

/-- The stages of an expression in one piece have its value, or fail where it has none. -/
theorem map_value_wholeStages (hnames : ∀ id ∈ e.names, Token.isIdentifier id = true)
    (scopes : Scopes Value) :
    (e.wholeStages scopes).map Staged.value = e.eval scopes := by
  unfold wholeStages
  split
  · unfold operationStages
    cases heval : e.eval scopes with
    | error fault => rfl
    | ok value =>
      obtain ⟨replaced, hreplaced⟩ := substitute_ok hnames heval e.location
      simp only [hreplaced]
      rfl
  · cases e.eval scopes <;> rfl

/-- The stages of some expressions have their values. -/
theorem map_values_wholeStages {items : List Expr}
    (hnames : ∀ id ∈ allNames items, Token.isIdentifier id = true) (scopes : Scopes Value) :
    (items.mapM (wholeStages scopes)).map (List.map Staged.value) = evalAll scopes items := by
  induction items with
  | nil => rfl
  | cons item others ih =>
    have hitem := map_value_wholeStages
      (fun id hid => hnames id (List.mem_append_left _ hid)) scopes
    have hothers := ih fun id hid => hnames id (List.mem_append_right _ hid)
    rw [List.mapM_cons, evalAll, ← hitem, ← hothers]
    cases wholeStages scopes item with
    | error fault => rfl
    | ok first => cases others.mapM (wholeStages scopes) <;> rfl

/-- The stages of an expression have its value, or fail where it has none. -/
theorem map_value_stages (hnames : ∀ id ∈ e.names, Token.isIdentifier id = true)
    (scopes : Scopes Value) :
    (e.stages scopes).map Staged.value = e.eval scopes := by
  unfold stages
  split
  · next items location =>
    rw [eval, ← map_values_wholeStages hnames]
    cases items.mapM (wholeStages scopes) <;> rfl
  · exact map_value_wholeStages hnames scopes

/-- The stages that a part of a tuple shows: those of an operation, and of anything else its
value alone. -/
def ShownAs (scopes : Scopes Value) (item : Expr) (part : Staged) : Prop :=
  if item.isOperation then item.stages scopes = .ok part
  else item.eval scopes = .ok part.value ∧ part.texts = [part.value.text]

/-- An expression in one piece is shown as a part of a tuple is. -/
theorem shownAs_of_wholeStages {scopes : Scopes Value} {part : Staged}
    (h : e.wholeStages scopes = .ok part) : e.ShownAs scopes part := by
  unfold ShownAs
  split
  · next hoperation =>
    cases e with
    | binary | compare => exact h
    | _ => cases hoperation
  · next hother =>
    unfold wholeStages at h
    rw [if_neg hother] at h
    obtain ⟨value, hvalue, rfl⟩ := except_map_ok.mp h
    exact ⟨hvalue, rfl⟩

/-- The stages of a tuple are those of its parts side by side. In each round each part shows its
own stage, or its last one where it is exhausted. -/
theorem stages_tuple {items : List Expr} {location : Location} {scopes : Scopes Value}
    {staged : Staged} (h : (tuple items location).stages scopes = .ok staged) :
    ∃ parts, List.Forall₂ (ShownAs scopes) items parts ∧
      ∀ index snapshot, staged.snapshots[index]? = some snapshot →
        ∃ shown, snapshot = .tuple shown ∧ List.Forall₂
          (fun part text => part.texts[min index (part.texts.length - 1)]? = some text)
          parts shown := by
  obtain ⟨parts, hparts, hstaged⟩ := except_bind_ok.mp h
  cases except_pure_ok.mp hstaged
  have hsome : ∀ texts ∈ parts.map Staged.texts, texts ≠ [] := by
    intro texts htexts hnone
    obtain ⟨part, hpart, rfl⟩ := List.mem_map.mp htexts
    obtain ⟨item, _, hitem⟩ := except_mapM_mem hparts hpart
    have hlast := (wholeStages_settles hitem).getLast?_texts
    rw [hnone] at hlast
    cases hlast
  refine ⟨parts, (except_mapM_ok.mp hparts).imp fun _ _ => shownAs_of_wholeStages, ?_⟩
  intro index snapshot hsnapshot
  obtain ⟨shown, hround, hshown⟩ := Snapshot.round_shows hsome index
  refine ⟨shown, ?_, List.forall₂_map_left_iff.mp hshown⟩
  rw [Snapshot.eq_round_of_sideBySide hsnapshot, hround]

end Expr

/-- Showing an expression in stages agrees with evaluating it. For an expression whose variables
are spelled as names are, the stages have the value of the expression, or fail with the same
fault; where it has a value its short names can be replaced. There is at least one stage, the
last one is the text of the value, and each stage of a tuple has one text for each part, which
is a stage of that part or, once these are exhausted, its last stage. -/
theorem stages_agree_with_eval {e : Expr} (hnames : ∀ id ∈ e.names, Token.isIdentifier id = true)
    (scopes : Scopes Value) :
    (e.stages scopes).map Staged.value = e.eval scopes ∧
    (∀ value location, e.eval scopes = .ok value →
      ∃ replaced, substitute scopes e.text location = .ok replaced) ∧
    ∀ staged, e.stages scopes = .ok staged →
      staged.snapshots ≠ [] ∧ staged.texts.getLast? = some staged.value.text ∧
      ∀ items location, e = .tuple items location →
        ∃ parts, List.Forall₂ (Expr.ShownAs scopes) items parts ∧
          ∀ index snapshot, staged.snapshots[index]? = some snapshot →
            ∃ shown, snapshot = .tuple shown ∧ List.Forall₂
              (fun part text => part.texts[min index (part.texts.length - 1)]? = some text)
              parts shown := by
  refine ⟨Expr.map_value_stages hnames scopes, fun value location heval =>
    Expr.substitute_ok hnames heval location, fun staged hstaged => ?_⟩
  have hlast := (Expr.stages_settles hstaged).getLast?_texts
  refine ⟨fun hnone => ?_, hlast, fun items location htuple => ?_⟩
  · rw [Staged.texts, hnone] at hlast
    cases hlast
  · subst htuple
    exact Expr.stages_tuple hstaged

namespace Sample

/-- The tuple `a - total, (a, 1), True`, whose parts have three stages, one and one. -/
def sides : Expr :=
  .tuple [.binary .sub (.name "a" .origin) (.name "total" .origin) .origin,
    .tuple [.name "a" .origin, .literal (.int 1) .origin] .origin,
    .literal (.bool true) .origin] .origin

end Sample

theorem sides_agree : ∃ staged, Sample.sides.stages Sample.bindings = .ok staged ∧
    staged.texts = ["(a - total, (-3, 1), True)", "(-3 - total, (-3, 1), True)",
      "(-7, (-3, 1), True)"] ∧
    Sample.sides.eval Sample.bindings = .ok staged.value ∧
    staged.texts.getLast? = some staged.value.text := by
  have htexts : (Sample.sides.stages Sample.bindings).toOption.map Staged.texts =
      some ["(a - total, (-3, 1), True)", "(-3 - total, (-3, 1), True)",
        "(-7, (-3, 1), True)"] := by decide +kernel
  obtain ⟨staged, hstaged, htexts⟩ := Option.map_eq_some_iff.mp htexts
  have hstaged := except_toOption_some.mp hstaged
  obtain ⟨hvalue, _, hstages⟩ :=
    stages_agree_with_eval (e := Sample.sides) (by decide +kernel) Sample.bindings
  obtain ⟨_, hlast, _⟩ := hstages staged hstaged
  rw [hstaged] at hvalue
  exact ⟨staged, hstaged, htexts, hvalue.symm, hlast⟩

end Walkthrough
