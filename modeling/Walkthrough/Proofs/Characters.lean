import Walkthrough.Proofs.Vocabulary
import Walkthrough.Proofs.Wording
import Walkthrough.Run.Assign

/-!
# Characters that no text of a program has

Square brackets mark changes and line breaks end lines, so they must not occur in what is marked
or written on a line. The texts of values have none of them. Neither have the texts of expressions
whose names are names, nor the stages in which such expressions are shown.
-/

namespace Walkthrough

namespace Text

/-- A text has none of some characters. -/
def Lacks (chars : List Char) (text : String) : Prop := ∀ c ∈ text.toList, c ∉ chars

instance (chars : List Char) (text : String) : Decidable (Lacks chars text) :=
  List.decidableBAll _ _

/-- The characters around marked texts. -/
def brackets : List Char := ['[', ']']

/-- The characters around marked texts and at the ends of lines. -/
def separators : List Char := ['[', ']', '\n']

variable {chars : List Char}

theorem Lacks.mono {text : String} (h : Lacks separators text) (hchars : chars ⊆ separators) :
    Lacks chars text :=
  fun c hc hmem => h c hc (hchars hmem)

theorem lacks_append {a b : String} : Lacks chars (a ++ b) ↔ Lacks chars a ∧ Lacks chars b := by
  unfold Lacks
  rw [String.toList_append]
  exact List.forall_mem_append

/-- Texts of characters with a property that no separator has. -/
theorem lacks_of_forall {text : String} {p : Char → Bool} (h : ∀ c ∈ text.toList, p c = true)
    (hp : separators.any p = false) : Lacks separators text :=
  fun c hc hmem => List.any_eq_false.mp hp c hmem (h c hc)

/-- Texts with commas between them have the characters of each and those of the commas. -/
theorem lacks_commaSeparated (hchars : chars ⊆ separators) {parts : List String}
    (h : ∀ part ∈ parts, Lacks chars part) : Lacks chars (commaSeparated parts) := by
  have hcomma : Lacks chars ", " := Lacks.mono (by decide) hchars
  unfold commaSeparated
  induction parts with
  | nil => exact Lacks.mono (by decide) hchars
  | cons part others ih =>
    obtain ⟨hfirst, hothers⟩ := List.forall_mem_cons.mp h
    cases others with
    | nil => rwa [String.intercalate_singleton]
    | cons next others =>
      rw [String.intercalate_cons_cons, lacks_append, lacks_append]
      exact ⟨⟨hfirst, hcomma⟩, ih hothers⟩

/-- A tuple of texts has the characters of each and those of its parentheses and commas. -/
theorem lacks_tuple {parts : List String} (h : ∀ part ∈ parts, Lacks separators part) :
    Lacks separators (tuple parts) := by
  unfold tuple
  split
  · next part =>
    simp only [lacks_append]
    exact ⟨⟨by decide, List.forall_mem_singleton.mp h⟩, by decide⟩
  · simp only [lacks_append]
    exact ⟨⟨by decide, lacks_commaSeparated (List.Subset.refl _) h⟩, by decide⟩

end Text

open Text

/-- The characters of numbers. -/
def Decimal.isNumeric (c : Char) : Bool := c.isDigit || c ∈ ['.', 'e', '+', '-']

theorem Decimal.isNumeric_of_digits {digits : List Char} (h : AllDigits digits) :
    ∀ c ∈ digits, isNumeric c = true := by
  intro c hc
  rw [isNumeric, h c hc, Bool.true_or]

/-- A numeral has only characters of numbers. -/
theorem Decimal.Numeral.isNumeric {text : List Char} {d : Decimal} (h : Numeral text d) :
    ∀ c ∈ text, Decimal.isNumeric c = true := by
  cases h with
  | pointed digits some more =>
    refine List.forall_mem_append.mpr ⟨isNumeric_of_digits digits, ?_⟩
    exact List.forall_mem_cons.mpr ⟨rfl, isNumeric_of_digits more⟩
  | @scientific whole fraction digits some more power =>
    obtain ⟨sign, exponent, hmark, hsign, hexponent⟩ := exponentMark_eq power
    have hpoint : ∀ c ∈ (if fraction = [] then [] else '.' :: fraction),
        Decimal.isNumeric c = true := by
      split
      · exact nofun
      · exact List.forall_mem_cons.mpr ⟨rfl, isNumeric_of_digits more⟩
    have hsigned : Decimal.isNumeric sign = true := by rcases hsign with rfl | rfl <;> rfl
    rw [hmark]
    simp only [List.forall_mem_append, List.forall_mem_cons]
    exact ⟨⟨isNumeric_of_digits digits, hpoint⟩, rfl, hsigned, isNumeric_of_digits hexponent⟩

/-- The text of a double has no separator, also where it is no ordinary number. -/
theorem Binary64.lacks_text (x : Binary64) : Lacks separators x.text := by
  by_cases hfinite : x.isFinite = true
  · obtain ⟨d, numeral, hnumeral, -, htext⟩ := numeral_text hfinite
    rw [htext]
    refine lacks_of_forall (p := Decimal.isNumeric) ?_ (by decide)
    rw [String.toList_ofList]
    split
    · exact List.forall_mem_cons.mpr ⟨rfl, hnumeral.isNumeric⟩
    · exact hnumeral.isNumeric
  · have hbeyond : infinityRank ≤ x.magnitude := by
      simpa [isFinite] using hfinite
    unfold text
    split
    · decide
    · next hnumber =>
      have hinfinite : x.isInfinite = true := by
        simp only [isNaN, decide_eq_true_eq] at hnumber
        exact decide_eq_true (by omega)
      rw [if_pos hinfinite, signed]
      split <;> decide

/-- The text of a whole number has no separator. -/
theorem lacks_int (n : Int) : Lacks separators (toString n) := by
  have hdigits : ∀ m : Nat, Lacks separators m.repr := fun m =>
    lacks_of_forall (p := Char.isDigit) (by
      rw [Nat.toList_repr]
      exact Decimal.allDigits_toDigits m) (by decide)
  rw [Int.toString_eq_repr, Int.repr_eq_if]
  split
  · exact hdigits _
  · exact lacks_append.mpr ⟨by decide, hdigits _⟩

mutual

/-- The text of a value has no separator. -/
theorem Value.lacks_text : (v : Value) → Lacks separators v.text
  | .int n => lacks_int n.toInt
  | .float x => x.lacks_text
  | .bool true => by decide
  | .bool false => by decide
  | .none => by decide
  | .tuple items => lacks_tuple (lacks_texts items)

/-- The texts of some values have no separator. -/
theorem Value.lacks_texts : (items : List Value) →
    ∀ text ∈ Value.texts items, Lacks separators text
  | [] => nofun
  | item :: others => List.forall_mem_cons.mpr ⟨item.lacks_text, lacks_texts others⟩

end

/-- The text of a constant has no separator. -/
theorem Literal.lacks_text (value : Literal) : Lacks separators value.text := by
  have htext : value.text = value.value.text := by
    cases value with
    | bool b => cases b <;> rfl
    | _ => rfl
  rw [htext]
  exact value.value.lacks_text

namespace Expr

/-- A name has no separator. -/
theorem lacks_name {id : String} (h : Token.isName id = true) : Lacks separators id :=
  lacks_of_forall (p := isWordChar) (isWord_name (Token.isIdentifier_of_isName h)).2 (by decide)

theorem lacks_operandText {minimum : Nat} {operand : Expr} {text : String}
    (h : Lacks separators text) : Lacks separators (operandText minimum operand text) := by
  unfold operandText
  split
  · exact lacks_append.mpr ⟨lacks_append.mpr ⟨by decide, h⟩, by decide⟩
  · exact h

/-- Two operands with a sign between them have no separator. -/
theorem lacks_between {left right sign : String} (hleft : Lacks separators left)
    (hright : Lacks separators right) (hsign : Lacks separators sign) :
    Lacks separators (left ++ " " ++ sign ++ " " ++ right) := by
  simp only [lacks_append]
  exact ⟨⟨⟨⟨hleft, by decide⟩, hsign⟩, by decide⟩, hright⟩

mutual

/-- The text of an expression of a program has no separator. -/
theorem lacks_text : (e : Expr) → e.isReadable = true → Lacks separators e.text
  | literal value _, _ => value.lacks_text
  | name id _, h => lacks_name h
  | binary op left right _, h => by
    obtain ⟨hleft, hright⟩ := Bool.and_eq_true_iff.mp h
    exact lacks_between (lacks_operandText (lacks_text left hleft))
      (lacks_operandText (lacks_text right hright)) (by cases op <;> decide)
  | compare op left right _, h => by
    obtain ⟨hleft, hright⟩ := Bool.and_eq_true_iff.mp h
    exact lacks_between (lacks_operandText (lacks_text left hleft))
      (lacks_operandText (lacks_text right hright)) (by cases op <;> decide)
  | tuple items _, h => lacks_tuple (lacks_texts items h)
  | call function args _, h => by
    obtain ⟨hname, hargs⟩ := Bool.and_eq_true_iff.mp h
    have hinside := lacks_commaSeparated (List.Subset.refl _) (lacks_texts args hargs)
    exact lacks_append.mpr ⟨lacks_append.mpr ⟨lacks_append.mpr ⟨lacks_name hname, by decide⟩,
      hinside⟩, by decide⟩

/-- The texts of some expressions of a program have no separator. -/
theorem lacks_texts : (items : List Expr) → allReadable items = true →
    ∀ text ∈ textsWith id items, Lacks separators text
  | [], _ => nofun
  | item :: others, h => by
    obtain ⟨hitem, hothers⟩ := Bool.and_eq_true_iff.mp h
    exact List.forall_mem_cons.mpr
      ⟨lacks_operandText (lacks_text item hitem), lacks_texts others hothers⟩

end

end Expr

/-- A text without separators has none after its short names are replaced by values. -/
theorem lacks_substitute {scopes : Scopes Value} {text replaced : String} {location : Location}
    (h : Lacks separators text)
    (hreplaced : substitute scopes text location = .ok (some replaced)) :
    Lacks separators replaced := by
  obtain ⟨parts, hparts, hjoined⟩ := except_bind_ok.mp hreplaced
  have hall : ∀ part ∈ parts, Lacks separators part.2 := by
    intro part hpart
    obtain ⟨piece, hpiece, hsubstituted⟩ := except_mapM_mem hparts hpart
    unfold substitutePiece at hsubstituted
    split at hsubstituted
    · obtain ⟨value, -, rfl⟩ := except_map_ok.mp hsubstituted
      exact value.lacks_text
    · cases hsubstituted
      intro c hc
      rw [String.toList_ofList] at hc
      refine h c ?_
      rw [← flatMap_shortNames text.toList]
      exact List.mem_flatMap.mpr ⟨piece, hpiece, hc⟩
  split at hjoined
  · cases hjoined
    intro c hc
    rw [String.toList_join] at hc
    obtain ⟨part, hpart, hc⟩ := List.mem_flatMap.mp hc
    obtain ⟨found, hfound, rfl⟩ := List.mem_map.mp hpart
    exact hall found hfound c hc
  · cases hjoined

/-- The texts of a stage, one for each part of a tuple. -/
def Snapshot.parts : Snapshot → List String
  | scalar text => [text]
  | tuple parts => parts

/-- A stage without separators in its parts has none in its text. -/
theorem Snapshot.lacks_text {snapshot : Snapshot}
    (h : ∀ part ∈ snapshot.parts, Lacks separators part) : Lacks separators snapshot.text := by
  cases snapshot with
  | scalar text => exact List.forall_mem_singleton.mp h
  | tuple parts => exact lacks_tuple h

namespace Staged

/-- The stages of a value have no separator. -/
def IsClear (staged : Staged) : Prop :=
  ∀ snapshot ∈ staged.snapshots, ∀ part ∈ snapshot.parts, Lacks separators part

theorem isClear_resolved (value : Value) : (resolved value).IsClear :=
  List.forall_mem_singleton.mpr (List.forall_mem_singleton.mpr value.lacks_text)

theorem IsClear.lacks_texts {staged : Staged} (h : staged.IsClear) :
    ∀ text ∈ staged.texts, Lacks separators text := by
  intro text htext
  obtain ⟨snapshot, hsnapshot, rfl⟩ := List.mem_map.mp htext
  exact Snapshot.lacks_text (h snapshot hsnapshot)

end Staged

namespace Expr

variable {scopes : Scopes Value} {e : Expr} {staged : Staged}

/-- The stages of an operator expression of a program have no separator. -/
theorem isClear_operationStages (h : e.isReadable = true)
    (hstaged : e.operationStages scopes = .ok staged) : staged.IsClear := by
  obtain ⟨value, -, hrest⟩ := except_bind_ok.mp hstaged
  obtain ⟨replaced, hreplaced, hdone⟩ := except_bind_ok.mp hrest
  cases hdone
  have htext := lacks_text e h
  intro snapshot hsnapshot part hpart
  simp only [List.mem_append, List.mem_singleton, Option.mem_toList,
    Option.map_eq_some_iff] at hsnapshot
  rcases hsnapshot with (rfl | ⟨text, rfl, rfl⟩) | rfl
  · cases List.mem_singleton.mp hpart
    exact htext
  · cases List.mem_singleton.mp hpart
    exact lacks_substitute htext hreplaced
  · cases List.mem_singleton.mp hpart
    exact value.lacks_text

/-- The stages of an expression of a program have no separator. -/
theorem isClear_wholeStages (h : e.isReadable = true)
    (hstaged : e.wholeStages scopes = .ok staged) : staged.IsClear := by
  unfold wholeStages at hstaged
  split at hstaged
  · exact isClear_operationStages h hstaged
  · obtain ⟨value, -, rfl⟩ := except_map_ok.mp hstaged
    exact Staged.isClear_resolved value

/-- The stages of an expression of a program have no separator, tuples part by part. -/
theorem isClear_stages (h : e.isReadable = true) (hstaged : e.stages scopes = .ok staged) :
    staged.IsClear := by
  unfold stages at hstaged
  split at hstaged
  · next items place =>
    obtain ⟨parts, hparts, hdone⟩ := except_bind_ok.mp hstaged
    cases hdone
    intro snapshot hsnapshot part hpart
    obtain ⟨index, -, rfl⟩ := List.mem_map.mp hsnapshot
    obtain ⟨texts, htexts, hpart⟩ := List.mem_filterMap.mp hpart
    obtain ⟨shown, hshown, rfl⟩ := List.mem_map.mp htexts
    obtain ⟨item, hitem, hitemStaged⟩ := except_mapM_mem hparts hshown
    have hclear := isClear_wholeStages (leavesAll_of_mem h item hitem) hitemStaged
    refine hclear.lacks_texts part ?_
    rcases Option.or_eq_some_iff.mp hpart with hindex | ⟨-, hlast⟩
    · exact List.mem_of_getElem? hindex
    · exact List.mem_of_getLast? hlast
  · exact isClear_wholeStages h hstaged

/-- The name that a part of a target of a program is. -/
theorem isName_of_targetName (h : e.isReadable = true) {id : String}
    (hname : e.targetName = .ok id) : Token.isName id = true := by
  cases e with
  | name id place =>
    cases hname
    exact h
  | _ => cases hname

end Expr

/-- The names of a target. -/
def Target.names : Target → List String
  | single name => [name]
  | unpack names => names

/-- The names of a target of a program. -/
theorem Expr.isName_of_target {e : Expr} (h : e.isReadable = true) {target : Target}
    (htarget : e.target = .ok target) : ∀ name ∈ target.names, Token.isName name = true := by
  cases e with
  | name id place =>
    cases htarget
    exact List.forall_mem_singleton.mpr h
  | tuple items place =>
    obtain ⟨names, hnames, rfl⟩ := except_map_ok.mp htarget
    intro name hname
    obtain ⟨item, hitem, hitemName⟩ := except_mapM_mem hnames hname
    exact isName_of_targetName (leavesAll_of_mem h item hitem) hitemName
  | _ => cases htarget

/-- What a target shows of a stage without separators has none. -/
theorem Target.lacks_shown {target : Target}
    (hnames : ∀ name ∈ target.names, Token.isName name = true) {snapshot : Snapshot}
    (hsnapshot : ∀ part ∈ snapshot.parts, Lacks separators part) (value : Value) :
    ∀ shown ∈ target.shown value snapshot,
      Lacks separators shown.1 ∧ Lacks separators shown.2 := by
  cases target with
  | single name =>
    have hname := hnames name List.mem_cons_self
    exact List.forall_mem_singleton.mpr ⟨Expr.lacks_name hname, Snapshot.lacks_text hsnapshot⟩
  | unpack names =>
    intro shown hshown
    obtain ⟨hname, hpart⟩ := List.of_mem_zip hshown
    refine ⟨Expr.lacks_name (hnames _ hname), ?_⟩
    unfold partTexts at hpart
    split at hpart
    · exact hsnapshot _ hpart
    · split at hpart
      · exact Value.lacks_texts _ _ hpart
      · exact hsnapshot _ hpart

namespace Step

/-- The texts of a step. -/
def texts : Step → List String
  | assigned _ target expr => [target, expr]
  | pass _ _ counter _ => [counter.target]
  | print _ _ expr _ => [expr]
  | branch _ _ _ expr _ => [expr]
  | call _ _ name signature args =>
    name :: signature :: args.flatMap fun arg => [arg.name, arg.value]
  | giveBack _ _ expr _ => [expr]
  | endCall _ _ name value => [name, value]
  | define _ _ name signature => [name, signature]

/-- None of the texts of a step has any of some characters. -/
def IsClear (chars : List Char) (step : Step) : Prop := ∀ text ∈ step.texts, Lacks chars text

variable {chars : List Char}

/-- The parts of a counter have no separator if its target has none. -/
theorem lacks_fieldText (hchars : chars ⊆ separators) {counter : Counter}
    (h : Lacks chars counter.target) (field : CounterField) :
    Lacks chars (counter.fieldText field) := by
  cases field with
  | target => exact h
  | current | start | stop | step => exact (lacks_int _).mono hchars

/-- A pass in one line has no separator if its parts have none. -/
theorem lacks_passText (hchars : chars ⊆ separators) {part : CounterField → String}
    (h : ∀ field, Lacks chars (part field)) : Lacks chars (passText part) := by
  have hcomma : Lacks chars ", " := Lacks.mono (by decide) hchars
  delta passText
  simp only [lacks_append]
  exact ⟨⟨⟨⟨⟨⟨⟨⟨⟨⟨Lacks.mono (by decide) hchars, h _⟩, Lacks.mono (by decide) hchars⟩, h _⟩,
    Lacks.mono (by decide) hchars⟩, h _⟩, hcomma⟩, h _⟩, hcomma⟩, h _⟩,
    Lacks.mono (by decide) hchars⟩

/-- A branch in one line has no separator if its condition has none. -/
theorem lacks_branchText (hchars : chars ⊆ separators) (kind : BranchKind) {expr : String}
    (h : Lacks chars expr) : Lacks chars (branchText kind expr) := by
  have hkind : Lacks chars kind.text := Lacks.mono (by cases kind <;> decide) hchars
  unfold branchText
  split
  · exact hkind
  · exact lacks_append.mpr ⟨lacks_append.mpr ⟨hkind, Lacks.mono (by decide) hchars⟩, h⟩

/-- A step in one line has none of the separators that its texts do not have. -/
theorem lacks_text (hchars : chars ⊆ separators) {step : Step} (h : step.IsClear chars) :
    Lacks chars step.text := by
  have hwords : ∀ {text : String}, Lacks separators text → Lacks chars text :=
    fun htext => htext.mono hchars
  cases step with
  | assigned depth target expr =>
    obtain ⟨htarget, hexpr⟩ := List.forall_mem_cons.mp h
    exact lacks_append.mpr ⟨lacks_append.mpr ⟨htarget, hwords (by decide)⟩,
      List.forall_mem_singleton.mp hexpr⟩
  | pass id depth counter highlight =>
    exact lacks_passText hchars (lacks_fieldText hchars (List.forall_mem_singleton.mp h))
  | print id depth expr highlight | giveBack id depth expr highlight =>
    exact lacks_append.mpr ⟨hwords (by decide), List.forall_mem_singleton.mp h⟩
  | branch id depth kind expr highlight =>
    exact lacks_branchText hchars kind (List.forall_mem_singleton.mp h)
  | call id depth name signature args =>
    obtain ⟨hname, hrest⟩ := List.forall_mem_cons.mp h
    have hargs := (List.forall_mem_cons.mp hrest).2
    have hinside : Lacks chars (commaSeparated (args.map argumentText)) := by
      refine lacks_commaSeparated hchars (List.forall_mem_map.mpr fun arg harg => ?_)
      have hboth := List.forall_mem_flatMap.mp hargs arg harg
      exact lacks_append.mpr ⟨lacks_append.mpr ⟨hboth _ (by simp), hwords (by decide)⟩,
        hboth _ (by simp)⟩
    simp only [text, lacks_append]
    exact ⟨⟨⟨⟨hwords (by decide), hname⟩, hwords (by decide)⟩, hinside⟩, hwords (by decide)⟩
  | endCall id depth name value =>
    obtain ⟨hname, hvalue⟩ := List.forall_mem_cons.mp h
    exact lacks_append.mpr ⟨lacks_append.mpr ⟨hname, hwords (by decide)⟩,
      List.forall_mem_singleton.mp hvalue⟩
  | define id depth name signature =>
    exact lacks_append.mpr ⟨hwords (by decide), h signature (by simp [texts])⟩

end Step

end Walkthrough
