import Walkthrough.Proofs.Printing
import Walkthrough.Proofs.Words

/-!
# The names in the text of an expression

The words of the text of an expression are its names and the words of its constants, and
no constant is written with a word of one or two letters. So the short names in the text
are the short names among its variables, and replacing them in the text is the same as
writing the expression anew with other texts for these variables.
-/

namespace Walkthrough

open Text

namespace Token

/-- A word as names are spelled, which may be reserved: a letter or an underscore, and then
letters, digits and underscores. -/
def isIdentifier (text : String) : Bool :=
  match text.toList with
  | [] => false
  | c :: cs => startsName c && cs.all continuesName

/-- A name is spelled as names are. -/
theorem isIdentifier_of_isName {text : String} (h : isName text = true) :
    isIdentifier text = true := by
  unfold isName at h
  unfold isIdentifier
  cases htext : text.toList with
  | nil => rw [htext] at h; cases h
  | cons c cs =>
    rw [htext] at h
    exact (Bool.and_eq_true_iff.mp h).1

end Token

namespace Expr

mutual

/-- The names of the variables of an expression. -/
def names : Expr → List String
  | literal _ _ => []
  | name id _ => [id]
  | binary _ left right _ => left.names ++ right.names
  | compare _ left right _ => left.names ++ right.names
  | tuple items _ => allNames items
  | call _ args _ => allNames args

/-- The names of the variables of some expressions. -/
def allNames : List Expr → List String
  | [] => []
  | item :: others => item.names ++ allNames others

end

mutual

/-- Whether an expression contains no call. -/
def isCallFree : Expr → Bool
  | literal _ _ => true
  | name _ _ => true
  | binary _ left right _ => left.isCallFree && right.isCallFree
  | compare _ left right _ => left.isCallFree && right.isCallFree
  | tuple items _ => allCallFree items
  | call _ _ _ => false

/-- Whether some expressions contain no call. -/
def allCallFree : List Expr → Bool
  | [] => true
  | item :: others => item.isCallFree && allCallFree others

end

mutual

/-- The variables of an expression whose names are names are spelled so. -/
theorem isIdentifier_of_leavesAll {literalOk : Literal → Bool} : (e : Expr) →
    e.leavesAll Token.isName literalOk = true → ∀ id ∈ e.names, Token.isIdentifier id = true
  | literal _ _, _ => by simp [names]
  | name _ _, h => by
    intro id hid
    cases List.mem_singleton.mp hid
    exact Token.isIdentifier_of_isName h
  | binary _ left right _, h => by
    obtain ⟨hleft, hright⟩ := Bool.and_eq_true_iff.mp h
    intro id hid
    exact (List.mem_append.mp hid).elim (isIdentifier_of_leavesAll left hleft id)
      (isIdentifier_of_leavesAll right hright id)
  | compare _ left right _, h => by
    obtain ⟨hleft, hright⟩ := Bool.and_eq_true_iff.mp h
    intro id hid
    exact (List.mem_append.mp hid).elim (isIdentifier_of_leavesAll left hleft id)
      (isIdentifier_of_leavesAll right hright id)
  | tuple items _, h => isIdentifier_of_leavesAllList items h
  | call _ args _, h => isIdentifier_of_leavesAllList args (Bool.and_eq_true_iff.mp h).2

/-- The variables of expressions whose names are names are spelled so. -/
theorem isIdentifier_of_leavesAllList {literalOk : Literal → Bool} : (items : List Expr) →
    leavesAllList Token.isName literalOk items = true →
    ∀ id ∈ allNames items, Token.isIdentifier id = true
  | [], _ => by simp [allNames]
  | item :: others, h => by
    obtain ⟨hitem, hothers⟩ := Bool.and_eq_true_iff.mp h
    intro id hid
    exact (List.mem_append.mp hid).elim (isIdentifier_of_leavesAll item hitem id)
      (isIdentifier_of_leavesAllList others hothers id)

end

section

variable {f g : String → String}

mutual

/-- The text of an expression depends on how its own names are written only. -/
theorem textWith_congr : (e : Expr) → (∀ id ∈ e.names, f id = g id) → e.textWith f = e.textWith g
  | literal _ _, _ => rfl
  | name id _, h => h id List.mem_cons_self
  | binary _ left right _, h => by
    rw [textWith, textWith, textWith_congr left fun id hid => h id (List.mem_append_left _ hid),
      textWith_congr right fun id hid => h id (List.mem_append_right _ hid)]
  | compare _ left right _, h => by
    rw [textWith, textWith, textWith_congr left fun id hid => h id (List.mem_append_left _ hid),
      textWith_congr right fun id hid => h id (List.mem_append_right _ hid)]
  | tuple items _, h => by rw [textWith, textWith, textsWith_congr items h]
  | call _ args _, h => by rw [textWith, textWith, textsWith_congr args h]

/-- The texts of some expressions depend on how their own names are written only. -/
theorem textsWith_congr : (items : List Expr) → (∀ id ∈ allNames items, f id = g id) →
    textsWith f items = textsWith g items
  | [], _ => rfl
  | item :: others, h => by
    rw [textsWith, textsWith, textWith_congr item fun id hid => h id (List.mem_append_left _ hid),
      textsWith_congr others fun id hid => h id (List.mem_append_right _ hid)]

end

/-- What stands in an operand stands in its text with parentheses. -/
theorem infix_operandText {minimum : Nat} {e : Expr} {text : String} {piece : List Char}
    (h : piece <:+: text.toList) : piece <:+: (operandText minimum e text).toList := by
  unfold operandText
  split
  · rw [String.toList_append, String.toList_append]
    exact (h.trans (List.suffix_append _ _).isInfix).trans (List.prefix_append _ _).isInfix
  · exact h

/-- What stands in one of two operands stands between them and their sign. -/
theorem infix_between {left right sign : String} {piece : List Char}
    (h : piece <:+: left.toList ∨ piece <:+: right.toList) :
    piece <:+: (left ++ " " ++ sign ++ " " ++ right).toList := by
  simp only [String.toList_append, List.append_assoc]
  rcases h with h | h
  · exact h.trans (List.prefix_append _ _).isInfix
  · refine h.trans ?_
    simp only [← List.append_assoc]
    exact (List.suffix_append _ _).isInfix

/-- What stands in one of some texts stands in the further ones. -/
theorem infix_moreText {parts : List String} {part : String} (hpart : part ∈ parts) :
    part.toList <:+: moreText parts := by
  induction parts with
  | nil => cases hpart
  | cons first others ih =>
    rw [moreText]
    have hskip : ∀ {piece text : List Char}, piece <:+: text → piece <:+: ',' :: ' ' :: text :=
      fun h => h.trans (List.suffix_append [',', ' '] _).isInfix
    rcases List.mem_cons.mp hpart with rfl | hother
    · exact hskip (List.prefix_append _ _).isInfix
    · exact hskip ((ih hother).trans (List.suffix_append _ _).isInfix)

/-- A part of a list stands in its text. -/
theorem infix_commaSeparated {parts : List String} {part : String} (hpart : part ∈ parts) :
    part.toList <:+: (commaSeparated parts).toList := by
  cases parts with
  | nil => cases hpart
  | cons first others =>
    rw [toList_commaSeparated]
    rcases List.mem_cons.mp hpart with rfl | hother
    · exact (List.prefix_append _ _).isInfix
    · exact (infix_moreText hother).trans (List.suffix_append _ _).isInfix

/-- A part of a tuple stands in its text. -/
theorem infix_tupleText {parts : List String} {part : String} (hpart : part ∈ parts) :
    part.toList <:+: (Text.tuple parts).toList := by
  unfold Text.tuple
  split
  · cases List.mem_singleton.mp hpart
    rw [String.toList_append, String.toList_append]
    exact (List.suffix_append _ _).isInfix.trans (List.prefix_append _ _).isInfix
  · rw [String.toList_append, String.toList_append]
    exact ((infix_commaSeparated hpart).trans (List.suffix_append _ _).isInfix).trans
      (List.prefix_append _ _).isInfix

mutual

/-- What a variable is written as stands in the text. -/
theorem infix_textWith : (e : Expr) → {id : String} → id ∈ e.names →
    (f id).toList <:+: (e.textWith f).toList
  | name _ _, _, h => by
    cases List.mem_singleton.mp h
    exact List.infix_rfl
  | binary _ left right _, _, h => infix_between <| (List.mem_append.mp h).imp
      (fun hleft => infix_operandText (infix_textWith left hleft))
      (fun hright => infix_operandText (infix_textWith right hright))
  | compare _ left right _, _, h => infix_between <| (List.mem_append.mp h).imp
      (fun hleft => infix_operandText (infix_textWith left hleft))
      (fun hright => infix_operandText (infix_textWith right hright))
  | tuple items _, _, h => by
    obtain ⟨part, hpart, hin⟩ := infix_textsWith items h
    exact hin.trans (infix_tupleText hpart)
  | call function args _, _, h => by
    obtain ⟨part, hpart, hin⟩ := infix_textsWith args h
    rw [textWith, String.toList_append, String.toList_append, String.toList_append]
    exact (hin.trans (infix_commaSeparated hpart)).trans
      ((List.suffix_append _ _).isInfix.trans (List.prefix_append _ _).isInfix)

/-- What a variable is written as stands in one of the texts. -/
theorem infix_textsWith : (items : List Expr) → {id : String} → id ∈ allNames items →
    ∃ part ∈ textsWith f items, (f id).toList <:+: part.toList
  | item :: others, _, h => by
    rcases List.mem_append.mp h with hitem | hothers
    · exact ⟨_, List.mem_cons_self, infix_operandText (infix_textWith item hitem)⟩
    · obtain ⟨part, hpart, hin⟩ := infix_textsWith others hothers
      exact ⟨part, List.mem_cons_of_mem _ hpart, hin⟩

end

end

section

variable {change : List Char → List Char}

/-- The parentheses of an operand stay. -/
theorem turns_operandText {minimum : Nat} {e : Expr} {text out : String}
    (h : Turns change text.toList out.toList) :
    Turns change (operandText minimum e text).toList (operandText minimum e out).toList := by
  unfold operandText
  split
  · simp only [String.toList_append]
    exact (h.append_cons rfl .nil).cons rfl
  · exact h

/-- A sign between two operands stays. -/
theorem turns_between {left right sign out₁ out₂ : String}
    (hleft : Turns change left.toList out₁.toList)
    (hright : Turns change right.toList out₂.toList)
    (hsign : (sign.toList.all fun c => !isWordChar c) = true) :
    Turns change (left ++ " " ++ sign ++ " " ++ right).toList
      (out₁ ++ " " ++ sign ++ " " ++ out₂).toList := by
  have hmarks : ∀ c ∈ sign.toList, isWordChar c = false := by simpa using hsign
  have hall := hleft.append_cons (c := ' ') rfl (.marks hmarks (hright.cons (c := ' ') rfl))
  simpa [String.toList_append] using hall

/-- The parentheses of a tuple stay. -/
theorem turns_tupleText {texts outs : List String} (hlength : outs.length = texts.length)
    (h : Turns change (commaSeparated texts).toList (commaSeparated outs).toList) :
    Turns change (Text.tuple texts).toList (Text.tuple outs).toList := by
  have hplain : Turns change ("(" ++ commaSeparated texts ++ ")").toList
      ("(" ++ commaSeparated outs ++ ")").toList := by
    simp only [String.toList_append]
    exact (h.append_cons rfl .nil).cons rfl
  match texts, outs, hlength with
  | [], [], _ => exact hplain
  | [text], [out], _ =>
    have hcomma : Turns change [')'] [')'] := .cons rfl .nil
    have hpart : ∀ part : String, commaSeparated [part] = part :=
      fun _ => String.intercalate_singleton
    have hall := (h.append_cons (c := ',') rfl hcomma).cons (c := '(') rfl
    rw [hpart, hpart] at hall
    simpa [Text.tuple, String.toList_append] using hall
  | _ :: _ :: _, _ :: _ :: _, _ => exact hplain

/-- After a part of a list no word goes on. -/
theorem endsWord_moreText (texts : List String) (rest : List Char) (h : EndsWord rest) :
    EndsWord (moreText texts ++ rest) := by
  cases texts with
  | nil => exact h
  | cons part others => exact endsWord_cons rfl _

theorem length_textsWith (f : String → String) (items : List Expr) :
    (textsWith f items).length = items.length := by
  induction items with
  | nil => rfl
  | cons item others ih => rw [textsWith, List.length_cons, ih, List.length_cons]

/-- A variable with its name changed if it is short. -/
def reworded (change : List Char → List Char) (id : String) : String :=
  if isShortName id.toList then String.ofList (change id.toList) else id

/-- A word that is spelled as names are is one word. -/
theorem isWord_name {id : String} (h : Token.isIdentifier id = true) : IsWord id.toList := by
  unfold Token.isIdentifier at h
  cases htext : id.toList with
  | nil => rw [htext] at h; cases h
  | cons c cs =>
    rw [htext] at h
    simp only [Bool.and_eq_true, List.all_eq_true] at h
    refine ⟨List.cons_ne_nil _ _, fun x hx => isWordChar_of_continuesName ?_⟩
    rcases List.mem_cons.mp hx with rfl | hx
    · exact Token.continuesName_of_startsName h.1
    · exact h.2 x hx

/-- A name turns into the changed name. -/
theorem turns_name {id : String} (h : Token.isIdentifier id = true) :
    Turns change id.toList (reworded change id).toList := by
  have hturns : Turns change id.toList _ := .word (isWord_name h)
  unfold reworded
  split
  · next hshort => rwa [if_pos hshort, ← String.toList_ofList (l := change id.toList)] at hturns
  · next hlong => rwa [if_neg hlong] at hturns

mutual

/-- The text of an expression turns into its text with the short names changed. -/
theorem turns_textWith : (e : Expr) → e.isCallFree = true →
    (∀ id ∈ e.names, Token.isIdentifier id = true) →
    Turns change e.text.toList (e.textWith (reworded change)).toList
  | literal value _, _, _ => turns_literal value
  | name id _, _, hnames => turns_name (hnames id List.mem_cons_self)
  | binary op left right _, hcalls, hnames => by
    obtain ⟨hleft, hright⟩ := Bool.and_eq_true_iff.mp hcalls
    have hturns := turns_textWith left hleft fun id hid => hnames id (List.mem_append_left _ hid)
    have hturns' := turns_textWith right hright fun id hid =>
      hnames id (List.mem_append_right _ hid)
    exact turns_between (turns_operandText hturns) (turns_operandText hturns') (by cases op <;> rfl)
  | compare op left right _, hcalls, hnames => by
    obtain ⟨hleft, hright⟩ := Bool.and_eq_true_iff.mp hcalls
    have hturns := turns_textWith left hleft fun id hid => hnames id (List.mem_append_left _ hid)
    have hturns' := turns_textWith right hright fun id hid =>
      hnames id (List.mem_append_right _ hid)
    exact turns_between (turns_operandText hturns) (turns_operandText hturns') (by cases op <;> rfl)
  | tuple items _, hcalls, hnames =>
    turns_tupleText (by rw [length_textsWith, length_textsWith])
      (turns_textsWith items hcalls hnames)

/-- The texts of some expressions with commas between them turn into those with the short names
changed. -/
theorem turns_textsWith : (items : List Expr) → allCallFree items = true →
    (∀ id ∈ allNames items, Token.isIdentifier id = true) →
    Turns change (commaSeparated (textsWith id items)).toList
      (commaSeparated (textsWith (reworded change) items)).toList
  | [], _, _ => .nil
  | item :: others, hcalls, hnames => by
    obtain ⟨hitem, hothers⟩ := Bool.and_eq_true_iff.mp hcalls
    have hturns := turns_textWith item hitem fun id hid => hnames id (List.mem_append_left _ hid)
    rw [textsWith, textsWith, toList_commaSeparated, toList_commaSeparated]
    exact (turns_operandText hturns).append (turns_moreText others hothers fun id hid =>
      hnames id (List.mem_append_right _ hid)) (endsWord_moreText _)

/-- The further texts of a list turn into those with the short names changed. -/
theorem turns_moreText : (items : List Expr) → allCallFree items = true →
    (∀ id ∈ allNames items, Token.isIdentifier id = true) →
    Turns change (moreText (textsWith id items)) (moreText (textsWith (reworded change) items))
  | [], _, _ => .nil
  | item :: others, hcalls, hnames => by
    obtain ⟨hitem, hothers⟩ := Bool.and_eq_true_iff.mp hcalls
    have hturns := turns_textWith item hitem fun id hid => hnames id (List.mem_append_left _ hid)
    rw [textsWith, textsWith, moreText, moreText]
    refine .cons rfl (.cons rfl ?_)
    exact (turns_operandText hturns).append (turns_moreText others hothers fun id hid =>
      hnames id (List.mem_append_right _ hid)) (endsWord_moreText _)

end

/-- Changing the short names of a text is writing the expression with these names changed. -/
theorem swapped_text {e : Expr} (hcalls : e.isCallFree = true)
    (hnames : ∀ id ∈ e.names, Token.isIdentifier id = true) (change : List Char → List Char) :
    swapped change e.text.toList = (e.textWith (reworded change)).toList := by
  have hturns : Turns change _ _ := e.turns_textWith hcalls hnames
  have hturns := hturns [] endsWord_nil
  rw [List.append_nil] at hturns
  exact hturns.trans (List.append_nil _)

end

end Expr

/-- A word that is kept, or left out. -/
def keptWord (keep : List Char → Bool) (word : List Char) : List Char :=
  if keep word then word else []

/-- A piece of a text in which only some short names are kept. -/
def keptPiece (keep : List Char → Bool) (piece : Bool × List Char) : List Char :=
  if piece.1 then keptWord keep piece.2 else piece.2

/-- A piece becomes no longer, and stays as long as it is only if it is no short name that is left
out. -/
theorem length_keptPiece (keep : List Char → Bool) {piece : Bool × List Char}
    (hpiece : piece.1 = true → isShortName piece.2 = true) :
    (keptPiece keep piece).length ≤ piece.2.length ∧
    ((keptPiece keep piece).length = piece.2.length → piece.1 = true → keep piece.2 = true) := by
  unfold keptPiece
  split
  · next hfound =>
    have hpositive : 0 < piece.2.length := by
      have hshort := hpiece hfound
      simp only [isShortName, Bool.and_eq_true, Bool.or_eq_true, beq_iff_eq] at hshort
      omega
    unfold keptWord
    split
    · next hkeep => exact ⟨Nat.le_refl _, fun _ _ => hkeep⟩
    · exact ⟨Nat.zero_le _, fun h => absurd h (by rw [List.length_nil]; omega)⟩
  · next hother => exact ⟨Nat.le_refl _, fun _ hfound => absurd hfound hother⟩

/-- Leaving out short names makes no text longer, and leaves it as long as it is only where all
of them are kept. -/
theorem length_flatMap_keptPiece (keep : List Char → Bool) {pieces : List (Bool × List Char)}
    (hpieces : ∀ piece ∈ pieces, piece.1 = true → isShortName piece.2 = true) :
    (pieces.flatMap (keptPiece keep)).length ≤ (pieces.flatMap Prod.snd).length ∧
    ((pieces.flatMap (keptPiece keep)).length = (pieces.flatMap Prod.snd).length →
      ∀ piece ∈ pieces, piece.1 = true → keep piece.2 = true) := by
  induction pieces with
  | nil => simp
  | cons piece others ih =>
    obtain ⟨hfirst, hothers⟩ := List.forall_mem_cons.mp hpieces
    obtain ⟨hle, hall⟩ := ih hothers
    obtain ⟨hpiece, hkept⟩ := length_keptPiece keep hfirst
    simp only [List.flatMap_cons, List.length_append]
    refine ⟨by omega, fun heq other hother => ?_⟩
    rcases List.mem_cons.mp hother with rfl | hother
    · exact hkept (by omega)
    · exact hall (by omega) other hother

/-- Where leaving out short names changes nothing, all of them are kept. -/
theorem kept_of_swapped {keep : List Char → Bool} {text : List Char}
    (h : swapped (keptWord keep) text = text) :
    ∀ piece ∈ shortNames text, piece.1 = true → keep piece.2 = true := by
  refine (length_flatMap_keptPiece keep fun _ => isShortName_of_mem_shortNames).2 ?_
  rw [flatMap_shortNames]
  exact congrArg List.length h

/-- Where nothing is found nothing changes. -/
theorem swapped_of_not_found {text : List Char} (h : ∀ piece ∈ shortNames text, piece.1 = false)
    (change : List Char → List Char) : swapped change text = text := by
  calc swapped change text = (shortNames text).flatMap Prod.snd :=
        List.flatMap_congr fun piece hpiece =>
          if_neg fun hfound => absurd ((h piece hpiece).symm.trans hfound) Bool.false_ne_true
    _ = text := flatMap_shortNames text

namespace Expr

variable {e : Expr}

/-- Every short name in the text of an expression is one of its variables. -/
theorem mem_names_of_found (hcalls : e.isCallFree = true)
    (hnames : ∀ id ∈ e.names, Token.isIdentifier id = true) {piece : Bool × List Char}
    (hpiece : piece ∈ shortNames e.text.toList) (hfound : piece.1 = true) :
    String.ofList piece.2 ∈ e.names := by
  let keep : List Char → Bool := fun word => e.names.contains (String.ofList word)
  have hkept : ∀ id ∈ e.names, reworded (keptWord keep) id = id := by
    intro id hid
    have hkeep : keep id.toList = true := by
      simpa only [keep, String.ofList_toList, List.contains_iff_mem] using hid
    unfold reworded keptWord
    rw [hkeep, if_pos rfl, String.ofList_toList, ite_self]
  have hsame : swapped (keptWord keep) e.text.toList = e.text.toList := by
    rw [swapped_text hcalls hnames, e.textWith_congr hkept]
    rfl
  exact List.contains_iff_mem.mp (kept_of_swapped hsame piece hpiece hfound)

/-- A variable with a short name is found in the text. Otherwise every change of short names
would leave the text as it is, but there is one with a name longer than the text. -/
theorem exists_found (hcalls : e.isCallFree = true)
    (hnames : ∀ id ∈ e.names, Token.isIdentifier id = true) {id : String} (hid : id ∈ e.names)
    (hshort : isShortName id.toList = true) :
    ∃ piece ∈ shortNames e.text.toList, piece.1 = true := by
  by_contra hnone
  have hall : ∀ piece ∈ shortNames e.text.toList, piece.1 = false :=
    fun piece hpiece => Bool.eq_false_iff.mpr fun hfound => hnone ⟨piece, hpiece, hfound⟩
  let change : List Char → List Char := fun _ => List.replicate (e.text.toList.length + 1) 'x'
  have hchanged := swapped_text hcalls hnames change
  rw [swapped_of_not_found hall] at hchanged
  have hinside := (e.infix_textWith (f := reworded change) hid).length_le
  rw [← hchanged, reworded, if_pos hshort, String.toList_ofList, List.length_replicate] at hinside
  omega

end Expr

/-- How a variable is written where short names stand for their values. -/
def Scopes.nameText (scopes : Scopes Value) (id : String) : String :=
  if isShortName id.toList then ((scopes.find? id).map Value.text).getD id else id

theorem reworded_wordText (scopes : Scopes Value) :
    Expr.reworded scopes.wordText = scopes.nameText := by
  funext id
  unfold Expr.reworded Scopes.wordText Scopes.nameText
  rw [String.ofList_toList]
  cases scopes.find? id <;> simp

namespace Expr

/-- Replacing short names in the text of an expression is writing it with their values, if there
are any. -/
theorem substitute_textWith {e : Expr} {scopes : Scopes Value} (hcalls : e.isCallFree = true)
    (hnames : ∀ id ∈ e.names, Token.isIdentifier id = true)
    (hbound : ∀ id ∈ e.names, isShortName id.toList = true → ∃ value, scopes.find? id = some value)
    (location : Location) :
    substitute scopes e.text location =
      .ok (if ∃ id ∈ e.names, isShortName id.toList = true then some (e.textWith scopes.nameText)
        else none) := by
  have hmem := fun piece (hpiece : piece ∈ shortNames e.text.toList) =>
    mem_names_of_found hcalls hnames hpiece
  have hshort : ∀ piece ∈ shortNames e.text.toList, piece.1 = true →
      isShortName (String.ofList piece.2).toList = true := fun piece hpiece hfound => by
    rw [String.toList_ofList]
    exact isShortName_of_mem_shortNames hpiece hfound
  have hsome : (shortNames e.text.toList).any Prod.fst = true ↔
      ∃ id ∈ e.names, isShortName id.toList = true := by
    rw [List.any_eq_true]
    constructor
    · rintro ⟨piece, hpiece, hfound⟩
      exact ⟨_, hmem piece hpiece hfound, hshort piece hpiece hfound⟩
    · rintro ⟨id, hid, hidShort⟩
      exact exists_found hcalls hnames hid hidShort
  rw [substitute_eq location fun piece hpiece hfound =>
    hbound _ (hmem piece hpiece hfound) (hshort piece hpiece hfound)]
  simp only [hsome, swapped_text hcalls hnames, reworded_wordText, String.ofList_toList]

end Expr

/-- Replacing names in a text agrees with replacing them in the expression. For an expression
without calls, whose variables are spelled as names are and are bound where they are short,
nothing is replaced in its text exactly if no variable is short. Otherwise the text becomes
that of the expression, with the same parentheses, blanks and signs, in which each short
variable is written as its value and everything else as before. -/
theorem substitution_follows_tree {e : Expr} {scopes : Scopes Value}
    (hcalls : e.isCallFree = true) (hnames : ∀ id ∈ e.names, Token.isIdentifier id = true)
    (hbound : ∀ id ∈ e.names, isShortName id.toList = true → ∃ value, scopes.find? id = some value)
    (location : Location) :
    (substitute scopes e.text location = .ok none ↔
      ∀ id ∈ e.names, isShortName id.toList = false) ∧
    ((∃ id ∈ e.names, isShortName id.toList = true) →
      substitute scopes e.text location = .ok (some (e.textWith scopes.nameText))) := by
  have hreplaced := Expr.substitute_textWith hcalls hnames hbound location
  constructor
  · rw [hreplaced]
    constructor
    · intro hnone id hid
      by_contra hshort
      rw [if_pos ⟨id, hid, (Bool.not_eq_false _).mp hshort⟩] at hnone
      cases hnone
    · intro hlong
      rw [if_neg]
      rintro ⟨id, hid, hshort⟩
      exact Bool.false_ne_true ((hlong id hid).symm.trans hshort)
  · intro hshort
    rw [hreplaced, if_pos hshort]

namespace Sample

/-- A negative number, a tuple with a letter of its own, and two numbers with longer names. -/
def measures : Scopes Value :=
  (((Scopes.empty.bind "a" (.int (-3))).bind "xs" (.tuple [.int 7, .none])).bind
    "total" (.int 4)).bind "e_1" (.int 5)

/-- The comparison `(total - a) ** 1e+20 == (xs, e_1)`. -/
def powers : Expr :=
  .compare .equal
    (.binary .pow (.binary .sub (.name "total" .origin) (.name "a" .origin) .origin)
      (.literal (.float (.ofInt 100000000000000000000)) .origin) .origin)
    (.tuple [.name "xs" .origin, .name "e_1" .origin] .origin) .origin

end Sample

theorem powers_replaced :
    substitute Sample.measures "(total - a) ** 1e+20 == (xs, e_1)" .origin =
      .ok (some "(total - -3) ** 1e+20 == ((7, None), e_1)") := by
  have htext : Sample.powers.text = "(total - a) ** 1e+20 == (xs, e_1)" := by decide +kernel
  have hout : Sample.powers.textWith Sample.measures.nameText =
      "(total - -3) ** 1e+20 == ((7, None), e_1)" := by decide +kernel
  have hbound : ∀ id ∈ Sample.powers.names, isShortName id.toList = true →
      ∃ value, Sample.measures.find? id = some value := by
    have hfound : ∀ id ∈ Sample.powers.names, (Sample.measures.find? id).isSome = true := by
      decide +kernel
    exact fun id hid _ => Option.isSome_iff_exists.mp (hfound id hid)
  have hreplaced := (substitution_follows_tree (e := Sample.powers) (by decide)
    (by decide +kernel) hbound .origin).2 ⟨"a", by decide +kernel, by decide⟩
  rwa [htext, hout] at hreplaced

end Walkthrough
