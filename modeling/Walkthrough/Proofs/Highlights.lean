import Mathlib.Data.List.Forall2
import Walkthrough.Highlight

/-!
# What is marked

The characters that are marked when a text follows another one are in order and inside the
text. If the earlier text has names of one character in it, and the later one has values
instead, then exactly the characters of the values are marked. A value with nothing after
it is not, since the last character of the earlier text is never taken for a name.
-/

namespace Walkthrough

namespace Highlight

variable {position : Nat} {earlier later : List Char}

/-- Nothing is marked where the earlier text is at its last character, or the later one at
its end. -/
theorem changedFrom_eq_nil (h : earlier.length ≤ 1 ∨ later = []) :
    changedFrom position earlier later = [] := by
  match earlier, later with
  | [], _ => rfl
  | [_], _ => rfl
  | _ :: _ :: _, [] => rfl
  | _ :: _ :: _, _ :: _ => simp at h

/-- A character that stays is passed by. -/
theorem changedFrom_cons_same (position : Nat) (c : Char) (earlier later : List Char) :
    changedFrom position (c :: earlier) (c :: later) =
      changedFrom (position + 1) earlier later := by
  cases earlier with
  | nil => rfl
  | cons y earlier => rw [changedFrom, if_pos rfl]

/-- A text that stays is passed by. -/
theorem changedFrom_append (position : Nat) (same earlier later : List Char) :
    changedFrom position (same ++ earlier) (same ++ later) =
      changedFrom (position + same.length) earlier later := by
  induction same generalizing position with
  | nil => rfl
  | cons c same ih =>
    rw [List.cons_append, List.cons_append, changedFrom_cons_same, ih, List.length_cons]
    congr 1
    omega

/-- The positions marked from here on where a name has been passed: those up to the character
that followed the name, and then all later changes. -/
def passedFrom (position : Nat) : List Char → List Char → Highlight
  | [], _ => []
  | next :: earlier, later =>
    let replaced := later.takeWhile (· != next)
    List.range' position replaced.length ++
      changedFrom (position + replaced.length) (next :: earlier) (later.dropWhile (· != next))

/-- A character that does not stay is taken for a name. -/
theorem changedFrom_cons_ne {x c : Char} (h : x ≠ c) (position : Nat) (next : Char)
    (earlier later : List Char) :
    changedFrom position (x :: next :: earlier) (c :: later) =
      passedFrom position (next :: earlier) (c :: later) := by
  rw [changedFrom, if_neg h]
  rfl

/-- At the character that followed the name the texts agree again. -/
theorem passedFrom_cons_same (position : Nat) (next : Char) (earlier later : List Char) :
    passedFrom position (next :: earlier) (next :: later) =
      changedFrom position (next :: earlier) (next :: later) := by
  simp [passedFrom]

/-- Up to the character that followed the name each one is marked. -/
theorem passedFrom_cons_ne {c next : Char} (h : c ≠ next) (position : Nat)
    (earlier later : List Char) :
    passedFrom position (next :: earlier) (c :: later) =
      position :: passedFrom (position + 1) (next :: earlier) later := by
  have hnew : (c != next) = true := bne_iff_ne.mpr h
  unfold passedFrom
  simp only [List.takeWhile_cons, List.dropWhile_cons, hnew, if_true, List.length_cons,
    List.range'_succ, List.cons_append]
  rw [Nat.add_right_comm, Nat.add_assoc]

/-- At the end of the later text nothing is left to mark. -/
theorem passedFrom_nil (position : Nat) (earlier : List Char) :
    passedFrom position earlier [] = [] := by
  cases earlier with
  | nil => rfl
  | cons next earlier => exact changedFrom_eq_nil (.inr rfl)

/-- The whole text before the character that followed the name is marked. -/
theorem passedFrom_append {value : List Char} {next : Char} (h : next ∉ value) (position : Nat)
    (earlier later : List Char) :
    passedFrom position (next :: earlier) (value ++ next :: later) =
      List.range' position value.length ++
        changedFrom (position + value.length + 1) earlier later := by
  induction value generalizing position with
  | nil => rw [List.nil_append, passedFrom_cons_same, changedFrom_cons_same]; rfl
  | cons c value ih =>
    obtain ⟨hc, hvalue⟩ := not_or.mp (mt List.mem_cons.mpr h)
    have hend : position + (value.length + 1) + 1 = position + 1 + value.length + 1 := by omega
    rw [List.cons_append, passedFrom_cons_ne (Ne.symm hc), ih hvalue, List.length_cons,
      List.range'_succ, List.cons_append, hend]

/-- The positions of a highlight are in order and inside a text. -/
structure Fits (highlight : Highlight) (text : String) : Prop where
  /-- Each position is greater than the one before it. -/
  increasing : highlight.Pairwise (· < ·)
  /-- Each position is that of a character. -/
  inside : ∀ place ∈ highlight, place < text.length

/-- Positions in order, from a position on and below another one. -/
structure Between (low high : Nat) (highlight : Highlight) : Prop where
  increasing : highlight.Pairwise (· < ·)
  bounds : ∀ place ∈ highlight, low ≤ place ∧ place < high

theorem Between.nil (low high : Nat) : Between low high [] := ⟨.nil, by simp⟩

/-- Positions between wider bounds. -/
theorem Between.mono {low low' high : Nat} {highlight : Highlight}
    (h : Between low' high highlight) (hlow : low ≤ low') : Between low high highlight :=
  ⟨h.increasing, fun place hplace => ⟨Nat.le_trans hlow (h.bounds place hplace).1,
    (h.bounds place hplace).2⟩⟩

/-- A run of positions stands before positions that start where it ends. -/
theorem Between.run {low size high : Nat} {highlight : Highlight}
    (h : Between (low + size) high highlight) (hsize : low + size ≤ high) :
    Between low high (List.range' low size ++ highlight) := by
  constructor
  · refine List.pairwise_append.mpr ⟨List.pairwise_lt_range', h.increasing, ?_⟩
    intro first hfirst second hsecond
    have hfirst := (List.mem_range'_1.mp hfirst).2
    have hsecond := (h.bounds second hsecond).1
    omega
  · intro place hplace
    rcases List.mem_append.mp hplace with hplace | hplace
    · have hplace := List.mem_range'_1.mp hplace
      omega
    · have hplace := h.bounds place hplace
      omega

/-- What is marked from a position on is in order and inside the later text. -/
theorem changedFrom_between (position : Nat) (earlier later : List Char) :
    Between position (position + later.length) (changedFrom position earlier later) := by
  fun_induction changedFrom position earlier later with
  | case1 position y earlier c later ih =>
    have hlength : position + 1 + later.length = position + (c :: later).length := by
      rw [List.length_cons]
      omega
    rw [hlength] at ih
    exact ih.mono (Nat.le_succ position)
  | case2 position x y earlier c later _ replaced ih =>
    -- The marked part and the part from the next agreement on make up the later text.
    have hparts : replaced.length + ((c :: later).dropWhile (· != y)).length =
        (c :: later).length := by
      rw [← List.length_append, List.takeWhile_append_dropWhile]
    have hlength : position + replaced.length + ((c :: later).dropWhile (· != y)).length =
        position + (c :: later).length := by
      omega
    rw [hlength] at ih
    exact ih.run (by omega)
  | case3 => exact .nil _ _

/-- What changed in a text is in order and inside it. -/
theorem changed_fits (earlier later : String) : (changed earlier later).Fits later := by
  have h := changedFrom_between 0 earlier.toList later.toList
  refine ⟨h.increasing, fun place hplace => ?_⟩
  have hplace := (h.bounds place hplace).2
  rwa [Nat.zero_add, String.length_toList] at hplace

/-- Nothing changes in a text that stays. -/
theorem changed_self (text : String) : changed text text = [] := by
  have h := changedFrom_append 0 text.toList [] []
  rwa [List.append_nil] at h

/-- All positions of a text are in order and inside it. -/
theorem full_fits (text : String) : (full text).Fits text :=
  ⟨List.pairwise_lt_range, fun _ hplace => List.mem_range.mp hplace⟩

/-- The marks of stages that follow a text fit the stages. -/
theorem following_fits (previous : String) (stages : List String) :
    List.Forall₂ Fits (following previous stages) stages := by
  fun_induction following previous stages with
  | case1 => exact .nil
  | case2 _ last => exact .cons (full_fits last) .nil
  | case3 previous text others _ ih => exact .cons (changed_fits previous text) ih

/-- The marks of stages fit the stages, one by one. -/
theorem sequence_fits (stages : List String) : List.Forall₂ Fits (sequence stages) stages :=
  following_fits _ stages

/-- In the first of several stages nothing is marked. -/
theorem head?_sequence {stages : List String} (h : 2 ≤ stages.length) :
    (sequence stages).head? = some [] := by
  match stages, h with
  | text :: next :: others, _ =>
    change some (changed text text) = some []
    rw [changed_self]

/-- Of stages that follow a text, the last is marked in full. -/
theorem getLast?_following (previous : String) (stages : List String) :
    (following previous stages).getLast? = stages.getLast?.map full := by
  fun_induction following previous stages with
  | case1 => rfl
  | case2 => rfl
  | case3 previous text others hmore ih =>
    have hothers : others ≠ [] := fun hnone => hmore hnone
    have hmarks : following text others ≠ [] := by
      intro hnone
      rw [hnone, List.getLast?_nil, eq_comm, Option.map_eq_none_iff] at ih
      exact hothers (List.getLast?_eq_none_iff.mp ih)
    rw [List.getLast?_cons_of_ne_nil hmarks, List.getLast?_cons_of_ne_nil hothers, ih]

/-- The last stage is marked in full. -/
theorem getLast?_sequence (stages : List String) :
    (sequence stages).getLast? = stages.getLast?.map full :=
  getLast?_following _ stages

/-- A name of one character, the value that replaces it, and the text after both. -/
structure Replaced where
  /-- The name in the earlier text. -/
  name : Char
  /-- What the later text has instead. -/
  value : List Char
  /-- The text up to the next name. -/
  rest : List Char
  /-- The name is not dropped. -/
  value_ne_nil : value ≠ []
  /-- The value differs from the name at once. -/
  head?_ne : value.head? ≠ some name
  /-- The character after the name is not in the value. -/
  next_notMem : ∀ next, rest.head? = some next → next ∉ value

namespace Replaced

/-- The text with the names. -/
def named (parts : List Replaced) : List Char := parts.flatMap fun part => part.name :: part.rest

/-- The text with the values. -/
def valued (parts : List Replaced) : List Char := parts.flatMap fun part => part.value ++ part.rest

/-- The positions of the values that have text after them, in the text with the values. -/
def spans (position : Nat) : List Replaced → Highlight
  | [] => []
  | part :: others =>
    (if part.rest = [] then [] else List.range' position part.value.length) ++
      spans (position + (part.value ++ part.rest).length) others

/-- A position of a value comes after all parts before the value. -/
theorem mem_spans {place : Nat} (position : Nat) (parts : List Replaced) :
    place ∈ spans position parts ↔ ∃ before part after, parts = before ++ part :: after ∧
      part.rest ≠ [] ∧ position + (valued before).length ≤ place ∧
      place < position + (valued before).length + part.value.length := by
  induction parts generalizing position with
  | nil => simp [spans]
  | cons first others ih =>
    rw [spans, List.mem_append, ih]
    constructor
    · rintro (hfirst | ⟨before, part, after, rfl, hrest, hlow, hhigh⟩)
      · split at hfirst
        · cases hfirst
        · next hrest =>
          obtain ⟨hlow, hhigh⟩ := List.mem_range'_1.mp hfirst
          exact ⟨[], first, others, rfl, hrest, hlow, hhigh⟩
      · refine ⟨first :: before, part, after, rfl, hrest, ?_⟩
        rw [valued, List.flatMap_cons, List.length_append, ← Nat.add_assoc]
        exact ⟨hlow, hhigh⟩
    · rintro ⟨before, part, after, hparts, hrest, hlow, hhigh⟩
      cases before with
      | nil =>
        cases hparts
        left
        rw [if_neg hrest]
        exact List.mem_range'_1.mpr ⟨hlow, hhigh⟩
      | cons other before =>
        cases hparts
        right
        rw [valued, List.flatMap_cons, List.length_append, ← Nat.add_assoc] at hlow hhigh
        exact ⟨before, part, after, rfl, hrest, hlow, hhigh⟩

/-- A name with text after it has its whole value marked. -/
theorem changedFrom_named (part : Replaced) (hrest : part.rest ≠ []) (position : Nat)
    (earlier later : List Char) :
    changedFrom position (part.name :: part.rest ++ earlier) (part.value ++ part.rest ++ later) =
      List.range' position part.value.length ++
        changedFrom (position + (part.value ++ part.rest).length) earlier later := by
  obtain ⟨name, value, rest, hvalue, hhead, hnext⟩ := part
  obtain ⟨next, rest, rfl⟩ := List.exists_cons_of_ne_nil hrest
  obtain ⟨c, value, rfl⟩ := List.exists_cons_of_ne_nil hvalue
  have hname : name ≠ c := fun hsame => hhead (hsame ▸ rfl)
  -- The value is passed up to the first character after it, and the texts agree from there.
  have hpassed := passedFrom_append (hnext next rfl) position (rest ++ earlier) (rest ++ later)
  rw [changedFrom_append] at hpassed
  have hend : position + (c :: value).length + 1 + rest.length =
      position + (c :: value ++ next :: rest).length := by
    rw [List.length_append, List.length_cons, List.length_cons]
    omega
  rw [hend] at hpassed
  simp only [List.cons_append, List.append_assoc] at hpassed ⊢
  rw [changedFrom_cons_ne hname]
  exact hpassed

/-- If only the last name may have nothing after it, the marked characters are the positions
of the values that have text after them. -/
theorem changedFrom_eq_spans (position : Nat) (parts : List Replaced)
    (h : ∀ part ∈ parts.dropLast, part.rest ≠ []) :
    changedFrom position (named parts) (valued parts) = spans position parts := by
  induction parts generalizing position with
  | nil => rfl
  | cons part others ih =>
    rw [named, valued, List.flatMap_cons, List.flatMap_cons, spans]
    by_cases hrest : part.rest = []
    · -- Nothing is after this name, so it is the last one and the earlier text ends with it.
      have hlast : others = [] := by
        cases others with
        | nil => rfl
        | cons next others => exact absurd hrest (h part List.mem_cons_self)
      rw [hlast, hrest, if_pos rfl]
      exact changedFrom_eq_nil (.inl (Nat.le_refl 1))
    · have hothers : ∀ other ∈ others.dropLast, other.rest ≠ [] := by
        intro other hother
        refine h other ?_
        rw [List.dropLast_cons_of_ne_nil (List.ne_nil_of_mem (List.dropLast_subset others hother))]
        exact List.mem_cons_of_mem part hother
      rw [changedFrom_named part hrest, if_neg hrest]
      exact congrArg _ (ih _ hothers)

end Replaced

end Highlight

open Highlight in
/-- Where names of one character are replaced by values, with text after each of them but
perhaps the last, the marked positions are in order, and they are exactly those of the values
that have text after them. -/
theorem changed_marks_replaced (start : List Char) (parts : List Replaced)
    (h : ∀ part ∈ parts.dropLast, part.rest ≠ []) :
    let marked := changed (String.ofList (start ++ Replaced.named parts))
      (String.ofList (start ++ Replaced.valued parts))
    marked.Pairwise (· < ·) ∧
      ∀ place, place ∈ marked ↔ ∃ before part after, parts = before ++ part :: after ∧
        part.rest ≠ [] ∧ (start ++ Replaced.valued before).length ≤ place ∧
        place < (start ++ Replaced.valued before).length + part.value.length := by
  intro marked
  have hmarked : marked = Replaced.spans start.length parts := by
    change changedFrom 0 (String.ofList _).toList (String.ofList _).toList = _
    rw [String.toList_ofList, String.toList_ofList, changedFrom_append, Nat.zero_add]
    exact Replaced.changedFrom_eq_spans start.length parts h
  refine ⟨(changed_fits _ _).increasing, fun place => ?_⟩
  simp only [hmarked, Replaced.mem_spans, List.length_append]

example : Highlight.changed "(a + b) * c" "(10 + 5) * 7" = [1, 2, 6] := by decide

namespace Sample

open Highlight

/-- What follows the opening parenthesis in `(a + b) * c`, where the names stand for ten, five
and seven. -/
def product : List Replaced :=
  [⟨'a', ['1', '0'], [' ', '+', ' '], by decide, by decide, by simp⟩,
    ⟨'b', ['5'], [')', ' ', '*', ' '], by decide, by decide, by simp⟩,
    ⟨'c', ['7'], [], by decide, by decide, by simp⟩]

end Sample

/-- The value that replaces the first name of a product is marked to its end. -/
theorem product_marked :
    (∀ part ∈ Sample.product.dropLast, part.rest ≠ []) ∧
      String.ofList ('(' :: Highlight.Replaced.named Sample.product) = "(a + b) * c" ∧
      String.ofList ('(' :: Highlight.Replaced.valued Sample.product) = "(10 + 5) * 7" ∧
      2 ∈ Highlight.changed "(a + b) * c" "(10 + 5) * 7" := by
  have hbetween : ∀ part ∈ Sample.product.dropLast, part.rest ≠ [] := by decide
  obtain ⟨_, hmarked⟩ := changed_marks_replaced ['('] Sample.product hbetween
  have hsecond := (hmarked 2).mpr ⟨[], _, _, rfl, by decide, by decide, by decide⟩
  exact ⟨hbetween, rfl, rfl, hsecond⟩

end Walkthrough
