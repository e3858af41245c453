import Walkthrough.Proofs.Derivable

/-!
# Which parentheses are required

The printer puts an operand in parentheses where it binds less tightly than its slot requires.
Leaving out one such pair, anywhere in the text of an expression, makes it a text of something
else or of nothing: a token inside the pair then stands less deep than the grammar asks for. The
one exception is a negative exponent, which the grammar admits without parentheses.
-/

namespace Walkthrough

open Lexeme Token Walkthrough.Expr

/-- An expression in the slot of the only part of a text. -/
def Expr.root (e : Expr) : Operand := ⟨.part, e⟩

namespace Operand

/-- The operand that a way leads to. A step of the way goes to an operand by its number. -/
def at? : List Nat → Operand → Option Operand
  | [], o => some o
  | i :: way, o => o.expr.operands[i]?.bind (at? way)

/-- The text of an operand in its slot, with another text in the place of the operand that a way
leads to. -/
def textAt : List Nat → String → Operand → String
  | [], text, _ => text
  | i :: way, text, o =>
    match o.expr.operands[i]? with
    | none => o.text
    | some part =>
      o.wrapped (o.expr.textOf ((o.expr.operands.map Operand.text).set i (textAt way text part)))

/-- The tokens of an operand in its slot, without the parentheses of the operand that a way leads
to. -/
def tokensAt : List Nat → Operand → List Token
  | [], o => o.expr.tokens
  | i :: way, o =>
    match o.expr.operands[i]? with
    | none => o.tokens
    | some part =>
      o.wrappedTokens
        (o.expr.tokensOf ((o.expr.operands.map Operand.tokens).set i (tokensAt way part)))

/-- A way goes through one of the operands. -/
theorem exists_of_at? {i : Nat} {way : List Nat} {o hole : Operand}
    (h : at? (i :: way) o = some hole) :
    ∃ part, o.expr.operands[i]? = some part ∧ at? way part = some hole :=
  Option.bind_eq_some_iff.mp h

theorem textAt_cons {i : Nat} {way : List Nat} {o part : Operand} {text : String}
    (h : o.expr.operands[i]? = some part) : textAt (i :: way) text o = o.wrapped
      (o.expr.textOf ((o.expr.operands.map Operand.text).set i (textAt way text part))) := by
  rw [textAt, h]

theorem tokensAt_cons {i : Nat} {way : List Nat} {o part : Operand}
    (h : o.expr.operands[i]? = some part) : tokensAt (i :: way) o = o.wrappedTokens
      (o.expr.tokensOf ((o.expr.operands.map Operand.tokens).set i (tokensAt way part))) := by
  rw [tokensAt, h]

/-- A list stays the same if an element is put in its own place. -/
theorem set_self {α : Type} {as : List α} {i : Nat} {a : α} (h : as[i]? = some a) :
    as.set i a = as := by
  obtain ⟨hlt, rfl⟩ := List.getElem?_eq_some_iff.mp h
  exact List.set_getElem_self hlt

/-- What stands in the place of an operand may be its own text. -/
theorem textAt_text {way : List Nat} {o hole : Operand} (h : at? way o = some hole) :
    textAt way hole.text o = o.text := by
  induction way generalizing o with
  | nil =>
    cases h
    rfl
  | cons i way ih =>
    obtain ⟨part, hpart, hway⟩ := exists_of_at? h
    rw [textAt_cons hpart, ih hway, ← List.map_set, set_self hpart, textOf_operands]
    rfl

/-- A text has its place in the text of an operand in its slot. -/
theorem exists_around_wrapped (o : Operand) :
    ∃ before after : String, ∀ text, o.wrapped text = before ++ text ++ after := by
  unfold wrapped
  split
  · exact ⟨"(", ")", fun _ => rfl⟩
  · exact ⟨"", "", fun text => by simp⟩

/-- The operand that a way leads to has its place in the text. -/
theorem exists_around_textAt {way : List Nat} {o hole : Operand} (h : at? way o = some hole) :
    ∃ before after : String, ∀ text, textAt way text o = before ++ text ++ after := by
  induction way generalizing o with
  | nil => exact ⟨"", "", fun text => by simp [textAt]⟩
  | cons i way ih =>
    obtain ⟨part, hpart, hway⟩ := exists_of_at? h
    obtain ⟨before, after, hinside⟩ := ih hway
    have hlt : i < (o.expr.operands.map Operand.text).length := by
      rw [List.length_map]
      exact (List.getElem?_eq_some_iff.mp hpart).1
    obtain ⟨left, right, hplace⟩ := exists_around_textOf (List.length_map _) hlt
    obtain ⟨opening, closing, hwrapped⟩ := o.exists_around_wrapped
    refine ⟨opening ++ left ++ before, after ++ right ++ closing, fun text => ?_⟩
    rw [textAt_cons hpart, hwrapped, hplace, hinside]
    simp only [String.append_assoc]

/-- Related lists stay so if related elements are put in the same place. -/
theorem forall₂_set {α β : Type} {R : α → β → Prop} {as : List α} {bs : List β} {a : α} {b : β}
    (h : List.Forall₂ R as bs) (i : Nat) (hab : R a b) :
    List.Forall₂ R (as.set i a) (bs.set i b) := by
  induction h generalizing i with
  | nil => exact .nil
  | cons hfirst hothers ih =>
    cases i with
    | zero => exact .cons hab hothers
    | succ i => exact .cons hfirst (ih i)

/-- The text without the parentheses of an operand spells the tokens without them. -/
theorem spelt_textAt {way : List Nat} {o hole : Operand} (hwritable : o.expr.isWritable = true)
    (h : at? way o = some hole) : Spelt (textAt way hole.expr.text o) (tokensAt way o) := by
  induction way generalizing o with
  | nil =>
    cases h
    exact spelt_text hwritable
  | cons i way ih =>
    obtain ⟨part, hpart, hway⟩ := exists_of_at? h
    have hoperands := isWritable_operands hwritable
    have hall : List.Forall₂ Spelt (o.expr.operands.map Operand.text)
        (o.expr.operands.map Operand.tokens) := by
      rw [List.forall₂_map_left_iff, List.forall₂_map_right_iff, List.forall₂_same]
      exact fun p hp => (spelt_text (hoperands p hp)).wrapped p
    have hinside := ih (hoperands part (List.mem_of_getElem? hpart)) hway
    rw [textAt_cons hpart, tokensAt_cons hpart]
    exact (spelt_textOf hwritable (forall₂_set hall i hinside) (by simp)).wrapped o

/-- Where the grammar admits an operand bare, the tokens without its parentheses are derivable. -/
theorem derivable_tokensAt {way : List Nat} {o hole : Operand} (h : at? way o = some hole)
    (hadmitted : hole.slot.level ≤ hole.expr.level) : DerivableIn o (tokensAt way o) := by
  induction way generalizing o with
  | nil =>
    cases h
    exact (derivable_tokens hole.expr).le hole.slot.one_le_level hadmitted
  | cons i way ih =>
    obtain ⟨part, hpart, hway⟩ := exists_of_at? h
    have hall : List.Forall₂ DerivableIn o.expr.operands
        (o.expr.operands.map Operand.tokens) := by
      rw [List.forall₂_map_right_iff, List.forall₂_same]
      exact fun p _ => (derivable_tokens p.expr).wrapped
    have hparts := forall₂_set hall i (ih hway)
    rw [set_self hpart] at hparts
    rw [tokensAt_cons hpart]
    exact (derivable_tokensOf hparts).wrapped

/-- An operand in its slot has the depths that it has alone, one deeper in parentheses. -/
theorem measures_wrappedTokens {tokens : List Token} {ds : Nat → List Nat}
    (h : Measures false tokens ds) (o : Operand) :
    Measures false (o.wrappedTokens tokens) (fun n => ds (if o.isGrouped then n + 1 else n)) := by
  unfold wrappedTokens
  split
  · exact h.fills.group false
  · exact h

/-- Tokens of an operand with depths, as many as it has. -/
def Measured (o : Operand) (tokens : List Token) (ds : Nat → List Nat) : Prop :=
  Measures false tokens ds ∧ Fits o ds

/-- The tokens that the printer writes for an operand have depths. -/
theorem exists_measured {o : Operand} (h : o.expr.isWritable = true) :
    ∃ ds, o.Measured o.tokens ds := by
  obtain ⟨lexemes, place, htokens, hscan⟩ := Expr.scan_text h
  have hunsigned : AllUnsigned lexemes :=
    (AllUnsigned.append (scanned_isUnsigned.scan hscan)).1
  obtain ⟨read, hread, d, rfl, rfl⟩ :=
    (derivable_tokens o.expr).le (Nat.le_refl 1) o.expr.one_le_level lexemes htokens
  obtain ⟨ds, hmeasures, hdeep⟩ := d.deep hunsigned
  have hlength : Fits o ds := by
    intro n
    have hequal := (hdeep n).length_eq
    rw [depthsAt_one, length_leastDepths _ n 0, ← leastDepths_placeless, hread,
      leastDepths_placeless] at hequal
    exact hequal.symm
  rw [htokens] at hmeasures
  exact ⟨_, measures_wrappedTokens hmeasures o, fun n => hlength _⟩

/-- The tokens that the printer writes for the operands of an expression have depths. -/
theorem exists_measured_operands {e : Expr} (h : e.isWritable = true) :
    ∃ dss, List.Forall₂ (fun o ds => o.Measured o.tokens ds) e.operands dss := by
  have hall : ∀ os : List Operand, (∀ o ∈ os, o.expr.isWritable = true) →
      ∃ dss, List.Forall₂ (fun o ds => o.Measured o.tokens ds) os dss := by
    intro os
    induction os with
    | nil => exact fun _ => ⟨[], .nil⟩
    | cons o others ih =>
      intro hos
      obtain ⟨hfirst, hothers⟩ := List.forall_mem_cons.mp hos
      obtain ⟨ds, hds⟩ := exists_measured hfirst
      obtain ⟨dss, hdss⟩ := ih hothers
      exact ⟨ds :: dss, .cons hds hdss⟩
  exact hall e.operands (isWritable_operands h)

/-- Two operands with an operator between them do not stand one deeper than they do. -/
theorem not_within_between {left right : Operand} {dss : List (Nat → List Nat)}
    (hfits : List.Forall₂ Fits [left, right] dss) (n : Nat) :
    ¬Within (betweenDepths ([left, right].map fun o m => o.expr.depthsAt o.slot.level m) (n + 1))
      (betweenDepths dss n) := by
  intro hwithin
  cases hfits with
  | @cons _ ds _ _ hleft hothers =>
    cases hothers with
    | cons hright hnone =>
      cases hnone
      have hlength : (left.expr.depthsAt left.slot.level (n + 1)).length = (ds n).length :=
        (length_leastDepths left.expr _ 0).trans (hleft n).symm
      cases (Within.of_append hlength hwithin).2 with
      | cons hle _ => exact Nat.not_succ_le_self n hle

/-- An expression that is not one piece does not stand one deeper than it does. -/
theorem not_within_depthsOf {e : Expr} (hlevel : e.level < 6) {dss : List (Nat → List Nat)}
    (hfits : List.Forall₂ Fits e.operands dss) (n : Nat) :
    ¬Within (leastDepths (n + 1) e) (e.depthsOf dss n) := by
  rw [leastDepths_eq]
  cases e with
  | literal value place =>
    intro hwithin
    cases hwithin with
    | cons hle _ => exact Nat.not_succ_le_self n hle
  | binary op left right place => exact not_within_between hfits n
  | compare op left right place => exact not_within_between hfits n
  | name | tuple | call => exact absurd hlevel (Nat.lt_irrefl 6)

/-- Only constants bind as negative numbers do. -/
theorem exists_literal_of_level {e : Expr} (h : e.level = 4) :
    ∃ value place, e = .literal value place := by
  cases e with
  | literal value place => exact ⟨value, place, rfl⟩
  | binary op left right place => cases op <;> cases h
  | _ => cases h

/-- The printer puts only negative numbers in parentheses where the grammar does not require
them. -/
theorem isGrouped_iff_level {o : Operand} (h : o.expr.level ≠ 4) :
    o.isGrouped = true ↔ o.expr.level < o.slot.level := by
  rw [isGrouped, decide_eq_true_iff]
  by_cases hslot : o.slot = .right .pow
  · have hminimum : o.slot.minimum = 5 := by rw [hslot]; rfl
    have hlevel : o.slot.level = 4 := by rw [hslot]; rfl
    omega
  · rw [Slot.minimum_eq_level hslot]

/-- Where the grammar does not admit an operand bare, some token stands too high without its
parentheses. -/
theorem exists_shallow {way : List Nat} {o hole : Operand} (hwritable : o.expr.isWritable = true)
    (h : at? way o = some hole) (hrequired : hole.expr.level < hole.slot.level) :
    ∃ ds, o.Measured (tokensAt way o) ds ∧ ∀ n, ¬WithinAt n o ds := by
  induction way generalizing o with
  | nil =>
    cases h
    obtain ⟨dss, hdss⟩ := exists_measured_operands hwritable
    have hfits := hdss.imp fun _ _ h => h.2
    have hmeasures := measures_tokensOf (e := hole.expr)
      (List.forall₂_map_left_iff.mpr (hdss.imp fun _ _ h => h.1)) (List.length_map _)
    rw [tokensOf_operands] at hmeasures
    refine ⟨_, ⟨hmeasures, length_depthsOf hfits⟩, fun n hwithin => ?_⟩
    have hlevel : hole.expr.level < 6 :=
      Nat.lt_of_lt_of_le hrequired (Nat.le_trans hole.slot.level_le_minimum hole.slot.minimum_le)
    rw [WithinAt, depthsAt, depthAt, if_pos hrequired] at hwithin
    exact not_within_depthsOf hlevel hfits n hwithin
  | cons i way ih =>
    obtain ⟨part, hpart, hway⟩ := exists_of_at? h
    have hpartWritable := isWritable_operands hwritable part (List.mem_of_getElem? hpart)
    obtain ⟨es, ⟨hmeasures, hfit⟩, hshallow⟩ := ih hpartWritable hway
    obtain ⟨dss, hdss⟩ := exists_measured_operands hwritable
    have hparts := forall₂_set
      (List.forall₂_map_left_iff.mpr (hdss.imp fun _ _ h => h.1)) i hmeasures
    have hfits := forall₂_set (hdss.imp fun _ _ h => h.2) i hfit
    rw [set_self hpart] at hfits
    have hwhole := measures_wrappedTokens (measures_tokensOf (e := o.expr) hparts (by simp)) o
    rw [← tokensAt_cons hpart] at hwhole
    refine ⟨_, ⟨hwhole, fun n => length_depthsOf hfits _⟩, fun n hwithin => ?_⟩
    have hoperands : o.expr.level ≠ 4 := by
      intro hlevel
      obtain ⟨value, place, hliteral⟩ := exists_literal_of_level hlevel
      rw [hliteral] at hpart
      cases hpart
    -- The depths of the whole are too small because those of the part on the way are.
    rw [WithinAt, depthsAt, depthAt] at hwithin
    simp only [isGrouped_iff_level hoperands] at hwithin
    obtain ⟨m, hall⟩ := withinAt_operands hfits hwithin
    obtain ⟨hlt, hget⟩ := List.getElem?_eq_some_iff.mp hpart
    have hi : i < dss.length := hdss.length_eq ▸ hlt
    have hthere := hall.get hlt (by simpa using hi)
    simp only [List.get_eq_getElem, hget, List.getElem_set_self] at hthere
    exact hshallow m hthere

end Operand

/-- Without the parentheses of an operand the same expression is read exactly if the grammar
admits the operand bare. -/
theorem Expr.parse_textAt_iff {e : Expr} (h : e.isWritable = true) {way : List Nat} {o : Operand}
    (hway : Operand.at? way e.root = some o) :
    (∃ read place, Program.parse (Operand.textAt way o.expr.text e.root) =
        .ok [.expression read place] ∧ read.placeless = e.placeless) ↔
      o.slot.level ≤ o.expr.level := by
  obtain ⟨hspells, hstarts, first, others, htokens, hfirst⟩ := Operand.spelt_textAt h hway
  obtain ⟨lexemes, place, hlexemes, hscan⟩ := scan_spells hspells hstarts (by simp [htokens])
  have hunsigned : AllUnsigned lexemes :=
    (AllUnsigned.append (scanned_isUnsigned.scan hscan)).1
  constructor
  · rintro ⟨read, here, hparse, hsame⟩
    by_contra hnot
    obtain ⟨ds, ⟨hmeasures, -⟩, hshallow⟩ := Operand.exists_shallow h hway (Nat.not_le.mp hnot)
    have hdepths : depths 0 false (lexemes.map Lexeme.token) = some (ds 0) := by
      have hall := hmeasures 0 []
      rw [List.append_nil] at hall
      rw [hlexemes, hall]
      simp [depths]
    have hline : ∀ t ∈ lexemes, t.token ∉ [.newline, .endOfFile] := fun t ht =>
      onOneLine_of_depths hdepths t.token (List.mem_map_of_mem ht)
    obtain ⟨ts, hts, hprogram⟩ := except_bind_ok.mp hparse
    cases hscan.symm.trans hts
    obtain ⟨d, rfl, rfl⟩ :=
      Program.exists_derivation hunsigned hline (hlexemes.trans htokens) hfirst hprogram
    have hwithin := d.within_depths hunsigned hdepths
    rw [← leastDepths_placeless, hsame, leastDepths_placeless, ← depthsAt_one] at hwithin
    exact hshallow 0 hwithin
  · intro hadmitted
    obtain ⟨read, hread, d, rfl, rfl⟩ :=
      Operand.derivable_tokensAt hway hadmitted lexemes hlexemes
    obtain ⟨here, hprogram⟩ := Program.ofLexemes_derived (.list d .noMore) place
    rw [Derivation.tokens, Derivation.tokens, List.append_nil] at hprogram
    exact ⟨d.meaning, here, except_bind_ok.mpr ⟨_, hscan, hprogram⟩, hread⟩

/-- The parentheses that the printer writes are those that the grammar requires, except around a
negative number in an exponent. -/
theorem Operand.level_le_iff {o : Operand} (h : o.isGrouped = true) :
    o.slot.level ≤ o.expr.level ↔
      o.slot = .right .pow ∧ ∃ value place, o.expr = .literal value place := by
  have hless : o.expr.level < o.slot.minimum := of_decide_eq_true h
  constructor
  · intro hadmitted
    have hslot : o.slot = .right .pow := by
      by_contra hne
      rw [Slot.minimum_eq_level hne] at hless
      exact Nat.not_le.mpr hless hadmitted
    refine ⟨hslot, ?_⟩
    rw [hslot] at hless hadmitted
    exact exists_literal_of_level (Nat.le_antisymm (Nat.le_of_lt_succ hless) hadmitted)
  · rintro ⟨hslot, value, place, hliteral⟩
    rw [hslot, hliteral]
    exact four_le_level value place

/-- Every pair of parentheses that the printer writes around an operand is required, except
around a negative number in an exponent. The pair has its place in the text of the expression,
and the text with just this pair left out is read as the same expression only in the exceptional
case. -/
theorem parentheses_required {e : Expr} (h : e.isWritable = true) {way : List Nat} {o : Operand}
    (hway : Operand.at? way e.root = some o) (hgrouped : o.isGrouped = true) :
    ∃ before after : String,
      (∀ text, Operand.textAt way text e.root = before ++ text ++ after) ∧
      e.text = before ++ ("(" ++ o.expr.text ++ ")") ++ after ∧
      ((∃ read place, Program.parse (before ++ o.expr.text ++ after) =
          .ok [.expression read place] ∧ read.placeless = e.placeless) ↔
        o.slot = .right .pow ∧ ∃ value place, o.expr = .literal value place) := by
  obtain ⟨before, after, haround⟩ := Operand.exists_around_textAt hway
  refine ⟨before, after, haround, ?_, ?_⟩
  · have hplain : ¬e.root.isGrouped = true := fun hless =>
      Nat.not_le.mpr (of_decide_eq_true hless) e.one_le_level
    have hroot : e.root.text = e.text := if_neg hplain
    have htext : o.text = "(" ++ o.expr.text ++ ")" := if_pos hgrouped
    rw [← hroot, ← Operand.textAt_text hway, haround, htext]
  · rw [← haround, e.parse_textAt_iff h hway, Operand.level_le_iff hgrouped]

/-- A difference on the right of a difference that is raised to a power, as an argument. -/
def Sample.raisedDifference : Expr :=
  .call "f" [.binary .pow
    (.binary .sub (.name "a" .origin)
      (.binary .sub (.name "b" .origin) (.name "c" .origin) .origin) .origin)
    (.literal (.int 2) .origin) .origin] .origin

theorem raisedDifference_required :
    Sample.raisedDifference.isWritable = true ∧
    Sample.raisedDifference.text = "f((a - (b - c)) ** 2)" ∧
    ∃ o, Operand.at? [0, 0, 1] Sample.raisedDifference.root = some o ∧ o.isGrouped = true ∧
      ∃ before after : String, before ++ o.expr.text ++ after = "f((a - b - c) ** 2)" ∧
        ¬∃ read place, Program.parse (before ++ o.expr.text ++ after) =
          .ok [.expression read place] ∧
            read.placeless = Sample.raisedDifference.placeless := by
  have hwritable : Sample.raisedDifference.isWritable = true := by decide
  have hway : Operand.at? [0, 0, 1] Sample.raisedDifference.root = some ⟨.right .sub, _⟩ := rfl
  refine ⟨hwritable, by decide +kernel, _, hway, rfl, ?_⟩
  obtain ⟨before, after, haround, -, hread⟩ := parentheses_required hwritable hway rfl
  refine ⟨before, after, ?_, fun hsame => ?_⟩
  · rw [← haround]
    decide +kernel
  · cases (hread.mp hsame).1

/-- A power with a negative exponent. -/
def Sample.inverseSquare : Expr :=
  .binary .pow (.name "a" .origin) (.literal (.int (-2)) .origin) .origin

theorem inverseSquare_not_required :
    Sample.inverseSquare.isWritable = true ∧ Sample.inverseSquare.text = "a ** (-2)" ∧
    ∃ o, Operand.at? [1] Sample.inverseSquare.root = some o ∧ o.isGrouped = true ∧
      Operand.textAt [1] o.expr.text Sample.inverseSquare.root = "a ** -2" ∧
      ∃ read place, Program.parse "a ** -2" = .ok [.expression read place] ∧
        read.placeless = Sample.inverseSquare.placeless := by
  have hwritable : Sample.inverseSquare.isWritable = true := by decide
  have htext : Operand.textAt [1] (Literal.int (-2)).text Sample.inverseSquare.root =
      "a ** -2" := by decide +kernel
  have hway : Operand.at? [1] Sample.inverseSquare.root = some ⟨.right .pow, _⟩ := rfl
  refine ⟨hwritable, by decide +kernel, _, hway, rfl, htext, ?_⟩
  rw [← htext]
  exact (Sample.inverseSquare.parse_textAt_iff hwritable hway).mpr (by decide)

end Walkthrough
