import Walkthrough.Proofs.ClearLog
import Walkthrough.Proofs.Segments
import Walkthrough.Report

/-!
# Marked text is the text with marks

A step is written twice: in one line, and in one line with its changes marked. With square brackets
as marks the second is the first once the brackets are taken out, as long as the step has none
itself. No step of a run has any, nor a line break, so the text of a trace has one line for each
step: its number, its nesting and the step.
-/

namespace Walkthrough

namespace Text

/-- A text without some characters. -/
def without (chars : List Char) (text : String) : String :=
  String.ofList (text.toList.filter (· ∉ chars))

variable {chars : List Char}

theorem toList_without (chars : List Char) (text : String) :
    (without chars text).toList = text.toList.filter (· ∉ chars) := String.toList_ofList

theorem without_append (chars : List Char) (a b : String) :
    without chars (a ++ b) = without chars a ++ without chars b := by
  rw [without, String.toList_append, List.filter_append, String.ofList_append]
  rfl

/-- A text that has none of the characters stays. -/
theorem without_of_lacks {text : String} (h : Lacks chars text) : without chars text = text := by
  have hall : text.toList.filter (· ∉ chars) = text.toList :=
    List.filter_eq_self.mpr fun c hc => decide_eq_true (h c hc)
  rw [without, hall, String.ofList_toList]

/-- A text has the other characters still when some are taken out. -/
theorem not_mem_of_without {text : String} {c : Char} (hc : c ∉ chars)
    (h : c ∉ (without chars text).toList) : c ∉ text.toList := by
  intro hmem
  rw [toList_without] at h
  exact h (List.mem_filter.mpr ⟨hmem, decide_eq_true hc⟩)

end Text

open Text

/-- A mark of brackets adds nothing else. -/
theorem without_mark (text : String) :
    without brackets (Marking.brackets.mark text) = without brackets text := by
  have hopening : without brackets "[" = "" := by decide
  have hclosing : without brackets "]" = "" := by decide
  change without brackets ("[" ++ text ++ "]") = without brackets text
  rw [without_append, without_append, hopening, hclosing, String.empty_append, String.append_empty]

/-- A text with marks is the text with brackets in it. -/
theorem without_marked (text : String) (highlight : Highlight) :
    without brackets (marked text highlight .brackets) = without brackets text := by
  apply String.toList_inj.mp
  rw [toList_without, toList_without, marked, String.toList_join, List.flatMap_map,
    List.filter_flatMap, ← Highlight.flatMap_segments text highlight, List.filter_flatMap]
  refine List.flatMap_congr fun run _ => ?_
  obtain ⟨run, changed⟩ := run
  rw [← toList_without, ← toList_without]
  cases changed with
  | true => exact congrArg String.toList (without_mark run)
  | false => rfl

/-- Marks leave a text empty that is empty, and no other that has no brackets. -/
theorem isEmpty_marked {text : String} (h : Lacks brackets text) (highlight : Highlight) :
    (marked text highlight .brackets).isEmpty = text.isEmpty := by
  have hsame := without_marked text highlight
  rw [without_of_lacks h] at hsame
  apply Bool.eq_iff_iff.mpr
  rw [String.isEmpty_iff, String.isEmpty_iff]
  constructor
  · intro hempty
    rw [← hsame, hempty]
    rfl
  · rintro rfl
    rfl

namespace Step

/-- A pass without brackets is written with its parts without brackets. -/
theorem without_passText (part : CounterField → String) :
    without brackets (passText part) = passText fun field => without brackets (part field) := by
  have hfor : without brackets "for " = "for " := by decide
  have hequals : without brackets " = " = " = " := by decide
  have hrange : without brackets " in range(" = " in range(" := by decide
  have hcomma : without brackets ", " = ", " := by decide
  have hclosing : without brackets ")" = ")" := by decide
  delta passText
  simp only [without_append, hfor, hequals, hrange, hcomma, hclosing]

/-- The condition of a branch is marked in its place. -/
theorem without_branchText (kind : BranchKind) {expr : String} (h : Lacks brackets expr)
    (highlight : Highlight) :
    without brackets (branchText kind (marked expr highlight .brackets)) =
      branchText kind expr := by
  have hkind : without brackets kind.text = kind.text := by cases kind <;> decide
  have hspace : without brackets " " = " " := by decide
  unfold branchText
  rw [isEmpty_marked h highlight]
  split
  · exact hkind
  · rw [without_append, without_append, hkind, hspace, without_marked, without_of_lacks h]

/-- A step with marks is the step in one line once the brackets are taken out, if none of its texts
has any. -/
theorem without_markedText {step : Step} (h : step.IsClear brackets) :
    without brackets (step.markedText .brackets) = step.text := by
  have hplain : without brackets step.text = step.text :=
    without_of_lacks (lacks_text (by decide) h)
  cases step with
  | pass id depth counter highlight =>
    have hparts : (fun field => without brackets (if highlight.contains field then
        Marking.brackets.mark (counter.fieldText field) else counter.fieldText field)) =
        fun field => without brackets (counter.fieldText field) := by
      funext field
      split
      · exact without_mark _
      · rfl
    rw [markedText, without_passText, hparts, ← without_passText]
    exact hplain
  | print id depth expr highlight | giveBack id depth expr highlight =>
    rw [text, without_append] at hplain
    rw [markedText, without_append, without_marked]
    exact hplain
  | branch id depth kind expr highlight =>
    exact without_branchText kind (List.forall_mem_singleton.mp h) highlight
  | assigned | call | endCall | define => exact hplain

/-- Brackets are separators. -/
theorem IsClear.brackets {step : Step} (h : step.IsClear separators) : step.IsClear brackets :=
  fun text htext => (h text htext).mono (by decide)

/-- A step with marks has no line break if none of its texts has a separator. -/
theorem newline_not_mem_markedText {step : Step} (h : step.IsClear separators) :
    '\n' ∉ (step.markedText .brackets).toList := by
  have hline : '\n' ∉ step.text.toList := fun hmem =>
    lacks_text (List.Subset.refl _) h '\n' hmem (by decide)
  rw [← without_markedText h.brackets] at hline
  exact not_mem_of_without (by decide) hline

end Step

namespace Text

/-- A text that ends in another, with spaces before it up to a width. -/
structure Aligned (width : Nat) (text column : String) : Prop where
  /-- The column is as wide as it should be. -/
  length : column.length = width
  /-- Only spaces stand before the text. -/
  spaces : ∃ count, column = String.ofList (List.replicate count ' ') ++ text

/-- A character some times is the list of as many. -/
theorem pushn_empty (c : Char) (count : Nat) :
    "".pushn c count = String.ofList (List.replicate count c) := by
  apply String.toList_inj.mp
  rw [String.toList_ofList]
  induction count with
  | zero => rfl
  | succ count ih =>
    rw [List.replicate_succ', ← ih]
    exact String.toList_push _

/-- A text that is not wider than a column is aligned in it. -/
theorem aligned_padLeft {width : Nat} {text : String} (h : text.length ≤ width) :
    Aligned width text (padLeft width text) := by
  refine ⟨?_, width - text.length, by rw [padLeft, pushn_empty]⟩
  rw [padLeft, pushn_empty, String.length_append, String.length_ofList, List.length_replicate]
  omega

/-- A number is not wider than a larger one. -/
theorem length_toString_le {small large : Nat} (h : small ≤ large) :
    (toString small).length ≤ (toString large).length := by
  have hlength : ∀ n : Nat, (toString n).length = (Nat.toDigits 10 n).length := fun n => by
    rw [Nat.toString_eq_repr, ← String.length_toList, Nat.toList_repr]
  have hlarge : large < 10 ^ (Nat.toDigits 10 large).length :=
    (Nat.length_toDigits_le_iff (by decide) Nat.length_toDigits_pos).mp (Nat.le_refl _)
  rw [hlength, hlength]
  exact (Nat.length_toDigits_le_iff (by decide) Nat.length_toDigits_pos).mpr
    (Nat.lt_of_le_of_lt h hlarge)

/-- Spaces are no separators. -/
theorem lacks_spaces (count : Nat) : Lacks separators ("".pushn ' ' count) := by
  intro c hc
  rw [pushn_empty, String.toList_ofList] at hc
  rw [List.eq_of_mem_replicate hc]
  decide

end Text

namespace Trace

/-- The line of a step without its line break. -/
def lineBody (width index : Nat) (step : Step) : String :=
  padLeft width (toString (index + 1)) ++ "  " ++ "".pushn ' ' (2 * step.depth) ++
    step.markedText .brackets

/-- The lines of all steps without their line breaks. -/
def lines (t : Trace) : List String :=
  t.steps.toList.zipIdx.map fun (step, index) => lineBody (toString t.length).length index step

theorem length_lines (t : Trace) : t.lines.length = t.length := by
  rw [lines, List.length_map, List.length_zipIdx, Array.length_toList, Trace.length]

/-- The text of a trace is its lines, each with a line break after it. -/
theorem text_eq_join_lines (t : Trace) :
    t.text .brackets = String.join (t.lines.map (· ++ "\n")) := by
  rw [lines, List.map_map]
  rfl

/-- The line at an index is the line of the step there. -/
theorem getElem?_lines {t : Trace} {index : Nat} {step : Step} (h : t.steps[index]? = some step) :
    t.lines[index]? = some (lineBody (toString t.length).length index step) := by
  rw [← Array.getElem?_toList] at h
  rw [lines, List.getElem?_map, List.getElem?_zipIdx, h, Nat.zero_add]
  rfl

/-- The number and the nesting of a step have no separator. -/
theorem lacks_lineStart (width index depth : Nat) :
    Lacks separators (padLeft width (toString (index + 1)) ++ "  " ++ "".pushn ' ' (2 * depth)) :=
  lacks_append.mpr ⟨lacks_append.mpr
    ⟨lacks_append.mpr ⟨lacks_spaces _, lacks_int (index + 1 : Nat)⟩, by decide⟩, lacks_spaces _⟩

/-- A line without brackets is the number, the nesting and the step. -/
theorem without_lineBody {step : Step} (h : step.IsClear separators) (width index : Nat) :
    without brackets (lineBody width index step) =
      padLeft width (toString (index + 1)) ++ "  " ++ "".pushn ' ' (2 * step.depth) ++
        step.text := by
  rw [lineBody, without_append, Step.without_markedText h.brackets,
    without_of_lacks ((lacks_lineStart width index step.depth).mono (by decide))]

/-- A line has no line break inside. -/
theorem newline_not_mem_lineBody {step : Step} (h : step.IsClear separators) (width index : Nat) :
    '\n' ∉ (lineBody width index step).toList := by
  rw [lineBody, String.toList_append, List.mem_append, not_or]
  exact ⟨fun hmem => lacks_lineStart width index step.depth '\n' hmem (by decide),
    Step.newline_not_mem_markedText h⟩

end Trace

/-- Marked text is the text with marks. For each step none of whose texts has a bracket, the step
with marks is the step in one line once the brackets are taken out. No text of a step of a run has
a bracket or a line break, so the text of a trace is exactly one line for each step, with a line
break at its end and none inside. Without its brackets that line is the number of the step, aligned
to the right in a column as wide as the number of steps, two spaces, two spaces for each level of
nesting, and the step in one line. -/
theorem marked_text_is_text_with_marks :
    (∀ step : Step, step.IsClear brackets →
      without brackets (step.markedText .brackets) = step.text) ∧
    ∀ (source : String) (limits : Limits) (trace : Trace), traceText source limits = .ok trace →
      (∀ step ∈ trace.steps.toList, step.IsClear separators ∧ Lacks separators step.text) ∧
      ∃ lines : List String, trace.text .brackets = String.join (lines.map (· ++ "\n")) ∧
        lines.length = trace.length ∧
        ∀ index step, trace.steps[index]? = some step →
          ∃ line column, lines[index]? = some line ∧ '\n' ∉ line.toList ∧
            Aligned (toString trace.length).length (toString (index + 1)) column ∧
            without brackets line =
              column ++ "  " ++ String.ofList (List.replicate (2 * step.depth) ' ') ++
                step.text := by
  refine ⟨fun step => Step.without_markedText, fun source limits trace h => ?_⟩
  have hclear := isClear_of_traceText h
  refine ⟨fun step hstep => ⟨hclear step hstep, ?_⟩, trace.lines, trace.text_eq_join_lines,
    trace.length_lines, ?_⟩
  · exact Step.lacks_text (List.Subset.refl _) (hclear step hstep)
  intro index step hstep
  have hstepClear := hclear step (Array.mem_toList_iff.mpr (Array.mem_of_getElem? hstep))
  have hindex : index < trace.length := (Array.getElem?_eq_some_iff.mp hstep).1
  refine ⟨_, _, Trace.getElem?_lines hstep, Trace.newline_not_mem_lineBody hstepClear _ _,
    aligned_padLeft (length_toString_le hindex), ?_⟩
  rw [← pushn_empty]
  exact Trace.without_lineBody hstepClear _ _

namespace Sample

/-- A loop of three passes whose sums are printed in three stages each. -/
def countedSums : String := "for i in range(0, 3):\n    print(i + 1)\n"

/-- The stage of the first sum in which its name has been replaced. -/
def firstSum : Step := .print 2 1 "0 + 1" [0]

/-- The run of the loop has twelve steps, and that stage is the third. -/
theorem trace_countedSums : ∃ trace, traceText countedSums {} = .ok trace ∧ trace.length = 12 ∧
    trace.steps[2]? = some firstSum := by
  have hseen : (traceText countedSums {}).toOption.map
      (fun trace => (trace.length, trace.steps[2]?)) = some (12, some firstSum) := by
    decide +kernel
  obtain ⟨trace, htrace, hshown⟩ := Option.map_eq_some_iff.mp hseen
  obtain ⟨hlength, hstep⟩ := Prod.mk.inj hshown
  exact ⟨trace, except_toOption_some.mp htrace, hlength, hstep⟩

end Sample

/-- The third of twelve lines, with its brackets and without. -/
theorem countedSums_marked : Sample.firstSum.IsClear brackets ∧
    Sample.firstSum.markedText .brackets = "print [0] + 1" ∧
    without brackets "print [0] + 1" = "print 0 + 1" ∧
    ∃ (trace : Trace) (lines : List String) (line : String),
      traceText Sample.countedSums {} = .ok trace ∧
      trace.text .brackets = String.join (lines.map (· ++ "\n")) ∧ lines.length = 12 ∧
      lines[2]? = some line ∧ without brackets line = " 3    print 0 + 1" := by
  obtain ⟨trace, htrace, hlength, hstep⟩ := Sample.trace_countedSums
  obtain ⟨hsteps, htraces⟩ := marked_text_is_text_with_marks
  obtain ⟨-, lines, hjoin, hcount, hlines⟩ := htraces _ _ _ htrace
  obtain ⟨line, column, hline, -, hcolumn, hwithout⟩ := hlines 2 _ hstep
  have hclear : Sample.firstSum.IsClear brackets := List.forall_mem_singleton.mpr (by decide)
  have hmarked : Sample.firstSum.markedText .brackets = "print [0] + 1" := by decide
  have htext : Sample.firstSum.text = "print 0 + 1" := by decide
  have hplain := hsteps _ hclear
  rw [hmarked, htext] at hplain
  refine ⟨hclear, hmarked, hplain, trace, lines, line, htrace, hjoin, hcount.trans hlength,
    hline, ?_⟩
  obtain ⟨hwidth, spaces, rfl⟩ := hcolumn
  rw [hlength, String.length_append, String.length_ofList, List.length_replicate] at hwidth
  have hone : spaces = 1 := Nat.add_right_cancel (m := 1) hwidth
  subst hone
  rw [hwithout, htext]
  decide

end Walkthrough
