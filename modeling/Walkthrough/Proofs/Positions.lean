import Walkthrough.Proofs.Results
import Walkthrough.Text.Lines
import Walkthrough.Token.Scan

/-!
# Where tokens stand

The scanner goes through a text once, from its first place on. What it passes over and
what it reads as a token moves the place on by the same characters, so each token that is
written in the text, unlike those of the layout, stands at a place of its own, these places
come one after the other, and each is on a line of the text.
-/

namespace Walkthrough

namespace Location

/-- A place comes before another: on an earlier line, or earlier on the same line. -/
def Before (a b : Location) : Prop := a.line < b.line ∨ a.line = b.line ∧ a.column < b.column

theorem Before.trans {a b c : Location} (h : a.Before b) (h' : b.Before c) : a.Before c := by
  unfold Before at *
  omega

/-- A place that comes before another comes before what is not before the other. -/
theorem Before.trans_or {a b c : Location} (h : a.Before b) (h' : c = b ∨ b.Before c) :
    a.Before c := by
  rcases h' with rfl | hlater
  · exact h
  · exact h.trans hlater

theorem Before.ne {a b : Location} (h : a.Before b) : a ≠ b := by
  rintro rfl
  unfold Before at h
  omega

/-- A character moves the place on. -/
theorem before_after (place : Location) (c : Char) : place.Before (place.after c) := by
  unfold Before after
  split
  · exact .inl (Nat.lt_succ_self _)
  · exact .inr ⟨rfl, Nat.lt_succ_self _⟩

/-- Some characters move the place on. -/
theorem before_afterAll (place : Location) (c : Char) (cs : List Char) :
    place.Before (place.afterAll (c :: cs)) := by
  induction cs generalizing place c with
  | nil => exact place.before_after c
  | cons next others ih => exact (place.before_after c).trans (ih (place.after c) next)

end Location

/-- Whether a token is written in the text, not only told by the layout. -/
def Token.isWritten : Token → Bool
  | newline | indent | dedent | endOfFile => false
  | _ => true

namespace Token

/-- A number is written. -/
theorem isWritten_ofNumber {spelling : List Char} {t : Token} (h : ofNumber spelling = .ok t) :
    t.isWritten = true := by
  unfold ofNumber at h
  dsimp only at h
  split at h
  · split at h
    · cases h; rfl
    · cases h
  · split at h
    · cases h; rfl
    · cases h

/-- A word is written. -/
theorem isWritten_ofWord (spelling : List Char) : (ofWord spelling).isWritten = true := by
  unfold ofWord
  dsimp only
  split <;> rfl

/-- A token that is read is written: it is spelled by the characters from the one where it
starts up to the text after it. -/
theorem read_ok {c : Char} {rest : List Char} {r : Reading} (h : read c rest = .ok r) :
    r.token.isWritten = true ∧ ∃ cs, r.spelling = c :: cs ∧ cs ++ r.rest = rest := by
  unfold read at h
  split at h
  · obtain ⟨token, htoken, rfl⟩ := except_map_ok.mp h
    exact ⟨isWritten_ofNumber htoken, _, rfl, numberTail_append _ rest⟩
  · split at h
    · cases h
      exact ⟨isWritten_ofWord _, _, rfl, List.takeWhile_append_dropWhile⟩
    · split at h
      · cases h
      · split at h
        · next mark _ =>
          obtain ⟨length, hlength⟩ := Nat.exists_eq_succ_of_ne_zero
            (Nat.ne_of_gt (length_text_pos mark))
          cases h
          refine ⟨rfl, rest.take length, ?_, ?_⟩
          · rw [hlength]
            rfl
          · rw [hlength]
            exact List.take_append_drop length rest
        · cases h

/-- No token starts with a line break. -/
theorem read_newline {c : Char} {rest : List Char} {r : Reading} (h : read c rest = .ok r) :
    c ≠ '\n' := by
  rintro rfl
  cases h

end Token

namespace Lexeme

/-- The tokens that are written in the text. -/
def written (ts : List Lexeme) : List Lexeme := ts.filter fun t => t.token.isWritten

/-- The places of the tokens that are written in the text. -/
def places (ts : List Lexeme) : List Location := (written ts).map Lexeme.location

@[simp] theorem written_append (as bs : List Lexeme) :
    written (as ++ bs) = written as ++ written bs := List.filter_append ..

@[simp] theorem places_append (as bs : List Lexeme) :
    places (as ++ bs) = places as ++ places bs := by
  simp [places]

theorem written_cons {t : Lexeme} (h : t.token.isWritten = true) (ts : List Lexeme) :
    written (t :: ts) = t :: written ts := List.filter_cons_of_pos h

theorem places_cons {token : Token} (h : token.isWritten = true) (place : Location)
    (ts : List Lexeme) : places (⟨token, place⟩ :: ts) = place :: places ts := by
  rw [places, written_cons h]
  rfl

theorem mem_places_cons {token : Token} (h : token.isWritten = true) (place : Location)
    (ts : List Lexeme) : place ∈ places (⟨token, place⟩ :: ts) := by
  rw [places_cons h]
  exact List.mem_cons_self

theorem places_sublist_append (as bs : List Lexeme) : (places as).Sublist (places (as ++ bs)) := by
  rw [places_append]
  exact List.sublist_append_left _ _

/-- The tokens of the layout are not written. -/
theorem written_eq_nil {ts : List Lexeme} (h : ∀ t ∈ ts, t.token.isWritten = false) :
    written ts = [] := by
  rw [written, List.filter_eq_nil_iff]
  intro t ht
  rw [h t ht]
  decide

/-- From a place on, some tokens stand in a text, one after the other: each is read where the
text has come to its place, and the text goes on after its spelling. -/
inductive Stands : Location → List Char → List Lexeme → Prop where
  | done {place : Location} {text : List Char} : Stands place text []
  | skip {place : Location} {c : Char} {rest : List Char} {ts : List Lexeme}
    (others : Stands (place.after c) rest ts) : Stands place (c :: rest) ts
  | token {place : Location} {c : Char} {rest : List Char} {reading : Token.Reading}
    {ts : List Lexeme} (read : Token.read c rest = .ok reading)
    (others : Stands (place.afterAll reading.spelling) reading.rest ts) :
    Stands place (c :: rest) (⟨reading.token, place⟩ :: ts)

/-- Some characters are passed over. -/
theorem Stands.skipAll {skipped rest : List Char} {place : Location} {ts : List Lexeme}
    (h : Stands (place.afterAll skipped) rest ts) : Stands place (skipped ++ rest) ts := by
  induction skipped generalizing place with
  | nil => exact h
  | cons c cs ih => exact .skip (ih h)

/-- At its end a text has no token left that is written. -/
theorem written_closing (place : Location) (blocks : List Nat) (lineOpen : Bool) :
    written (closing place blocks lineOpen) = [] := by
  refine written_eq_nil fun t ht => ?_
  unfold closing at ht
  simp only [List.mem_append, List.mem_replicate, List.mem_singleton] at ht
  rcases ht with hline | ⟨_, rfl⟩ | rfl
  · cases lineOpen with
    | true => cases List.mem_singleton.mp hline; rfl
    | false => cases hline
  · rfl
  · rfl

/-- The marks before a line are not written. -/
theorem written_layout {place : Location} {width : Nat} {blocks nested : List Nat}
    {marks : List Lexeme} (h : layout place width blocks = .ok (marks, nested)) :
    written marks = [] := by
  refine written_eq_nil fun t ht => ?_
  unfold layout at h
  split at h
  · cases h
    cases List.mem_singleton.mp ht
    rfl
  · dsimp only at h
    split at h
    · cases h
      obtain ⟨_, rfl⟩ := List.mem_replicate.mp ht
      rfl
    · cases h

mutual

/-- From the start of a line on, the tokens that are written stand in the text. -/
theorem stands_scanLine {place : Location} {blocks : List Nat} {text : List Char}
    {ts : List Lexeme} (h : scanLine place blocks text = .ok ts) :
    Stands place text (written ts) := by
  rw [scanLine] at h
  have htext := List.takeWhile_append_dropWhile (p := isBlank) (l := text)
  split at h
  · cases h
    rw [written_closing]
    exact .done
  · next c rest hrest =>
    have hshorter : rest.length < text.length := by
      have hle := length_dropBlanks_le text
      rw [hrest] at hle
      exact hle
    have hend := length_lineEnd_le rest
    rw [← htext, hrest]
    dsimp only at h
    split at h
    · exact .skipAll (.skip (stands_scanLine h))
    · split at h
      · have hcomment := stands_scanLine h
        rw [← List.takeWhile_append_dropWhile (p := (· != '\n')) (l := rest)]
        exact .skipAll (.skip (.skipAll hcomment))
      · obtain ⟨⟨marks, nested⟩, hlayout, h⟩ := except_bind_ok.mp h
        obtain ⟨others, hothers, h⟩ := except_bind_ok.mp h
        cases except_pure_ok.mp h
        rw [written_append, written_layout hlayout]
        exact .skipAll (stands_scanInner hothers)
termination_by 2 * text.length + 1

/-- From inside a line on, the tokens that are written stand in the text. -/
theorem stands_scanInner {place : Location} {blocks : List Nat} {parens : Nat} {lineOpen : Bool}
    {text : List Char} {ts : List Lexeme}
    (h : scanInner place blocks parens lineOpen text = .ok ts) :
    Stands place text (written ts) := by
  match text, h with
  | [], h =>
    rw [scanInner] at h
    cases h
    rw [written_closing]
    exact .done
  | c :: rest, h =>
    have hend := length_lineEnd_le rest
    rw [scanInner] at h
    split at h
    · exact .skip (stands_scanInner h)
    · split at h
      · have hcomment := stands_scanInner h
        rw [← List.takeWhile_append_dropWhile (p := (· != '\n')) (l := rest)]
        exact .skip (.skipAll hcomment)
      · split at h
        · split at h
          · obtain ⟨others, hothers, h⟩ := except_bind_ok.mp h
            have hstands := stands_scanLine hothers
            cases except_pure_ok.mp h
            split
            · exact .skip hstands
            · exact .skip hstands
          · exact .skip (stands_scanInner h)
        · split at h
          · next hbreak =>
            obtain ⟨_, rest', rfl⟩ : ∃ c rest', rest = c :: rest' := by
              cases rest with
              | nil => cases hbreak.2
              | cons next others => exact ⟨next, others, rfl⟩
            cases hbreak.1
            cases hbreak.2
            exact .skip (.skip (stands_scanInner h))
          · split at h
            · cases h
            · next reading hread =>
              obtain ⟨others, hothers, h⟩ := except_bind_ok.mp h
              have hrest := Nat.lt_succ_of_le (Token.length_rest_of_read hread)
              have hstands := stands_scanInner hothers
              cases except_pure_ok.mp h
              rw [written_cons (Token.read_ok hread).1]
              exact .token hread hstands
termination_by 2 * text.length

end

/-- The tokens that are written stand in the text from its first place on. -/
theorem stands_scan {text : String} {ts : List Lexeme} (h : scan text = .ok ts) :
    Stands .origin text.toList (written ts) :=
  stands_scanLine h

/-- The tokens stand at or after the place where the text starts, one after the other. -/
theorem Stands.ordered {place : Location} {text : List Char} {ts : List Lexeme}
    (h : Stands place text ts) :
    (∀ t ∈ ts, t.location = place ∨ place.Before t.location) ∧
      ts.Pairwise fun a b => a.location.Before b.location := by
  induction h with
  | done => exact ⟨nofun, .nil⟩
  | @skip place c rest ts _ ih =>
    have hmoved := place.before_after c
    exact ⟨fun t ht => .inr (hmoved.trans_or (ih.1 t ht)), ih.2⟩
  | @token place c rest reading ts read _ ih =>
    obtain ⟨_, cs, hspelling, _⟩ := Token.read_ok read
    have hmoved : place.Before (place.afterAll reading.spelling) := by
      rw [hspelling]
      exact place.before_afterAll c cs
    have hlater : ∀ t ∈ ts, place.Before t.location := fun t ht => hmoved.trans_or (ih.1 t ht)
    constructor
    · intro t ht
      rcases List.mem_cons.mp ht with rfl | ht
      · exact .inl rfl
      · exact .inr (hlater t ht)
    · exact .cons hlater ih.2

end Lexeme

namespace Text

/-- A line break starts a line of its own. -/
theorem length_lines_break (text : List Char) :
    (lines ('\n' :: text)).length = (lines text).length + 1 := by
  have hparts : ('\n' :: text).splitOn '\n' = [] :: text.splitOn '\n' := by
    simp [List.splitOn, List.splitOnP_cons_eq_if_modifyHead]
  obtain ⟨first, others, hsome⟩ := List.exists_cons_of_ne_nil (List.splitOn_ne_nil '\n' text)
  unfold lines
  rw [hparts, hsome]
  simp

/-- Another character belongs to the line that goes on after it, or makes up a line. -/
theorem length_lines_cons {c : Char} (h : c ≠ '\n') (text : List Char) :
    (lines (c :: text)).length = max 1 (lines text).length := by
  have hparts : (c :: text).splitOn '\n' = (text.splitOn '\n').modifyHead (c :: ·) := by
    simp [List.splitOn, List.splitOnP_cons_eq_if_modifyHead, h]
  obtain ⟨first, others, hsome⟩ := List.exists_cons_of_ne_nil (List.splitOn_ne_nil '\n' text)
  unfold lines
  rw [hparts, hsome]
  cases others with
  | nil => cases first <;> simp
  | cons second others => simp

end Text

namespace Lexeme

/-- A place is on a line of a text that starts at another place. -/
def OnLine (start : Location) (text : List Char) (place : Location) : Prop :=
  start.line ≤ place.line ∧ place.line < start.line + (Text.lines text).length

/-- What is on a line after a character is on a line with it. -/
theorem OnLine.cons {start place : Location} {c : Char} {text : List Char}
    (h : OnLine (start.after c) text place) : OnLine start (c :: text) place := by
  unfold OnLine Location.after at *
  by_cases hc : c = '\n'
  · rw [hc, Text.length_lines_break]
    rw [if_pos hc] at h
    dsimp only at h
    omega
  · rw [Text.length_lines_cons hc]
    rw [if_neg hc] at h
    dsimp only at h
    omega

/-- What is on a line after some characters is on a line with them. -/
theorem OnLine.append {start place : Location} {before text : List Char}
    (h : OnLine (start.afterAll before) text place) : OnLine start (before ++ text) place := by
  induction before generalizing start with
  | nil => exact h
  | cons c cs ih => exact .cons (ih h)

/-- Each token that stands in a text is on one of its lines. -/
theorem Stands.onLine {place : Location} {text : List Char} {ts : List Lexeme}
    (h : Stands place text ts) : ∀ t ∈ ts, OnLine place text t.location := by
  induction h with
  | done => exact nofun
  | skip _ ih => exact fun t ht => .cons (ih t ht)
  | @token place c rest reading ts read _ ih =>
    obtain ⟨_, cs, hspelling, hrest⟩ := Token.read_ok read
    intro t ht
    rcases List.mem_cons.mp ht with rfl | ht
    · refine ⟨Nat.le_refl _, ?_⟩
      rw [Text.length_lines_cons (Token.read_newline read)]
      dsimp only
      omega
    · have hlater := ih t ht
      rw [hspelling] at hlater
      have hline := hlater.append
      rwa [List.cons_append, hrest] at hline

/-- The places of the tokens of a text come one after the other. -/
theorem pairwise_places {text : String} {ts : List Lexeme} (h : scan text = .ok ts) :
    (places ts).Pairwise Location.Before :=
  List.pairwise_map.mpr (stands_scan h).ordered.2

/-- The places of the tokens of a text are on its lines. -/
theorem onLine_places {text : String} {ts : List Lexeme} (h : scan text = .ok ts)
    {place : Location} (hplace : place ∈ places ts) :
    1 ≤ place.line ∧ place.line ≤ (Text.lines text.toList).length := by
  obtain ⟨t, ht, rfl⟩ := List.mem_map.mp hplace
  obtain ⟨hfirst, hlast⟩ := (stands_scan h).onLine t ht
  exact ⟨hfirst, Nat.le_of_lt_succ (by rwa [Nat.add_comm] at hlast)⟩

end Lexeme

end Walkthrough
