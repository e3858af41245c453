import Walkthrough.Player
import Walkthrough.Proofs.Lines

/-!
# The cursor of a replay

Keys and the passing of time move the current step of a replay, the row in which the current
line is kept and the scroll positions, each on its own and without a look at the panes. The
current step never leaves the trace all the same, and drawing brings it back into view: its
step and its line are then among those shown, in panes of any heights that leave room for a row.
-/

namespace Walkthrough

open Player (Heights)

namespace Pane

/-- A pane that follows a line shows it. -/
theorem followOffset_shows {offset selected shown : Nat} (h : 0 < shown) :
    followOffset offset selected shown ≤ selected ∧
      selected < followOffset offset selected shown + shown := by
  unfold followOffset
  split
  · omega
  · split
    · omega
    · omega

theorem clampScroll_le (scroll total shown : Nat) :
    clampScroll scroll total shown ≤ total - shown :=
  Nat.min_le_right _ _

namespace SourceView

/-- A pane with room for a row has just the rows inside its border. -/
theorem rows_eq {height : Nat} (h : 3 ≤ height) : rows height = innerHeight height := by
  unfold rows innerHeight
  omega

/-- The row that is aimed at is a row of the pane. -/
theorem row_lt (view : SourceView) (height : Nat) : view.row height < rows height := by
  have hrows : 1 ≤ rows height := Nat.le_max_left _ _
  unfold row
  omega

/-- A line that is kept in a row of the pane is shown. -/
theorem offsetFor_shows {total height targetRow line : Nat} (hrow : targetRow < rows height)
    (hfirst : 1 ≤ line) (hlast : line ≤ total) :
    offsetFor total height targetRow line < line ∧
      line ≤ offsetFor total height targetRow line + rows height := by
  unfold offsetFor
  split
  · omega
  · omega

/-- A view that follows a line of the program shows it. -/
theorem follow_shows (view : SourceView) {total line : Nat} (height : Nat) (hfirst : 1 ≤ line)
    (hlast : line ≤ total) :
    (view.follow total height (some line)).offset < line ∧
      line ≤ (view.follow total height (some line)).offset + rows height := by
  have hfollow : view.follow total height (some line) =
      ⟨offsetFor total height (view.row height) line, some (view.row height)⟩ :=
    if_pos ⟨hfirst, hlast⟩
  rw [hfollow]
  exact offsetFor_shows (view.row_lt height) hfirst hlast

/-- Following any line, or none, settles the row. -/
theorem targetRow_follow (view : SourceView) (total height : Nat) (current : Option Nat) :
    (view.follow total height current).targetRow = some (view.row height) := by
  unfold follow
  split
  · split <;> rfl
  · rfl

end SourceView

end Pane

namespace Player

/-- What happens to a replay: its panes of some heights are drawn, the time for a step may have
run out, or a key is pressed. -/
inductive Event where
  | draw (heights : Heights)
  | wait (now : Int)
  | press (now : Int) (key : Key)

/-- The replay after something has happened. -/
def happen (p : Player) : Event → Player
  | .draw heights => p.settle heights
  | .wait now => p.tick now
  | .press now key => p.press now key

/-- The replay after some things have happened, one after the other. -/
def after (p : Player) (events : List Event) : Player := events.foldl happen p

/-- The events of a session, in which the replay is drawn, may play on, and takes a key. -/
def rounds (now : Int) (size : Size) : List Key → List Event
  | [] => [.draw (.of size.height), .wait now]
  | key :: others =>
    .draw (.of size.height) :: .wait now :: .press now key :: rounds now size others

/-- A session is its events in order, up to its last one or to the drawing after a key that
ends the replay. -/
theorem session_eq_after (now : Int) (size : Size) (keys : List Key) (p : Player)
    (display : Display) : ∃ events, events <+: rounds now size keys ∧
      (session now size keys p display).1 = p.after events := by
  induction keys generalizing p display with
  | nil =>
    rw [session]
    split
    · exact ⟨[.draw (.of size.height)], List.prefix_append _ _, rfl⟩
    · exact ⟨_, List.prefix_refl _, rfl⟩
  | cons key others ih =>
    rw [session]
    split
    · exact ⟨[.draw (.of size.height)], List.prefix_append [_] _, rfl⟩
    · obtain ⟨events, hevents, hlast⟩ := ih
        (((p.settle (.of size.height)).tick now).press now key)
        (display.draw ((p.settle (.of size.height)).screen size))
      have hround := (List.prefix_append_right_inj
        [Event.draw (.of size.height), .wait now, .press now key]).mpr hevents
      exact ⟨_, hround, hlast⟩

/-- A replay of the same trace and lines, at a step no further than before or than the last
step. -/
structure Moves (p q : Player) : Prop where
  trace : q.trace = p.trace
  lines : q.lines = p.lines
  position : q.position ≤ max p.position (p.trace.length - 1)

namespace Moves

theorem refl (p : Player) : Moves p p := ⟨rfl, rfl, Nat.le_max_left _ _⟩

theorem trans {p q r : Player} (h : Moves p q) (h' : Moves q r) : Moves p r where
  trace := h'.trace.trans h.trace
  lines := h'.lines.trans h.lines
  position := by
    have hfirst := h.position
    have hsecond := h'.position
    rw [h.trace] at hsecond
    omega

/-- The step is left as it is. -/
theorem of_eq {p q : Player} (htrace : q.trace = p.trace) (hlines : q.lines = p.lines)
    (hposition : q.position = p.position) : Moves p q :=
  ⟨htrace, hlines, hposition ▸ Nat.le_max_left _ _⟩

theorem stopped (p : Player) : Moves p p.stopped := of_eq rfl rfl rfl

theorem saying (p : Player) (status : String) : Moves p (p.saying status) := of_eq rfl rfl rfl

theorem forward (p : Player) : Moves p p.forward := by
  unfold Player.forward
  split
  · next hnext =>
    have hlt : p.position + 1 < p.trace.length := of_decide_eq_true hnext
    exact ⟨rfl, rfl, by change p.position + 1 ≤ _; omega⟩
  · exact refl p

theorem backward (p : Player) : Moves p p.backward :=
  ⟨rfl, rfl, Nat.le_trans (Nat.sub_le _ _) (Nat.le_max_left _ _)⟩

theorem forwardBy (n : Nat) (p : Player) : Moves p (forwardBy n p) := by
  induction n generalizing p with
  | zero => exact refl p
  | succ n ih => exact (forward p).trans (ih p.forward)

/-- The passing of time goes one step further at most. -/
theorem tick (now : Int) (p : Player) : Moves p (p.tick now) := by
  unfold Player.tick
  split
  · split
    · exact (forward p).trans (of_eq rfl rfl rfl)
    · exact of_eq rfl rfl rfl
  · exact refl p

theorem pressForward (p : Player) : Moves p p.pressForward :=
  (stopped p).trans ((forward p.stopped).trans (saying _ _))

theorem pressBackward (p : Player) : Moves p p.pressBackward :=
  (stopped p).trans ((backward p.stopped).trans (saying _ _))

theorem pressDigit (n : Nat) (p : Player) : Moves p (p.pressDigit n) :=
  (stopped p).trans ((forwardBy n p.stopped).trans (saying _ _))

theorem toggle (now : Int) (p : Player) : Moves p (p.toggle now) := by
  unfold Player.toggle
  split
  · split
    · exact of_eq rfl rfl rfl
    · exact of_eq rfl rfl rfl
  · exact refl p

theorem pressChar (now : Int) (c : Char) (p : Player) : Moves p (p.pressChar now c) := by
  unfold Player.pressChar
  split
  · exact of_eq rfl rfl rfl
  · split
    · exact pressDigit _ p
    · split
      · exact pressBackward p
      · split
        · exact pressForward p
        · split
          · exact toggle now p
          · exact refl p

theorem pressUp (p : Player) : Moves p p.pressUp := by
  unfold Player.pressUp
  split
  · exact of_eq rfl rfl rfl
  · exact (stopped p).trans (backward p.stopped)
  · exact of_eq rfl rfl rfl

theorem pressDown (p : Player) : Moves p p.pressDown := by
  unfold Player.pressDown
  split
  · exact of_eq rfl rfl rfl
  · exact (stopped p).trans (forward p.stopped)
  · exact of_eq rfl rfl rfl

/-- Each key moves to a step of the trace or leaves the step as it is. -/
theorem press (now : Int) (key : Key) (p : Player) : Moves p (p.press now key) := by
  cases key with
  | char c => exact pressChar now c p
  | left => exact pressBackward p
  | right => exact pressForward p
  | up => exact pressUp p
  | down => exact pressDown p
  | enter => exact ⟨rfl, rfl, Nat.le_max_right _ _⟩
  | backspace => exact ⟨rfl, rfl, Nat.zero_le _⟩
  | tab | escape | other => exact of_eq rfl rfl rfl

/-- Whatever happens, the replay moves within its trace. -/
theorem happen (p : Player) (event : Event) : Moves p (p.happen event) := by
  cases event with
  | draw heights => exact of_eq rfl rfl rfl
  | wait now => exact tick now p
  | press now key => exact press now key p

theorem after (p : Player) (events : List Event) : Moves p (p.after events) := by
  induction events generalizing p with
  | nil => exact refl p
  | cons event others ih => exact (happen p event).trans (ih (p.happen event))

end Moves

/-- Each pane has room for a row inside its border. -/
def Heights.HaveRoom (heights : Heights) : Prop :=
  3 ≤ heights.source ∧ 3 ≤ heights.steps ∧ 3 ≤ heights.bindings

instance (heights : Heights) : Decidable heights.HaveRoom := inferInstanceAs (Decidable (_ ∧ _))

/-- The panes show the current step, and they scroll no further than they can. -/
structure Visible (p : Player) (heights : Heights) : Prop where
  /-- The current step is among those shown. -/
  step : p.stepsScroll ≤ p.position ∧ p.position < p.stepsScroll + Pane.innerHeight heights.steps
  /-- The current step has a line of the program, which is among those shown. -/
  line : 0 < p.trace.length → ∃ line, p.currentLine? = some line ∧ line ≤ p.lines.length ∧
    p.sourceView.offset < line ∧ line ≤ p.sourceView.offset + Pane.innerHeight heights.source
  /-- The row in which the current line is kept is one of the pane. -/
  row : ∃ row, p.sourceView.targetRow = some row ∧ row < Pane.innerHeight heights.source
  /-- Below the last binding no row is left empty by scrolling. -/
  bindings : p.variablesScroll ≤ p.bindings.length - Pane.innerHeight heights.bindings

/-- Drawing a replay whose current step has a line brings the step into view. -/
theorem visible_settle (p : Player) {heights : Heights} (h : heights.HaveRoom)
    (hline : 0 < p.trace.length →
      ∃ line, p.currentLine? = some line ∧ 1 ≤ line ∧ line ≤ p.lines.length) :
    (p.settle heights).Visible heights := by
  obtain ⟨hsource, hsteps, _⟩ := h
  refine ⟨?_, ?_, ?_, Pane.clampScroll_le _ _ _⟩
  · exact Pane.followOffset_shows (Nat.sub_pos_of_lt hsteps)
  · intro hsome
    obtain ⟨line, hcurrent, hfirst, hlast⟩ := hline hsome
    have hshown := p.sourceView.follow_shows heights.source hfirst hlast
    rw [← hcurrent, Pane.SourceView.rows_eq hsource] at hshown
    exact ⟨line, hcurrent, hlast, hshown⟩
  · refine ⟨_, p.sourceView.targetRow_follow _ _ _, ?_⟩
    rw [← Pane.SourceView.rows_eq hsource]
    exact p.sourceView.row_lt heights.source

/-- A replay of a text that was traced has a line for each of its steps. -/
theorem line_start {text : String} {limits : Limits} {trace : Trace}
    (h : traceText text limits = .ok trace) (now : Int) {p : Player}
    (hmoves : (start trace text now).Moves p) (hsome : 0 < p.trace.length) :
    ∃ line, p.currentLine? = some line ∧ 1 ≤ line ∧ line ≤ p.lines.length := by
  obtain ⟨program, hparse, htrace⟩ := traceText_ok h
  obtain ⟨flow, last, hrun, rfl⟩ := Program.trace_ok.mp htrace
  obtain ⟨htrace, hlines, hposition⟩ := hmoves
  change p.position ≤ max 0 (last.trace.length - 1) at hposition
  change p.trace = last.trace at htrace
  have hindex : p.position < last.trace.length := by
    rw [htrace] at hsome
    omega
  obtain ⟨place, hplace, hfirst, hlast⟩ := Program.line_step hparse hrun hindex
  refine ⟨place.line, ?_, hfirst, ?_⟩
  · rw [currentLine?, htrace, hplace]
    rfl
  · rw [hlines]
    exact hlast

end Player

/-- The cursor of a replay is valid and visible, whatever happens to the replay of a text that
was traced. The replay keeps its trace, and the current step is one of the trace, or the first
position if the trace is empty. Whenever the panes are drawn and have room, the current step and
its line are shown, the line is one of the text, the row for the line is one of the pane, and the
bindings are scrolled no further than to the last one. What happens in a session is what happens
in its rounds. -/
theorem cursor_visible {text : String} {limits : Limits} {trace : Trace}
    (h : traceText text limits = .ok trace) (start : Int) :
    (∀ events, ((Player.start trace text start).after events).trace = trace ∧
      (trace.length = 0 → ((Player.start trace text start).after events).position = 0) ∧
      (0 < trace.length →
        ((Player.start trace text start).after events).position < trace.length) ∧
      ∀ heights : Heights, heights.HaveRoom →
        ((Player.start trace text start).after (events ++ [.draw heights])).Visible heights) ∧
    ∀ now size keys display, ∃ events, events <+: Player.rounds now size keys ∧
      (Player.session now size keys (Player.start trace text start) display).1 =
        (Player.start trace text start).after events := by
  refine ⟨fun events => ?_, fun now size keys display => Player.session_eq_after ..⟩
  have hmoves := Player.Moves.after (Player.start trace text start) events
  have hposition : _ ≤ max 0 (trace.length - 1) := hmoves.position
  refine ⟨hmoves.trace, fun _ => by omega, fun _ => by omega, fun heights hroom => ?_⟩
  rw [Player.after, List.foldl_append]
  exact Player.visible_settle _ hroom (Player.line_start h start hmoves)

namespace Sample

/-- The panes are drawn, the replay jumps to its last step and back, and the line is moved. -/
def wander (heights : Heights) : List Player.Event :=
  [.draw heights, .press 0 .enter, .draw heights, .press 0 .up, .press 0 (.char ' '), .wait 1000,
    .press 1000 .tab, .press 1000 .tab, .press 1000 .up]

end Sample

/-- The current step of the loop is in view in the smallest panes that have room. -/
theorem twoPasses_visible : ∃ trace, traceText Sample.twoPasses {} = .ok trace ∧
    Heights.HaveRoom ⟨3, 3, 3⟩ ∧
    ((Player.start trace Sample.twoPasses 0).after (Sample.wander ⟨3, 3, 3⟩)).position <
      trace.length ∧
    ((Player.start trace Sample.twoPasses 0).after
      (Sample.wander ⟨3, 3, 3⟩ ++ [.draw ⟨3, 3, 3⟩])).Visible ⟨3, 3, 3⟩ := by
  obtain ⟨trace, htrace, hlength, _⟩ := Sample.trace_twoPasses
  obtain ⟨_, _, hvalid, hvisible⟩ := (cursor_visible htrace 0).1 (Sample.wander ⟨3, 3, 3⟩)
  exact ⟨trace, htrace, by decide, hvalid (by omega), hvisible _ (by decide)⟩

end Walkthrough
