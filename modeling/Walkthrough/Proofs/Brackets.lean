import Walkthrough.Proofs.Course

/-!
# Calls and returns as brackets

The start and the end of a call are read as an opening and a closing bracket. In the log of a
run that succeeds the brackets balance; what stands between two that match is nested more
deeply, returns stand inside, and a return is followed by the end of its call.
-/

namespace Walkthrough

open Walk

/-- The calls of a log, by the indices of their steps. -/
structure Brackets where
  /-- Where the calls start that have not ended, innermost first. -/
  opened : List Nat
  /-- Where the calls that have ended start and end, the last one first. -/
  pairs : List (Nat × Nat)
  deriving DecidableEq, Repr

namespace Brackets

/-- The brackets after one more step, which has this index. No call can end where none is
open. -/
def read (b : Brackets) (index : Nat) : Step → Option Brackets
  | .call .. => some { b with opened := index :: b.opened }
  | .endCall .. =>
    match b.opened with
    | [] => none
    | start :: outer => some ⟨outer, (start, index) :: b.pairs⟩
  | _ => some b

/-- The brackets of some steps, unless a call ends where none is open. -/
def ofSteps (steps : List Step) : Option Brackets :=
  steps.zipIdx.foldlM (fun b (step, index) => b.read index step) ⟨[], []⟩

/-- The last step is read last. -/
theorem ofSteps_append (steps : List Step) (step : Step) :
    ofSteps (steps ++ [step]) = (ofSteps steps).bind fun b => b.read steps.length step := by
  unfold ofSteps
  rw [List.zipIdx_append, List.foldlM_append]
  simp

end Brackets

/-- The text that a step shows if it is part of a return. -/
def Step.returned? : Step → Option String
  | .giveBack _ _ text _ => some text
  | _ => none

/-- The text that the last of some steps shows if it is part of a return. -/
def returned? (steps : List Step) : Option String := steps.getLast?.bind Step.returned?

theorem returned?_append {steps more : List Step} {last : Step} (h : more.getLast? = some last) :
    returned? (steps ++ more) = last.returned? := by
  rw [returned?, List.getLast?_append, h]
  rfl

/-- Ordinary steps return nothing. -/
theorem returned?_append_ordinary {steps more : List Step} (hsteps : returned? steps = none)
    (hmore : ∀ step ∈ more, step.isOrdinary = true) : returned? (steps ++ more) = none := by
  cases hlast : more.getLast? with
  | none =>
    rw [List.getLast?_eq_none_iff.mp hlast, List.append_nil]
    exact hsteps
  | some last =>
    rw [returned?_append hlast]
    have hordinary := hmore last (List.mem_of_getLast? hlast)
    cases last <;> first | rfl | cases hordinary

/-- What a step requires of the steps before it and their brackets. A call finds fewer calls
open than allowed and a return finds one. The end of a call has the id, level and name with
which the innermost open call started; the steps since then are nested more deeply, and its
value is the text that was just returned, if any was. -/
def Brackets.Admits (limit : Nat) (steps : List Step) (b : Brackets) : Step → Prop
  | .call .. => b.opened.length < limit
  | .giveBack .. => b.opened ≠ []
  | .endCall id depth name value => ∃ start outer signature args, b.opened = start :: outer ∧
      steps[start]? = some (.call id depth name signature args) ∧
      (∀ index step, start < index → steps[index]? = some step → depth < step.depth) ∧
      value = (returned? steps).getD "None"
  | _ => True

/-- A log whose calls and returns are in order, with its brackets: each step is admitted by
those before it. -/
inductive Bracketed (limit : Nat) : List Step → Brackets → Prop where
  | nil : Bracketed limit [] ⟨[], []⟩
  | snoc {steps : List Step} {step : Step} {b b' : Brackets} (earlier : Bracketed limit steps b)
    (admitted : b.Admits limit steps step) (read : b.read steps.length step = some b') :
    Bracketed limit (steps ++ [step]) b'

/-- The brackets of a log are among those of a longer one: calls that have ended stay so, and
open calls stay open or end after a number of steps. -/
structure Brackets.Grows (b later : Brackets) (length : Nat) : Prop where
  ended : ∀ pair ∈ b.pairs, pair ∈ later.pairs
  opened : ∀ start ∈ b.opened, start ∈ later.opened ∨
    ∃ stop, length ≤ stop ∧ (start, stop) ∈ later.pairs

namespace Brackets

variable {b c d : Brackets} {index length : Nat} {step : Step}

theorem Grows.refl (b : Brackets) (length : Nat) : b.Grows b length :=
  ⟨fun _ h => h, fun _ h => .inl h⟩

/-- An ordinary step changes no brackets. -/
theorem read_ordinary (h : step.isOrdinary = true) (b : Brackets) (index : Nat) :
    b.read index step = some b := by
  cases step <;> first | rfl | cases h

/-- One more step opens a call, ends the innermost one or changes nothing. -/
theorem read_cases (h : b.read index step = some c) :
    c = b ∨ c = ⟨index :: b.opened, b.pairs⟩ ∨
      ∃ start outer, b.opened = start :: outer ∧ c = ⟨outer, (start, index) :: b.pairs⟩ := by
  unfold read at h
  split at h
  · exact .inr (.inl (Option.some.inj h).symm)
  · split at h
    · cases h
    · next start outer hopened =>
      exact .inr (.inr ⟨start, outer, hopened, (Option.some.inj h).symm⟩)
  · exact .inl (Option.some.inj h).symm

/-- The brackets grow with one more step. -/
theorem Grows.read (h : b.Grows c length) (hlength : length ≤ index)
    (hread : c.read index step = some d) : b.Grows d length := by
  rcases read_cases hread with rfl | rfl | ⟨start, outer, hopened, rfl⟩
  · exact h
  · refine ⟨h.ended, fun other hother => ?_⟩
    rcases h.opened other hother with hopen | hended
    · exact .inl (List.mem_cons_of_mem _ hopen)
    · exact .inr hended
  · refine ⟨fun pair hpair => List.mem_cons_of_mem _ (h.ended pair hpair), fun other hother => ?_⟩
    rcases h.opened other hother with hopen | ⟨stop, hstop, hpair⟩
    · rw [hopened] at hopen
      rcases List.mem_cons.mp hopen with rfl | hopen
      · exact .inr ⟨index, hlength, List.mem_cons_self⟩
      · exact .inl hopen
    · exact .inr ⟨stop, hstop, List.mem_cons_of_mem _ hpair⟩

end Brackets

/-- The start and the end of a call: they have the same id, level and name, and all steps
between them are nested more deeply. -/
def Matches (steps : List Step) (start stop : Nat) : Prop :=
  start < stop ∧ ∃ id depth name signature args value,
    steps[start]? = some (.call id depth name signature args) ∧
    steps[stop]? = some (.endCall id depth name value) ∧
    ∀ index step, start < index → index < stop → steps[index]? = some step → depth < step.depth

/-- A call and its end still match when steps are added. -/
theorem Matches.append {steps : List Step} {start stop : Nat} (h : Matches steps start stop)
    (more : List Step) : Matches (steps ++ more) start stop := by
  obtain ⟨hlt, id, depth, name, signature, args, value, hstart, hstop, hdeeper⟩ := h
  have hstopLt := (List.getElem?_eq_some_iff.mp hstop).1
  refine ⟨hlt, id, depth, name, signature, args, value, ?_, ?_, ?_⟩
  · rw [List.getElem?_append_left (Nat.lt_trans hlt hstopLt)]
    exact hstart
  · rw [List.getElem?_append_left hstopLt]
    exact hstop
  · intro index step hfrom hto hstep
    rw [List.getElem?_append_left (Nat.lt_trans hto hstopLt)] at hstep
    exact hdeeper index step hfrom hto hstep

namespace Bracketed

variable {limit : Nat} {steps : List Step} {b : Brackets}

/-- The brackets of a log are those that are read. -/
theorem ofSteps_eq (h : Bracketed limit steps b) : Brackets.ofSteps steps = some b := by
  induction h with
  | nil => rfl
  | snoc _ _ read ih =>
    rw [Brackets.ofSteps_append, ih]
    exact read

/-- No more calls are open than allowed. -/
theorem length_opened_le (h : Bracketed limit steps b) : b.opened.length ≤ limit := by
  induction h with
  | nil => exact Nat.zero_le _
  | @snoc _ step b _ _ admitted read ih =>
    cases step with
    | call =>
      cases read
      exact admitted
    | endCall =>
      obtain ⟨start, outer, _, _, hopened, _⟩ := admitted
      simp only [Brackets.read, hopened, Option.some.injEq] at read
      rw [hopened] at ih
      rw [← read]
      exact Nat.le_of_succ_le ih
    | _ =>
      cases read
      exact ih

/-- Open calls start in the log. -/
theorem lt_length (h : Bracketed limit steps b) : ∀ start ∈ b.opened, start < steps.length := by
  induction h with
  | nil => simp
  | @snoc steps _ _ _ _ _ read ih =>
    intro start hstart
    rw [List.length_append, List.length_singleton]
    rcases Brackets.read_cases read with rfl | rfl | ⟨_, _, hopened, rfl⟩
    · exact Nat.lt_succ_of_lt (ih start hstart)
    · rcases List.mem_cons.mp hstart with rfl | hstart
      · exact Nat.lt_succ_self _
      · exact Nat.lt_succ_of_lt (ih start hstart)
    · exact Nat.lt_succ_of_lt (ih start (by rw [hopened]; exact List.mem_cons_of_mem _ hstart))

/-- The first steps of a log in order are in order. -/
theorem exists_take (h : Bracketed limit steps b) (n : Nat) :
    ∃ earlier, Bracketed limit (steps.take n) earlier := by
  induction h with
  | nil =>
    rw [List.take_nil]
    exact ⟨_, .nil⟩
  | @snoc steps step _ c earlier admitted read ih =>
    by_cases hall : n ≤ steps.length
    · rw [List.take_append_of_le_length hall]
      exact ih
    · rw [List.take_of_length_le (by rw [List.length_append, List.length_singleton]; omega)]
      exact ⟨c, .snoc earlier admitted read⟩

/-- Each step of a log in order is admitted by those before it, and their brackets grow into
those of the log. -/
theorem admits (h : Bracketed limit steps b) {index : Nat} {step : Step}
    (hstep : steps[index]? = some step) :
    ∃ earlier next, Bracketed limit (steps.take index) earlier ∧
      earlier.Admits limit (steps.take index) step ∧ earlier.read index step = some next ∧
      next.Grows b (index + 1) := by
  induction h with
  | nil => cases hstep
  | @snoc steps last before c earlier admitted read ih =>
    by_cases hlast : index < steps.length
    · rw [List.getElem?_append_left hlast] at hstep
      obtain ⟨first, next, hfirst, hadmits, hread, hgrows⟩ := ih hstep
      rw [List.take_append_of_le_length (Nat.le_of_lt hlast)]
      exact ⟨first, next, hfirst, hadmits, hread, hgrows.read hlast read⟩
    · have hlt := (List.getElem?_eq_some_iff.mp hstep).1
      rw [List.length_append, List.length_singleton] at hlt
      obtain rfl : index = steps.length := by omega
      rw [List.getElem?_concat_length] at hstep
      cases hstep
      rw [List.take_append_of_le_length (Nat.le_refl _), List.take_length]
      exact ⟨before, c, earlier, admitted, read, .refl _ _⟩

/-- The end of a call ends the innermost call that is open, with the text just returned. -/
theorem exists_of_endCall (h : Bracketed limit steps b) {index id depth : Nat}
    {name value : String} (hstep : steps[index]? = some (.endCall id depth name value)) :
    ∃ start outer ended, Bracketed limit (steps.take index) ⟨start :: outer, ended⟩ ∧
      (start, index) ∈ b.pairs ∧ value = (returned? (steps.take index)).getD "None" := by
  obtain ⟨⟨opened, ended⟩, next, hearlier, hadmits, hread, hgrows⟩ := h.admits hstep
  obtain ⟨start, outer, _, _, rfl, _, _, hvalue⟩ := hadmits
  cases hread
  exact ⟨start, outer, ended, hearlier, hgrows.ended _ List.mem_cons_self, hvalue⟩

/-- Where all calls have ended, a step of a return stands between the start and the end of
one. -/
theorem exists_around (h : Bracketed limit steps b) (hclosed : b.opened = [])
    {index id depth : Nat} {text : String} {highlight : Highlight}
    (hstep : steps[index]? = some (.giveBack id depth text highlight)) :
    ∃ start stop, (start, stop) ∈ b.pairs ∧ start < index ∧ index < stop := by
  obtain ⟨earlier, next, hearlier, hadmits, hread, hgrows⟩ := h.admits hstep
  cases hread
  obtain ⟨start, outer, hopened⟩ := List.exists_cons_of_ne_nil hadmits
  have hstart : start ∈ earlier.opened := hopened ▸ List.mem_cons_self
  have hbefore := hearlier.lt_length start hstart
  rw [List.length_take] at hbefore
  rcases hgrows.opened start hstart with hopen | ⟨stop, hstop, hpair⟩
  · rw [hclosed] at hopen
    cases hopen
  · exact ⟨start, stop, hpair, Nat.lt_of_lt_of_le hbefore (Nat.min_le_left _ _), hstop⟩

/-- Calls that have ended match. -/
theorem matches_of_mem_pairs (h : Bracketed limit steps b) {start stop : Nat}
    (hpair : (start, stop) ∈ b.pairs) : Matches steps start stop := by
  induction h with
  | nil => cases hpair
  | @snoc steps last before c earlier admitted read ih =>
    cases last with
    | endCall id depth name value =>
      obtain ⟨first, outer, signature, args, hopened, hstarted, hdeeper, _⟩ := admitted
      simp only [Brackets.read, hopened, Option.some.injEq] at read
      rw [← read] at hpair
      rcases List.mem_cons.mp hpair with hnew | hold
      · cases hnew
        have hlt := (List.getElem?_eq_some_iff.mp hstarted).1
        refine ⟨hlt, id, depth, name, signature, args, value, ?_, List.getElem?_concat_length, ?_⟩
        · rw [List.getElem?_append_left hlt]
          exact hstarted
        · intro index step hfrom hto hstep
          rw [List.getElem?_append_left hto] at hstep
          exact hdeeper index step hfrom hstep
      · exact (ih hold).append _
    | _ =>
      cases read
      exact (ih hpair).append _

/-- Steps that leave the brackets alone can be added if each of them is admitted. -/
theorem append (h : Bracketed limit steps b) {more : List Step}
    (hmore : ∀ step ∈ more, (∀ before, b.Admits limit before step) ∧
      ∀ index, b.read index step = some b) : Bracketed limit (steps ++ more) b := by
  induction more generalizing steps with
  | nil => rwa [List.append_nil]
  | cons step others ih =>
    obtain ⟨hadmits, hread⟩ := hmore step List.mem_cons_self
    rw [List.append_cons]
    exact ih (.snoc h (hadmits _) (hread _)) fun other hother =>
      hmore other (List.mem_cons_of_mem _ hother)

/-- Ordinary steps can always be added. -/
theorem append_ordinary (h : Bracketed limit steps b) {more : List Step}
    (hmore : ∀ step ∈ more, step.isOrdinary = true) : Bracketed limit (steps ++ more) b :=
  h.append fun step hstep => by
    have hordinary := hmore step hstep
    refine ⟨fun before => ?_, Brackets.read_ordinary hordinary b⟩
    cases step <;> trivial

/-- A log that ends with a return has an open call. -/
theorem returned?_eq_none (h : Bracketed limit steps b) (hclosed : b.opened = []) :
    returned? steps = none := by
  cases h with
  | nil => rfl
  | @snoc steps last before _ earlier admitted read =>
    rw [returned?_append (List.getLast?_singleton ..)]
    cases last with
    | giveBack =>
      cases read
      exact absurd hclosed admitted
    | _ => rfl

end Bracketed

/-- The text that statements return if they end so. -/
def Flow.text? : Flow → Option String
  | .normal => none
  | .returned value => some value.text

/-- What a call shows as its value. -/
theorem Flow.text_value (flow : Flow) : flow.value.text = flow.text?.getD "None" := by
  cases flow <;> rfl

/-- The end of a call closes the bracket that the call opened, if the steps between are deeper and
the last of them shows what the call returns. -/
theorem Bracketed.returned {limit : Nat} {r last : Run} {flow : Flow} {f : Procedure}
    {location : Location} {signature : String} {args : List Argument} {more : List Step}
    {opened : List Nat} {between : Brackets}
    (hbetween : Bracketed limit last.trace.steps.toList between)
    (hopened : between.opened = r.trace.steps.toList.length :: opened)
    (hlast : last.trace.steps.toList = r.trace.steps.toList ++
      (.call (r.store.idAt location).1 r.store.depth f.name signature args :: more))
    (hdeep : ∀ step ∈ more, r.store.depth + 1 ≤ step.depth)
    (hreturned : returned? last.trace.steps.toList = flow.text?) :
    Bracketed limit (last.returned r f location flow.value).trace.steps.toList
      ⟨opened, (r.trace.steps.toList.length, last.trace.steps.toList.length) ::
        between.pairs⟩ := by
  rw [Run.steps_returned]
  refine .snoc hbetween ⟨_, _, signature, args, hopened, ?_, ?_, ?_⟩ ?_
  · simp [hlast]
  · intro index step hindex hstep
    rw [hlast, List.getElem?_append_right (Nat.le_of_lt hindex), List.getElem?_cons,
      if_neg (by omega)] at hstep
    exact hdeep step (List.mem_of_getElem? hstep)
  · rw [hreturned]
    exact flow.text_value
  · simp only [Brackets.read, hopened]

/-- A run keeps calls and returns in order: the calls that it starts have ended when it ends,
and it ends with a return exactly if the last step of the log shows the value returned. -/
theorem Course.bracketed {Idle : Nat → Location → Prop} {calls limit : Nat} {r s : Run}
    {flow : Flow} (h : Course Idle calls r flow s) {b : Brackets}
    (hb : Bracketed limit r.trace.steps.toList b) (hopen : b.opened.length = r.store.callDepth)
    (hroom : r.store.callDepth + calls ≤ limit) (hquiet : returned? r.trace.steps.toList = none) :
    ∃ later, Bracketed limit s.trace.steps.toList later ∧ later.opened = b.opened ∧
      returned? s.trace.steps.toList = flow.text? := by
  induction h generalizing b with
  | done => exact ⟨b, hb, rfl, hquiet⟩
  | seq first _ ih ih' =>
    obtain ⟨between, hbetween, hopened, hnone⟩ := ih hb hopen hroom hquiet
    obtain ⟨_, hadds⟩ := first.adds
    rw [← hadds.callDepth] at hopen hroom
    obtain ⟨later, hlater, hopened', hreturned⟩ :=
      ih' hbetween (hopened ▸ hopen) hroom hnone
    exact ⟨later, hlater, hopened'.trans hopened, hreturned⟩
  | moved location => exact ⟨b, hb, rfl, hquiet⟩
  | @bound _ r bindings steps shown =>
    have hordinary : ∀ step ∈ steps, step.isOrdinary = true := fun step hstep => by
      obtain ⟨target, text, rfl⟩ := shown step hstep
      rfl
    rw [Run.steps_recordedAll, Run.trace_boundAll]
    exact ⟨b, hb.append_ordinary hordinary, rfl, returned?_append_ordinary hquiet hordinary⟩
  | @visited _ r location steps shown _ =>
    have hordinary : ∀ step ∈ steps, step.isOrdinary = true := fun step hstep =>
      (shown step hstep).ordinary
    rw [Run.steps_recordedAll]
    exact ⟨b, hb.append_ordinary hordinary, rfl, returned?_append_ordinary hquiet hordinary⟩
  | @repeated _ r _ _ step _ shown =>
    have hordinary : ∀ other ∈ [step], other.isOrdinary = true :=
      List.forall_mem_singleton.mpr shown.ordinary
    have hsteps := Run.steps_recordedAll r [step]
    exact ⟨b, hsteps ▸ hb.append_ordinary hordinary, rfl,
      hsteps ▸ returned?_append_ordinary hquiet hordinary⟩
  | defined f => exact ⟨b, hb, rfl, hquiet⟩
  | nested _ _ ih => exact ih hb hopen hroom hquiet
  | @gave _ r location steps value inside shown last =>
    -- A function is running, so a call is open.
    have hsome : b.opened ≠ [] := by
      intro hnone
      rw [hnone] at hopen
      have hframes : r.store.scopes.frames = [] := List.length_eq_zero_iff.mp hopen.symm
      simp [Store.inFunction, hframes] at inside
    obtain ⟨highlight, hlast⟩ := last
    rw [Run.steps_recordedAll]
    refine ⟨b, hb.append fun step hstep => ?_, rfl, returned?_append hlast⟩
    obtain ⟨text, highlight, rfl⟩ := shown step hstep
    exact ⟨fun _ => hsome, fun _ => rfl⟩
  | @called calls r last flow f values location body ih =>
    obtain ⟨more, hmore⟩ := body.adds
    obtain ⟨signature, args, hinside⟩ := r.steps_inside f values location
    have hcalls := r.callDepth_inside f values location
    -- The call opens a bracket, which is the innermost one when its statements have ended.
    have hstarted : Bracketed limit (r.inside f values location).trace.steps.toList
        ⟨r.trace.steps.toList.length :: b.opened, b.pairs⟩ := by
      rw [hinside]
      exact .snoc hb (show b.opened.length < limit by omega) rfl
    obtain ⟨between, hbetween, hopened, hreturned⟩ := ih hstarted
      (by rw [hcalls, List.length_cons, hopen]) (by omega)
      (by rw [hinside, returned?_append (List.getLast?_singleton ..)]; rfl)
    have hlast : last.trace.steps.toList = r.trace.steps.toList ++
        (.call (r.store.idAt location).1 r.store.depth f.name signature args :: more) := by
      rw [hmore.steps, hinside, List.append_assoc]
      rfl
    have hdeep := hmore.deep
    rw [Run.depth_inside] at hdeep
    refine ⟨_, hbetween.returned hopened hlast hdeep hreturned, rfl, ?_⟩
    rw [Run.steps_returned, returned?_append (List.getLast?_singleton ..)]
    rfl

/-- The log has the end of a call at this index. -/
def Run.EndsCall (run : Run) (index : Nat) : Prop :=
  ∃ id depth name value, run.trace.steps.toList[index]? = some (.endCall id depth name value)

theorem Run.EndsCall.later {r s : Run} {index : Nat} (h : r.EndsCall index)
    (hs : r.Continues s) : s.EndsCall index := by
  obtain ⟨id, depth, name, value, hstep⟩ := h
  obtain ⟨more, hmore⟩ := hs.steps
  refine ⟨id, depth, name, value, ?_⟩
  rw [← hmore, List.getElem?_append_left (List.getElem?_eq_some_iff.mp hstep).1]
  exact hstep

/-- A call ends right after its function. -/
theorem Run.endsCall_returned (last call : Run) (f : Procedure) (location : Location)
    (value : Value) : (last.returned call f location value).EndsCall last.trace.length := by
  refine ⟨(call.store.idAt location).1, call.store.depth, f.name, value.text, ?_⟩
  rw [steps_returned]
  exact List.getElem?_concat_length

namespace Stmt

variable {calls fewer least : Nat} {statement inner : Stmt} {body : List Stmt} {r s t u : Run}
  {flow : Flow} {value : Value}

/-- When the statements of a function have ended, its call ends. -/
theorem callStarts_endsCall {function : String} {args : List Expr} {location : Location}
    {result : Value} (h : (Expr.call function args location).Starts calls r fewer body s)
    (hcall : callNamed (callWithin calls) function args location r = .ok result u)
    (hran : execAll (callWithin fewer) body s = .ok flow t) : u.EndsCall t.trace.length := by
  cases h with
  | call user known count evaluated room =>
    rcases callNamed_ok hcall with ⟨hprint, _⟩ | ⟨_, f, hf, hcall⟩
    · exact absurd hprint user
    · obtain ⟨_, values, flow, last, hcalls, _, answered⟩ := callWithin_ok hcall
      cases hcalls
      have hsame : f = _ := Option.some.inj (hf.symm.trans known)
      have hvalues := Except.ok.inj (answered.evaluated.symm.trans evaluated)
      subst hsame hvalues
      cases hran.symm.trans answered.ran
      rw [answered.ended]
      exact Run.endsCall_returned _ _ _ _ _

/-- When the statements of a function that is called for its value have ended, its call
ends. -/
theorem stagesOf_endsCall {present : Scopes Value → Expr → Except Fault Staged} {e : Expr}
    {staged : Staged} (h : e.Starts calls r fewer body s)
    (hstages : stagesOf (callWithin calls) present e r = .ok staged u)
    (hran : execAll (callWithin fewer) body s = .ok flow t) : u.EndsCall t.trace.length := by
  rcases stagesOf_ok hstages with ⟨_, _, _, _, rfl, hcall, _⟩ | ⟨hother, _⟩
  · exact callStarts_endsCall h hcall hran
  · cases h with
    | call => exact absurd rfl (hother _ _ _)

/-- A loop returns what one of its passes returns. -/
theorem passStarts_returned {id : Nat} {action : Walk Flow} {counter : Counter}
    (h : PassStarts id action counter r s)
    (hpasses : passes id action counter r = .ok flow u)
    (hran : action s = .ok (.returned value) t) : flow = .returned value ∧ u = t := by
  induction h with
  | next range start =>
    rcases passes_ok hpasses with ⟨hout, _⟩ | ⟨_, s', t', hs, hend⟩
    · rw [range] at hout
      cases hout
    · cases start.symm.trans hs
      rcases hend with ⟨given, rfl, hend⟩ | ⟨hend, _⟩
      · cases hran.symm.trans hend
        exact ⟨rfl, rfl⟩
      · cases hran.symm.trans hend
  | later range start ended _ ih =>
    rcases passes_ok hpasses with ⟨hout, _⟩ | ⟨_, s', t', hs, hend⟩
    · rw [range] at hout
      cases hout
    · cases start.symm.trans hs
      rcases hend with ⟨given, rfl, hend⟩ | ⟨hend, hlater⟩
      · cases ended.symm.trans hend
      · cases ended.symm.trans hend
        exact ih hlater hran

/-- A return ends a call that a statement makes, or the statement itself. -/
theorem starts_returned (h : Starts calls statement r fewer body s)
    (hexec : exec (callWithin calls) statement r = .ok flow u)
    (hran : execAll (callWithin fewer) body s = .ok (.returned value) t) :
    u.EndsCall t.trace.length ∨ flow = .returned value ∧ u.trace = t.trace := by
  cases h with
  | assign checked call =>
    obtain ⟨_, names, staged, s', shares, _, hstaged, _, rfl⟩ := exec_assign_ok hexec
    exact .inl ((stagesOf_endsCall call hstaged hran).later
      ((Run.continues_boundAll _ _).trans (Run.continues_recordedAll _ _)))
  | giveBack inside call =>
    obtain ⟨_, staged, s', _, ⟨hnone, _⟩ | ⟨e, hsome, hstaged⟩, rfl⟩ := exec_giveBack_ok hexec
    · cases hnone
    · cases hsome
      exact .inl ((stagesOf_endsCall call hstaged hran).later
        ((Run.Continues.identified _ _).trans (Run.continues_recordedAll _ _)))
  | expression call =>
    obtain ⟨_, function, args, place, result, rfl, hcall⟩ := exec_expression_ok hexec
    exact .inl (callStarts_endsCall call hcall hran)
  | loop named counted pass =>
    obtain ⟨name, counter, hname, hcounter, hpasses⟩ := exec_loop_ok hexec
    cases named.symm.trans hname
    cases counted.symm.trans hcounter
    obtain ⟨ended, v, hnested, _⟩ := passStarts_ended pass hpasses
    obtain ⟨last, hlast, _, rfl⟩ := nested_ok hnested
    cases hran.symm.trans hlast
    obtain ⟨rfl, rfl⟩ := passStarts_returned pass hpasses hnested
    exact .inr ⟨rfl, rfl⟩
  | choose branch =>
    have hnested := branchStarts_ended branch (exec_choose_ok hexec)
    obtain ⟨last, hlast, _, rfl⟩ := nested_ok hnested
    cases hran.symm.trans hlast
    exact .inr ⟨rfl, rfl⟩

/-- A return ends a call that some statements make, or the statements themselves. -/
theorem reaches_returned (h : Reaches calls body r least inner t)
    (hbody : execAll (callWithin calls) body r = .ok flow u)
    (hinner : exec (callWithin least) inner t = .ok (.returned value) s) :
    u.EndsCall s.trace.length ∨ flow = .returned value ∧ u.trace = s.trace := by
  induction h generalizing flow u with
  | first =>
    rcases execAll_cons_ok hbody with ⟨_, rfl, hfirst⟩ | ⟨_, hfirst, _⟩
    · cases hinner.symm.trans hfirst
      exact .inr ⟨rfl, rfl⟩
    · cases hinner.symm.trans hfirst
  | next hended _ ih =>
    rcases execAll_cons_ok hbody with ⟨_, _, hfirst⟩ | ⟨_, hfirst, hothers⟩
    · cases hended.symm.trans hfirst
    · cases hended.symm.trans hfirst
      exact ih hothers hinner
  | @inner calls _ _ statement _ _ _ r _ _ starts _ ih =>
    have hstatement : ∀ ended v, exec (callWithin calls) statement r = .ok ended v →
        v.EndsCall s.trace.length ∨ ended = .returned value ∧ v.trace = s.trace := by
      intro ended v hfirst
      obtain ⟨_, w, hran, hw⟩ := starts_ended starts hfirst
      rcases ih hran hinner with hends | ⟨rfl, htrace⟩
      · exact .inl (hends.later hw)
      · have hreturned := starts_returned starts hfirst hran
        rwa [htrace] at hreturned
    rcases execAll_cons_ok hbody with ⟨_, rfl, hfirst⟩ | ⟨v, hfirst, hothers⟩
    · exact hstatement _ _ hfirst
    · rcases hstatement _ _ hfirst with hends | ⟨hnormal, _⟩
      · exact .inl (hends.later (execAll_continues hothers))
      · cases hnormal

/-- A return that succeeds records steps, the last of which shows what it returns. -/
theorem exec_giveBack_shows {e : Option Expr} {location : Location}
    (h : exec (callWithin calls) (.giveBack e location) r = .ok flow u) :
    r.trace.length < u.trace.length ∧ ∃ value id depth highlight, flow = .returned value ∧
      u.trace.steps.toList[u.trace.length - 1]? =
        some (.giveBack id depth value.text highlight) := by
  obtain ⟨_, staged, s, rfl, hvalue, rfl⟩ := exec_giveBack_ok h
  have hs : r.Continues s ∧ staged.Settles := by
    have hmoved := Run.Continues.movedTo r location
    rcases hvalue with ⟨_, rfl, rfl⟩ | ⟨e, _, hstaged⟩
    · exact ⟨hmoved, Staged.settles_resolved _⟩
    · have hcaller := closed_continues.callWithin calls
      exact ⟨hmoved.trans ((closed_continues.stagesOf hcaller _ e).ok hstaged),
        stagesOf_settles hstaged⟩
  obtain ⟨highlight, hlast⟩ := hs.2.getLast?_highlighted
  let steps := staged.highlighted.map fun shown =>
    Step.giveBack (s.store.idAt location).1 s.store.depth shown.1 shown.2
  have hsteps := Run.steps_recordedAll (s.identified location) steps
  have hshown : steps.getLast? = some (.giveBack (s.store.idAt location).1 s.store.depth
      staged.value.text highlight) := by
    rw [List.getLast?_map, hlast]
    rfl
  constructor
  · have hpos : 0 < steps.length := List.length_pos_of_mem (List.mem_of_getLast? hshown)
    refine Nat.lt_of_le_of_lt hs.1.length_le ?_
    change s.trace.length < List.length _
    rw [hsteps, List.length_append]
    exact Nat.lt_add_of_pos_right hpos
  · refine ⟨staged.value, (s.store.idAt location).1, s.store.depth, highlight, rfl, ?_⟩
    change (_ : List Step)[List.length _ - 1]? = _
    rw [← List.getLast?_eq_getElem?, hsteps, List.getLast?_append, hshown]
    rfl

end Stmt

namespace Program

/-- A program ends normally, with its calls and returns in order. -/
theorem bracketed {program : Program} {limits : Limits} {flow : Flow} {last : Run}
    (h : program.run limits = .ok flow last) :
    flow = .normal ∧ ∃ pairs, Bracketed limits.calls last.trace.steps.toList ⟨[], pairs⟩ := by
  have hcourse : Course (fun _ _ => True) limits.calls (Run.start limits) flow last :=
    Program.course h fun _ _ _ _ _ _ => trivial
  obtain ⟨⟨opened, pairs⟩, hpairs, rfl, hreturned⟩ :=
    hcourse.bracketed .nil rfl (Nat.le_of_eq (Nat.zero_add _)) rfl
  rw [hpairs.returned?_eq_none rfl] at hreturned
  cases flow with
  | normal => exact ⟨rfl, pairs, hpairs⟩
  | returned value => cases hreturned

/-- A return that the run comes to records steps, the last of which shows what it returns,
and the end of a call follows. -/
theorem return_endsCall {program : Program} {limits : Limits} {flow : Flow} {last before : Run}
    {calls : Nat} {value : Option Expr} {location : Location}
    (h : program.run limits = .ok flow last)
    (hreach : program.Reaches limits calls (.giveBack value location) before) :
    ∃ ended after, Stmt.exec (callWithin calls) (.giveBack value location) before =
      .ok ended after ∧ before.trace.length < after.trace.length ∧
      last.EndsCall after.trace.length ∧
      ∃ id depth text highlight, last.trace.steps.toList[after.trace.length - 1]? =
        some (.giveBack id depth text highlight) := by
  obtain ⟨_, after, hexec⟩ := Stmt.reaches_exec hreach h
  obtain ⟨hlonger, returned, id, depth, highlight, rfl, hlast⟩ := Stmt.exec_giveBack_shows hexec
  obtain ⟨more, hmore⟩ := (Stmt.reaches_ended hreach h hexec).steps
  refine ⟨_, after, hexec, hlonger, ?_, id, depth, returned.text, highlight, ?_⟩
  · rcases Stmt.reaches_returned hreach h hexec with hends | ⟨hflow, _⟩
    · exact hends
    · rw [(bracketed h).1] at hflow
      cases hflow
  · rw [← hmore, List.getElem?_append_left (List.getElem?_eq_some_iff.mp hlast).1]
    exact hlast

end Program

/-- Calls and returns are brackets in the log of every run that succeeds. Read from the start,
with `call` as an opening and `endCall` as a closing bracket, each prefix of the log has at most
as many open calls as may nest, and in the end none is open. Brackets that match have the same
id, level and name, and what stands between them is nested more deeply. A step of a return
stands between two of them; each return that the run comes to records steps, the last of which
is followed by the end of the innermost call that is open there. The end of a call shows the
text of the step before it if that belongs to a return, and otherwise `None`. -/
theorem calls_bracket {program : Program} {limits : Limits} {trace : Trace}
    (h : program.trace limits = .ok trace) :
    ∃ pairs, Brackets.ofSteps trace.steps.toList = some ⟨[], pairs⟩ ∧
      (∀ n, ∃ b, Brackets.ofSteps (trace.steps.toList.take n) = some b ∧
        b.opened.length ≤ limits.calls) ∧
      (∀ start stop, (start, stop) ∈ pairs → Matches trace.steps.toList start stop) ∧
      (∀ index id depth text highlight,
        trace.steps.toList[index]? = some (.giveBack id depth text highlight) →
        ∃ start stop, (start, stop) ∈ pairs ∧ start < index ∧ index < stop) ∧
      (∀ calls value location before,
        program.Reaches limits calls (.giveBack value location) before →
        ∃ ended after, Stmt.exec (callWithin calls) (.giveBack value location) before =
            .ok ended after ∧ before.trace.length < after.trace.length ∧
          (∃ id depth text highlight, trace.steps.toList[after.trace.length - 1]? =
            some (.giveBack id depth text highlight)) ∧
          ∃ start outer earlier,
            Brackets.ofSteps (trace.steps.toList.take after.trace.length) =
              some ⟨start :: outer, earlier⟩ ∧ (start, after.trace.length) ∈ pairs) ∧
      ∀ index id depth name value,
        trace.steps.toList[index]? = some (.endCall id depth name value) →
        value = (returned? (trace.steps.toList.take index)).getD "None" := by
  obtain ⟨flow, last, hrun, rfl⟩ := Program.trace_ok.mp h
  obtain ⟨_, pairs, hpairs⟩ := Program.bracketed hrun
  refine ⟨pairs, hpairs.ofSteps_eq, fun n => ?_, fun _ _ => hpairs.matches_of_mem_pairs,
    fun _ _ _ _ _ => hpairs.exists_around rfl, ?_, ?_⟩
  · obtain ⟨b, hb⟩ := hpairs.exists_take n
    exact ⟨b, hb.ofSteps_eq, hb.length_opened_le⟩
  · intro calls value location before hreach
    obtain ⟨ended, after, hexec, hlonger, ⟨_, _, _, _, hends⟩, hlast⟩ :=
      Program.return_endsCall hrun hreach
    obtain ⟨start, outer, earlier, hopened, hpair, _⟩ := hpairs.exists_of_endCall hends
    exact ⟨ended, after, hexec, hlonger, hlast, start, outer, earlier, hopened.ofSteps_eq, hpair⟩
  · intro index id depth name value hstep
    obtain ⟨_, _, _, _, _, hvalue⟩ := hpairs.exists_of_endCall hstep
    exact hvalue

namespace Sample

/-- The statement `return g(n)`. -/
def passing : Stmt := .giveBack (some (.call "g" [.name "n" ⟨5, 18⟩] ⟨5, 16⟩)) ⟨5, 9⟩

/-- A function `g` that returns its argument, a function `f` that returns what `g` returns from
within a loop, and the call `y = f(1)`. -/
def relay : Program :=
  [.define "g" ["n"] [.giveBack (some (.name "n" ⟨2, 12⟩)) ⟨2, 5⟩] ⟨1, 1⟩,
    .define "f" ["n"]
      [.loop (.name "i" ⟨4, 9⟩) (.call "range" [.literal (.int 3) ⟨4, 20⟩] ⟨4, 14⟩)
        [passing] ⟨4, 5⟩] ⟨3, 1⟩,
    .assign [.name "y" ⟨6, 1⟩] (.call "f" [.literal (.int 1) ⟨6, 7⟩] ⟨6, 5⟩) ⟨6, 1⟩]

end Sample

open Sample in
/-- The call of `g` stands inside that of `f`, which ends right after the return from within
its loop. -/
theorem relay_brackets : ∃ trace, relay.trace ⟨100, 2⟩ = .ok trace ∧
    Brackets.ofSteps trace.steps.toList = some ⟨[], [(2, 8), (4, 6)]⟩ ∧
    Matches trace.steps.toList 2 8 ∧ Matches trace.steps.toList 4 6 ∧
    ∃ before ended after, relay.Reaches ⟨100, 2⟩ 1 passing before ∧
      Stmt.exec (callWithin 1) passing before = .ok ended after ∧
      ∃ start, (start, after.trace.length) ∈ [(2, 8), (4, 6)] := by
  have hseen : (relay.trace ⟨100, 2⟩).toOption.bind (fun trace =>
      Brackets.ofSteps trace.steps.toList) = some ⟨[], [(2, 8), (4, 6)]⟩ := by
    decide +kernel
  obtain ⟨trace, htrace, hread⟩ := Option.bind_eq_some_iff.mp hseen
  have htrace := except_toOption_some.mp htrace
  have hreach : ∃ before, relay.Reaches ⟨100, 2⟩ 1 passing before :=
    ⟨_, .next rfl (.next rfl (.inner (.assign rfl (.call (by decide) rfl rfl rfl rfl))
      (.inner (.loop rfl rfl (.next rfl rfl)) .first)))⟩
  obtain ⟨before, hreach⟩ := hreach
  obtain ⟨pairs, hpairs, -, hmatch, -, hreturns, -⟩ := calls_bracket htrace
  cases hpairs.symm.trans hread
  obtain ⟨ended, after, hexec, -, -, start, _, _, -, hpair⟩ := hreturns _ _ _ _ hreach
  exact ⟨trace, htrace, hread, hmatch _ _ (by decide), hmatch _ _ (by decide), before, ended,
    after, hreach, hexec, start, hpair⟩

end Walkthrough
