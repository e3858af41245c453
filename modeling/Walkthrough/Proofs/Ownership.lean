import Walkthrough.Proofs.Log
import Walkthrough.Proofs.Points

/-!
# Which statement records a step

A statement records the steps that are added to the log while it runs. Of the statements
that record a step, one inside the other, the innermost records it itself. In a run
that succeeds there is one for each step, since the numbers of calls that may still
nest and the sizes of the statements do not go down for ever.
-/

namespace Walkthrough

open Walk

/-- A statement that ends continues the run. -/
theorem Stmt.exec_continues {calls : Nat} {statement : Stmt} {r s : Run} {flow : Flow}
    (h : Stmt.exec (callWithin calls) statement r = .ok flow s) : r.Continues s :=
  (closed_continues.exec calls statement).ok h

/-- Statements that end continue the run. -/
theorem Stmt.execAll_continues {calls : Nat} {body : List Stmt} {r s : Run} {flow : Flow}
    (h : Stmt.execAll (callWithin calls) body r = .ok flow s) : r.Continues s :=
  (closed_continues.execAll calls body).ok h

/-- Statements one level deeper continue the run. -/
theorem Stmt.nested_continues {calls : Nat} {body : List Stmt} {r s : Run} {flow : Flow}
    (h : nested (Stmt.execAll (callWithin calls) body) r = .ok flow s) : r.Continues s :=
  (closed_continues.nestedAction (closed_continues.execAll calls body)).ok h

/-- The statements of a function start in a later state than the call. -/
theorem Run.continues_inside (r : Run) (f : Procedure) (values : List Value)
    (location : Location) : r.Continues (r.inside f values location) :=
  ((Run.Continues.identified r location).trans (.recorded _ _)).trans
    ((Run.Continues.pushed _ _).trans (.entered _))

/-- A call ends in a later state than its function. -/
theorem Run.continues_returned (last call : Run) (f : Procedure) (location : Location)
    (value : Value) : last.Continues (last.returned call f location value) :=
  ((Run.Continues.exited last).trans (.popped _ location)).trans (.recorded _ _)

namespace Stmt

variable {calls fewer least : Nat} {statement inner : Stmt} {body : List Stmt} {r s t u : Run}
  {flow : Flow}

/-- What every change respects holds between a loop and the start of each of its passes. -/
theorem passStarts_respects {R : Run → Run → Prop} (hR : Closed R) {id : Nat} {counter : Counter}
    (h : PassStarts id (nested (execAll (callWithin calls) body)) counter r s) : R r s := by
  induction h with
  | next _ start => exact (hR.startPass _ _).ok start
  | later _ start ended _ ih =>
    have hended := (hR.nestedAction (hR.execAll calls body)).ok ended
    exact hR.trans ((hR.startPass _ _).ok start) (hR.trans hended ih)

/-- What every change respects holds between a choice and the start of its branch. -/
theorem branchStarts_respects {R : Run → Run → Prop} (hR : Closed R)
    {alternative : Option Otherwise} {kind : BranchKind} {branches : List Branch}
    (h : Branch.Starts alternative kind branches r body s) : R r s := by
  induction h with
  | first passed => exact (hR.test _ _ _).ok passed
  | further failed _ ih => exact hR.trans ((hR.test _ _ _).ok failed) ih
  | otherwise _ entered => exact (hR.enterAlternative _).ok entered

/-- Whatever a statement starts, it starts in a later state. -/
theorem starts_continues (h : Starts calls statement r fewer body s) : r.Continues s := by
  have moved := Run.Continues.movedTo r
  cases h with
  | assign _ call => cases call; exact (moved _).trans (Run.continues_inside _ _ _ _)
  | giveBack _ call => cases call; exact (moved _).trans (Run.continues_inside _ _ _ _)
  | expression call => cases call; exact (moved _).trans (Run.continues_inside _ _ _ _)
  | loop _ _ pass =>
    have hpass := passStarts_respects closed_continues pass
    exact ((moved _).trans (.identified _ _)).trans (hpass.trans (.entered _))
  | choose branch =>
    have hbranch := branchStarts_respects closed_continues branch
    exact (moved _).trans (hbranch.trans (.entered _))

/-- A run comes to its statements in later states. -/
theorem reaches_continues (h : Reaches calls body r least inner t) : r.Continues t := by
  induction h with
  | first => exact .of_eq rfl rfl
  | next ended _ ih => exact (exec_continues ended).trans ih
  | inner starts _ ih => exact (starts_continues starts).trans ih

/-- A call that a statement needs runs its function to the end. -/
theorem callStarts_ended {function : String} {args : List Expr} {location : Location}
    {value : Value} (h : (Expr.call function args location).Starts calls r fewer body s)
    (hcall : callNamed (callWithin calls) function args location r = .ok value u) :
    ∃ flow t, execAll (callWithin fewer) body s = .ok flow t ∧ t.Continues u := by
  cases h with
  | call user known count evaluated room =>
    rcases callNamed_ok hcall with ⟨hprint, _⟩ | ⟨_, f, hf, hcall⟩
    · exact absurd hprint user
    · obtain ⟨_, values, flow, last, hcalls, _, answered⟩ := callWithin_ok hcall
      cases hcalls
      have hsame : f = _ := Option.some.inj (hf.symm.trans known)
      have hvalues := Except.ok.inj (answered.evaluated.symm.trans evaluated)
      subst hsame hvalues
      refine ⟨flow, last, answered.ran, ?_⟩
      rw [answered.ended]
      exact Run.continues_returned _ _ _ _ _

/-- A value that is needed runs the function it calls to the end. -/
theorem stagesOf_ended {present : Scopes Value → Expr → Except Fault Staged} {value : Expr}
    {staged : Staged} (h : value.Starts calls r fewer body s)
    (hstages : stagesOf (callWithin calls) present value r = .ok staged u) :
    ∃ flow t, execAll (callWithin fewer) body s = .ok flow t ∧ t.Continues u := by
  rcases stagesOf_ok hstages with ⟨_, _, _, _, rfl, hcall, _⟩ | ⟨hother, _⟩
  · exact callStarts_ended h hcall
  · cases h with
    | call => exact absurd rfl (hother _ _ _)

/-- A loop that ends has ended each of its passes. -/
theorem passStarts_ended {id : Nat} {counter : Counter}
    (h : PassStarts id (nested (execAll (callWithin calls) body)) counter r s)
    (hpasses : passes id (nested (execAll (callWithin calls) body)) counter r = .ok flow u) :
    ∃ flow t, nested (execAll (callWithin calls) body) s = .ok flow t ∧ t.Continues u := by
  have hbody := closed_continues.nestedAction (closed_continues.execAll calls body)
  induction h with
  | next range start =>
    rcases passes_ok hpasses with ⟨hout, _⟩ | ⟨_, s', t, hs, hend⟩
    · rw [range] at hout
      cases hout
    · cases start.symm.trans hs
      rcases hend with ⟨value, _, hend⟩ | ⟨hend, hlater⟩
      · exact ⟨_, _, hend, .of_eq rfl rfl⟩
      · exact ⟨_, _, hend, (closed_continues.passes id hbody _).ok hlater⟩
  | later range start ended _ ih =>
    rcases passes_ok hpasses with ⟨hout, _⟩ | ⟨_, s', t, hs, hend⟩
    · rw [range] at hout
      cases hout
    · cases start.symm.trans hs
      rcases hend with ⟨value, _, hend⟩ | ⟨hend, hlater⟩
      · cases ended.symm.trans hend
      · cases ended.symm.trans hend
        exact ih hlater

/-- A choice that ends has ended the branch it came to. -/
theorem branchStarts_ended {alternative : Option Otherwise} {kind : BranchKind}
    {branches : List Branch} (h : Branch.Starts alternative kind branches r body s)
    (hbranches : execBranches (callWithin calls) kind
      (execAlternative (callWithin calls) alternative) branches r = .ok flow u) :
    nested (execAll (callWithin calls) body) s = .ok flow u := by
  induction h with
  | first passed =>
    obtain ⟨_, ⟨htest, hend⟩ | ⟨htest, _⟩⟩ := execBranches_cons_ok hbranches
    · cases passed.symm.trans htest
      exact hend
    · cases passed.symm.trans htest
  | further failed _ ih =>
    obtain ⟨_, ⟨htest, _⟩ | ⟨htest, hrest⟩⟩ := execBranches_cons_ok hbranches
    · cases failed.symm.trans htest
    · cases failed.symm.trans htest
      exact ih hrest
  | otherwise given entered =>
    rw [execBranches] at hbranches
    rcases execAlternative_ok hbranches with ⟨hnone, _⟩ | ⟨_, _, _, hsome, henter, hend⟩
    · rw [hnone] at given
      cases given
    · cases given.symm.trans hsome
      cases entered.symm.trans henter
      exact hend

/-- A statement that ends has ended whatever it started. -/
theorem starts_ended (h : Starts calls statement r fewer body s)
    (hexec : exec (callWithin calls) statement r = .ok flow u) :
    ∃ flow t, execAll (callWithin fewer) body s = .ok flow t ∧ t.Continues u := by
  cases h with
  | assign checked call =>
    obtain ⟨_, names, staged, s', shares, _, hstaged, _, rfl⟩ := exec_assign_ok hexec
    obtain ⟨flow, t, hran, ht⟩ := stagesOf_ended call hstaged
    exact ⟨flow, t, hran,
      ht.trans ((Run.continues_boundAll _ _).trans (Run.continues_recordedAll _ _))⟩
  | giveBack inside call =>
    obtain ⟨_, staged, s', _, ⟨hnone, _⟩ | ⟨e, hsome, hstaged⟩, rfl⟩ := exec_giveBack_ok hexec
    · cases hnone
    · cases hsome
      obtain ⟨flow, t, hran, ht⟩ := stagesOf_ended call hstaged
      exact ⟨flow, t, hran,
        ht.trans ((Run.Continues.identified _ _).trans (Run.continues_recordedAll _ _))⟩
  | expression call =>
    obtain ⟨_, function, args, place, result, rfl, hcall⟩ := exec_expression_ok hexec
    exact callStarts_ended call hcall
  | loop named counted pass =>
    obtain ⟨name, counter, hname, hcounter, hpasses⟩ := exec_loop_ok hexec
    cases named.symm.trans hname
    cases counted.symm.trans hcounter
    obtain ⟨flow, t, hran, ht⟩ := passStarts_ended pass hpasses
    obtain ⟨last, hlast, _, rfl⟩ := nested_ok hran
    exact ⟨flow, last, hlast, (Run.Continues.exited last).trans ht⟩
  | choose branch =>
    have hran := branchStarts_ended branch (exec_choose_ok hexec)
    obtain ⟨last, hlast, _, rfl⟩ := nested_ok hran
    exact ⟨flow, last, hlast, .exited last⟩

/-- Statements that end have ended each statement that they came to. -/
theorem reaches_exec (h : Reaches calls body r least inner t)
    (hbody : execAll (callWithin calls) body r = .ok flow u) :
    ∃ ended s, exec (callWithin least) inner t = .ok ended s := by
  induction h generalizing flow u with
  | first =>
    rcases execAll_cons_ok hbody with ⟨_, _, hfirst⟩ | ⟨_, hfirst, _⟩
    · exact ⟨_, _, hfirst⟩
    · exact ⟨_, _, hfirst⟩
  | next hended _ ih =>
    rcases execAll_cons_ok hbody with ⟨_, _, hfirst⟩ | ⟨_, hfirst, hothers⟩
    · cases hended.symm.trans hfirst
    · cases hended.symm.trans hfirst
      exact ih hothers
  | inner starts _ ih =>
    rcases execAll_cons_ok hbody with ⟨_, _, hfirst⟩ | ⟨_, hfirst, _⟩
    · obtain ⟨_, _, hran, _⟩ := starts_ended starts hfirst
      exact ih hran
    · obtain ⟨_, _, hran, _⟩ := starts_ended starts hfirst
      exact ih hran

/-- Statements that end continue each statement that they came to and that ended. -/
theorem reaches_ended {ended : Flow} (h : Reaches calls body r least inner t)
    (hbody : execAll (callWithin calls) body r = .ok flow u)
    (hinner : exec (callWithin least) inner t = .ok ended s) : s.Continues u := by
  induction h generalizing flow u with
  | first =>
    rcases execAll_cons_ok hbody with ⟨_, _, hfirst⟩ | ⟨_, hfirst, hothers⟩
    · cases hinner.symm.trans hfirst
      exact .of_eq rfl rfl
    · cases hinner.symm.trans hfirst
      exact execAll_continues hothers
  | next hended _ ih =>
    rcases execAll_cons_ok hbody with ⟨_, _, hfirst⟩ | ⟨_, hfirst, hothers⟩
    · cases hended.symm.trans hfirst
    · cases hended.symm.trans hfirst
      exact ih hothers hinner
  | inner starts _ ih =>
    rcases execAll_cons_ok hbody with ⟨_, _, hfirst⟩ | ⟨_, hfirst, hothers⟩
    · obtain ⟨_, v, hran, hv⟩ := starts_ended starts hfirst
      exact (ih hran hinner).trans hv
    · obtain ⟨_, v, hran, hv⟩ := starts_ended starts hfirst
      exact ((ih hran hinner).trans hv).trans (execAll_continues hothers)

/-- A statement that runs from one state to another records the step of an index. -/
structure Records (calls : Nat) (statement : Stmt) (before after : Run) (index : Nat) : Prop where
  /-- It ends. -/
  ended : ∃ flow, exec (callWithin calls) statement before = .ok flow after
  /-- The step is not yet there before it. -/
  new : before.trace.length ≤ index
  /-- The step is there after it. -/
  done : index < after.trace.length

/-- A statement records a step, and no statement inside it does. -/
structure RecordsItself (calls : Nat) (statement : Stmt) (before after : Run) (index : Nat) :
    Prop where
  /-- The statement records the step. -/
  recorded : statement.Records calls before after index
  /-- No statement that it starts, and that the run then comes to, records the step. -/
  outside : ∀ fewer body start least inner before' after',
    Starts calls statement before fewer body start →
    Reaches fewer body start least inner before' → ¬ inner.Records least before' after' index

/-- Each step of a list of statements is recorded by one of them. -/
theorem execAll_records {index : Nat} (h : execAll (callWithin calls) body r = .ok flow u)
    (hnew : r.trace.length ≤ index) (hdone : index < u.trace.length) :
    ∃ statement before after, Reaches calls body r calls statement before ∧
      statement.Records calls before after index := by
  induction body generalizing r with
  | nil =>
    obtain ⟨_, rfl⟩ := execAll_nil_ok h
    omega
  | cons statement others ih =>
    rcases execAll_cons_ok h with ⟨value, _, hfirst⟩ | ⟨s, hfirst, hothers⟩
    · exact ⟨statement, r, u, .first, ⟨_, hfirst⟩, hnew, hdone⟩
    · by_cases hs : index < s.trace.length
      · exact ⟨statement, r, s, .first, ⟨_, hfirst⟩, hnew, hs⟩
      · obtain ⟨found, before, after, hreach, hrecords⟩ := ih hothers (by omega)
        exact ⟨found, before, after, .next hfirst hreach, hrecords⟩

/-- No step that a statement records itself is recorded by statements that it starts. -/
theorem RecordsItself.not_started {index : Nat} (h : statement.RecordsItself calls r u index)
    (hstarts : Starts calls statement r fewer body s)
    (hran : execAll (callWithin fewer) body s = .ok flow t) :
    ¬ (s.trace.length ≤ index ∧ index < t.trace.length) := by
  rintro ⟨hnew, hdone⟩
  obtain ⟨inner, before, after, hreach, hrecords⟩ := execAll_records hran hnew hdone
  exact h.outside _ _ _ _ _ _ _ hstarts hreach hrecords

/-- The statements of a branch are smaller than the choice. -/
theorem branchStarts_size {alternative : Option Otherwise} {kind : BranchKind}
    {branches : List Branch} (h : Branch.Starts alternative kind branches r body s) :
    sizeOf body < 1 + sizeOf branches + sizeOf alternative := by
  induction h with
  | first passed => simp; omega
  | further failed _ ih => simp; omega
  | otherwise given entered => simp [given]; omega

/-- What a statement starts may nest fewer calls, or it is part of the statement. -/
theorem starts_smaller (h : Starts calls statement r fewer body s) :
    fewer < calls ∨ fewer = calls ∧ sizeOf body < sizeOf statement := by
  cases h with
  | assign _ call => cases call; exact .inl (Nat.lt_succ_self _)
  | giveBack _ call => cases call; exact .inl (Nat.lt_succ_self _)
  | expression call => cases call; exact .inl (Nat.lt_succ_self _)
  | loop _ _ _ => exact .inr ⟨rfl, by simp; omega⟩
  | choose branch =>
    have hsize := branchStarts_size branch
    exact .inr ⟨rfl, by simp; omega⟩

/-- A statement that a run comes to may nest fewer calls, or it is part of the statements. -/
theorem reaches_smaller (h : Reaches calls body r least inner t) :
    least < calls ∨ least = calls ∧ sizeOf inner < sizeOf body := by
  induction h with
  | first => exact .inr ⟨rfl, by simp; omega⟩
  | next _ _ ih => simp only [List.cons.sizeOf_spec]; omega
  | inner starts _ ih =>
    have hstarts := starts_smaller starts
    simp only [List.cons.sizeOf_spec]
    omega

/-- What is reached from a statement that is reached is reached. -/
theorem Reaches.through (h : Reaches calls body r fewer statement s) {inside : List Stmt}
    {deeper : Nat} (hstarts : Starts fewer statement s deeper inside t)
    (hinner : Reaches deeper inside t least inner u) : Reaches calls body r least inner u := by
  induction h with
  | first => exact .inner hstarts hinner
  | next ended _ ih => exact .next ended (ih hstarts)
  | inner starts _ ih => exact .inner starts (ih hstarts)

/-- Below a statement that records a step there is one that records it itself. -/
theorem exists_recordsItself {index fewer : Nat} {statement : Stmt} {s u : Run}
    (hreach : Reaches calls body r fewer statement s)
    (hrecords : statement.Records fewer s u index) :
    ∃ least inner before after, Reaches calls body r least inner before ∧
      inner.RecordsItself least before after index := by
  by_cases hinside : ∃ deeper inside start least inner before after,
      Starts fewer statement s deeper inside start ∧
      Reaches deeper inside start least inner before ∧ inner.Records least before after index
  · obtain ⟨deeper, inside, start, least, inner, before, after, hstarts, hinner, hrecords⟩ :=
      hinside
    have hsize := starts_smaller hstarts
    have hsize' := reaches_smaller hinner
    exact exists_recordsItself (hreach.through hstarts hinner) hrecords
  · refine ⟨fewer, statement, s, u, hreach, hrecords, ?_⟩
    intro deeper inside start least inner before after hstarts hinner hrecords
    exact hinside ⟨deeper, inside, start, least, inner, before, after, hstarts, hinner, hrecords⟩
termination_by (fewer, sizeOf statement)
decreasing_by
  rw [Prod.lex_def]
  dsimp only
  omega

end Stmt

/-- Each step of a run that succeeds is recorded by a statement itself. -/
theorem Program.exists_recordsItself {program : Program} {limits : Limits} {flow : Flow}
    {final : Run} (h : program.run limits = .ok flow final) {index : Nat}
    (hindex : index < final.trace.length) :
    ∃ calls statement before after, program.Reaches limits calls statement before ∧
      statement.RecordsItself calls before after index := by
  have hstart : (Run.start limits).trace.length ≤ index := Nat.zero_le _
  obtain ⟨statement, before, after, hreach, hrecords⟩ := Stmt.execAll_records h hstart hindex
  exact Stmt.exists_recordsItself hreach hrecords

end Walkthrough
