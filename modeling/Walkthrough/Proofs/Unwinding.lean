import Walkthrough.Proofs.Brackets

/-!
# Every scope is left again

Levels of nesting are entered and left in pairs, and so are functions, around statements that
may return early or stop with a fault. No such end keeps a scope from being left, and none is
left that was not entered. So a return unwinds to the call it belongs to, and outside all
functions nothing returns.
-/

namespace Walkthrough

open Walk

namespace Walk

variable {α β : Type}

/-- An action that leaves each scope it enters and finds none that it cannot leave. -/
structure Unwinds (m : Walk α) : Prop where
  /-- It ends on the level and in the function where it started. -/
  steady : Respects Run.Steady m
  /-- Its fault, if it has one, is no unbalanced scope. -/
  balanced : ∀ r what s, m r ≠ .error (.unbalanced what) s

/-- One action after another. -/
theorem Unwinds.bind {m : Walk α} {k : α → Walk β} (hm : Unwinds m) (hk : ∀ a, Unwinds (k a)) :
    Unwinds (m >>= k) := by
  refine ⟨closed_steady.bind hm.steady fun a => (hk a).steady, fun r what s => ?_⟩
  change EStateM.bind m k r ≠ _
  unfold EStateM.bind
  cases hfirst : m r with
  | error fault t =>
    intro h
    cases h
    exact hm.balanced r what s hfirst
  | ok a t => exact (hk a).balanced t what s

/-- A fault stays the same when scopes are left after it. -/
theorem mapState_ne_error {result : EStateM.Result Fault Run α} {fault : Fault}
    (h : ∀ s, result ≠ .error fault s) (change : Run → Run) (s : Run) :
    mapState change result ≠ .error fault s := by
  cases result with
  | ok a t => exact nofun
  | error other t =>
    intro hsame
    cases hsame
    exact h t rfl

/-- Leaving all scopes passes through each way of putting actions together. -/
theorem congruence_unwinds : Congruence fun {_} m _ => Unwinds m where
  pure a := ⟨closed_steady.congruence.pure a, nofun⟩
  throw fault h := by
    refine ⟨closed_steady.congruence.throw fault h, fun r what s hsame => h what ?_⟩
    cases hsame
    rfl
  bind hm hk := hm.bind hk
  consult _ _ h :=
    ⟨fun r => (h r.store.seen).steady r, fun r => (h r.store.seen).balanced r⟩
  moveTo location := ⟨closed_steady.congruence.moveTo location, nofun⟩
  bindName name value := ⟨closed_steady.congruence.bindName name value, nofun⟩
  emit step := by
    refine ⟨closed_steady.emit step, fun r what s => ?_⟩
    rw [emit_eq]
    split <;> nofun
  idAt location := ⟨closed_steady.congruence.idAt location, nofun⟩
  defined f := ⟨closed_steady.congruence.defined f, nofun⟩
  nested h := by
    refine ⟨closed_steady.nestedAction h.steady, fun r what => ?_⟩
    rw [nested_eq h.steady]
    exact mapState_ne_error (h.balanced r.entered what) Run.exited
  framed locals location h := by
    refine ⟨closed_steady.framedAction locals location h.steady, fun r what => ?_⟩
    rw [framed_eq h.steady]
    exact mapState_ne_error (h.balanced (r.pushed locals) what) (·.popped location)

/-- A call leaves all scopes, however many calls may still nest. -/
theorem unwinds_callWithin (calls : Nat) (f : Procedure) (args : List Expr)
    (location : Location) : Unwinds (callWithin calls f args location) :=
  congruence_unwinds.callWithin
    (fun _ _ => ⟨closed_steady.unchanged fun _ => rfl, nofun⟩) calls f args location

/-- A statement leaves all scopes. -/
theorem unwinds_exec (calls : Nat) (statement : Stmt) :
    Unwinds (Stmt.exec (callWithin calls) statement) := by
  have hcaller := unwinds_callWithin calls
  exact (@Congruence.statements _ congruence_unwinds _ (callWithin calls) hcaller).1 statement

/-- A list of statements leaves all scopes. -/
theorem unwinds_execAll (calls : Nat) (body : List Stmt) :
    Unwinds (Stmt.execAll (callWithin calls) body) := by
  have hcaller := unwinds_callWithin calls
  exact (@Congruence.statements _ congruence_unwinds _ (callWithin calls) hcaller).2.2.1 body

/-- An action that returns only where a function runs. -/
def ReturnsInside (m : Walk Flow) : Prop :=
  ∀ r value s, m r = .ok (.returned value) s → r.store.inFunction = true

/-- One level deeper the same function runs. -/
theorem ReturnsInside.nested {body : Walk Flow} (h : ReturnsInside body) :
    ReturnsInside (Walk.nested body) := by
  intro r value s hran
  obtain ⟨last, hlast, _, _⟩ := nested_ok hran
  exact h r.entered value last hlast

/-- A loop returns what one of its passes returns. -/
theorem ReturnsInside.passes {body : Walk Flow} (h : ReturnsInside body)
    (hsteady : Respects Run.Steady body) (id : Nat) (counter : Counter) :
    ReturnsInside (Walk.passes id body counter) := by
  induction counter using Walk.passes.induct with
  | case1 counter range ih =>
    intro r value s hran
    rcases passes_ok hran with ⟨_, hnormal, _⟩ | ⟨_, t, u, hstart, hend⟩
    · cases hnormal
    · have hstarted := (closed_steady.startPass id counter).ok hstart
      rcases hend with ⟨given, _, hreturned⟩ | ⟨hnormal, hlater⟩
      · rw [← hstarted.inFunction]
        exact h t given s hreturned
      · rw [← (closed_steady.trans hstarted (hsteady.ok hnormal)).inFunction]
        exact ih u value s hlater
  | case2 counter range =>
    intro r value s hran
    rcases passes_ok hran with ⟨_, hnormal, _⟩ | ⟨hin, _⟩
    · cases hnormal
    · exact absurd hin range

end Walk

namespace Stmt

variable {caller : Caller}

/-- Statements return only where a function runs, by the induction of their execution. -/
theorem returnsInside (hcaller : ∀ f args location, Respects Run.Steady (caller f args location)) :
    (∀ statement, ReturnsInside (exec caller statement)) ∧
    (∀ alternative, ReturnsInside (execAlternative caller alternative)) ∧
    (∀ body, ReturnsInside (execAll caller body)) ∧
    (∀ kind alternative branches, ReturnsInside alternative →
      ReturnsInside (execBranches caller kind alternative branches)) := by
  obtain ⟨hexec, -, hall, -⟩ := closed_steady.statements hcaller
  apply exec.mutual_induct caller
    (fun statement => ReturnsInside (exec caller statement))
    (fun alternative => ReturnsInside (execAlternative caller alternative))
    (fun body => ReturnsInside (execAll caller body))
    (fun kind alternative branches => ReturnsInside alternative →
      ReturnsInside (execBranches caller kind alternative branches))
  case case1 =>
    intro targets value location r given s h
    cases (exec_assign_ok h).1
  case case2 =>
    intro target iterable body location hbody r value s h
    obtain ⟨name, counter, _, _, h⟩ := exec_loop_ok h
    have hsteady := closed_steady.nestedAction (hall body)
    have hinside := hbody.nested.passes hsteady _ counter _ value s h
    rwa [(closed_steady.identified (r.movedTo location) location).inFunction] at hinside
  case case3 =>
    intro branches alternative location halternative hbranches r value s h
    exact hbranches halternative (r.movedTo location) value s (exec_choose_ok h)
  case case4 =>
    intro name params body location r value s h
    cases (exec_define_ok h).1
  case case5 =>
    intro value location r given s h
    exact (exec_giveBack_ok h).1
  case case6 =>
    intro value location r given s h
    cases (exec_expression_ok h).1
  case case7 =>
    intro r value s h
    cases (execAll_nil_ok h).1
  case case8 =>
    intro statement others hstatement hothers r value s h
    rcases execAll_cons_ok h with ⟨given, _, hfirst⟩ | ⟨t, hfirst, hrest⟩
    · exact hstatement r given s hfirst
    · rw [← ((hexec statement).ok hfirst).inFunction]
      exact hothers t value s hrest
  case case9 =>
    intro kind alternative halternative r value s h
    rw [execBranches] at h
    exact halternative r value s h
  case case10 =>
    intro kind alternative condition body location others hbody hothers halternative r value s h
    obtain ⟨t, ⟨htest, hran⟩ | ⟨htest, hrest⟩⟩ := execBranches_cons_ok h
    · rw [← ((closed_steady.test _ _ _).ok htest).inFunction]
      exact hbody.nested t value s hran
    · rw [← ((closed_steady.test _ _ _).ok htest).inFunction]
      exact hothers halternative t value s hrest
  case case11 =>
    intro r value s h
    rcases execAlternative_ok h with ⟨_, hnormal, _⟩ | ⟨_, _, _, hsome, _⟩
    · cases hnormal
    · cases hsome
  case case12 =>
    intro body location hbody r value s h
    rcases execAlternative_ok h with ⟨hnone, _⟩ | ⟨_, _, t, hsome, henter, hran⟩
    · cases hnone
    · cases hsome
      rw [← ((closed_steady.enterAlternative _).ok henter).inFunction]
      exact hbody.nested t value s hran

/-- Where no function runs, statements do not return. -/
theorem execAll_ne_returned {calls : Nat} {body : List Stmt} {r s : Run} {value : Value}
    (h : r.store.callDepth = 0) : execAll (callWithin calls) body r ≠ .ok (.returned value) s := by
  intro hran
  have hinside := (returnsInside (closed_steady.callWithin calls)).2.2.1 body r value s hran
  have hframes : r.store.scopes.frames = [] := List.length_eq_zero_iff.mp h
  simp [Store.inFunction, hframes] at hinside

/-- Statements that run to their end have run the first of them and then the others. -/
theorem execAll_append_ok {first rest : List Stmt} {r t : Run}
    (h : execAll caller (first ++ rest) r = .ok .normal t) :
    ∃ s, execAll caller first r = .ok .normal s ∧ execAll caller rest s = .ok .normal t := by
  induction first generalizing r with
  | nil =>
    refine ⟨r, ?_, h⟩
    rw [execAll]
    rfl
  | cons statement others ih =>
    rcases execAll_cons_ok h with ⟨value, hnormal, _⟩ | ⟨u, hstatement, hothers⟩
    · cases hnormal
    · obtain ⟨s, hfirst, hrest⟩ := ih hothers
      refine ⟨s, ?_, hrest⟩
      rw [execAll]
      exact bind_ok.mpr ⟨.normal, u, hstatement, hfirst⟩

variable {calls fewer least : Nat} {statement inner : Stmt} {body : List Stmt} {r s t : Run}

/-- The statements of a function may nest one call less than its call, and one more runs. -/
theorem callStarts_calls {value : Expr} (h : value.Starts calls r fewer body s) :
    fewer + s.store.callDepth = calls + r.store.callDepth := by
  cases h with
  | call _ _ _ _ _ =>
    rw [Run.callDepth_inside]
    omega

/-- Whatever a statement starts, the running calls and those that may still nest are as many as
before. -/
theorem starts_calls (h : Starts calls statement r fewer body s) :
    fewer + s.store.callDepth = calls + r.store.callDepth := by
  cases h with
  | assign _ call | giveBack _ call | expression call => exact (callStarts_calls call :)
  | loop _ _ pass =>
    have hpass := (passStarts_respects closed_steady pass).callDepth
    have hidentified := fun place => (closed_steady.identified (r.movedTo place) place).callDepth
    exact congrArg (calls + ·) (hpass.trans (hidentified _))
  | choose branch =>
    have hbranch := (branchStarts_respects closed_steady branch).callDepth
    exact congrArg (calls + ·) hbranch

/-- Wherever statements come to, these calls are as many as before. -/
theorem reaches_calls (h : Reaches calls body r least inner t) :
    least + t.store.callDepth = calls + r.store.callDepth := by
  induction h with
  | first => rfl
  | next ended _ ih =>
    rw [ih, ((closed_steady.exec _ _).ok ended).callDepth]
  | inner starts _ ih => rw [ih, starts_calls starts]

end Stmt

/-- Every scope that is entered is left again. A statement and a list of statements, from any
state and however many calls may still nest, end on the level of nesting and with as many running
functions as they started with, whether they run to their end, return or stop with a fault; and
the fault is never that a scope was left without having been entered. Statements that start
outside all functions do not return. So a run of a program never stops for an unbalanced scope,
it ends on the outermost level and outside all functions, and if it succeeds, each of its
statements has run to its end. At each statement that a run comes to, the running calls and those
that may still nest add up to the limit. -/
theorem scopes_unwind (program : Program) (limits : Limits) :
    (∀ calls statement r,
      (final (Stmt.exec (callWithin calls) statement r)).store.depth = r.store.depth ∧
      (final (Stmt.exec (callWithin calls) statement r)).store.callDepth = r.store.callDepth ∧
      ∀ what s, Stmt.exec (callWithin calls) statement r ≠ .error (.unbalanced what) s) ∧
    (∀ calls body r,
      (final (Stmt.execAll (callWithin calls) body r)).store.depth = r.store.depth ∧
      (final (Stmt.execAll (callWithin calls) body r)).store.callDepth = r.store.callDepth ∧
      (∀ what s, Stmt.execAll (callWithin calls) body r ≠ .error (.unbalanced what) s) ∧
      (r.store.callDepth = 0 →
        ∀ value s, Stmt.execAll (callWithin calls) body r ≠ .ok (.returned value) s)) ∧
    (∀ what, program.trace limits ≠ .error (.unbalanced what)) ∧
    (final (program.run limits)).store.depth = 0 ∧
    (final (program.run limits)).store.callDepth = 0 ∧
    (∀ trace, program.trace limits = .ok trace →
      ∀ before statement after, program = before ++ statement :: after →
        ∃ r s last, Stmt.execAll (callWithin limits.calls) before (Run.start limits) =
            .ok .normal r ∧
          Stmt.exec (callWithin limits.calls) statement r = .ok .normal s ∧
          Stmt.execAll (callWithin limits.calls) after s = .ok .normal last ∧
          last.trace = trace) ∧
    ∀ calls statement before, program.Reaches limits calls statement before →
      calls + before.store.callDepth = limits.calls := by
  have hrun := unwinds_execAll limits.calls program
  have hended := hrun.steady (Run.start limits)
  refine ⟨fun calls statement r => ?_, fun calls body r => ?_, fun what htrace => ?_,
    hended.depth, hended.callDepth, ?_, fun calls statement before hreach => ?_⟩
  · have hexec := unwinds_exec calls statement
    exact ⟨(hexec.steady r).depth, (hexec.steady r).callDepth, hexec.balanced r⟩
  · have hall := unwinds_execAll calls body
    exact ⟨(hall.steady r).depth, (hall.steady r).callDepth, hall.balanced r,
      fun houtside value s => Stmt.execAll_ne_returned houtside⟩
  · obtain ⟨last, hstopped⟩ := Program.trace_error.mp htrace
    exact hrun.balanced (Run.start limits) what last hstopped
  · intro trace htrace before statement after hsplit
    obtain ⟨flow, last, hran, hlast⟩ := Program.trace_ok.mp htrace
    -- Outside all functions the whole program runs to its end.
    cases flow with
    | returned value => exact absurd hran (Stmt.execAll_ne_returned rfl)
    | normal =>
      unfold Program.run at hran
      rw [hsplit] at hran
      obtain ⟨r, hbefore, hrest⟩ := Stmt.execAll_append_ok hran
      rcases Stmt.execAll_cons_ok hrest with ⟨_, hnormal, _⟩ | ⟨s, hstatement, hafter⟩
      · cases hnormal
      · exact ⟨r, s, last, hbefore, hstatement, hafter, hlast⟩
  · exact Stmt.reaches_calls hreach

open Sample in
/-- With five steps the run stops inside two functions and a loop, and all scopes are left. With
more steps it comes to `return n` while two functions run, and to the end of the program. -/
theorem relay_unwinds :
    (∃ fault last, relay.run ⟨5, 2⟩ = .error fault last ∧ last.trace.length = 5 ∧
      (∀ what, fault ≠ .unbalanced what) ∧ last.store.depth = 0 ∧ last.store.callDepth = 0) ∧
    (∃ value place before, relay.Reaches ⟨100, 2⟩ 0 (.giveBack value place) before ∧
      before.store.callDepth = 2) ∧
    (∃ definitions call r s, relay = definitions ++ [call] ∧
      Stmt.execAll (callWithin 2) definitions (Run.start ⟨100, 2⟩) = .ok .normal r ∧
      Stmt.exec (callWithin 2) call r = .ok .normal s) ∧
    ∀ value s, relay.run ⟨100, 2⟩ ≠ .ok (.returned value) s := by
  have hstops : (relay.trace ⟨5, 2⟩).isOk = false := by
    decide +kernel
  have hlength : (final (relay.run ⟨5, 2⟩)).trace.length = 5 := by
    decide +kernel
  have hsucceeds : (relay.trace ⟨100, 2⟩).toOption.isSome = true := by
    decide +kernel
  obtain ⟨trace, htrace⟩ := Option.isSome_iff_exists.mp hsucceeds
  obtain ⟨-, -, hbalanced, hdepth, hcalls, -, -⟩ := scopes_unwind relay ⟨5, 2⟩
  obtain ⟨-, hblock, -, -, -, hall, hreached⟩ := scopes_unwind relay ⟨100, 2⟩
  refine ⟨?_, ?_, ?_, (hblock 2 relay (Run.start ⟨100, 2⟩)).2.2.2 rfl⟩
  · cases hcut : relay.trace ⟨5, 2⟩ with
    | ok trace =>
      rw [hcut] at hstops
      cases hstops
    | error fault =>
      obtain ⟨last, hlast⟩ := Program.trace_error.mp hcut
      rw [hlast] at hlength hdepth hcalls
      exact ⟨fault, last, hlast, hlength, fun what hfault => hbalanced what (hfault ▸ hcut), hdepth,
        hcalls⟩
  · have hreach : ∃ value place before,
        relay.Reaches ⟨100, 2⟩ 0 (.giveBack value place) before :=
      ⟨_, _, _, .next rfl (.next rfl (.inner (.assign rfl (.call (by decide) rfl rfl rfl rfl))
        (.inner (.loop rfl rfl (.next rfl rfl))
          (.inner (.giveBack rfl (.call (by decide) rfl rfl rfl rfl)) .first))))⟩
    obtain ⟨value, place, before, hreach⟩ := hreach
    have hsum : 0 + before.store.callDepth = 2 := hreached 0 (.giveBack value place) before hreach
    exact ⟨value, place, before, hreach, by omega⟩
  · obtain ⟨r, s, last, hbefore, hcall, -, -⟩ :=
      hall trace (except_toOption_some.mp htrace) (relay.take 2) _ [] rfl
    exact ⟨relay.take 2, _, r, s, rfl, hbefore, hcall⟩

end Walkthrough
