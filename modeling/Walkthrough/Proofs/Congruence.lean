import Walkthrough.Proofs.Readings

/-!
# Actions side by side

Many statements about runs compare two actions: the same action in two states, or two
actions with different ways of calling functions. Where such a comparison holds for
the single actions and passes through each way of putting actions together, it holds for
all statements. The single actions are listed once, in `Congruence`; the statements then
follow by the induction of their execution.
-/

namespace Walkthrough

namespace Walk

/-- A call by a name other than `print` calls the function of that name. -/
theorem callNamed_user {caller : Caller} {function : String} {args : List Expr}
    {location : Location} (h : function ≠ "print") :
    callNamed caller function args location = (get >>= fun run =>
      (run.store.function? function).elim (throw (.unsupportedCall function location))
        fun f => caller f args location) := by
  unfold callNamed
  rw [if_neg h]
  refine congrArg (get >>= ·) (funext fun run => ?_)
  cases run.store.function? function <;> rfl

/-- A relation between actions that holds for each single action and passes through each
way of putting actions together. -/
structure Congruence (P : {α : Type} → Walk α → Walk α → Prop) : Prop where
  /-- A result alone. -/
  pure : ∀ {α : Type} (a : α), P (Pure.pure a) (Pure.pure a)
  /-- A fault alone, which is no unbalanced scope. -/
  throw : ∀ {α : Type} (fault : Fault), (∀ what, fault ≠ .unbalanced what) →
    P (MonadExcept.throw fault : Walk α) (MonadExcept.throw fault)
  /-- One action after another. -/
  bind : ∀ {α β : Type} {m m' : Walk α} {k k' : α → Walk β},
    P m m' → (∀ a, P (k a) (k' a)) → P (m >>= k) (m' >>= k')
  /-- An action that depends on what the running function sees of the memory. -/
  consult : ∀ {α : Type} (k k' : Store → Walk α), (∀ store, P (k store) (k' store)) →
    P (MonadState.get >>= fun run => k run.store.seen)
      (MonadState.get >>= fun run => k' run.store.seen)
  /-- The current place changes. -/
  moveTo : ∀ location, P (Walk.moveTo location) (Walk.moveTo location)
  /-- A name gets a value. -/
  bindName : ∀ name value, P (Walk.bind name value) (Walk.bind name value)
  /-- A step is recorded. -/
  emit : ∀ step, P (Walk.emit step) (Walk.emit step)
  /-- A place gets an id. -/
  idAt : ∀ location, P (Walk.idAt location) (Walk.idAt location)
  /-- A function is defined. -/
  defined : ∀ f, P (modify fun run => { run with store := run.store.define f })
    (modify fun run => { run with store := run.store.define f })
  /-- An action one level deeper. -/
  nested : ∀ {α : Type} {m m' : Walk α}, P m m' → P (Walk.nested m) (Walk.nested m')
  /-- An action inside a function. -/
  framed : ∀ {α : Type} {m m' : Walk α} locals location, P m m' →
    P (Walk.framed locals location m) (Walk.framed locals location m')

namespace Congruence

variable {P : {α : Type} → Walk α → Walk α → Prop} (hP : Congruence P)
include hP

/-- A result that is passed on. -/
theorem lift {α : Type} {result : Except Fault α} (h : Observes fun _ => result) :
    P (Walk.lift result) (Walk.lift result) := by
  cases result with
  | ok a => exact hP.pure a
  | error fault =>
    refine hP.throw fault fun what hfault => h.balanced .empty what ?_
    rw [hfault]

/-- What is computed from the bindings. -/
theorem reading {α : Type} {f : Scopes Value → Except Fault α} (h : Observes f) :
    P (Walk.reading f) (Walk.reading f) := by
  have hseen : Walk.reading f = MonadState.get >>= fun run => Walk.lift (f run.store.seen.scopes) :=
    funext fun run => congrArg (Walk.lift · run) (h.seen run.store.scopes).symm
  rw [hseen]
  exact hP.consult (fun store => Walk.lift (f store.scopes)) _ fun store =>
    hP.lift ⟨fun _ => rfl, fun _ => h.balanced store.scopes⟩

/-- The depth. -/
theorem depth : P Walk.depth Walk.depth :=
  hP.consult (fun store => Pure.pure store.depth) _ fun store => hP.pure store.depth

/-- Some steps that are recorded. -/
theorem emitAll (steps : List Step) : P (Walk.emitAll steps) (Walk.emitAll steps) := by
  induction steps with
  | nil => exact hP.pure ()
  | cons step others ih => exact hP.bind (hP.emit step) fun _ => ih

/-- Some names that get values. -/
theorem bindEach (bindings : List (String × Value)) :
    P (Walk.bindEach bindings) (Walk.bindEach bindings) := by
  induction bindings with
  | nil => exact hP.pure ()
  | cons binding others ih => exact hP.bind (hP.bindName _ _) fun _ => ih

/-- Targets that are bound. -/
theorem bindTargets (location : Location) (value : Value) (targets : List Target) :
    P (Walk.bindTargets location value targets) (Walk.bindTargets location value targets) := by
  induction targets with
  | nil => exact hP.pure ()
  | cons target others ih =>
    exact hP.bind (hP.lift (target.observes_bindings location value)) fun share =>
      hP.bind (hP.bindEach share) fun _ => ih

/-- Expressions that are printed. -/
theorem printAll (id depth : Nat) (args : List Expr) :
    P (Walk.printAll id depth args) (Walk.printAll id depth args) := by
  induction args with
  | nil => exact hP.pure ()
  | cons arg others ih =>
    exact hP.bind (hP.reading arg.observes_wholeStages) fun _ =>
      hP.bind (hP.emitAll _) fun _ => ih

/-- A condition that is tested. -/
theorem test (kind : BranchKind) (condition : Expr) (location : Location) :
    P (Walk.test kind condition location) (Walk.test kind condition location) :=
  hP.bind (hP.idAt location) fun _ => hP.bind (hP.reading condition.observes_wholeStages) fun _ =>
    hP.bind hP.depth fun _ => hP.bind (hP.emitAll _) fun _ => hP.pure _

/-- An alternative that is entered. -/
theorem enterAlternative (location : Location) :
    P (Walk.enterAlternative location) (Walk.enterAlternative location) :=
  hP.bind (hP.idAt location) fun _ => hP.bind hP.depth fun _ => hP.emit _

/-- A pass that starts. -/
theorem startPass (id : Nat) (counter : Counter) :
    P (Walk.startPass id counter) (Walk.startPass id counter) :=
  hP.bind (hP.bindName _ _) fun _ => hP.bind hP.depth fun _ => hP.emit _

/-- The passes of two loops with related bodies. -/
theorem passes (id : Nat) {body body' : Walk Flow} (h : P body body') (counter : Counter) :
    P (Walk.passes id body counter) (Walk.passes id body' counter) := by
  induction counter using Walk.passes.induct with
  | case1 counter range ih =>
    rw [Walk.passes.eq_def id body counter, dif_pos range, Walk.passes.eq_def id body' counter,
      dif_pos range]
    refine hP.bind (hP.startPass id counter) fun _ => hP.bind h fun flow => ?_
    cases flow with
    | normal => exact ih
    | returned value => exact hP.pure _
  | case2 counter range =>
    rw [Walk.passes.eq_def id body counter, dif_neg range, Walk.passes.eq_def id body' counter,
      dif_neg range]
    exact hP.pure _

/-- A function that is defined. -/
theorem define (f : Procedure) : P (Walk.define f) (Walk.define f) :=
  hP.bind (hP.idAt _) fun _ => hP.bind (hP.defined f) fun _ =>
    hP.bind hP.depth fun _ => hP.emit _

/-- What is done inside functions only. -/
theorem insideFunction {α : Type} {m m' : Walk α} (h : P m m') {fault : Fault}
    (hfault : ∀ what, fault ≠ .unbalanced what) :
    P (do if (← MonadState.get).store.inFunction then m else MonadExcept.throw fault)
      (do if (← MonadState.get).store.inFunction then m' else MonadExcept.throw fault) := by
  have hseen := hP.consult
    (fun store => if store.inFunction then m else MonadExcept.throw fault)
    (fun store => if store.inFunction then m' else MonadExcept.throw fault) fun store => by
      split
      · exact h
      · exact hP.throw fault hfault
  simpa only [Store.inFunction_seen] using hseen

/-- Functions that are run with related ways of running their statements. -/
theorem invoke {runBody runBody' : List Stmt → Walk Flow} {f : Procedure}
    (h : P (runBody f.body) (runBody' f.body)) (args : List Expr) (location : Location) :
    P (Walk.invoke runBody f args location) (Walk.invoke runBody' f args location) :=
  hP.bind (hP.reading (Expr.observes_evalAll args)) fun _ => hP.bind (hP.idAt _) fun _ =>
    hP.bind hP.depth fun _ => hP.bind (hP.emit _) fun _ =>
      hP.bind (hP.framed _ _ (hP.nested h)) fun _ => hP.bind (hP.emit _) fun _ => hP.pure _

section Statements

variable {caller caller' : Caller}
  (hcaller : ∀ f args location, P (caller f args location) (caller' f args location))
include hcaller

/-- Calls by name. -/
theorem callNamed (function : String) (args : List Expr) (location : Location) :
    P (Walk.callNamed caller function args location)
      (Walk.callNamed caller' function args location) := by
  by_cases hprint : function = "print"
  · unfold Walk.callNamed
    rw [if_pos hprint, if_pos hprint]
    exact hP.bind (hP.idAt location) fun _ => hP.bind hP.depth fun _ =>
      hP.bind (hP.printAll _ _ args) fun _ => hP.pure _
  · rw [callNamed_user hprint, callNamed_user hprint]
    refine hP.consult
      (fun store => (store.function? function).elim _ fun f => caller f args location)
      (fun store => (store.function? function).elim _ fun f => caller' f args location)
      fun store => ?_
    cases store.function? function with
    | some f => exact hcaller f args location
    | none => exact hP.throw _ nofun

/-- The stages of a value. -/
theorem stagesOf {present : Scopes Value → Expr → Except Fault Staged}
    (hpresent : ∀ e, Observes (present · e)) (e : Expr) :
    P (Walk.stagesOf caller present e) (Walk.stagesOf caller' present e) := by
  cases e with
  | call function args location =>
    exact hP.bind (hP.callNamed hcaller _ _ _) fun _ => hP.pure _
  | _ => exact hP.reading (hpresent _)

/-- Assignments. -/
theorem assign (targets : List Expr) (value : Expr) (location : Location) :
    P (Walk.assign caller targets value location) (Walk.assign caller' targets value location) :=
  hP.bind (hP.lift (Observes.mapM Expr.observes_target targets)) fun _ =>
    hP.bind (hP.stagesOf hcaller Expr.observes_stages value) fun _ =>
      hP.bind (hP.bindTargets _ _ _) fun _ => hP.bind hP.depth fun _ => hP.emitAll _

/-- Returns. -/
theorem giveBack (value : Option Expr) (location : Location) :
    P (Walk.giveBack caller value location) (Walk.giveBack caller' value location) := by
  have shown : ∀ (steps : Staged → Nat → Nat → List Step) (staged : Staged),
      P (do
        let id ← Walk.idAt location
        let depth ← Walk.depth
        Walk.emitAll (steps staged id depth)
        return staged.value) (do
        let id ← Walk.idAt location
        let depth ← Walk.depth
        Walk.emitAll (steps staged id depth)
        return staged.value) := fun steps staged =>
    hP.bind (hP.idAt location) fun _ => hP.bind hP.depth fun _ =>
      hP.bind (hP.emitAll _) fun _ => hP.pure _
  cases value with
  | none => exact hP.insideFunction (hP.bind (hP.pure _) (shown _)) nofun
  | some e =>
    have hvalue := hP.stagesOf hcaller Expr.observes_wholeStages e
    exact hP.insideFunction (hP.bind hvalue (shown _)) nofun

/-- Expressions on their own. -/
theorem callStatement (value : Expr) :
    P (Walk.callStatement caller value) (Walk.callStatement caller' value) := by
  cases value with
  | call function args location =>
    exact hP.bind (hP.callNamed hcaller function args location) fun _ => hP.pure _
  | _ => exact hP.throw _ nofun

/-- All statements, by the induction of their execution. -/
theorem statements :
    (∀ statement, P (Stmt.exec caller statement) (Stmt.exec caller' statement)) ∧
    (∀ alternative,
      P (Stmt.execAlternative caller alternative) (Stmt.execAlternative caller' alternative)) ∧
    (∀ body, P (Stmt.execAll caller body) (Stmt.execAll caller' body)) ∧
    (∀ kind alternative branches, ∀ alternative' : Walk Flow, P alternative alternative' →
      P (Stmt.execBranches caller kind alternative branches)
        (Stmt.execBranches caller' kind alternative' branches)) := by
  apply Stmt.exec.mutual_induct caller
    (fun s => P (Stmt.exec caller s) (Stmt.exec caller' s))
    (fun a => P (Stmt.execAlternative caller a) (Stmt.execAlternative caller' a))
    (fun b => P (Stmt.execAll caller b) (Stmt.execAll caller' b))
    (fun kind alternative branches => ∀ alternative' : Walk Flow, P alternative alternative' →
      P (Stmt.execBranches caller kind alternative branches)
        (Stmt.execBranches caller' kind alternative' branches))
  case case1 =>
    intro targets value location
    rw [Stmt.exec, Stmt.exec]
    exact hP.bind (hP.moveTo _) fun _ =>
      hP.bind (hP.assign hcaller targets value location) fun _ => hP.pure _
  case case2 =>
    intro target iterable body location hbody
    rw [Stmt.exec, Stmt.exec]
    exact hP.bind (hP.moveTo _) fun _ => hP.bind (hP.lift target.observes_loopName) fun name =>
      hP.bind (hP.reading (Expr.observes_counter name iterable)) fun counter =>
        hP.bind (hP.idAt _) fun id => hP.passes id (hP.nested hbody) counter
  case case3 =>
    intro branches alternative location halternative hbranches
    rw [Stmt.exec, Stmt.exec]
    exact hP.bind (hP.moveTo _) fun _ => hbranches _ halternative
  case case4 =>
    intro name params body location
    rw [Stmt.exec, Stmt.exec]
    exact hP.bind (hP.moveTo _) fun _ => hP.bind (hP.define _) fun _ => hP.pure _
  case case5 =>
    intro value location
    rw [Stmt.exec, Stmt.exec]
    exact hP.bind (hP.moveTo _) fun _ =>
      hP.bind (hP.giveBack hcaller value location) fun _ => hP.pure _
  case case6 =>
    intro value location
    rw [Stmt.exec, Stmt.exec]
    exact hP.bind (hP.moveTo _) fun _ =>
      hP.bind (hP.callStatement hcaller value) fun _ => hP.pure _
  case case7 =>
    rw [Stmt.execAll, Stmt.execAll]
    exact hP.pure _
  case case8 =>
    intro statement others hstatement hothers
    rw [Stmt.execAll, Stmt.execAll]
    refine hP.bind hstatement fun flow => ?_
    cases flow with
    | normal => exact hothers
    | returned value => exact hP.pure _
  case case9 =>
    intro kind alternative alternative' halternative
    rw [Stmt.execBranches, Stmt.execBranches]
    exact halternative
  case case10 =>
    intro kind alternative condition body location others hbody hothers alternative' halternative
    rw [Stmt.execBranches, Stmt.execBranches]
    refine hP.bind (hP.test _ _ _) fun passed => ?_
    cases passed with
    | true => exact hP.nested hbody
    | false => exact hothers _ halternative
  case case11 =>
    rw [Stmt.execAlternative, Stmt.execAlternative]
    exact hP.pure _
  case case12 =>
    intro body location hbody
    rw [Stmt.execAlternative, Stmt.execAlternative]
    exact hP.bind (hP.enterAlternative _) fun _ => hP.nested hbody

end Statements

/-- Calls, however many of them may still nest, if stopping for too many of them is related to
itself. -/
theorem callWithin (hstop : ∀ name location, P
      (do MonadExcept.throw (.callLimit name (← MonadState.get).callLimit location) : Walk Value)
      (do MonadExcept.throw (.callLimit name (← MonadState.get).callLimit location)))
    (calls : Nat) (f : Procedure) (args : List Expr) (location : Location) :
    P (Walk.callWithin calls f args location) (Walk.callWithin calls f args location) := by
  induction calls generalizing f args location with
  | zero =>
    exact hP.bind (hP.lift (f.observes_checkCount args location)) fun _ => hstop f.name location
  | succ calls ih =>
    refine hP.bind (hP.lift (f.observes_checkCount args location)) fun _ => ?_
    exact hP.invoke ((hP.statements ih).2.2.1 f.body) args location

end Congruence

end Walk

end Walkthrough
