import Walkthrough.Proofs.Actions
import Walkthrough.Proofs.Congruence

/-!
# What every run keeps

A relation between an earlier and a later state that holds across each single change
of a run holds across every action, whether the action succeeds or stops with a fault.
The changes are listed once, in `Closed`; single actions respect such a relation, so all
statements do, and calls by the number of calls that may still nest.
-/

namespace Walkthrough

namespace Walk

variable {α β : Type}

/-- The state in which an action has ended, with a result or with a fault. -/
def final : EStateM.Result Fault Run α → Run
  | .ok _ run => run
  | .error _ run => run

/-- A scope is left at the end where that is possible, and otherwise the state is the
one in which leaving it failed. -/
theorem final_within {enter : Run → Run} {leave : Run → EStateM.Result Unbalanced Run Unit}
    {body : Walk α} {r stopped left : Run} {p : Prop} [Decidable p] {what : Unbalanced}
    (h : leave (final (body (enter r))) = if p then .error what stopped else .ok () left) :
    final (within enter leave body r) = if p then stopped else left := by
  unfold within
  cases hbody : body (enter r) <;> rw [hbody, final] at h <;> simp only [h]
  all_goals
    by_cases hp : p
    · simp only [if_pos hp, final]
    · simp only [if_neg hp, final]

/-- What is computed from the bindings changes nothing, also where it fails. -/
theorem final_reading (f : Scopes Value → Except Fault α) (r : Run) :
    final (reading f r) = r := by
  unfold reading lift
  cases f r.store.scopes <;> rfl

/-- An action relates every state to the one in which it ends. -/
def Respects (R : Run → Run → Prop) (m : Walk α) : Prop := ∀ r, R r (final (m r))

/-- An action that succeeds relates the states before and after it. -/
theorem Respects.ok {R : Run → Run → Prop} {m : Walk α} (h : Respects R m) {r s : Run} {a : α}
    (hm : m r = .ok a s) : R r s := by
  have hr := h r
  rw [hm] at hr
  exact hr

/-- One action after another relates the states before and after them if both do. -/
theorem Respects.bind {R : Run → Run → Prop} {m : Walk α} {k : α → Walk β} (hm : Respects R m)
    (hk : ∀ a, Respects R (k a)) (htrans : ∀ r s t, R r s → R s t → R r t) :
    Respects R (m >>= k) := by
  intro r
  have h := hm r
  change R r (final (EStateM.bind m k r))
  unfold EStateM.bind
  cases hs : m r with
  | error fault s => rwa [hs] at h
  | ok a s =>
    rw [hs] at h
    exact htrans r s _ h (hk a s)

/-- A relation between states that each change of a run respects. -/
structure Closed (R : Run → Run → Prop) : Prop where
  /-- Nothing changes. -/
  refl : ∀ r, R r r
  /-- One change follows another. -/
  trans : ∀ {r s t}, R r s → R s t → R r t
  /-- The current place changes. -/
  movedTo : ∀ r location, R r (r.movedTo location)
  /-- A name gets a value. -/
  bound : ∀ r name value, R r (r.bound name value)
  /-- A step is recorded. -/
  recorded : ∀ r step, r.trace.isFull = false → R r (r.recorded step)
  /-- A place gets an id. -/
  identified : ∀ r location, R r (r.identified location)
  /-- A function is defined. -/
  defined : ∀ r f, R r (r.defined f)
  /-- A level of nesting is entered, and left if that is possible. -/
  nested : ∀ {r s}, R r.entered s → R r (if s.store.depth = 0 then s else s.exited)
  /-- A function is entered, and left if that is possible. -/
  framed : ∀ {r s} locals location, R (r.pushed locals) s →
    R r (if s.store.scopes.frames = [] then s else s.popped location)

namespace Closed

variable {R : Run → Run → Prop} (hR : Closed R)
include hR

/-- An action that changes nothing respects the relation. -/
theorem unchanged {m : Walk α} (h : ∀ r, final (m r) = r) : Respects R m := by
  intro r
  rw [h r]
  exact hR.refl r

/-- One action after another respects the relation if both do. -/
theorem bind {m : Walk α} {k : α → Walk β} (hm : Respects R m) (hk : ∀ a, Respects R (k a)) :
    Respects R (m >>= k) :=
  hm.bind hk fun _ _ _ => hR.trans

/-- Recording a step respects the relation. -/
theorem emit (step : Step) : Respects R (Walk.emit step) := by
  intro r
  rw [emit_eq]
  split
  · exact hR.refl r
  · next h => exact hR.recorded r step (by simpa using h)

/-- An action one level deeper respects the relation if the action does. -/
theorem nestedAction {body : Walk α} (h : Respects R body) : Respects R (Walk.nested body) := by
  intro r
  have hend : final (Walk.nested body r) = _ := final_within (leaving_exitScope _)
  rw [hend]
  exact hR.nested (h r.entered)

/-- An action inside a function respects the relation if the action does. -/
theorem framedAction {body : Walk α} (locals : SortedMap String Value) (location : Location)
    (h : Respects R body) : Respects R (Walk.framed locals location body) := by
  intro r
  have hend : final (Walk.framed locals location body r) = _ :=
    final_within (leaving_popFrame location _)
  rw [hend]
  exact hR.framed locals location (h (r.pushed locals))

/-- Respecting the relation passes through each way of putting actions together. -/
theorem congruence : Congruence fun {_} m _ => Respects R m where
  pure _ := hR.unchanged fun _ => rfl
  throw _ _ := hR.unchanged fun _ => rfl
  bind hm hk := hR.bind hm hk
  consult _ _ h r := h r.store.seen r
  moveTo location r := hR.movedTo r location
  bindName name value r := hR.bound r name value
  emit step := hR.emit step
  idAt location r := hR.identified r location
  defined f r := hR.defined r f
  nested h := hR.nestedAction h
  framed locals location h := hR.framedAction locals location h

/-- Testing a condition respects the relation. -/
theorem test (kind : BranchKind) (condition : Expr) (location : Location) :
    Respects R (Walk.test kind condition location) :=
  hR.congruence.test kind condition location

/-- Entering the alternative of a choice respects the relation. -/
theorem enterAlternative (location : Location) : Respects R (Walk.enterAlternative location) :=
  hR.congruence.enterAlternative location

/-- Starting a pass respects the relation. -/
theorem startPass (id : Nat) (counter : Counter) : Respects R (Walk.startPass id counter) :=
  hR.congruence.startPass id counter

/-- The passes of a loop respect the relation if its body does. -/
theorem passes (id : Nat) {body : Walk Flow} (h : Respects R body) (counter : Counter) :
    Respects R (Walk.passes id body counter) :=
  @Congruence.passes _ hR.congruence id body body h counter

section Statements

variable {caller : Caller} (hcaller : ∀ f args location, Respects R (caller f args location))
include hcaller

/-- Finding the stages of a value respects the relation. -/
theorem stagesOf (present : Scopes Value → Expr → Except Fault Staged) (e : Expr) :
    Respects R (Walk.stagesOf caller present e) := by
  cases e with
  | call function args location =>
    have hcall := @Congruence.callNamed _ hR.congruence caller caller hcaller function args location
    exact hR.bind hcall fun _ => hR.unchanged fun _ => rfl
  | _ => exact hR.unchanged (final_reading (present · _))

/-- All statements respect the relation. -/
theorem statements :
    (∀ statement, Respects R (Stmt.exec caller statement)) ∧
    (∀ alternative, Respects R (Stmt.execAlternative caller alternative)) ∧
    (∀ body, Respects R (Stmt.execAll caller body)) ∧
    (∀ kind alternative branches, Respects R alternative →
      Respects R (Stmt.execBranches caller kind alternative branches)) := by
  obtain ⟨hexec, halternative, hbody, hbranches⟩ :=
    @Congruence.statements _ hR.congruence caller caller hcaller
  exact ⟨hexec, halternative, hbody, fun kind alternative branches h =>
    hbranches kind alternative branches alternative h⟩

end Statements

/-- A call respects the relation, however many calls may still nest. -/
theorem callWithin (calls : Nat) (f : Procedure) (args : List Expr) (location : Location) :
    Respects R (Walk.callWithin calls f args location) :=
  hR.congruence.callWithin (fun _ _ => hR.unchanged fun _ => rfl) calls f args location

/-- A statement respects the relation. -/
theorem exec (calls : Nat) (statement : Stmt) :
    Respects R (Stmt.exec (Walk.callWithin calls) statement) :=
  (hR.statements (hR.callWithin calls)).1 statement

/-- A list of statements respects the relation. -/
theorem execAll (calls : Nat) (body : List Stmt) :
    Respects R (Stmt.execAll (Walk.callWithin calls) body) :=
  (hR.statements (hR.callWithin calls)).2.2.1 body

end Closed

end Walk

end Walkthrough
