import Walkthrough.Proofs.Balance
import Walkthrough.Proofs.Log
import Walkthrough.Proofs.Plain
import Walkthrough.Proofs.Replacement

/-!
# Recording changes nothing

A run with a log and a run without one go side by side: as long as the log has room, both
have the same bindings and functions, and the printed steps of the log are the stages of what
was printed. So they succeed together, with the same global bindings, and fail together, with
the same fault.
-/

namespace Walkthrough

open Walk

/-- The text that a step prints. -/
def Step.printed? : Step → Option String
  | print _ _ text _ => some text
  | _ => none

/-- The texts that are printed in a log, in order. -/
def Trace.printedTexts (t : Trace) : List String := t.steps.toList.filterMap Step.printed?

/-- The texts in which a printed argument is shown: its stages, under bindings for which it
has the printed value. -/
def Printed.ShownAs (printed : Printed) (texts : List String) : Prop :=
  ∃ scopes staged, printed.argument.eval scopes = .ok printed.value ∧
    printed.argument.wholeStages scopes = .ok staged ∧ staged.texts = texts

/-- The last text that shows an argument is that of its value. -/
theorem Printed.ShownAs.getLast? {printed : Printed} {texts : List String}
    (h : printed.ShownAs texts) : texts.getLast? = some printed.value.text := by
  obtain ⟨scopes, staged, heval, hstaged, rfl⟩ := h
  have hlast := (Expr.wholeStages_settles hstaged).getLast?_texts
  have hvalue : staged.value = printed.value :=
    Except.ok.inj ((Expr.eval_of_wholeStages hstaged).symm.trans heval)
  rw [hlast, hvalue]

/-- What a log prints are the stages of these arguments, in order. -/
def Trace.Prints (t : Trace) (printed : List Printed) : Prop :=
  ∃ shown : List (List String), shown.flatten = t.printedTexts ∧
    List.Forall₂ Printed.ShownAs printed shown

namespace Run

theorem printedTexts_recordedAll (r : Run) (steps : List Step) :
    (r.recordedAll steps).trace.printedTexts =
      r.trace.printedTexts ++ steps.filterMap Step.printed? := by
  rw [Trace.printedTexts, steps_recordedAll, List.filterMap_append]
  rfl

theorem callLimit_recordedAll (r : Run) (steps : List Step) :
    (r.recordedAll steps).callLimit = r.callLimit := by
  induction steps generalizing r with
  | nil => rfl
  | cons step others ih => exact ih (r.recorded step)

/-- A run with a log and a memory without one that have got equally far. -/
structure Agrees (limit : Nat) (run : Run) (memory : Memory) : Prop where
  /-- The bindings are the same. -/
  scopes : memory.scopes = run.store.scopes
  /-- The functions are the same. -/
  functions : memory.functions = run.store.functions
  /-- As many calls may nest. -/
  calls : run.callLimit = limit
  /-- The functions come from a program that was read. -/
  readable : ∀ name f, run.store.function? name = some f →
    Stmt.AllReadable (Stmt.allExpressions f.body)
  /-- What was printed is in the log. -/
  prints : run.trace.Prints memory.printed

namespace Agrees

variable {limit : Nat} {r : Run} {memory : Memory} (h : Agrees limit r memory)
include h

/-- Steps that print nothing may be recorded. -/
theorem recordedAll {steps : List Step} (hsilent : ∀ step ∈ steps, step.printed? = none) :
    Agrees limit (r.recordedAll steps) memory := by
  have hnothing : steps.filterMap Step.printed? = [] := List.filterMap_eq_nil_iff.mpr hsilent
  obtain ⟨shown, hshown, hall⟩ := h.prints
  have hstore := store_recordedAll r steps
  refine ⟨by rw [hstore]; exact h.scopes, by rw [hstore]; exact h.functions, ?_,
    by rw [hstore]; exact h.readable, shown, ?_, hall⟩
  · rw [callLimit_recordedAll]
    exact h.calls
  · rw [printedTexts_recordedAll, hnothing, List.append_nil]
    exact hshown

/-- An argument that is printed is shown in its stages. -/
theorem noted {id depth : Nat} {printed : Printed} {staged : Staged}
    (hprinted : printed.ShownAs staged.texts) :
    Agrees limit (r.recordedAll (staged.highlighted.map fun (text, highlight) =>
      .print id depth text highlight)) (memory.noted printed) := by
  obtain ⟨shown, hshown, hall⟩ := h.prints
  have hstore := store_recordedAll r
  have htexts : (staged.highlighted.map fun (text, highlight) =>
      Step.print id depth text highlight).filterMap Step.printed? = staged.texts := by
    rw [List.filterMap_map, ← staged.map_fst_highlighted]
    exact congrFun List.filterMap_eq_map staged.highlighted
  refine ⟨by rw [hstore]; exact h.scopes, by rw [hstore]; exact h.functions, ?_,
    by rw [hstore]; exact h.readable, shown ++ [staged.texts], ?_, ?_⟩
  · rw [callLimit_recordedAll]
    exact h.calls
  · rw [printedTexts_recordedAll, htexts, List.flatten_append, hshown]
    simp
  · exact List.rel_append hall (.cons hprinted .nil)

/-- A place may get an id. -/
theorem identified (location : Location) : Agrees limit (r.identified location) memory := by
  obtain ⟨places, hstore⟩ := r.identified_store location
  exact ⟨by rw [hstore]; exact h.scopes, by rw [hstore]; exact h.functions, h.calls,
    by rw [hstore]; exact h.readable, h.prints⟩

/-- Names may get values on both sides. -/
theorem boundAll (bindings : List (String × Value)) :
    Agrees limit (r.boundAll bindings) (memory.boundAll bindings) := by
  induction bindings generalizing r memory with
  | nil => exact h
  | cons binding others ih =>
    have hone : Agrees limit (r.bound binding.1 binding.2) (memory.boundAll [binding]) :=
      ⟨congrArg (·.bind binding.1 binding.2) h.scopes, h.functions, h.calls, h.readable, h.prints⟩
    exact ih hone

end Agrees

end Run

variable {α β γ δ : Type}

/-- How an action with a log and one without end: the log may be full; otherwise both fail with
the same fault, or both succeed, with related results and having got equally far. -/
inductive Follows (limit : Nat) (Q : α → β → Prop) :
    EStateM.Result Fault Run α → Except Fault (β × Memory) → Prop where
  | full (steps : Nat) (s : Run) (outcome : Except Fault (β × Memory)) :
    Follows limit Q (.error (.stepLimit steps) s) outcome
  | failed (fault : Fault) (s : Run) : Follows limit Q (.error fault s) (.error fault)
  | done {a : α} {b : β} {s : Run} {memory : Memory} (h : Q a b) (hs : s.Agrees limit memory) :
    Follows limit Q (.ok a s) (.ok (b, memory))

/-- An action with a log does what an action without one does. -/
def Simulates (limit : Nat) (Q : α → β → Prop) (m : Walk α) (p : Plain β) : Prop :=
  ∀ r memory, r.Agrees limit memory → Follows limit Q (m r) (p memory)

/-- An action that at most adds to the log what is not printed. -/
def Silent (limit : Nat) (m : Walk α) : Prop :=
  Simulates limit (fun _ _ => True) m (pure () : Plain Unit)

variable {limit : Nat} {Q : α → β → Prop} {Q' : γ → δ → Prop}

namespace Simulates

theorem pure {a : α} {b : β} (h : Q a b) :
    Simulates limit Q (Pure.pure a : Walk α) (Pure.pure b : Plain β) :=
  fun _ _ hagrees => .done h hagrees

theorem throw (fault : Fault) :
    Simulates limit Q (MonadExcept.throw fault : Walk α) (MonadExcept.throw fault : Plain β) :=
  fun r _ _ => .failed fault r

/-- Less may be said of the results. -/
theorem mono {m : Walk α} {p : Plain β} {R : α → β → Prop} (hm : Simulates limit Q m p)
    (h : ∀ a b, Q a b → R a b) : Simulates limit R m p := by
  intro r memory hagrees
  have hresult := hm r memory hagrees
  generalize m r = result at hresult
  generalize p memory = outcome at hresult
  cases hresult with
  | full steps s => exact .full steps s _
  | failed fault s => exact .failed fault s
  | done hQ hs => exact .done (h _ _ hQ) hs

/-- One action after another. -/
theorem bind {m : Walk α} {p : Plain β} {k : α → Walk γ} {k' : β → Plain δ}
    (hm : Simulates limit Q m p) (hk : ∀ a b, Q a b → Simulates limit Q' (k a) (k' b)) :
    Simulates limit Q' (m >>= k) (p >>= k') := by
  intro r memory hagrees
  have hfirst := hm r memory hagrees
  change Follows limit Q' (EStateM.bind m k r) (StateT.bind p k' memory)
  unfold EStateM.bind StateT.bind
  generalize m r = result at hfirst
  generalize p memory = outcome at hfirst
  cases hfirst with
  | full steps s => exact .full steps s _
  | failed fault s => exact .failed fault s
  | done h hs => exact hk _ _ h _ _ hs

/-- What is recorded before an action. -/
theorem after {m : Walk γ} {k : γ → Walk α} {p : Plain β} (hm : Silent limit m)
    (hk : ∀ c, Simulates limit Q (k c) p) : Simulates limit Q (m >>= k) p :=
  bind hm fun c _ _ => hk c

/-- What is recorded after an action. -/
theorem before {m : Walk α} {k : α → Walk γ} {p : Plain δ} {Q : α → δ → Prop}
    (hm : Simulates limit Q m p) (hk : ∀ a d, Q a d → Simulates limit Q' (k a) (Pure.pure d)) :
    Simulates limit Q' (m >>= k) p := by
  have h := bind hm hk
  rwa [bind_pure] at h

/-- A computation and another that has the same faults and the changed results. -/
theorem reading {f : Scopes Value → Except Fault α} {g : Scopes Value → Except Fault β}
    {change : α → β} (h : ∀ scopes, (f scopes).map change = g scopes) :
    Simulates limit (fun a b => change a = b ∧ ∃ scopes, f scopes = .ok a) (Walk.reading f)
      (Plain.reading g) := by
  intro r memory hagrees
  unfold Walk.reading Walk.lift Plain.reading Plain.lift
  rw [hagrees.scopes, ← h r.store.scopes]
  cases hresult : f r.store.scopes with
  | error fault => exact .failed fault r
  | ok a => exact .done ⟨rfl, r.store.scopes, hresult⟩ hagrees

/-- The same computation on both sides. -/
theorem readingSame (f : Scopes Value → Except Fault α) :
    Simulates limit Eq (Walk.reading f) (Plain.reading f) := by
  intro r memory hagrees
  unfold Walk.reading Walk.lift Plain.reading Plain.lift
  rw [hagrees.scopes]
  cases f r.store.scopes with
  | error fault => exact .failed fault r
  | ok a => exact .done rfl hagrees

/-- The same result on both sides. -/
theorem lift (result : Except Fault α) :
    Simulates limit Eq (Walk.lift result) (Plain.lift result) :=
  readingSame fun _ => result

/-- An action one level deeper. -/
theorem nested {m : Walk α} {p : Plain β} (hm : Simulates limit Q m p)
    (hsteady : Respects Run.Steady m) : Simulates limit Q (Walk.nested m) p := by
  intro r memory hagrees
  have h := hm r.entered memory
    ⟨hagrees.scopes, hagrees.functions, hagrees.calls, hagrees.readable, hagrees.prints⟩
  rw [nested_eq hsteady]
  generalize m r.entered = result at h
  generalize p memory = outcome at h
  cases h with
  | full steps s => exact .full steps _ _
  | failed fault s => exact .failed fault _
  | done h hs => exact .done h ⟨hs.scopes, hs.functions, hs.calls, hs.readable, hs.prints⟩

/-- An action inside a function. -/
theorem framed {m : Walk α} {p : Plain β} (locals : SortedMap String Value) (location : Location)
    (hm : Simulates limit Q m p) (hsteady : Respects Run.Steady m) :
    Simulates limit Q (Walk.framed locals location m) (Plain.framed locals p) := by
  intro r memory hagrees
  have h := hm (r.pushed locals) (memory.pushed locals)
    ⟨congrArg (·.push locals) hagrees.scopes, hagrees.functions, hagrees.calls, hagrees.readable,
      hagrees.prints⟩
  have hframed : Plain.framed locals p memory =
      (p (memory.pushed locals)).map fun (b, last) => (b, last.popped) := by
    unfold Plain.framed
    change Except.bind (p (memory.pushed locals)) _ = _
    cases p (memory.pushed locals) <;> rfl
  rw [framed_eq hsteady, hframed]
  generalize m (r.pushed locals) = result at h
  generalize p (memory.pushed locals) = outcome at h
  cases h with
  | full steps s => exact .full steps _ _
  | failed fault s => exact .failed fault _
  | done h hs =>
    exact .done h ⟨congrArg Scopes.pop hs.scopes, hs.functions, hs.calls, hs.readable, hs.prints⟩

end Simulates

/-- Steps are recorded unless the log gets full. -/
theorem Walk.emitAll_cases (steps : List Step) (r : Run) :
    (∃ s, emitAll steps r = .error (.stepLimit r.trace.limit) s) ∨
      emitAll steps r = .ok () (r.recordedAll steps) := by
  induction steps generalizing r with
  | nil => exact .inr rfl
  | cons step others ih =>
    change (∃ s, EStateM.bind (emit step) (fun _ => emitAll others) r = _) ∨
      EStateM.bind (emit step) (fun _ => emitAll others) r = _
    unfold EStateM.bind
    cases hfull : r.trace.isFull with
    | true =>
      rw [emit_full step hfull]
      exact .inl ⟨r, rfl⟩
    | false =>
      have hroom : emit step r = .ok () (r.recorded step) := emit_ok.2 ⟨hfull, rfl⟩
      rw [hroom]
      exact ih (r.recorded step)

namespace Silent

/-- An action that always succeeds and leaves bindings, functions and log alone. -/
theorem of_ok {m : Walk α} (result : Run → α) (next : Run → Run)
    (h : ∀ r, m r = .ok (result r) (next r))
    (hnext : ∀ r memory, r.Agrees limit memory → (next r).Agrees limit memory) :
    Silent limit m := by
  intro r memory hagrees
  rw [h r]
  exact .done trivial (hnext r memory hagrees)

theorem moveTo (location : Location) : Silent limit (Walk.moveTo location) :=
  of_ok (fun _ => ()) (·.movedTo location) (fun _ => rfl) fun _ _ h =>
    ⟨h.scopes, h.functions, h.calls, h.readable, h.prints⟩

theorem depth : Silent limit Walk.depth :=
  of_ok (·.store.depth) id (fun _ => rfl) fun _ _ h => h

theorem idAt (location : Location) : Silent limit (Walk.idAt location) :=
  of_ok (fun r => (r.store.idAt location).1) (·.identified location) (fun _ => rfl)
    fun _ _ h => h.identified location

/-- Steps that print nothing. -/
theorem emitAll {steps : List Step} (h : ∀ step ∈ steps, step.printed? = none) :
    Silent limit (Walk.emitAll steps) := by
  intro r memory hagrees
  rcases Walk.emitAll_cases steps r with ⟨s, hstop⟩ | hroom
  · rw [hstop]
    exact .full _ s _
  · rw [hroom]
    exact .done trivial (hagrees.recordedAll h)

/-- A step that prints nothing. -/
theorem emit {step : Step} (h : step.printed? = none) : Silent limit (Walk.emit step) := by
  intro r memory hagrees
  rw [emit_eq]
  split
  · exact .full _ r _
  · exact .done trivial (hagrees.recordedAll (List.forall_mem_singleton.mpr h))

end Silent

namespace Simulates

/-- Names that get values. -/
theorem bindEach (bindings : List (String × Value)) :
    Simulates limit Eq (Walk.bindEach bindings) (modify (·.boundAll bindings)) := by
  intro r memory hagrees
  have hbound : Walk.bindEach bindings r = .ok () (r.boundAll bindings) := by
    clear hagrees
    induction bindings generalizing r with
    | nil => rfl
    | cons binding others ih => exact ih (r.bound binding.1 binding.2)
  rw [hbound]
  exact .done rfl (hagrees.boundAll bindings)

/-- Targets that are bound. -/
theorem bindTargets (location : Location) (value : Value) (targets : List Target) :
    Simulates limit Eq (Walk.bindTargets location value targets)
      (Plain.bindTargets location value targets) := by
  induction targets with
  | nil => exact pure rfl
  | cons target others ih =>
    refine bind (lift _) fun bindings _ heq => ?_
    subst heq
    exact bind (bindEach bindings) fun _ _ _ => ih

/-- A printed argument is shown in its stages. -/
theorem note (id depth : Nat) {printed : Printed} {staged : Staged}
    (h : printed.ShownAs staged.texts) :
    Simulates limit Eq (Walk.emitAll (staged.highlighted.map fun (text, highlight) =>
      .print id depth text highlight)) (modify (·.noted printed)) := by
  intro r memory hagrees
  rcases Walk.emitAll_cases _ r with ⟨s, hstop⟩ | hroom
  · rw [hstop]
    exact .full _ s _
  · rw [hroom]
    exact .done rfl (hagrees.noted h)

/-- Expressions that are printed. -/
theorem printAll (id depth : Nat) {args : List Expr} (h : Expr.allReadable args = true) :
    Simulates limit Eq (Walk.printAll id depth args) (Plain.printAll args) := by
  induction args with
  | nil => exact pure rfl
  | cons arg others ih =>
    obtain ⟨harg, hothers⟩ := Bool.and_eq_true_iff.mp h
    refine bind (reading (Expr.map_value_wholeStages (arg.isIdentifier_of_leavesAll harg))) ?_
    rintro staged value ⟨rfl, scopes, hstaged⟩
    have hshown : Printed.ShownAs ⟨arg, staged.value⟩ staged.texts :=
      ⟨scopes, staged, Expr.eval_of_wholeStages hstaged, hstaged, rfl⟩
    exact bind (note id depth hshown) fun _ _ _ => ih hothers

/-- The stages of a condition and of a returned value print nothing. -/
theorem silent_stages {shown : List (String × Highlight)} {step : String → Highlight → Step}
    (h : ∀ text highlight, (step text highlight).printed? = none) :
    Silent limit (Walk.emitAll (shown.map fun (text, highlight) => step text highlight)) := by
  refine .emitAll fun _ hstep => ?_
  obtain ⟨⟨text, highlight⟩, -, rfl⟩ := List.mem_map.mp hstep
  exact h text highlight

/-- A condition that is tested. -/
theorem test (kind : BranchKind) {condition : Expr} (h : condition.isReadable = true)
    (location : Location) :
    Simulates limit Eq (Walk.test kind condition location) (Plain.test condition) := by
  refine after (.idAt location) fun _ => ?_
  refine bind (reading (Expr.map_value_wholeStages (condition.isIdentifier_of_leavesAll h))) ?_
  rintro staged value ⟨rfl, -⟩
  exact after .depth fun _ => after (silent_stages fun _ _ => rfl) fun _ => pure rfl

/-- A pass that starts. -/
theorem startPass (id : Nat) (counter : Counter) :
    Simulates limit (fun _ _ => True) (Walk.startPass id counter)
      (modify (·.boundAll [(counter.target, .int counter.current)])) := by
  have hbind : Simulates limit Eq (Walk.bind counter.target (.int counter.current))
      (modify (·.boundAll [(counter.target, .int counter.current)])) :=
    fun _ _ hagrees => .done rfl (hagrees.boundAll [(counter.target, .int counter.current)])
  exact before hbind fun _ _ _ => after .depth fun _ => Silent.emit rfl

/-- The passes of a loop. -/
theorem passes (id : Nat) {body : Walk Flow} {plainBody : Plain Flow}
    (h : Simulates limit Eq body plainBody) (counter : Counter) :
    Simulates limit Eq (Walk.passes id body counter) (Plain.passes plainBody counter) := by
  induction counter using Walk.passes.induct with
  | case1 counter range ih =>
    rw [Walk.passes, dif_pos range, Plain.passes, dif_pos range]
    refine bind (startPass id counter) fun _ _ _ => bind h ?_
    rintro flow _ rfl
    cases flow with
    | normal => exact ih
    | returned value => exact pure rfl
  | case2 counter range =>
    rw [Walk.passes, dif_neg range, Plain.passes, dif_neg range]
    exact pure rfl

/-- A function that is defined. -/
theorem define {f : Procedure} (h : Stmt.AllReadable (Stmt.allExpressions f.body)) :
    Simulates limit (fun _ _ => True) (Walk.define f) (modify (·.defined f)) := by
  have hdefined : Simulates limit Eq
      (modify fun run => { run with store := run.store.define f } : Walk Unit)
      (modify (·.defined f)) := by
    intro r memory hagrees
    refine .done rfl ⟨hagrees.scopes, congrArg (·.insert f.name f) hagrees.functions,
      hagrees.calls, fun name g hg => ?_, hagrees.prints⟩
    change (r.store.functions.insert f.name f).find? name = some g at hg
    rw [SortedMap.find?_insert] at hg
    split at hg
    · cases hg
      exact h
    · exact hagrees.readable name g hg
  exact after (.idAt f.location) fun _ => before hdefined fun _ _ _ =>
    after .depth fun _ => Silent.emit rfl

/-- What is done inside functions only. -/
theorem insideFunction {m : Walk α} {p : Plain β} (h : Simulates limit Q m p) (fault : Fault) :
    Simulates limit Q (do if (← get).store.inFunction then m else MonadExcept.throw fault)
      (do if (← get).scopes.frames.isEmpty then MonadExcept.throw fault else p) := by
  intro r memory hagrees
  change Follows limit Q ((if r.store.inFunction then m else MonadExcept.throw fault) r)
    ((if memory.scopes.frames.isEmpty then MonadExcept.throw fault else p) memory)
  rw [hagrees.scopes, Store.inFunction]
  cases r.store.scopes.frames with
  | nil => exact .failed fault r
  | cons frame outer => exact h r memory hagrees

section Statements

variable {caller : Walkthrough.Caller} {plainCaller : Plain.Caller}
  (hcaller : ∀ f args location, Stmt.AllReadable (Stmt.allExpressions f.body) →
    Simulates limit Eq (caller f args location) (plainCaller f args location))
include hcaller

/-- Calls by name. -/
theorem callNamed (function : String) {args : List Expr} (h : Expr.allReadable args = true)
    (location : Location) :
    Simulates limit Eq (Walk.callNamed caller function args location)
      (Plain.callNamed plainCaller function args location) := by
  by_cases hprint : function = "print"
  · unfold Walk.callNamed Plain.callNamed
    rw [if_pos hprint, if_pos hprint]
    exact after (.idAt location) fun _ => after .depth fun _ =>
      bind (printAll _ _ h) fun _ _ _ => pure rfl
  · rw [Walk.callNamed_user hprint, Plain.callNamed_user hprint]
    intro r memory hagrees
    let unknown : Plain Value := MonadExcept.throw (.unsupportedCall function location)
    change Follows limit Eq _ ((memory.functions.find? function).elim unknown
      (fun f => plainCaller f args location) memory)
    rw [hagrees.functions]
    change Follows limit Eq ((r.store.function? function).elim
      (MonadExcept.throw (.unsupportedCall function location)) (fun f => caller f args location) r)
      ((r.store.function? function).elim unknown (fun f => plainCaller f args location) memory)
    cases hf : r.store.function? function with
    | some f => exact hcaller f args location (hagrees.readable function f hf) r memory hagrees
    | none => exact .failed _ r

/-- The value of an expression that may be a call. -/
theorem valueOf {present : Scopes Value → Expr → Except Fault Staged} {e : Expr}
    (hpresent : ∀ scopes, (present scopes e).map Staged.value = e.eval scopes)
    (h : e.isReadable = true) :
    Simulates limit (fun staged value => staged.value = value) (Walk.stagesOf caller present e)
      (Plain.valueOf plainCaller e) := by
  have hplain : Simulates limit (fun staged value => staged.value = value)
      (Walk.reading fun scopes => present scopes e) (Plain.reading fun scopes => e.eval scopes) :=
    (reading hpresent).mono fun _ _ hvalue => hvalue.1
  cases e with
  | call function args location =>
    obtain ⟨-, hargs⟩ := Bool.and_eq_true_iff.mp h
    exact before (callNamed hcaller function hargs location) fun _ _ hvalue => pure hvalue
  | _ => exact hplain

/-- Assignments. -/
theorem assign (targets : List Expr) {value : Expr} (h : value.isReadable = true)
    (location : Location) :
    Simulates limit (fun _ _ => True) (Walk.assign caller targets value location)
      (Plain.assign plainCaller targets value location) := by
  refine bind (lift _) ?_
  rintro targets _ rfl
  refine bind (valueOf hcaller (Expr.map_value_stages (value.isIdentifier_of_leavesAll h)) h) ?_
  rintro staged _ rfl
  refine before (bindTargets location staged.value targets) fun _ _ _ =>
    after .depth fun depth => Silent.emitAll fun step hstep => ?_
  obtain ⟨target, text, rfl⟩ := Target.assigned_of_mem_steps hstep
  rfl

/-- Returns. -/
theorem giveBack {value : Option Expr} (h : Stmt.AllReadable value.toList) (location : Location) :
    Simulates limit Eq (Walk.giveBack caller value location)
      (Plain.giveBack plainCaller value location) := by
  have hshown : ∀ staged : Staged, Simulates limit Eq
      (do
        let id ← Walk.idAt location
        let depth ← Walk.depth
        Walk.emitAll
          (staged.highlighted.map fun (text, highlight) => .giveBack id depth text highlight)
        return staged.value : Walk Value)
      (Pure.pure staged.value : Plain Value) := fun staged =>
    after (.idAt location) fun _ => after .depth fun _ =>
      after (silent_stages fun _ _ => rfl) fun _ => pure rfl
  cases value with
  | none => exact insideFunction (hshown (.resolved .none)) _
  | some e =>
    have he : e.isReadable = true := h e List.mem_cons_self
    have hnames := e.isIdentifier_of_leavesAll he
    refine insideFunction (before (valueOf hcaller (Expr.map_value_wholeStages hnames) he) ?_) _
    rintro staged _ rfl
    exact hshown staged

/-- Expressions on their own. -/
theorem callStatement {value : Expr} (h : value.isReadable = true) :
    Simulates limit (fun _ _ => True) (Walk.callStatement caller value)
      (Plain.callStatement plainCaller value) := by
  cases value with
  | call function args location =>
    obtain ⟨-, hargs⟩ := Bool.and_eq_true_iff.mp h
    exact bind (callNamed hcaller function hargs location) fun _ _ _ => pure trivial
  | _ => exact throw _

theorem assignStatement (targets : List Expr) (value : Expr) (location : Location)
    (h : Stmt.AllReadable (Stmt.assign targets value location).expressions) :
    Simulates limit Eq (Stmt.exec caller (.assign targets value location))
      (Plain.exec plainCaller (.assign targets value location)) := by
  rw [Stmt.exec, Plain.exec]
  have hvalue : value.isReadable = true := h value List.mem_cons_self
  exact after (.moveTo location) fun _ =>
    bind (assign hcaller targets hvalue location) fun _ _ _ => pure rfl

theorem giveBackStatement (value : Option Expr) (location : Location)
    (h : Stmt.AllReadable (Stmt.giveBack value location).expressions) :
    Simulates limit Eq (Stmt.exec caller (.giveBack value location))
      (Plain.exec plainCaller (.giveBack value location)) := by
  rw [Stmt.exec, Plain.exec]
  exact after (.moveTo location) fun _ =>
    bind (giveBack hcaller h location) fun _ _ hvalue => pure (congrArg _ hvalue)

theorem expressionStatement (value : Expr) (location : Location)
    (h : Stmt.AllReadable (Stmt.expression value location).expressions) :
    Simulates limit Eq (Stmt.exec caller (.expression value location))
      (Plain.exec plainCaller (.expression value location)) := by
  rw [Stmt.exec, Plain.exec]
  have hvalue : value.isReadable = true := h value List.mem_cons_self
  exact after (.moveTo location) fun _ =>
    bind (callStatement hcaller hvalue) fun _ _ _ => pure rfl

omit hcaller

theorem defineStatement (name : String) (params : List String) (body : List Stmt)
    (location : Location)
    (h : Stmt.AllReadable (Stmt.define name params body location).expressions) :
    Simulates limit Eq (Stmt.exec caller (.define name params body location))
      (Plain.exec plainCaller (.define name params body location)) := by
  rw [Stmt.exec, Plain.exec]
  exact after (.moveTo location) fun _ => bind (define h) fun _ _ _ => pure rfl

/-- A loop, by its passes. -/
theorem loopStatement {body : List Stmt}
    (hbody : Simulates limit Eq (Stmt.execAll caller body) (Plain.execAll plainCaller body))
    (hsteady : Respects Run.Steady (Stmt.execAll caller body)) (target iterable : Expr)
    (location : Location) :
    Simulates limit Eq (Stmt.exec caller (.loop target iterable body location))
      (Plain.exec plainCaller (.loop target iterable body location)) := by
  rw [Stmt.exec, Plain.exec]
  refine after (.moveTo location) fun _ => bind (lift _) ?_
  rintro name _ rfl
  refine bind (readingSame _) ?_
  rintro counter _ rfl
  exact after (.idAt location) fun id => passes id (hbody.nested hsteady) counter

/-- A first statement and those after it, which do not run after a return. -/
theorem consStatement {statement : Stmt} {others : List Stmt}
    (hstatement : Simulates limit Eq (Stmt.exec caller statement)
      (Plain.exec plainCaller statement))
    (hothers : Simulates limit Eq (Stmt.execAll caller others)
      (Plain.execAll plainCaller others)) :
    Simulates limit Eq (Stmt.execAll caller (statement :: others))
      (Plain.execAll plainCaller (statement :: others)) := by
  rw [Stmt.execAll, Plain.execAll]
  refine bind hstatement ?_
  rintro flow _ rfl
  cases flow with
  | normal => exact hothers
  | returned value => exact pure rfl

/-- A branch, which runs if its condition holds. -/
theorem branch {body : List Stmt} {others : List Branch} {alternative : Walk Flow}
    {plainAlternative : Plain Flow} (kind : BranchKind) {condition : Expr}
    (hcondition : condition.isReadable = true) (location : Location)
    (hbody : Simulates limit Eq (Stmt.execAll caller body) (Plain.execAll plainCaller body))
    (hsteady : Respects Run.Steady (Stmt.execAll caller body))
    (hothers : Simulates limit Eq (Stmt.execBranches caller .further alternative others)
      (Plain.execBranches plainCaller plainAlternative others)) :
    Simulates limit Eq
      (Stmt.execBranches caller kind alternative (.mk condition body location :: others))
      (Plain.execBranches plainCaller plainAlternative
        (.mk condition body location :: others)) := by
  rw [Stmt.execBranches, Plain.execBranches]
  refine bind (test kind hcondition location) ?_
  rintro passed _ rfl
  cases passed with
  | true => exact hbody.nested hsteady
  | false => exact hothers

theorem alternative {body : List Stmt}
    (hbody : Simulates limit Eq (Stmt.execAll caller body) (Plain.execAll plainCaller body))
    (hsteady : Respects Run.Steady (Stmt.execAll caller body)) (location : Location) :
    Simulates limit Eq (Stmt.execAlternative caller (some (.mk body location)))
      (Plain.execAlternative plainCaller (some (.mk body location))) := by
  rw [Stmt.execAlternative, Plain.execAlternative]
  exact after (after (.idAt location) fun _ => after .depth fun _ => Silent.emit rfl) fun _ =>
    hbody.nested hsteady

include hcaller

/-- All statements, by the induction of their execution. -/
theorem statements (hsteady : ∀ f args location, Respects Run.Steady (caller f args location))
    (body : List Stmt) (h : Stmt.AllReadable (Stmt.allExpressions body)) :
    Simulates limit Eq (Stmt.execAll caller body) (Plain.execAll plainCaller body) := by
  have hbodies := (closed_steady.statements hsteady).2.2.1
  have hall := Stmt.exec.mutual_induct caller
    (fun s => Stmt.AllReadable s.expressions →
      Simulates limit Eq (Stmt.exec caller s) (Plain.exec plainCaller s))
    (fun a => Stmt.AllReadable (Stmt.otherwiseExpressions a) →
      Simulates limit Eq (Stmt.execAlternative caller a) (Plain.execAlternative plainCaller a))
    (fun b => Stmt.AllReadable (Stmt.allExpressions b) →
      Simulates limit Eq (Stmt.execAll caller b) (Plain.execAll plainCaller b))
    (fun kind a branches => ∀ plain : Plain Flow, Simulates limit Eq a plain →
      Stmt.AllReadable (Stmt.branchExpressions branches) →
      Simulates limit Eq (Stmt.execBranches caller kind a branches)
        (Plain.execBranches plainCaller plain branches))
    (assignStatement hcaller)
    (fun target iterable body location hbody hreadable =>
      loopStatement (hbody fun e he => hreadable e (List.mem_cons_of_mem _
        (List.mem_cons_of_mem _ he))) (hbodies body) target iterable location)
    (fun branches others location hothers hbranches hreadable => by
      rw [Stmt.exec, Plain.exec]
      exact after (.moveTo location) fun _ =>
        hbranches _ (hothers fun e he => hreadable e (List.mem_append_right _ he))
          fun e he => hreadable e (List.mem_append_left _ he))
    defineStatement (giveBackStatement hcaller) (expressionStatement hcaller)
    (fun _ => by
      rw [Stmt.execAll, Plain.execAll]
      exact pure rfl)
    (fun _ _ hstatement hothers hreadable =>
      consStatement (hstatement fun e he => hreadable e (List.mem_append_left _ he))
        (hothers fun e he => hreadable e (List.mem_append_right _ he)))
    (fun _ _ plain hplain _ => by
      rw [Stmt.execBranches, Plain.execBranches]
      exact hplain)
    (fun kind _ condition body location _ hbody hothers plain hplain hreadable =>
      branch kind (hreadable condition List.mem_cons_self) location
        (hbody fun e he => hreadable e (List.mem_cons_of_mem _ (List.mem_append_left _ he)))
        (hbodies body) (hothers plain hplain fun e he =>
          hreadable e (List.mem_cons_of_mem _ (List.mem_append_right _ he))))
    (fun _ => by
      rw [Stmt.execAlternative, Plain.execAlternative]
      exact pure rfl)
    (fun body location hbody hreadable => alternative (hbody hreadable) (hbodies body) location)
  exact hall.2.2.1 body h

end Statements

/-- Functions that are run with related ways of running their statements. -/
theorem invoke {runBody : List Stmt → Walk Flow} {plainBody : List Stmt → Plain Flow}
    {f : Procedure} (h : Simulates limit Eq (runBody f.body) (plainBody f.body))
    (hsteady : Respects Run.Steady (runBody f.body)) (args : List Expr) (location : Location) :
    Simulates limit Eq (Walk.invoke runBody f args location) (Plain.invoke plainBody f args) := by
  refine bind (readingSame _) ?_
  rintro values _ rfl
  refine after (.idAt location) fun _ => after .depth fun _ => after (.emit rfl) fun _ => ?_
  have hbody := (h.nested hsteady).framed (.ofList (f.params.zip values)) location
    (closed_steady.nestedAction hsteady)
  refine bind hbody ?_
  rintro flow _ rfl
  exact after (.emit rfl) fun _ => pure rfl

/-- Calls, however many calls may still nest. -/
theorem callWithin (calls : Nat) (f : Procedure) (args : List Expr) (location : Location)
    (h : Stmt.AllReadable (Stmt.allExpressions f.body)) :
    Simulates limit Eq (Walk.callWithin calls f args location)
      (Plain.callWithin limit calls f args location) := by
  induction calls generalizing f args location with
  | zero =>
    refine bind (lift _) fun _ _ _ => fun r memory hagrees => ?_
    -- The fault names the limit of nested calls, which both sides know.
    change Follows limit Eq (.error (.callLimit f.name r.callLimit location) r) _
    rw [hagrees.calls]
    exact .failed _ r
  | succ calls ih =>
    refine bind (lift _) fun _ _ _ => ?_
    have hbody := statements ih (closed_steady.callWithin calls) f.body h
    exact invoke hbody (closed_steady.execAll calls f.body) args location

end Simulates

/-- A run with a log and the program without one succeed or fail together, unless the log gets
full. -/
theorem Program.run_follows {program : Program} (h : Stmt.AllReadable program.expressions)
    (limits : Limits) :
    Follows limits.calls Eq (program.run limits)
      (Plain.execAll (Plain.callWithin limits.calls limits.calls) program .empty) := by
  have hall : Simulates limits.calls Eq (Stmt.execAll (Walk.callWithin limits.calls) program)
      (Plain.execAll (Plain.callWithin limits.calls limits.calls) program) :=
    Simulates.statements (Simulates.callWithin limits.calls)
      (closed_steady.callWithin limits.calls) program h
  exact hall (Run.start limits) .empty
    ⟨rfl, rfl, rfl, (fun _ _ hf => by cases hf), [], rfl, .nil⟩

/-- Recording a run changes nothing. For a program that was read and limits under which its log
does not get full: the run succeeds if and only if the program does without a log; then both
end with the same global bindings, and what the log prints are the stages of the printed
arguments, in order, the last one of each being the text of its value; and they fail with the
same faults. -/
theorem recording_is_transparent {text : String} {program : Program} {limits : Limits}
    (hparse : Program.parse text = .ok program)
    (hroom : ∀ steps, program.trace limits ≠ .error (.stepLimit steps)) :
    ((∃ trace, program.trace limits = .ok trace) ↔
      ∃ memory, program.perform limits.calls = .ok memory) ∧
    (∀ flow last memory, program.run limits = .ok flow last →
      program.perform limits.calls = .ok memory →
      last.store.scopes.globals = memory.scopes.globals ∧
      ∃ shown : List (List String), shown.flatten = last.trace.printedTexts ∧
        List.Forall₂ (fun printed texts => printed.ShownAs texts ∧
          texts.getLast? = some printed.value.text) memory.printed shown) ∧
    (∀ fault, program.trace limits = .error fault ↔
      program.perform limits.calls = .error fault) := by
  have hfollows := Program.run_follows (Program.allReadable_parse hparse) limits
  unfold Program.perform
  unfold Program.trace at hroom ⊢
  generalize program.run limits = result at hfollows hroom ⊢
  generalize Plain.execAll _ program .empty = outcome at hfollows ⊢
  cases hfollows with
  | full steps s => exact absurd rfl (hroom steps)
  | failed fault s => simp [Except.map]
  | @done flow _ last memory h hs =>
    refine ⟨⟨fun _ => ⟨memory, rfl⟩, fun _ => ⟨last.trace, rfl⟩⟩, ?_, fun fault => ?_⟩
    · rintro _ _ _ hlast hmemory
      cases hlast
      cases hmemory
      obtain ⟨shown, hshown, hall⟩ := hs.prints
      exact ⟨congrArg Scopes.globals hs.scopes.symm, shown, hshown,
        hall.imp fun _ _ h => ⟨h, h.getLast?⟩⟩
    · simp [Except.map]

namespace Sample

/-- A function that is called in each pass of a loop, with two values printed. -/
def counting : String :=
  "def f(n):\n    return n + 1\nx = 0\nfor i in range(2):\n    x = f(x)\n    print(x * 2, x)\n"

end Sample

/-- Four values are printed in two passes, each product in three stages. -/
theorem counting_transparent : ∃ program flow last memory,
    Program.parse Sample.counting = .ok program ∧ program.run {} = .ok flow last ∧
    program.perform 64 = .ok memory ∧ last.store.scopes.globals = memory.scopes.globals ∧
    last.trace.printedTexts = ["x * 2", "1 * 2", "2", "1", "x * 2", "2 * 2", "4", "2"] ∧
    ∃ shown : List (List String), shown.flatten = last.trace.printedTexts ∧
      List.Forall₂ (fun printed texts => printed.ShownAs texts ∧
        texts.getLast? = some printed.value.text) memory.printed shown := by
  have hseen : (Program.parse Sample.counting).toOption.bind (fun program =>
      (program.trace {}).toOption.map Trace.printedTexts) =
      some ["x * 2", "1 * 2", "2", "1", "x * 2", "2 * 2", "4", "2"] := by
    decide +kernel
  obtain ⟨program, hparse, hseen⟩ := Option.bind_eq_some_iff.mp hseen
  obtain ⟨trace, htrace, htexts⟩ := Option.map_eq_some_iff.mp hseen
  have htrace := except_toOption_some.mp htrace
  have hparse := except_toOption_some.mp hparse
  have hroom : ∀ steps, program.trace {} ≠ .error (.stepLimit steps) := by
    intro steps hfull
    rw [htrace] at hfull
    cases hfull
  obtain ⟨hiff, hsame, -⟩ := recording_is_transparent hparse hroom
  obtain ⟨memory, hmemory⟩ := hiff.mp ⟨trace, htrace⟩
  obtain ⟨flow, last, hlast, rfl⟩ := Program.trace_ok.mp htrace
  obtain ⟨hglobals, hshown⟩ := hsame flow last memory hlast hmemory
  exact ⟨program, flow, last, memory, hparse, hlast, hmemory, hglobals, htexts, hshown⟩

end Walkthrough
