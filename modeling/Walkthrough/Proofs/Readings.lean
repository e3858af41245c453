import Walkthrough.Run.Exec

/-!
# What is read of the bindings

A name is looked up in the innermost frame and then globally, so no computation on the bindings
depends on the frames between. What can go wrong in one is the fault of an expression; that a
scope is left without having been entered is none of its faults. Both are said at once by
`Observes`, which passes through each way of putting such computations together.
-/

namespace Walkthrough

variable {α β γ : Type}

/-- The scopes as they are seen by the running function: without the frames that wait for it
to end. -/
def Scopes.seen (s : Scopes α) : Scopes α := { s with frames := s.frames.take 1 }

/-- The memory as it is seen by the running function. -/
def Store.seen (s : Store) : Store := { s with scopes := s.scopes.seen }

@[simp] theorem Scopes.find?_seen (s : Scopes α) (name : String) :
    s.seen.find? name = s.find? name := by
  unfold find? seen
  cases s.frames <;> rfl

@[simp] theorem Store.inFunction_seen (s : Store) : s.seen.inFunction = s.inFunction := by
  unfold inFunction seen Scopes.seen
  cases s.scopes.frames <;> rfl

/-- A computation on the bindings that the running function sees, none of whose faults is an
unbalanced scope. -/
structure Observes (f : Scopes Value → Except Fault α) : Prop where
  /-- The frames that are not seen make no difference. -/
  seen : ∀ scopes, f scopes.seen = f scopes
  /-- No scope is found unbalanced. -/
  balanced : ∀ scopes what, f scopes ≠ .error (.unbalanced what)

namespace Observes

/-- A value that depends on no bindings. -/
theorem ok (a : α) : Observes fun _ => .ok a := ⟨fun _ => rfl, nofun⟩

/-- A fault that depends on no bindings. -/
theorem error {fault : Fault} (h : ∀ what, fault ≠ .unbalanced what) :
    Observes fun _ => (.error fault : Except Fault α) :=
  ⟨fun _ => rfl, fun _ what hfault => h what (Except.error.inj hfault)⟩

/-- One computation after another. -/
theorem bind {f : Scopes Value → Except Fault α} {k : α → Scopes Value → Except Fault β}
    (hf : Observes f) (hk : ∀ a, Observes (k a)) :
    Observes fun scopes => f scopes >>= (k · scopes) := by
  constructor
  · intro scopes
    rw [hf.seen]
    exact congrArg (f scopes >>= ·) (funext fun a => (hk a).seen scopes)
  · intro scopes what
    cases hfirst : f scopes with
    | error fault =>
      intro h
      exact hf.balanced scopes what (hfirst.trans (congrArg Except.error (Except.error.inj h)))
    | ok a => exact (hk a).balanced scopes what

/-- A computation whose value is changed. -/
theorem map {f : Scopes Value → Except Fault α} (hf : Observes f) (change : α → β) :
    Observes fun scopes => (f scopes).map change := by
  have hbind := hf.bind fun a => ok (change a)
  exact hbind

/-- A computation for each element of a list. -/
theorem mapM {f : Scopes Value → γ → Except Fault α} (h : ∀ c, Observes (f · c))
    (items : List γ) : Observes fun scopes => items.mapM (f scopes) := by
  induction items with
  | nil => exact ok []
  | cons item others ih =>
    simp only [List.mapM_cons]
    exact (h item).bind fun a => ih.bind fun rest => ok (a :: rest)

end Observes

/-- The value of a name. -/
theorem Scopes.observes_get (name : String) (location : Location) :
    Observes fun scopes => scopes.get name location := by
  constructor
  · intro scopes
    unfold get
    rw [find?_seen]
  · intro scopes what
    unfold get
    split <;> nofun

/-- The value of two values that are combined. -/
theorem Fault.observes_ofValue (location : Location) (result : Except ValueFault α) :
    Observes fun _ => Fault.ofValue location result := by
  cases result with
  | ok a => exact .ok a
  | error fault => exact .error nofun

namespace Expr

mutual

/-- The value of an expression. -/
theorem observes_eval : (e : Expr) → Observes fun scopes => e.eval scopes
  | literal value _ => by
    simp only [eval]
    exact .ok value.value
  | name id location => by
    simp only [eval]
    exact Scopes.observes_get id location
  | binary op left right location => by
    simp only [eval]
    cases op.arithmetic? with
    | none => exact .error nofun
    | some operation =>
      exact (observes_eval left).bind fun a => (observes_eval right).bind fun b =>
        Fault.observes_ofValue location (a.apply operation b)
  | compare op left right location => by
    simp only [eval]
    exact (observes_eval left).bind fun a => (observes_eval right).bind fun b =>
      Fault.observes_ofValue location (a.compare op b)
  | tuple items _ => by
    simp only [eval]
    exact (observes_evalAll items).bind fun values => .ok (Value.tuple values)
  | call _ _ location => by
    simp only [eval]
    exact .error nofun

/-- The values of some expressions. -/
theorem observes_evalAll : (items : List Expr) → Observes fun scopes => evalAll scopes items
  | [] => .ok []
  | item :: others => by
    simp only [evalAll]
    exact (observes_eval item).bind fun value => (observes_evalAll others).bind fun values =>
      .ok (value :: values)

end

/-- The text in which short names are replaced. -/
theorem observes_substitute (text : String) (location : Location) :
    Observes fun scopes => substitute scopes text location := by
  have hpiece : ∀ piece, Observes fun scopes => substitutePiece scopes location piece := by
    intro piece
    unfold substitutePiece
    split
    · exact (Scopes.observes_get _ location).bind fun value => .ok (true, value.text)
    · exact .ok (false, String.ofList piece.2)
  exact (Observes.mapM hpiece _).bind fun parts => .ok _

/-- The stages of an expression that is shown as one piece. -/
theorem observes_wholeStages (e : Expr) : Observes fun scopes => e.wholeStages scopes := by
  unfold wholeStages
  split
  · exact e.observes_eval.bind fun value =>
      (observes_substitute e.text e.location).bind fun replaced => .ok _
  · exact e.observes_eval.map Staged.resolved

/-- The stages of an expression, tuples part by part. -/
theorem observes_stages (e : Expr) : Observes fun scopes => e.stages scopes := by
  cases e with
  | tuple items _ => exact (Observes.mapM observes_wholeStages items).bind fun parts => .ok _
  | _ => exact observes_wholeStages _

/-- An argument of a range. -/
theorem observes_rangeArgument (e : Expr) : Observes fun scopes => rangeArgument scopes e := by
  unfold rangeArgument
  split
  · refine e.observes_eval.bind fun value => ?_
    cases value.asInt? with
    | some n => exact .ok n
    | none => exact .error nofun
  · exact .error nofun

/-- The counter of a loop. -/
theorem observes_counter (target : String) (iterable : Expr) :
    Observes fun scopes => counter scopes target iterable := by
  unfold counter
  cases iterable with
  | call function args location =>
    dsimp only
    split
    · exact .error nofun
    · split
      · exact .error nofun
      · refine (Observes.mapM observes_rangeArgument args).bind fun bounds => ?_
        split
        · exact .ok _
        · exact .ok _
        · split
          · exact .error nofun
          · exact .ok _
        · exact .error nofun
  | _ => exact .error nofun

end Expr

/-- The name that a loop variable is. -/
theorem Expr.observes_loopName (e : Expr) : Observes fun _ => e.loopName := by
  cases e with
  | name id _ => exact .ok id
  | _ => exact .error nofun

/-- The target that an expression is. -/
theorem Expr.observes_target (e : Expr) : Observes fun _ => e.target := by
  have hpart : ∀ part : Expr, Observes fun _ => part.targetName := by
    intro part
    cases part with
    | name id _ => exact .ok id
    | _ => exact .error nofun
  cases e with
  | name id _ => exact .ok (Target.single id)
  | tuple items _ => exact (Observes.mapM hpart items).bind fun names => .ok (Target.unpack names)
  | _ => exact .error nofun

/-- The share of a target in a value. -/
theorem Target.observes_bindings (location : Location) (value : Value) (target : Target) :
    Observes fun _ => target.bindings location value := by
  cases target with
  | single name => exact .ok [(name, value)]
  | unpack names =>
    cases value with
    | tuple items =>
      simp only [bindings]
      split
      · exact .ok _
      · exact .error nofun
    | _ => exact .error nofun

/-- The number of arguments of a call. -/
theorem Procedure.observes_checkCount (f : Procedure) (args : List Expr) (location : Location) :
    Observes fun _ => f.checkCount args location := by
  unfold checkCount
  split
  · exact .ok ()
  · exact .error nofun

end Walkthrough
