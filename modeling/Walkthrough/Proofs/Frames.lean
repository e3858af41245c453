import Walkthrough.Proofs.Balance

/-!
# Functions and the frames below theirs

A function that runs binds names in its own frame. The global bindings and the frames of the
functions that wait for it stay as they are, and it does not see what those frames hold. So a
call changes no binding that was there before it, and what it does depends on the frames of its
callers through the values of its arguments alone.
-/

namespace Walkthrough

open Walk

/-- In a later state the running function has the same global bindings and the same frames
below its own. -/
def Run.Shelters (run later : Run) : Prop :=
  ∀ globals own outer, run.store.scopes = ⟨globals, own :: outer⟩ →
    ∃ changed, later.store.scopes = ⟨globals, changed :: outer⟩

namespace Walk

variable {α β : Type}

/-- Every action leaves the global bindings and the frames of the waiting functions alone. -/
theorem closed_shelters : Closed Run.Shelters where
  refl _ _ own _ hr := ⟨own, hr⟩
  trans h h' globals own outer hr := by
    obtain ⟨changed, hs⟩ := h globals own outer hr
    exact h' globals changed outer hs
  movedTo _ _ _ own _ hr := ⟨own, hr⟩
  bound r name value globals own outer hr := by
    refine ⟨own.insert name value, ?_⟩
    change r.store.scopes.bind name value = _
    rw [hr]
    rfl
  recorded _ _ _ _ own _ hr := ⟨own, hr⟩
  identified r location _ own _ hr := ⟨own, (r.identified_scopes location).trans hr⟩
  defined _ _ _ own _ hr := ⟨own, hr⟩
  nested {r s} h globals own outer hr := by
    obtain ⟨changed, hs⟩ := h globals own outer hr
    split
    · exact ⟨changed, hs⟩
    · exact ⟨changed, hs⟩
  framed {r s} locals location h globals own outer hr := by
    have hpushed : (r.pushed locals).store.scopes = ⟨globals, locals :: own :: outer⟩ := by
      change r.store.scopes.push locals = _
      rw [hr]
      rfl
    obtain ⟨changed, hs⟩ := h globals locals (own :: outer) hpushed
    rw [if_neg (by rw [hs]; exact List.cons_ne_nil _ _)]
    refine ⟨own, ?_⟩
    change s.store.scopes.pop = _
    rw [hs]
    rfl

/-- An action after which all names have the values that they had before. -/
def KeepsScopes (m : Walk α) : Prop :=
  Respects (fun run later => later.store.scopes = run.store.scopes) m

theorem KeepsScopes.bind {m : Walk α} {k : α → Walk β} (hm : KeepsScopes m)
    (hk : ∀ a, KeepsScopes (k a)) : KeepsScopes (m >>= k) :=
  Respects.bind hm hk fun _ _ _ h h' => h'.trans h

/-- An action inside a function keeps the scopes, since it binds names in a frame that is
dropped. -/
theorem keepsScopes_framed {body : Walk α} (hsteady : Respects Run.Steady body)
    (hshelters : Respects Run.Shelters body) (locals : SortedMap String Value)
    (location : Location) : KeepsScopes (framed locals location body) := by
  intro r
  obtain ⟨changed, hlast⟩ :=
    hshelters (r.pushed locals) r.store.scopes.globals locals r.store.scopes.frames rfl
  rw [framed_eq hsteady, final_mapState]
  change (final (body (r.pushed locals))).store.scopes.pop = _
  rw [hlast]
  rfl

/-- Recording a step keeps the scopes. -/
theorem keepsScopes_emit (step : Step) : KeepsScopes (emit step) := by
  intro r
  rw [emit_eq]
  split <;> rfl

/-- Giving an id keeps the scopes. -/
theorem keepsScopes_idAt (location : Location) : KeepsScopes (idAt location) :=
  fun r => r.identified_scopes location

/-- A call keeps the scopes, however many calls may still nest. -/
theorem keepsScopes_callWithin (calls : Nat) (f : Procedure) (args : List Expr)
    (location : Location) : KeepsScopes (callWithin calls f args location) := by
  have hread : ∀ {γ : Type} (g : Scopes Value → Except Fault γ), KeepsScopes (reading g) :=
    fun g r => congrArg (·.store.scopes) (final_reading g r)
  have hcount : KeepsScopes (lift (f.checkCount args location)) :=
    hread fun _ => f.checkCount args location
  cases calls with
  | zero => exact hcount.bind fun _ _ => rfl
  | succ calls =>
    have hsteady := closed_steady.nestedAction (closed_steady.execAll calls f.body)
    have hshelters := closed_shelters.nestedAction (closed_shelters.execAll calls f.body)
    have hbody := fun locals => keepsScopes_framed hsteady hshelters locals location
    have hdepth : KeepsScopes depth := fun _ => rfl
    exact hcount.bind fun _ => (hread _).bind fun _ => (keepsScopes_idAt _).bind fun _ =>
      hdepth.bind fun _ => (keepsScopes_emit _).bind fun _ => (hbody _).bind fun _ =>
        (keepsScopes_emit _).bind fun _ _ => rfl

end Walk

/-- A call changes no variable of its callers. From any state and however many calls may still
nest, whatever the statements of the function do, the global bindings and all frames that
were there before the call are the same after it, whether it has a value or stops with a
fault. -/
theorem call_keeps_bindings (calls : Nat) (f : Procedure) (args : List Expr) (location : Location)
    (r : Run) :
    (final (callWithin calls f args location r)).store.scopes.globals = r.store.scopes.globals ∧
      (final (callWithin calls f args location r)).store.scopes.frames =
        r.store.scopes.frames := by
  have hscopes := keepsScopes_callWithin calls f args location r
  exact ⟨congrArg Scopes.globals hscopes, congrArg Scopes.frames hscopes⟩

namespace Run

/-- The run with other frames. -/
def withFrames (run : Run) (frames : List (SortedMap String Value)) : Run :=
  { run with store := { run.store with scopes := { run.store.scopes with frames } } }

/-- The run with other frames below that of the running function. -/
def above (run : Run) (outer : List (SortedMap String Value)) : Run :=
  run.withFrames (run.store.scopes.frames.take 1 ++ outer)

variable {r : Run} (h : r.store.inFunction = true)
include h

/-- A function that runs has a frame. -/
theorem exists_frame : ∃ own rest, r.store.scopes.frames = own :: rest := by
  refine List.exists_cons_of_ne_nil fun hnone => ?_
  simp [Store.inFunction, hnone] at h

/-- The running function sees the same memory over other frames. -/
theorem seen_above (outer : List (SortedMap String Value)) :
    (r.above outer).store.seen = r.store.seen := by
  obtain ⟨own, rest, hframes⟩ := exists_frame h
  simp [above, withFrames, Store.seen, Scopes.seen, hframes]

/-- The running function binds names in its own frame. -/
theorem bound_above (outer : List (SortedMap String Value)) (name : String) (value : Value) :
    (r.above outer).bound name value = (r.bound name value).above outer := by
  obtain ⟨own, rest, hframes⟩ := exists_frame h
  simp [above, withFrames, bound, Store.set, Scopes.bind, hframes]

/-- A function that ends uncovers the frames below its own. -/
theorem popped_above (frames : List (SortedMap String Value)) (location : Location) :
    (r.above frames).popped location = (r.popped location).withFrames frames := by
  obtain ⟨own, rest, hframes⟩ := exists_frame h
  simp [above, withFrames, popped, Scopes.pop, hframes]

end Run

namespace Walk

variable {α β : Type}

/-- Two changes of a result that agree on the state in which it has ended. -/
theorem mapState_congr {change change' : Run → Run} {result : EStateM.Result Fault Run α}
    (h : change (final result) = change' (final result)) :
    mapState change result = mapState change' result := by
  cases result with
  | ok a s | error a s => exact congrArg _ h

theorem mapState_mapState (change change' : Run → Run) (result : EStateM.Result Fault Run α) :
    mapState change' (mapState change result) = mapState (fun r => change' (change r)) result := by
  cases result <;> rfl

/-- The id of a place does not depend on the frames. -/
theorem idAt_withFrames (location : Location) (r : Run) (frames : List (SortedMap String Value)) :
    idAt location (r.withFrames frames) = mapState (·.withFrames frames) (idAt location r) := by
  unfold idAt Run.withFrames Store.idAt
  dsimp only
  split <;> rfl

/-- Whether a step can be recorded does not depend on the frames. -/
theorem emit_withFrames (step : Step) (r : Run) (frames : List (SortedMap String Value)) :
    emit step (r.withFrames frames) = mapState (·.withFrames frames) (emit step r) := by
  rw [emit_eq, emit_eq]
  change (if r.trace.isFull then _ else _) = mapState _ (if r.trace.isFull then _ else _)
  split <;> rfl

/-- What an action does from any frames it does inside a function over any others, if it keeps
the scopes. -/
theorem above_of_withFrames {m : Walk α} (hkeeps : KeepsScopes m) {r : Run}
    (h : ∀ frames, m (r.withFrames frames) = mapState (·.withFrames frames) (m r))
    (outer : List (SortedMap String Value)) :
    m (r.above outer) = mapState (·.above outer) (m r) := by
  refine (h _).trans (mapState_congr ?_)
  unfold Run.above
  rw [hkeeps r]

/-- An action that does the same inside a function, whatever the frames below that of the
function are. -/
structure Blind (m : Walk α) : Prop where
  steady : Respects Run.Steady m
  shelters : Respects Run.Shelters m
  same : ∀ r outer, r.store.inFunction = true → m (r.above outer) = mapState (·.above outer) (m r)

/-- One level deeper the same function runs. -/
theorem Blind.nested {m : Walk α} (h : Blind m) : Blind (Walk.nested m) := by
  refine ⟨closed_steady.nestedAction h.steady, closed_shelters.nestedAction h.shelters,
    fun r outer hr => ?_⟩
  have hsame : m (r.above outer).entered = mapState (·.above outer) (m r.entered) :=
    h.same r.entered outer hr
  rw [nested_eq h.steady, nested_eq h.steady, hsame, mapState_mapState, mapState_mapState]
  rfl

/-- An action inside a function does the same from any frames, and leaves them as they are. -/
theorem Blind.framed_withFrames {m : Walk α} (h : Blind m) (locals : SortedMap String Value)
    (location : Location) (r : Run) (frames : List (SortedMap String Value)) :
    framed locals location m (r.withFrames frames) =
      mapState (·.withFrames frames) (framed locals location m r) := by
  have hinside : (final (m (r.pushed locals))).store.inFunction = true :=
    (h.steady (r.pushed locals)).inFunction
  calc framed locals location m (r.withFrames frames)
    _ = mapState (·.popped location) (m ((r.pushed locals).above frames)) :=
      framed_eq h.steady locals location (r.withFrames frames)
    _ = mapState (fun s => (s.above frames).popped location) (m (r.pushed locals)) := by
      rw [h.same (r.pushed locals) frames rfl, mapState_mapState]
    _ = mapState (fun s => (s.popped location).withFrames frames) (m (r.pushed locals)) :=
      mapState_congr (Run.popped_above hinside frames location)
    _ = mapState (·.withFrames frames) (framed locals location m r) := by
      rw [framed_eq h.steady, mapState_mapState]

/-- Being blind for the frames below passes through each way of putting actions together. -/
theorem congruence_blind : Congruence fun {_} m _ => Blind m where
  pure a := ⟨closed_steady.congruence.pure a, closed_shelters.congruence.pure a,
    fun _ _ _ => rfl⟩
  throw fault h := ⟨closed_steady.congruence.throw fault h,
    closed_shelters.congruence.throw fault h, fun _ _ _ => rfl⟩
  bind {_ _ m _ k _} hm hk := by
    refine ⟨closed_steady.bind hm.steady fun a => (hk a).steady,
      closed_shelters.bind hm.shelters fun a => (hk a).shelters, fun r outer hr => ?_⟩
    have hsteady := hm.steady r
    change EStateM.bind m k (r.above outer) = mapState _ (EStateM.bind m k r)
    unfold EStateM.bind
    rw [hm.same r outer hr]
    cases hfirst : m r with
    | error fault s => rfl
    | ok a s =>
      rw [hfirst] at hsteady
      exact (hk a).same s outer (hsteady.inFunction.trans hr)
  consult k _ h := by
    refine ⟨fun r => (h r.store.seen).steady r, fun r => (h r.store.seen).shelters r,
      fun r outer hr => ?_⟩
    change k (r.above outer).store.seen (r.above outer) = mapState _ (k r.store.seen r)
    rw [Run.seen_above hr]
    exact (h r.store.seen).same r outer hr
  moveTo location := ⟨closed_steady.congruence.moveTo location,
    closed_shelters.congruence.moveTo location, fun _ _ _ => rfl⟩
  bindName name value := ⟨closed_steady.congruence.bindName name value,
    closed_shelters.congruence.bindName name value,
    fun r outer hr => congrArg (EStateM.Result.ok ()) (Run.bound_above hr outer name value)⟩
  emit step := ⟨closed_steady.emit step, closed_shelters.emit step,
    fun r outer _ => above_of_withFrames (keepsScopes_emit step) (emit_withFrames step r) outer⟩
  idAt location := ⟨closed_steady.congruence.idAt location,
    closed_shelters.congruence.idAt location, fun r outer _ =>
      above_of_withFrames (keepsScopes_idAt location) (idAt_withFrames location r) outer⟩
  defined f := ⟨closed_steady.congruence.defined f, closed_shelters.congruence.defined f,
    fun _ _ _ => rfl⟩
  nested h := h.nested
  framed {_ m _} locals location h := by
    refine ⟨closed_steady.framedAction locals location h.steady,
      closed_shelters.framedAction locals location h.shelters, fun r outer _ => ?_⟩
    -- The frame from which the function was called is still the innermost one after it.
    exact above_of_withFrames (keepsScopes_framed h.steady h.shelters locals location)
      (h.framed_withFrames locals location r) outer

/-- A call is blind for the frames below, however many calls may still nest. -/
theorem blind_callWithin (calls : Nat) (f : Procedure) (args : List Expr) (location : Location) :
    Blind (callWithin calls f args location) := by
  refine congruence_blind.callWithin (fun name place => ?_) calls f args location
  exact ⟨closed_steady.unchanged fun _ => rfl, closed_shelters.unchanged fun _ => rfl,
    fun _ _ _ => rfl⟩

/-- Statements are blind for the frames below. -/
theorem blind_execAll (calls : Nat) (body : List Stmt) :
    Blind (Stmt.execAll (callWithin calls) body) := by
  have hcaller := blind_callWithin calls
  exact (@Congruence.statements _ congruence_blind _ (callWithin calls) hcaller).2.2.1 body

/-- One action after another does the same with other frames, if each of them does where it
runs. -/
theorem bind_withFrames {m m' : Walk α} {k k' : α → Walk β} {r : Run}
    {frames : List (SortedMap String Value)}
    (hm : m' (r.withFrames frames) = mapState (·.withFrames frames) (m r))
    (hk : ∀ a s, m r = .ok a s →
      k' a (s.withFrames frames) = mapState (·.withFrames frames) (k a s)) :
    (m' >>= k') (r.withFrames frames) = mapState (·.withFrames frames) ((m >>= k) r) := by
  change EStateM.bind m' k' (r.withFrames frames) = mapState _ (EStateM.bind m k r)
  unfold EStateM.bind
  rw [hm]
  cases hfirst : m r with
  | error fault s => rfl
  | ok a s => exact hk a s hfirst

/-- A given result is the same with other frames. -/
theorem lift_withFrames (result : Except Fault α) (r : Run)
    (frames : List (SortedMap String Value)) :
    lift result (r.withFrames frames) = mapState (·.withFrames frames) (lift result r) := by
  cases result <;> rfl

/-- What is computed from the bindings is the same with other frames, if the results are. -/
theorem reading_withFrames {g g' : Scopes Value → Except Fault α} {r : Run}
    {frames : List (SortedMap String Value)}
    (h : g' (r.withFrames frames).store.scopes = g r.store.scopes) :
    reading g' (r.withFrames frames) = mapState (·.withFrames frames) (reading g r) := by
  unfold reading
  rw [h]
  exact lift_withFrames _ r frames

/-- A function does the same with other frames, if its arguments have the same values. -/
theorem invoke_withFrames {runBody : List Stmt → Walk Flow} {f : Procedure}
    (hbody : Blind (runBody f.body)) {args args' : List Expr} {r : Run}
    {frames : List (SortedMap String Value)} (location : Location)
    (hvalues : Expr.evalAll (r.withFrames frames).store.scopes args' =
      Expr.evalAll r.store.scopes args) :
    invoke runBody f args' location (r.withFrames frames) =
      mapState (·.withFrames frames) (invoke runBody f args location r) := by
  refine bind_withFrames (reading_withFrames hvalues) fun values s _ => ?_
  refine bind_withFrames (idAt_withFrames location s frames) fun id t _ => ?_
  refine bind_withFrames (m := depth) rfl fun d u _ => ?_
  refine bind_withFrames (emit_withFrames _ u frames) fun _ start _ => ?_
  have hframed := hbody.nested.framed_withFrames
    (.ofList (f.params.zip values)) location start frames
  refine bind_withFrames hframed fun flow last _ => ?_
  exact bind_withFrames (emit_withFrames _ last frames) fun _ _ _ => rfl

/-- A call does the same with other frames, if its arguments have the same values. -/
theorem callWithin_withFrames (calls : Nat) (f : Procedure) {args args' : List Expr} {r : Run}
    {frames : List (SortedMap String Value)} (location : Location)
    (hcount : args'.length = args.length)
    (hvalues : Expr.evalAll (r.withFrames frames).store.scopes args' =
      Expr.evalAll r.store.scopes args) :
    callWithin calls f args' location (r.withFrames frames) =
      mapState (·.withFrames frames) (callWithin calls f args location r) := by
  have hchecked : f.checkCount args' location = f.checkCount args location := by
    unfold Procedure.checkCount
    rw [hcount]
  have hcheck : lift (f.checkCount args' location) (r.withFrames frames) =
      mapState (·.withFrames frames) (lift (f.checkCount args location) r) := by
    rw [hchecked]
    exact lift_withFrames _ r frames
  cases calls with
  | zero => exact bind_withFrames hcheck fun _ _ _ => rfl
  | succ calls =>
    refine bind_withFrames hcheck fun _ s hs => ?_
    obtain ⟨-, rfl⟩ := lift_ok.1 hs
    exact invoke_withFrames (blind_execAll calls f.body) location hvalues

end Walk

/-- Two states of runs that agree in all but what the frames of the running functions hold. -/
structure Run.AgreeOutsideFrames (run other : Run) : Prop where
  /-- The global bindings. -/
  globals : other.store.scopes.globals = run.store.scopes.globals
  /-- The number of running functions. -/
  callDepth : other.store.callDepth = run.store.callDepth
  /-- The level of nesting. -/
  depth : other.store.depth = run.store.depth
  /-- The ids of places. -/
  places : other.store.places = run.store.places
  /-- The functions. -/
  functions : other.store.functions = run.store.functions
  /-- The limit of calls inside each other. -/
  callLimit : other.callLimit = run.callLimit
  /-- The log, and with it the limit of its steps. -/
  trace : other.trace = run.trace
  /-- The place of the current statement. -/
  here : other.here = run.here

namespace Run

/-- States that agree outside the frames differ by the frames. -/
theorem AgreeOutsideFrames.eq_withFrames {r r' : Run} (h : r.AgreeOutsideFrames r') :
    r' = r.withFrames r'.store.scopes.frames := by
  obtain ⟨hglobals, -, hdepth, hplaces, hfunctions, hlimit, htrace, hhere⟩ := h
  obtain ⟨limit', ⟨⟨globals', frames'⟩, depth', places', functions'⟩, trace', here'⟩ := r'
  cases hglobals
  cases hdepth
  cases hplaces
  cases hfunctions
  cases hlimit
  cases htrace
  cases hhere
  rfl

/-- As many other frames. -/
theorem agreeOutsideFrames_withFrames (r : Run) {frames : List (SortedMap String Value)}
    (h : frames.length = r.store.scopes.frames.length) :
    r.AgreeOutsideFrames (r.withFrames frames) :=
  ⟨rfl, h, rfl, rfl, rfl, rfl, rfl, rfl⟩

end Run

/-- Two actions that ended with the same value or with the same fault, in states that agree
outside the frames. -/
inductive Walk.EndAlike {α : Type} :
    EStateM.Result Fault Run α → EStateM.Result Fault Run α → Prop
  | ok (a : α) {s s' : Run} (h : s.AgreeOutsideFrames s') : EndAlike (.ok a s) (.ok a s')
  | error (fault : Fault) {s s' : Run} (h : s.AgreeOutsideFrames s') :
    EndAlike (.error fault s) (.error fault s')

namespace Walk.EndAlike

variable {α : Type} {result result' : EStateM.Result Fault Run α} (h : EndAlike result result')
include h

theorem ok_of_ok {a : α} {s : Run} (hok : result = .ok a s) :
    ∃ s', result' = .ok a s' ∧ s.AgreeOutsideFrames s' := by
  subst hok
  cases h with
  | ok _ hagree => exact ⟨_, rfl, hagree⟩

theorem error_of_error {fault : Fault} {s : Run} (herror : result = .error fault s) :
    ∃ s', result' = .error fault s' ∧ s.AgreeOutsideFrames s' := by
  subst herror
  cases h with
  | error _ hagree => exact ⟨_, rfl, hagree⟩

end Walk.EndAlike

/-- A function does not see the variables of its callers. From two states that agree in all
but what the frames hold, a call whose arguments have the same values ends with the same value
or the same fault. The two states after it agree again in all but what the frames hold, so the
call has recorded the same steps with the same places and sources. -/
theorem call_blind_to_frames {r r' : Run} (h : r.AgreeOutsideFrames r') (calls : Nat)
    (f : Procedure) {args args' : List Expr} (location : Location)
    (hcount : args.length = args'.length)
    (hvalues : Expr.evalAll r.store.scopes args = Expr.evalAll r'.store.scopes args') :
    EndAlike (callWithin calls f args location r) (callWithin calls f args' location r') := by
  have hlength : r'.store.scopes.frames.length = r.store.scopes.frames.length := h.callDepth
  have hkept := keepsScopes_callWithin calls f args location r
  have hsame : callWithin calls f args' location r' =
      mapState (·.withFrames r'.store.scopes.frames) (callWithin calls f args location r) := by
    have hvalues' := hvalues.symm
    rw [h.eq_withFrames] at hvalues' ⊢
    exact callWithin_withFrames calls f location hcount.symm hvalues'
  rw [hsame]
  cases hresult : callWithin calls f args location r with
  | ok value s =>
    rw [hresult] at hkept
    exact .ok value (s.agreeOutsideFrames_withFrames (by rw [hlength, ← hkept]; rfl))
  | error fault s =>
    rw [hresult] at hkept
    exact .error fault (s.agreeOutsideFrames_withFrames (by rw [hlength, ← hkept]; rfl))

namespace Sample

/-- A function that runs `x = n + k` and returns `x`. -/
def raising : Procedure :=
  ⟨"f", ["n"],
    [.assign [.name "x" ⟨2, 5⟩] (.binary .add (.name "n" ⟨2, 9⟩) (.name "k" ⟨2, 13⟩) ⟨2, 11⟩)
      ⟨2, 5⟩,
      .giveBack (some (.name "x" ⟨3, 12⟩)) ⟨3, 5⟩], ⟨1, 1⟩⟩

/-- A function that returns the value of a name that is none of its own. -/
def prying : Procedure := ⟨"g", [], [.giveBack (some (.name "x" ⟨5, 12⟩)) ⟨5, 5⟩], ⟨4, 1⟩⟩

/-- A state inside a function whose variable `a` is one, with a value for its variable `x`. The
global variable `k` is ten. -/
def holding (x : Int64) : Run :=
  { Run.start ⟨100, 3⟩ with
    store := { Store.empty with
      scopes := ⟨.ofList [("k", .int 10)], [.ofList [("a", .int 1), ("x", .int x)]]⟩ } }

end Sample

open Sample in
/-- Whatever `x` is for the caller, `f(a)` is eleven, and a function without an `x` finds none. -/
theorem callers_stay_hidden :
    (∃ value s s', value.text = "11" ∧
      callWithin 2 raising [.name "a" ⟨8, 9⟩] ⟨8, 7⟩ (holding 7) = .ok value s ∧
      callWithin 2 raising [.name "a" ⟨8, 9⟩] ⟨8, 7⟩ (holding 8) = .ok value s' ∧
      s.AgreeOutsideFrames s') ∧
    ∃ s s', callWithin 2 prying [] ⟨8, 7⟩ (holding 7) = .error (.unboundName "x" ⟨5, 12⟩) s ∧
      callWithin 2 prying [] ⟨8, 7⟩ (holding 8) = .error (.unboundName "x" ⟨5, 12⟩) s' ∧
      s.AgreeOutsideFrames s' := by
  have hagree : (holding 7).AgreeOutsideFrames (holding 8) :=
    ⟨rfl, rfl, rfl, rfl, rfl, rfl, rfl, rfl⟩
  have hseen : (EStateM.run' (callWithin 2 raising [.name "a" ⟨8, 9⟩] ⟨8, 7⟩) (holding 7)).map
      Value.text = some "11" := by
    decide +kernel
  have hpried : ∃ s, callWithin 2 prying [] ⟨8, 7⟩ (holding 7) =
      .error (.unboundName "x" ⟨5, 12⟩) s := ⟨_, rfl⟩
  obtain ⟨value, hvalue, htext⟩ := Option.map_eq_some_iff.mp hseen
  obtain ⟨s, hraised⟩ := run'_some.mp hvalue
  obtain ⟨t, hpried⟩ := hpried
  obtain ⟨s', hraised', hs⟩ :=
    (call_blind_to_frames hagree 2 raising ⟨8, 7⟩ rfl rfl).ok_of_ok hraised
  obtain ⟨t', hpried', ht⟩ :=
    (call_blind_to_frames hagree 2 prying ⟨8, 7⟩ rfl rfl).error_of_error hpried
  exact ⟨⟨value, s, s', htext, hraised, hraised', hs⟩, t, t', hpried, hpried', ht⟩

end Walkthrough
