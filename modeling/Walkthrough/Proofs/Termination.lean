import Walkthrough.Proofs.Course
import Walkthrough.Proofs.Functions

/-!
# Every run ends

Here is the run once more, told in the plain way: a call looks up the running functions in
the memory to see whether it is one too many, and nothing but a supply of fuel keeps the
recursion going. One unit is used up with each statement, each element of a list, each branch,
each pass of a loop and each call, and where the supply is gone the run is lost. From the program
and the limits alone one can tell a supply with which no run is lost. With it or with more the
run is the one that needs no fuel.
-/

namespace Walkthrough

open Walk

namespace Fuelled

mutual

/-- Runs a statement on fuel. -/
def exec (lost : Fault) : Nat → Stmt → Walk Flow
  | 0, _ => throw lost
  | fuel + 1, .assign targets value location => do
    moveTo location
    Walk.assign (call lost fuel) targets value location
    return .normal
  | fuel + 1, .loop target iterable body location => do
    moveTo location
    let name ← lift target.loopName
    let counter ← reading fun scopes => Expr.counter scopes name iterable
    let id ← idAt location
    passes lost fuel id body counter
  | fuel + 1, .choose branches alternative location => do
    moveTo location
    execBranches lost fuel .first alternative branches
  | _ + 1, .define name params body location => do
    moveTo location
    Walk.define ⟨name, params, body, location⟩
    return .normal
  | fuel + 1, .giveBack value location => do
    moveTo location
    return .returned (← Walk.giveBack (call lost fuel) value location)
  | fuel + 1, .expression value location => do
    moveTo location
    callStatement (call lost fuel) value
    return .normal

/-- Runs statements in order up to a return, on fuel. -/
def execAll (lost : Fault) : Nat → List Stmt → Walk Flow
  | 0, _ => throw lost
  | _ + 1, [] => return .normal
  | fuel + 1, statement :: others => do
    match ← exec lost fuel statement with
    | .returned value => return .returned value
    | .normal => execAll lost fuel others

/-- The passes of a loop, on fuel. -/
def passes (lost : Fault) : Nat → Nat → List Stmt → Counter → Walk Flow
  | 0, _, _, _ => throw lost
  | fuel + 1, id, body, counter => do
    if counter.inRange then
      startPass id counter
      match ← nested (execAll lost fuel body) with
      | .returned value => return .returned value
      | .normal => passes lost fuel id body counter.next
    else return .normal

/-- Runs the first branch whose condition holds, or else the alternative, on fuel. -/
def execBranches (lost : Fault) : Nat → BranchKind → Option Otherwise → List Branch → Walk Flow
  | 0, _, _, _ => throw lost
  | _ + 1, _, none, [] => return .normal
  | fuel + 1, _, some (.mk body location), [] => do
    enterAlternative location
    nested (execAll lost fuel body)
  | fuel + 1, kind, alternative, .mk condition body location :: others => do
    if ← test kind condition location then nested (execAll lost fuel body)
    else execBranches lost fuel .further alternative others

/-- Calls a function on fuel, unless too many functions are running. -/
def call (lost : Fault) : Nat → Caller
  | 0, _, _, _ => throw lost
  | fuel + 1, f, args, location => do
    lift (f.checkCount args location)
    let run ← get
    if run.callLimit ≤ run.store.callDepth then throw (.callLimit f.name run.callLimit location)
    else invoke (execAll lost fuel) f args location

end

end Fuelled

/-- Runs a program from the start on fuel, and is lost with a fault if there is too little. -/
def Program.runOn (program : Program) (lost : Fault) (limits : Limits) (fuel : Nat) :
    EStateM.Result Fault Run Flow :=
  Fuelled.execAll lost fuel program (Run.start limits)

namespace Stmt

mutual

/-- Enough fuel for a statement, calls apart. A loop makes fewer passes than there are integers,
and a definition counts its body, which runs when it is called. -/
def fuel : Stmt → Nat
  | .assign _ _ _ => 1
  | .loop _ _ body _ => Int64.size + 1 + fuelAll body
  | .choose branches alternative _ => 2 + branchFuel branches + otherwiseFuel alternative
  | .define _ _ body _ => 1 + fuelAll body
  | .giveBack _ _ => 1
  | .expression _ _ => 1

/-- Enough fuel for some statements, calls apart. -/
def fuelAll : List Stmt → Nat
  | [] => 1
  | statement :: others => 1 + statement.fuel + fuelAll others

/-- Enough fuel for some branches, calls and the alternative apart. -/
def branchFuel : List Branch → Nat
  | [] => 0
  | .mk _ body _ :: others => 1 + fuelAll body + branchFuel others

/-- Enough fuel for an alternative, calls apart. -/
def otherwiseFuel : Option Otherwise → Nat
  | none => 0
  | some (.mk body _) => fuelAll body

end

/-- A bound on fuel is handed on to the statements inside. -/
theorem inherited_fuel (bound : Nat) : Inherited (fuel · ≤ bound) (fuelAll · ≤ bound)
    (branchFuel · ≤ bound) (otherwiseFuel · ≤ bound) where
  loop h := by rw [fuel] at h; omega
  choose h := by rw [fuel] at h; omega
  define h := by rw [fuel] at h; omega
  cons h := by rw [fuelAll] at h; omega
  branch h := by rw [branchFuel] at h; omega
  otherwise h := by rwa [otherwiseFuel] at h

/-- A part of some statements needs no more fuel than they do. -/
theorem fuel_le_of_mem_allParts {part : Stmt} {body : List Stmt} (h : part ∈ allParts body) :
    part.fuel ≤ fuelAll body :=
  (inherited_fuel (fuelAll body)).allParts body (Nat.le_refl _) h

end Stmt

namespace Program

/-- Enough fuel for a call in a program where so many calls may still nest. -/
def callFuel (program : Program) (calls : Nat) : Nat := calls * (Stmt.fuelAll program + 1) + 1

/-- One call more needs fuel for one body more. -/
theorem callFuel_succ (program : Program) (calls : Nat) :
    program.callFuel (calls + 1) = program.callFuel calls + (Stmt.fuelAll program + 1) := by
  unfold callFuel
  rw [Nat.succ_mul]
  omega

/-- Enough fuel for the run of a program. -/
def fuel (program : Program) (limits : Limits) : Nat :=
  Stmt.fuelAll program + program.callFuel limits.calls

end Program

/-- A counter is fewer passes away from its stop than there are integers. -/
theorem Counter.distance_lt (c : Counter) : c.distance < Int64.size := by
  have hstop := c.stop.toInt_lt
  have hstop' := c.stop.le_toInt
  have hcurrent := c.current.toInt_lt
  have hcurrent' := c.current.le_toInt
  unfold distance Int64.size
  split <;> omega

namespace Walk

variable {α β : Type} {r : Run}

/-- One action after another agrees with two others if the first ones agree and the second ones
do where the first ones lead. -/
theorem bind_agree {m m' : Walk α} {k k' : α → Walk β} (hm : m r = m' r)
    (hk : ∀ a s, m' r = .ok a s → k a s = k' a s) : (m >>= k) r = (m' >>= k') r := by
  change EStateM.bind m k r = EStateM.bind m' k' r
  unfold EStateM.bind
  rw [hm]
  cases hr : m' r with
  | ok a s => exact hk a s hr
  | error fault s => rfl

/-- Actions within a scope agree if they do where the scope is entered. -/
theorem within_agree {enter : Run → Run} {leave : Run → EStateM.Result Unbalanced Run Unit}
    {body body' : Walk α} (h : body (enter r) = body' (enter r)) :
    within enter leave body r = within enter leave body' r := by
  unfold within
  rw [h]

/-- Two ways of calling functions agree in a state on the functions known there. -/
def AgreeAt (caller caller' : Caller) (r : Run) : Prop :=
  ∀ name f args location, r.store.function? name = some f →
    caller f args location r = caller' f args location r

namespace AgreeAt

variable {caller caller' : Caller} (h : AgreeAt caller caller' r)
include h

/-- Calls by name agree. -/
theorem callNamed (function : String) (args : List Expr) (location : Location) :
    Walk.callNamed caller function args location r =
      Walk.callNamed caller' function args location r := by
  by_cases hprint : function = "print"
  · unfold Walk.callNamed
    rw [if_pos hprint, if_pos hprint]
  · rw [callNamed_user hprint, callNamed_user hprint]
    refine bind_agree rfl fun now s hs => ?_
    obtain ⟨rfl, rfl⟩ := get_ok.1 hs
    cases hf : r.store.function? function with
    | some f => exact h function f args location hf
    | none => rfl

/-- Values are found in the same way. -/
theorem stagesOf (present : Scopes Value → Expr → Except Fault Staged) (e : Expr) :
    Walk.stagesOf caller present e r = Walk.stagesOf caller' present e r := by
  cases e with
  | call function args location => exact bind_agree (h.callNamed _ _ _) fun _ _ _ => rfl
  | _ => rfl

/-- Assignments agree. -/
theorem assign (targets : List Expr) (value : Expr) (location : Location) :
    Walk.assign caller targets value location r = Walk.assign caller' targets value location r := by
  refine bind_agree rfl fun names s hs => ?_
  obtain ⟨_, rfl⟩ := lift_ok.1 hs
  exact bind_agree (h.stagesOf _ value) fun _ _ _ => rfl

/-- Returns agree. -/
theorem giveBack (value : Option Expr) (location : Location) :
    Walk.giveBack caller value location r = Walk.giveBack caller' value location r := by
  refine bind_agree rfl fun now s hs => ?_
  obtain ⟨rfl, rfl⟩ := get_ok.1 hs
  cases value with
  | none => rfl
  | some e =>
    split
    · exact bind_agree (h.stagesOf _ e) fun _ _ _ => rfl
    · rfl

/-- Expressions on their own agree. -/
theorem callStatement (value : Expr) :
    Walk.callStatement caller value r = Walk.callStatement caller' value r := by
  cases value with
  | call function args location => exact bind_agree (h.callNamed _ _ _) fun _ _ _ => rfl
  | _ => rfl

end AgreeAt

/-- The limit of calls never changes. -/
theorem closed_callLimit : Closed fun r s => s.callLimit = r.callLimit where
  refl _ := rfl
  trans h h' := h'.trans h
  movedTo _ _ := rfl
  bound _ _ _ := rfl
  recorded _ _ _ := rfl
  identified _ _ := rfl
  defined _ _ := rfl
  nested h := by split <;> exact h
  framed _ _ h := by split <;> exact h

end Walk

/-- A state in which statements of a program may run with so many calls still to nest. -/
structure Run.Ready (program : Program) (calls : Nat) (run : Run) : Prop where
  /-- All functions that are known are those of the program. -/
  known : run.KnowsOnly program
  /-- The running functions and the calls still to nest add up to the limit. -/
  room : run.store.callDepth + calls = run.callLimit

namespace Run.Ready

variable {program : Program} {calls : Nat} {r s : Run}

/-- At the start all calls are still to nest. -/
theorem start (program : Program) (limits : Limits) :
    (Run.start limits).Ready program limits.calls :=
  ⟨.start limits, Nat.zero_add _⟩

/-- What leaves the functions, the frames and the limit alone leaves the run ready. -/
theorem of_eq (h : r.Ready program calls) (hfunctions : s.store.functions = r.store.functions)
    (hdepth : s.store.callDepth = r.store.callDepth) (hlimit : s.callLimit = r.callLimit) :
    s.Ready program calls :=
  ⟨h.known.of_eq hfunctions, by rw [hdepth, hlimit]; exact h.room⟩

/-- After an action that keeps to the program and ends in its frame the run is ready again. -/
theorem after {α : Type} {m : Walk α} {a : α} (h : r.Ready program calls)
    (hkeeps : Keeps program m) (hsteady : Respects Run.Steady m)
    (hlimit : Respects (fun r s => s.callLimit = r.callLimit) m) (hm : m r = .ok a s) :
    s.Ready program calls :=
  ⟨hkeeps h.known hm, by rw [(hsteady.ok hm).callDepth, hlimit.ok hm]; exact h.room⟩

/-- Inside a function that is called there is room for one call less. -/
theorem inside (h : r.Ready program (calls + 1)) (f : Procedure) (values : List Value)
    (location : Location) : (r.inside f values location).Ready program calls := by
  refine ⟨h.known.of_eq (r.functions_inside f values location), ?_⟩
  have hroom := h.room
  rw [callDepth_inside]
  change r.store.callDepth + 1 + calls = r.callLimit
  omega

end Run.Ready

namespace Fuelled

variable {lost : Fault} {program : Program} {calls : Nat}

/-- With enough fuel functions answer as they do without. -/
def CallsSuffice (lost : Fault) (program : Program) (calls : Nat) : Prop :=
  ∀ fuel r, program.callFuel calls ≤ fuel → r.Ready program calls →
    AgreeAt (call lost fuel) (callWithin calls) r

/-- With enough fuel a statement runs as it does without. -/
def SufficesFor (lost : Fault) (program : Program) (calls : Nat) (statement : Stmt) : Prop :=
  ∀ fuel r, statement.fuel + program.callFuel calls ≤ fuel → r.Ready program calls →
    exec lost fuel statement r = Stmt.exec (callWithin calls) statement r

/-- With enough fuel some statements run as they do without. -/
def Suffices (lost : Fault) (program : Program) (calls : Nat) (body : List Stmt) : Prop :=
  ∀ fuel r, Stmt.fuelAll body + program.callFuel calls ≤ fuel → r.Ready program calls →
    execAll lost fuel body r = Stmt.execAll (callWithin calls) body r

/-- With enough fuel the alternative of a choice does what an action does. -/
def SufficesElse (lost : Fault) (program : Program) (calls : Nat) (action : Walk Flow)
    (alternative : Option Otherwise) : Prop :=
  ∀ fuel kind r, 1 + Stmt.otherwiseFuel alternative + program.callFuel calls ≤ fuel →
    r.Ready program calls → execBranches lost fuel kind alternative [] r = action r

/-- With enough fuel the branches of a choice run as they do without, if its alternative does. -/
def SufficesBranches (lost : Fault) (program : Program) (calls : Nat) (kind : BranchKind)
    (action : Walk Flow) (branches : List Branch) : Prop :=
  ∀ alternative, SufficesElse lost program calls action alternative →
    ∀ fuel r, 1 + Stmt.branchFuel branches + Stmt.otherwiseFuel alternative +
      program.callFuel calls ≤ fuel → r.Ready program calls →
    execBranches lost fuel kind alternative branches r =
      Stmt.execBranches (callWithin calls) kind action branches r

/-- With enough fuel some statements run one level deeper as they do without. -/
theorem Suffices.nested {body : List Stmt} (h : Suffices lost program calls body) {fuel : Nat}
    {r : Run} (hfuel : Stmt.fuelAll body + program.callFuel calls ≤ fuel)
    (hr : r.Ready program calls) :
    Walk.nested (execAll lost fuel body) r =
      Walk.nested (Stmt.execAll (callWithin calls) body) r :=
  within_agree (h fuel r.entered hfuel (hr.of_eq rfl rfl rfl))

/-- The passes of a loop run as they do without fuel, if its body does. -/
theorem passes_eq {body : List Stmt} (hparts : Stmt.allParts body ⊆ Stmt.allParts program)
    (hbody : Suffices lost program calls body) (id : Nat) (counter : Counter) (fuel : Nat) (r : Run)
    (hfuel : counter.distance + 1 + Stmt.fuelAll body + program.callFuel calls ≤ fuel)
    (hr : r.Ready program calls) :
    passes lost fuel id body counter r =
      Walk.passes id (nested (Stmt.execAll (callWithin calls) body)) counter r := by
  induction counter using Walk.passes.induct generalizing fuel r with
  | case1 counter range ih =>
    obtain ⟨fuel, rfl⟩ : ∃ less, fuel = less + 1 := ⟨fuel - 1, by omega⟩
    rw [passes, Walk.passes.eq_def, if_pos range, dif_pos range]
    refine bind_agree rfl fun _ s hs => ?_
    have hs' := hr.after (Keeps.startPass id counter) (closed_steady.startPass id counter)
      (closed_callLimit.startPass id counter) hs
    refine bind_agree (hbody.nested (by omega) hs') fun flow t ht => ?_
    cases flow with
    | returned value => rfl
    | normal =>
      have hnext := Counter.distance_next_lt range
      refine ih fuel t (by omega) ?_
      exact hs'.after (Stmt.execAll_keeps calls hparts).nested
        (closed_steady.nestedAction (closed_steady.execAll calls body))
        (closed_callLimit.nestedAction (closed_callLimit.execAll calls body)) ht
  | case2 counter range =>
    obtain ⟨fuel, rfl⟩ : ∃ less, fuel = less + 1 := ⟨fuel - 1, by omega⟩
    rw [passes, Walk.passes.eq_def, if_neg range, dif_neg range]

/-- A statement that does nothing with its fuel but hand it on to the functions it calls runs as it
does without. -/
theorem calling_eq (hcalls : CallsSuffice lost program calls) (act : Caller → Walk Flow)
    {statement : Stmt} {location : Location} (hfuel : statement.fuel = 1)
    (hexec : ∀ fuel, exec lost (fuel + 1) statement =
      moveTo location >>= fun _ => act (call lost fuel))
    (hplain : Stmt.exec (callWithin calls) statement =
      moveTo location >>= fun _ => act (callWithin calls))
    (hact : ∀ {caller caller' r}, AgreeAt caller caller' r → act caller r = act caller' r) :
    SufficesFor lost program calls statement := by
  intro fuel r hsupply hr
  obtain ⟨fuel, rfl⟩ : ∃ less, fuel = less + 1 := ⟨fuel - 1, by omega⟩
  rw [hexec, hplain]
  refine bind_agree rfl fun _ s hs => ?_
  cases moveTo_ok.1 hs
  exact hact (hcalls fuel (r.movedTo location) (by omega) (hr.of_eq rfl rfl rfl))

theorem assign_eq (hcalls : CallsSuffice lost program calls) (targets : List Expr) (value : Expr)
    (location : Location) : SufficesFor lost program calls (.assign targets value location) :=
  calling_eq hcalls
    (fun caller => Walk.assign caller targets value location >>= fun _ => pure .normal)
    (by rw [Stmt.fuel]) (fun _ => by rw [exec]) (by rw [Stmt.exec])
    fun hagree => bind_agree (hagree.assign targets value location) fun _ _ _ => rfl

theorem giveBack_eq (hcalls : CallsSuffice lost program calls) (value : Option Expr)
    (location : Location) : SufficesFor lost program calls (.giveBack value location) :=
  calling_eq hcalls
    (fun caller => Walk.giveBack caller value location >>= fun given => pure (.returned given))
    (by rw [Stmt.fuel]) (fun _ => by rw [exec]) (by rw [Stmt.exec])
    fun hagree => bind_agree (hagree.giveBack value location) fun _ _ _ => rfl

theorem expression_eq (hcalls : CallsSuffice lost program calls) (value : Expr)
    (location : Location) : SufficesFor lost program calls (.expression value location) :=
  calling_eq hcalls (fun caller => callStatement caller value >>= fun _ => pure .normal)
    (by rw [Stmt.fuel]) (fun _ => by rw [exec]) (by rw [Stmt.exec])
    fun hagree => bind_agree (hagree.callStatement value) fun _ _ _ => rfl

theorem define_eq (name : String) (params : List String) (body : List Stmt)
    (location : Location) :
    SufficesFor lost program calls (.define name params body location) := by
  intro fuel r hfuel _
  rw [Stmt.fuel] at hfuel
  obtain ⟨fuel, rfl⟩ : ∃ less, fuel = less + 1 := ⟨fuel - 1, by omega⟩
  rw [exec, Stmt.exec]

/-- A loop runs as it does without fuel, since it makes fewer passes than there are integers. -/
theorem loop_eq {body : List Stmt} (hparts : Stmt.allParts body ⊆ Stmt.allParts program)
    (hbody : Suffices lost program calls body) (target iterable : Expr) (location : Location) :
    SufficesFor lost program calls (.loop target iterable body location) := by
  intro fuel r hfuel hr
  rw [Stmt.fuel] at hfuel
  obtain ⟨fuel, rfl⟩ : ∃ less, fuel = less + 1 := ⟨fuel - 1, by omega⟩
  rw [exec, Stmt.exec]
  refine bind_agree rfl fun _ s hs => ?_
  cases moveTo_ok.1 hs
  refine bind_agree rfl fun name s hs => ?_
  obtain ⟨_, rfl⟩ := lift_ok.1 hs
  refine bind_agree rfl fun counter s hs => ?_
  obtain ⟨_, rfl⟩ := reading_ok.1 hs
  refine bind_agree rfl fun id s hs => ?_
  obtain ⟨rfl, rfl⟩ := idAt_ok.1 hs
  have hdistance := counter.distance_lt
  refine passes_eq hparts hbody _ counter fuel _ (by omega) ?_
  exact hr.of_eq (Run.functions_identified _ location)
    (closed_steady.identified (r.movedTo location) location).callDepth rfl

theorem choose_eq {branches : List Branch} {alternative : Option Otherwise} {action : Walk Flow}
    (haction : action = Stmt.execAlternative (callWithin calls) alternative)
    (halternative : SufficesElse lost program calls action alternative)
    (hbranches : SufficesBranches lost program calls .first action branches)
    (location : Location) :
    SufficesFor lost program calls (.choose branches alternative location) := by
  intro fuel r hfuel hr
  rw [Stmt.fuel] at hfuel
  obtain ⟨fuel, rfl⟩ : ∃ less, fuel = less + 1 := ⟨fuel - 1, by omega⟩
  rw [exec, Stmt.exec, ← haction]
  refine bind_agree rfl fun _ s hs => ?_
  cases moveTo_ok.1 hs
  exact hbranches alternative halternative fuel _ (by omega) (hr.of_eq rfl rfl rfl)

theorem nil_eq : Suffices lost program calls [] := by
  intro fuel r hfuel _
  rw [Stmt.fuelAll] at hfuel
  obtain ⟨fuel, rfl⟩ : ∃ less, fuel = less + 1 := ⟨fuel - 1, by omega⟩
  rw [execAll, Stmt.execAll]

/-- Statements in order run as they do without fuel. The later ones start with what the earlier
ones have left of the memory, which is still ready. -/
theorem cons_eq {statement : Stmt} {others : List Stmt}
    (hparts : statement.parts ⊆ Stmt.allParts program)
    (hstatement : SufficesFor lost program calls statement)
    (hothers : Suffices lost program calls others) :
    Suffices lost program calls (statement :: others) := by
  intro fuel r hfuel hr
  rw [Stmt.fuelAll] at hfuel
  obtain ⟨fuel, rfl⟩ : ∃ less, fuel = less + 1 := ⟨fuel - 1, by omega⟩
  rw [execAll, Stmt.execAll]
  refine bind_agree (hstatement fuel r (by omega) hr) fun flow s hs => ?_
  cases flow with
  | returned value => rfl
  | normal =>
    refine hothers fuel s (by omega) ?_
    exact hr.after (Stmt.exec_keeps calls hparts) (closed_steady.exec calls statement)
      (closed_callLimit.exec calls statement) hs

theorem noBranch_eq (kind : BranchKind) (action : Walk Flow) :
    SufficesBranches lost program calls kind action [] := by
  intro alternative haction fuel r hfuel hr
  rw [Stmt.branchFuel] at hfuel
  rw [Stmt.execBranches]
  exact haction fuel kind r (by omega) hr

theorem branch_eq {body : List Stmt} {others : List Branch} {action : Walk Flow}
    (hbody : Suffices lost program calls body)
    (hothers : SufficesBranches lost program calls .further action others) (kind : BranchKind)
    (condition : Expr) (location : Location) :
    SufficesBranches lost program calls kind action (.mk condition body location :: others) := by
  intro alternative haction fuel r hfuel hr
  rw [Stmt.branchFuel] at hfuel
  obtain ⟨fuel, rfl⟩ : ∃ less, fuel = less + 1 := ⟨fuel - 1, by omega⟩
  rw [execBranches, Stmt.execBranches]
  refine bind_agree rfl fun passed s hs => ?_
  have hs' := hr.after (Keeps.test kind condition location)
    (closed_steady.test kind condition location)
    (closed_callLimit.test kind condition location) hs
  cases passed with
  | true => exact hbody.nested (by omega) hs'
  | false => exact hothers alternative haction fuel s (by omega) hs'

theorem noAlternative_eq :
    SufficesElse lost program calls (Stmt.execAlternative (callWithin calls) none) none := by
  intro fuel kind r hfuel _
  obtain ⟨fuel, rfl⟩ : ∃ less, fuel = less + 1 := ⟨fuel - 1, by omega⟩
  rw [execBranches, Stmt.execAlternative]

theorem alternative_eq {body : List Stmt} (hbody : Suffices lost program calls body)
    (location : Location) :
    SufficesElse lost program calls
      (Stmt.execAlternative (callWithin calls) (some (.mk body location)))
      (some (.mk body location)) := by
  intro fuel kind r hfuel hr
  rw [Stmt.otherwiseFuel] at hfuel
  obtain ⟨fuel, rfl⟩ : ∃ less, fuel = less + 1 := ⟨fuel - 1, by omega⟩
  rw [execBranches, Stmt.execAlternative]
  refine bind_agree rfl fun _ s hs => ?_
  have hs' := hr.after (Keeps.enterAlternative location)
    (closed_steady.enterAlternative location) (closed_callLimit.enterAlternative location) hs
  exact hbody.nested (by omega) hs'

/-- The statements of a program run as they do without fuel, if the functions they call do. -/
theorem statements_eq (hcalls : CallsSuffice lost program calls) (body : List Stmt)
    (hparts : Stmt.allParts body ⊆ Stmt.allParts program) : Suffices lost program calls body := by
  have hall := Stmt.exec.mutual_induct (callWithin calls)
    (fun statement => statement.parts ⊆ Stmt.allParts program →
      SufficesFor lost program calls statement)
    (fun alternative => Stmt.otherwiseParts alternative ⊆ Stmt.allParts program →
      SufficesElse lost program calls (Stmt.execAlternative (callWithin calls) alternative)
        alternative)
    (fun body => Stmt.allParts body ⊆ Stmt.allParts program → Suffices lost program calls body)
    (fun kind action branches => Stmt.branchParts branches ⊆ Stmt.allParts program →
      SufficesBranches lost program calls kind action branches)
    (fun targets value location _ => assign_eq hcalls targets value location)
    (fun target iterable body location hbody hparts => by
      rw [Stmt.parts, List.cons_subset] at hparts
      exact loop_eq hparts.2 (hbody hparts.2) target iterable location)
    (fun branches alternative location halternative hbranches hparts => by
      rw [Stmt.parts, List.cons_subset, List.append_subset] at hparts
      exact choose_eq rfl (halternative hparts.2.2) (hbranches hparts.2.1) location)
    (fun name params body location _ => define_eq name params body location)
    (fun value location _ => giveBack_eq hcalls value location)
    (fun value location _ => expression_eq hcalls value location)
    (fun _ => nil_eq)
    (fun statement others hstatement hothers hparts => by
      rw [Stmt.allParts, List.append_subset] at hparts
      exact cons_eq hparts.1 (hstatement hparts.1) (hothers hparts.2))
    (fun kind action _ => noBranch_eq kind action)
    (fun kind action condition body location others hbody hothers hparts => by
      rw [Stmt.branchParts, List.append_subset] at hparts
      exact branch_eq (hbody hparts.1) (hothers hparts.2) kind condition location)
    (fun _ => noAlternative_eq)
    (fun body location hbody hparts => alternative_eq (hbody hparts) location)
  exact hall.2.2.1 body hparts

/-- Calls answer as they do without fuel, by the number of calls that may still nest. -/
theorem call_eq (lost : Fault) (program : Program) (calls : Nat) :
    CallsSuffice lost program calls := by
  induction calls with
  | zero =>
    intro fuel r hfuel hr name f args location _
    rw [Program.callFuel] at hfuel
    obtain ⟨fuel, rfl⟩ : ∃ less, fuel = less + 1 := ⟨fuel - 1, by omega⟩
    have hroom := hr.room
    refine bind_agree rfl fun _ s hs => ?_
    obtain ⟨_, rfl⟩ := lift_ok.1 hs
    refine bind_agree rfl fun now s hs => ?_
    obtain ⟨rfl, rfl⟩ := get_ok.1 hs
    rw [if_pos (by omega)]
  | succ calls ih =>
    intro fuel r hfuel hr name f args location hf
    have hdefinition := hr.known name f hf
    have hbodyFuel := Stmt.fuel_le_of_mem_allParts (hdefinition f.definition.mem_parts)
    rw [Procedure.definition, Stmt.fuel] at hbodyFuel
    have hbodyParts : Stmt.allParts f.body ⊆ Stmt.allParts program :=
      fun part hpart => hdefinition (List.mem_cons_of_mem _ hpart)
    rw [Program.callFuel_succ] at hfuel
    obtain ⟨fuel, rfl⟩ : ∃ less, fuel = less + 1 := ⟨fuel - 1, by omega⟩
    have hroom := hr.room
    refine bind_agree rfl fun _ s hs => ?_
    obtain ⟨_, rfl⟩ := lift_ok.1 hs
    change (if r.callLimit ≤ r.store.callDepth then _ else invoke (execAll lost fuel) f args
      location : Walk Value) r = _
    rw [if_neg (by omega)]
    refine bind_agree rfl fun values s hs => ?_
    obtain ⟨_, rfl⟩ := reading_ok.1 hs
    refine bind_agree rfl fun id s hs => ?_
    obtain ⟨rfl, rfl⟩ := idAt_ok.1 hs
    refine bind_agree rfl fun depth s hs => ?_
    obtain ⟨rfl, rfl⟩ := depth_ok.1 hs
    refine bind_agree rfl fun _ s hs => ?_
    obtain ⟨_, rfl⟩ := emit_ok.1 hs
    refine bind_agree (within_agree (within_agree ?_)) fun _ _ _ => rfl
    refine statements_eq ih f.body hbodyParts fuel _ (by omega) ?_
    rw [Run.identified_depth]
    exact hr.inside f values location

end Fuelled

/-- With enough fuel a program runs as it does without. -/
theorem Program.runOn_eq (program : Program) (lost : Fault) (limits : Limits) {fuel : Nat}
    (hfuel : program.fuel limits ≤ fuel) : program.runOn lost limits fuel = program.run limits :=
  Fuelled.statements_eq (Fuelled.call_eq lost program limits.calls) program
    (List.Subset.refl _) fuel _ hfuel (.start program limits)

/-- Every run ends. From an amount of fuel on that depends on the program and the limits alone, a
run on fuel has the same outcome, whatever it would be lost with, so that it is never lost:
either it succeeds, and the trace of the program is its log, or it stops with a fault, which is
then the fault of the program. -/
theorem every_run_ends (program : Program) (limits : Limits) :
    (∃ flow last, program.trace limits = .ok last.trace ∧
      ∀ lost more, program.runOn lost limits (program.fuel limits + more) = .ok flow last) ∨
    (∃ fault last, program.trace limits = .error fault ∧
      ∀ lost more, program.runOn lost limits (program.fuel limits + more) =
        .error fault last) := by
  have hsame : ∀ lost more,
      program.runOn lost limits (program.fuel limits + more) = program.run limits :=
    fun lost more => program.runOn_eq lost limits (Nat.le_add_right _ more)
  cases hrun : program.run limits with
  | ok flow last =>
    refine .inl ⟨flow, last, Program.trace_ok.mpr ⟨flow, last, hrun, rfl⟩, fun lost more => ?_⟩
    rw [hsame, hrun]
  | error fault last =>
    refine .inr ⟨fault, last, Program.trace_error.mpr ⟨last, hrun⟩, fun lost more => ?_⟩
    rw [hsame, hrun]

end Walkthrough
