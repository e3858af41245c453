import Walkthrough.Proofs.Invariants

/-!
# Scopes are always left

Every action ends on the level of nesting and in the function in which it started,
whether it succeeds or stops with a fault. So a scope that was entered can always be left.
-/

namespace Walkthrough

namespace Run

/-- A later state on the same level of nesting and in the same function, whose log has
the same limit and has not become shorter. -/
structure Steady (run later : Run) : Prop where
  /-- The level of nesting is the same. -/
  depth : later.store.depth = run.store.depth
  /-- As many functions are running. -/
  callDepth : later.store.callDepth = run.store.callDepth
  /-- The log is as long as before, or longer. -/
  length : run.trace.length ≤ later.trace.length
  /-- The log has the same limit. -/
  limit : later.trace.limit = run.trace.limit

/-- As many functions are running, so one is if one was. -/
theorem Steady.inFunction {r s : Run} (h : r.Steady s) :
    s.store.inFunction = r.store.inFunction := by
  have hlength : s.store.scopes.frames.length = r.store.scopes.frames.length := h.callDepth
  unfold Store.inFunction
  cases hr : r.store.scopes.frames <;> cases hs : s.store.scopes.frames <;> simp_all

end Run

namespace Walk

open Run

variable {α : Type}

/-- Every action ends where it started, and with a log of the same limit. -/
theorem closed_steady : Closed Steady where
  refl _ := ⟨rfl, rfl, Nat.le_refl _, rfl⟩
  trans h h' := ⟨h'.depth.trans h.depth, h'.callDepth.trans h.callDepth,
    Nat.le_trans h.length h'.length, h'.limit.trans h.limit⟩
  movedTo _ _ := ⟨rfl, rfl, Nat.le_refl _, rfl⟩
  bound r name value := by
    refine ⟨rfl, ?_, Nat.le_refl _, rfl⟩
    unfold Run.bound Store.set Scopes.bind Store.callDepth
    cases r.store.scopes.frames <;> rfl
  recorded r step _ := by
    refine ⟨rfl, rfl, ?_, rfl⟩
    simp [Run.recorded, Trace.append, Trace.length]
  identified r location := by
    obtain ⟨places, hstore⟩ := r.identified_store location
    exact ⟨by rw [hstore], by rw [hstore]; rfl, Nat.le_refl _, rfl⟩
  defined _ _ := ⟨rfl, rfl, Nat.le_refl _, rfl⟩
  nested {r s} h := by
    have hdepth : s.store.depth = r.store.depth + 1 := h.depth
    rw [if_neg (by omega)]
    exact ⟨by change s.store.depth - 1 = _; omega, h.callDepth, h.length, h.limit⟩
  framed {r s} locals location h := by
    have hframes : s.store.scopes.frames.length = r.store.scopes.frames.length + 1 := h.callDepth
    have hsome : s.store.scopes.frames ≠ [] := by
      intro hnone
      simp [hnone] at hframes
    rw [if_neg hsome]
    refine ⟨h.depth, ?_, h.length, h.limit⟩
    change s.store.scopes.frames.tail.length = _
    rw [List.length_tail, hframes]
    rfl

/-- The same outcome in a changed state. -/
def mapState (change : Run → Run) : EStateM.Result Fault Run α → EStateM.Result Fault Run α
  | .ok a run => .ok a (change run)
  | .error fault run => .error fault (change run)

@[simp] theorem final_mapState (change : Run → Run) (result : EStateM.Result Fault Run α) :
    final (mapState change result) = change (final result) := by
  cases result <;> rfl

/-- A level of nesting that was entered can be left. -/
theorem nested_eq {body : Walk α} (h : Respects Steady body) (r : Run) :
    nested body r = mapState exited (body r.entered) := by
  have hdepth : (final (body r.entered)).store.depth = r.store.depth + 1 := (h r.entered).depth
  unfold nested within
  change (match body r.entered with | .ok a after => _ | .error fault after => _) = _
  cases hresult : body r.entered with
  | ok a s | error a s =>
    rw [hresult] at hdepth
    have hdeeper : s.store.depth ≠ 0 := by
      change s.store.depth = _ at hdepth
      omega
    simp only [leaving_exitScope, if_neg hdeeper, mapState]

/-- A function that was entered can be left. -/
theorem framed_eq {body : Walk α} (h : Respects Steady body) (locals : SortedMap String Value)
    (location : Location) (r : Run) :
    framed locals location body r = mapState (·.popped location) (body (r.pushed locals)) := by
  have hframes : (final (body (r.pushed locals))).store.scopes.frames.length =
      r.store.scopes.frames.length + 1 := (h (r.pushed locals)).callDepth
  unfold framed within
  change (match body (r.pushed locals) with | .ok a after => _ | .error fault after => _) = _
  cases hresult : body (r.pushed locals) with
  | ok a s | error a s =>
    rw [hresult] at hframes
    have hsome : s.store.scopes.frames ≠ [] := by
      intro hnone
      simp [final, hnone] at hframes
    simp only [leaving_popFrame, if_neg hsome, mapState]

end Walk

end Walkthrough
