import Mathlib

/-!
# Runs of a machine

A machine takes an action where the action is possible, and shows some events. A run takes one
action after the other.
-/

namespace Sipnab

variable {σ α ε : Type*}

/-- The state that the actions lead to, and the events on the way. -/
def run (step : σ → α → Option (σ × List ε)) (start : σ) (actions : List α) : Option (σ × List ε) :=
  actions.foldlM (fun reached action =>
    (step reached.1 action).map (fun next => (next.1, reached.2 ++ next.2))) (start, [])

section Run

variable {step : σ → α → Option (σ × List ε)} {start s : σ} {actions : List α} {trace : List ε}

@[simp] theorem run_nil : run step start [] = some (start, []) := rfl

theorem run_concat {action : α} : run step start (actions ++ [action]) = some (s, trace) ↔
    ∃ before seen shown, run step start actions = some (before, seen) ∧
      step before action = some (s, shown) ∧ trace = seen ++ shown := by
  rw [run, List.foldlM_append]
  constructor
  · intro h
    obtain ⟨⟨before, seen⟩, hbefore, hlast⟩ := Option.bind_eq_some_iff.mp h
    rw [List.foldlM_cons] at hlast
    obtain ⟨reached, hstep, hpure⟩ := Option.bind_eq_some_iff.mp hlast
    obtain ⟨⟨next, shown⟩, hnext, rfl⟩ := Option.map_eq_some_iff.mp hstep
    obtain ⟨rfl, rfl⟩ := Prod.mk.inj (Option.some.inj hpure)
    exact ⟨before, seen, shown, hbefore, hnext, rfl⟩
  · rintro ⟨before, seen, shown, hbefore, hstep, rfl⟩
    refine Option.bind_eq_some_iff.mpr ⟨(before, seen), hbefore, ?_⟩
    simp [hstep]

theorem run_invariant {P : List α → σ → List ε → Prop} (hstart : P [] start [])
    (hstep : ∀ before s trace action next shown, run step start before = some (s, trace) →
      P before s trace → step s action = some (next, shown) →
      P (before ++ [action]) next (trace ++ shown))
    (hrun : run step start actions = some (s, trace)) : P actions s trace := by
  induction actions using List.reverseRecOn generalizing s trace with
  | nil =>
    obtain ⟨rfl, rfl⟩ := Prod.mk.inj (Option.some.inj hrun)
    exact hstart
  | append_singleton actions action ih =>
    obtain ⟨before, seen, shown, hbefore, hlast, rfl⟩ := run_concat.mp hrun
    exact hstep actions before seen action s shown hbefore (ih hbefore) hlast

theorem run_append {later : List α} (hrun : run step start (actions ++ later) = some (s, trace)) :
    ∃ middle seen shown, run step start actions = some (middle, seen) ∧
      run step middle later = some (s, shown) ∧ trace = seen ++ shown := by
  induction later using List.reverseRecOn generalizing s trace with
  | nil =>
    rw [List.append_nil] at hrun
    exact ⟨s, trace, [], hrun, rfl, (List.append_nil _).symm⟩
  | append_singleton later action ih =>
    rw [← List.append_assoc] at hrun
    obtain ⟨before, seen, shown, hbefore, hlast, rfl⟩ := run_concat.mp hrun
    obtain ⟨middle, first, rest, hfirst, hrest, rfl⟩ := ih hbefore
    refine ⟨middle, first, rest ++ shown, hfirst, ?_, List.append_assoc _ _ _⟩
    exact run_concat.mpr ⟨before, rest, shown, hrest, hlast, rfl⟩

end Run

end Sipnab
