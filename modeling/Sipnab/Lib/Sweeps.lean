import Mathlib

/-!
# Sweeps over a list

A register is carried along a list and every place is changed with it, by a numbered step. Several
sweeps number their steps on. Steps that can be undone make sweeps that can be undone, from the last
place of the last sweep to the first of the first.
-/

namespace Sipnab.Sweeps

variable {α β : Type*}

def sweep (step : ℕ → α × β → α × β) : ℕ → α → List β → α × List β
  | _, register, [] => (register, [])
  | n, register, x :: xs =>
    let s := step n (register, x)
    let rest := sweep step (n + 1) s.1 xs
    (rest.1, s.2 :: rest.2)

def sweepBack (step : ℕ → α × β → α × β) : ℕ → α → List β → α × List β
  | _, register, [] => (register, [])
  | n, register, x :: xs =>
    let rest := sweepBack step (n + 1) register xs
    let s := step n (rest.1, x)
    (s.1, s.2 :: rest.2)

/-- One sweep after the other, each with the number of its first step. -/
def sweeps (step : ℕ → α × β → α × β) (first : ℕ → ℕ) : ℕ → α × List β → α × List β
  | 0, s => s
  | rounds + 1, s =>
    let s := sweeps step first rounds s
    sweep step (first rounds) s.1 s.2

def sweepsBack (step : ℕ → α × β → α × β) (first : ℕ → ℕ) : ℕ → α × List β → α × List β
  | 0, s => s
  | rounds + 1, s => sweepsBack step first rounds (sweepBack step (first rounds) s.1 s.2)

variable {step back : ℕ → α × β → α × β}

@[simp] theorem length_sweep (n : ℕ) (register : α) (xs : List β) :
    (sweep step n register xs).2.length = xs.length := by
  induction xs generalizing n register with
  | nil => rfl
  | cons x xs ih => simp only [sweep, List.length_cons, ih]

@[simp] theorem length_sweeps (first : ℕ → ℕ) (rounds : ℕ) (s : α × List β) :
    (sweeps step first rounds s).2.length = s.2.length := by
  induction rounds with
  | zero => rfl
  | succ rounds ih =>
    simp only [sweeps]
    rw [length_sweep, ih]

theorem sweepBack_sweep (h : ∀ n s, back n (step n s) = s) (n : ℕ) (register : α) (xs : List β) :
    sweepBack back n (sweep step n register xs).1 (sweep step n register xs).2 =
      (register, xs) := by
  induction xs generalizing n register with
  | nil => rfl
  | cons x xs ih =>
    have hrest := ih (n + 1) (step n (register, x)).1
    have hstep := h n (register, x)
    simp only [sweep, sweepBack, hrest, hstep]

theorem sweepsBack_sweeps (h : ∀ n s, back n (step n s) = s) (first : ℕ → ℕ) (rounds : ℕ)
    (s : α × List β) : sweepsBack back first rounds (sweeps step first rounds s) = s := by
  induction rounds with
  | zero => rfl
  | succ rounds ih =>
    simp only [sweeps, sweepsBack]
    rw [sweepBack_sweep h, ih]

end Sipnab.Sweeps
