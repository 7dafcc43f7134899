import Mathlib

/-!
# Scanners

A scanner takes elements off the front of a list as long as its state allows the next one.
-/

namespace Sipnab.Scanner

variable {σ α : Type} (step : σ → α → Option σ)

def scan : σ → List α → List α × List α
  | _, [] => ([], [])
  | st, a :: l =>
    match step st a with
    | none => ([], a :: l)
    | some st' => (a :: (scan st' l).1, (scan st' l).2)

variable {step}

variable {st : σ} {a : α} {l : List α}

theorem scan_cons_of_none (h : step st a = none) (l : List α) :
    scan step st (a :: l) = ([], a :: l) := by
  rw [scan, h]

theorem scan_cons_of_some {st' : σ} (h : step st a = some st') (l : List α) :
    scan step st (a :: l) = (a :: (scan step st' l).1, (scan step st' l).2) := by
  rw [scan, h]

@[simp] theorem scan_fst_append_snd (st : σ) (l : List α) :
    (scan step st l).1 ++ (scan step st l).2 = l := by
  induction l generalizing st with
  | nil => rfl
  | cons a l ih =>
    cases h : step st a with
    | none => rw [scan_cons_of_none h]; rfl
    | some st' => rw [scan_cons_of_some h, List.cons_append, ih]

theorem scan_append (h : (scan step st l).2 ≠ []) (m : List α) :
    scan step st (l ++ m) = ((scan step st l).1, (scan step st l).2 ++ m) := by
  induction l generalizing st with
  | nil => exact absurd rfl h
  | cons a l ih =>
    cases hstep : step st a with
    | none => rw [List.cons_append, scan_cons_of_none hstep, scan_cons_of_none hstep]; rfl
    | some st' =>
      rw [scan_cons_of_some hstep] at h
      rw [List.cons_append, scan_cons_of_some hstep, scan_cons_of_some hstep, ih h]

/-- A scan that took a whole list goes on behind it as it does before one more element, when it
stops there. -/
theorem scan_append_cons (h : scan step st (l ++ [a]) = (l, [a])) (m : List α) :
    scan step st (l ++ a :: m) = (l, a :: m) := by
  have hne : (scan step st (l ++ [a])).2 ≠ [] := by
    rw [h]
    exact List.cons_ne_nil _ _
  have happend := scan_append hne m
  rw [h] at happend
  simpa using happend

theorem scan_append_singleton (h : (scan step st l).2 = []) (a : α) :
    scan step st (l ++ [a]) = (l, [a]) ∨ scan step st (l ++ [a]) = (l ++ [a], []) := by
  induction l generalizing st with
  | nil =>
    cases hstep : step st a with
    | none => exact Or.inl (scan_cons_of_none hstep [])
    | some st' => exact Or.inr (scan_cons_of_some hstep [])
  | cons b l ih =>
    cases hstep : step st b with
    | none =>
      rw [scan_cons_of_none hstep] at h
      cases h
    | some st' =>
      rw [scan_cons_of_some hstep] at h
      rw [List.cons_append, scan_cons_of_some hstep]
      obtain hstop | htake := ih h
      · exact Or.inl (by rw [hstop])
      · exact Or.inr (by rw [htake])

theorem scan_append_stop (h : (scan step st l).2 = []) (hstop : ∀ st, step st a = none)
    (m : List α) : scan step st (l ++ a :: m) = (l, a :: m) := by
  induction l generalizing st with
  | nil => exact scan_cons_of_none (hstop st) m
  | cons b l ih =>
    cases hstep : step st b with
    | none =>
      rw [scan_cons_of_none hstep] at h
      cases h
    | some st' =>
      rw [scan_cons_of_some hstep] at h
      rw [List.cons_append, scan_cons_of_some hstep, ih h]

end Sipnab.Scanner
