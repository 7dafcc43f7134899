import Mathlib

/-!
# The depth of brackets

A list some of whose elements open or close a bracket is walked with a depth. A closing bracket
with nothing to close leaves the depth at zero.
-/

namespace Sipnab.Nesting

inductive Bracket
  | opening | closing
  deriving DecidableEq

variable {α β : Type} (mark : α → Option Bracket)

def step (d : ℕ) (a : α) : ℕ :=
  match mark a with
  | some .opening => d + 1
  | some .closing => d - 1
  | none => d

def depthAfter (d : ℕ) (l : List α) : ℕ := l.foldl (step mark) d

def peak : ℕ → List α → ℕ
  | d, [] => d
  | d, a :: l => max d (peak (step mark d a) l)

/-- Every bracket is closed, and none but what was opened: `d` of them before the list. -/
def closes : ℕ → List α → Bool
  | d, [] => d == 0
  | d, a :: l =>
    match mark a, d with
    | some .opening, d => closes (d + 1) l
    | some .closing, 0 => false
    | some .closing, d + 1 => closes d l
    | none, d => closes d l

variable {d' : ℕ} (d k : ℕ) (a : α) (l : List α)

theorem depthAfter_cons : depthAfter mark d (a :: l) = depthAfter mark (step mark d a) l := rfl

theorem depthAfter_append (m : List α) :
    depthAfter mark d (l ++ m) = depthAfter mark (depthAfter mark d l) m := List.foldl_append

theorem le_peak : d ≤ peak mark d l := by
  cases l with
  | nil => exact le_rfl
  | cons a l => exact le_max_left _ _

theorem depthAfter_le_peak : depthAfter mark d l ≤ peak mark d l := by
  induction l generalizing d with
  | nil => exact le_rfl
  | cons a l ih => exact (ih (step mark d a)).trans (le_max_right _ _)

theorem peak_append (m : List α) :
    peak mark d (l ++ m) = max (peak mark d l) (peak mark (depthAfter mark d l) m) := by
  induction l generalizing d with
  | nil => exact (max_eq_right (le_peak mark d m)).symm
  | cons a l ih =>
    rw [List.cons_append, peak, ih, peak, depthAfter_cons, max_assoc]

variable {mark}

theorem step_mono {d : ℕ} (h : d ≤ d') (a : α) : step mark d a ≤ step mark d' a := by
  unfold step
  split <;> omega

theorem peak_mono {d : ℕ} (h : d ≤ d') (l : List α) : peak mark d l ≤ peak mark d' l := by
  induction l generalizing d d' with
  | nil => exact h
  | cons a l ih => exact max_le_max h (ih (step_mono h a))

theorem step_add_le : step mark (d + k) a ≤ step mark d a + k := by
  unfold step
  split <;> omega

theorem peak_add_le : peak mark (d + k) l ≤ peak mark d l + k := by
  induction l generalizing d with
  | nil => exact le_rfl
  | cons a l ih =>
    apply max_le
    · exact Nat.add_le_add_right (le_max_left _ _) k
    · calc peak mark (step mark (d + k) a) l
          ≤ peak mark (step mark d a + k) l := peak_mono (step_add_le d k a) l
        _ ≤ peak mark (step mark d a) l + k := ih _
        _ ≤ peak mark d (a :: l) + k := Nat.add_le_add_right (le_max_right _ _) k

theorem depthAfter_of_closes {d : ℕ} {l : List α} (h : closes mark d l = true) (k : ℕ) :
    depthAfter mark (k + d) l = k := by
  induction l generalizing d with
  | nil =>
    have hd : d = 0 := by simpa [closes] using h
    rw [hd]
    rfl
  | cons a l ih =>
    rw [depthAfter_cons]
    unfold closes at h
    unfold step
    cases hmark : mark a with
    | none => simp only [hmark] at h; exact ih h
    | some b =>
      cases b with
      | opening => simp only [hmark] at h; exact ih h
      | closing =>
        cases d with
        | zero => simp [hmark] at h
        | succ d => simp only [hmark] at h; exact ih h

theorem peak_of_closes {d : ℕ} {l : List α} (h : closes mark d l = true) (k : ℕ) :
    peak mark (k + d) l = k + peak mark d l := by
  induction l generalizing d with
  | nil => rfl
  | cons a l ih =>
    unfold closes at h
    unfold peak step
    cases hmark : mark a with
    | none => simp only [hmark] at h ⊢; rw [ih h]; omega
    | some b =>
      cases b with
      | opening => simp only [hmark] at h ⊢; rw [Nat.add_assoc, ih h]; omega
      | closing =>
        cases d with
        | zero => simp [hmark] at h
        | succ d =>
          simp only [hmark] at h ⊢
          rw [← Nat.add_assoc, Nat.add_sub_cancel, Nat.add_sub_cancel, ih h]
          omega

theorem depthAfter_of_none {l : List α} (h : ∀ a ∈ l, mark a = none) (d : ℕ) :
    depthAfter mark d l = d := by
  induction l with
  | nil => rfl
  | cons a l ih =>
    rw [depthAfter_cons, step, h a (List.mem_cons_self ..)]
    exact ih (fun b hb => h b (List.mem_cons_of_mem a hb))

theorem peak_of_none {l : List α} (h : ∀ a ∈ l, mark a = none) (d : ℕ) : peak mark d l = d := by
  induction l with
  | nil => rfl
  | cons a l ih =>
    rw [peak, step, h a (List.mem_cons_self ..)]
    exact (congrArg (max d) (ih (fun b hb => h b (List.mem_cons_of_mem a hb)))).trans (max_self d)

end Sipnab.Nesting
