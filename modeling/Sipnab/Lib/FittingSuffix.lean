import Mathlib

/-!
# The longest suffix within a budget

Items have sizes, and a budget bounds the total. Dropping from the front until the rest fits gives
the longest suffix that fits. A queue that makes room for a new item in this way, and whose items
each fit alone, always holds the longest fitting suffix of what it was given.
-/

namespace Sipnab.FittingSuffix

variable {α : Type*} (size : α → ℕ)

def total (as : List α) : ℕ := (as.map size).sum

@[simp] theorem total_nil : total size [] = 0 := rfl

@[simp] theorem total_cons (a : α) (as : List α) : total size (a :: as) = size a + total size as :=
  rfl

@[simp] theorem total_append (as bs : List α) :
    total size (as ++ bs) = total size as + total size bs := by
  simp [total]

def fitting (budget : ℕ) : List α → List α
  | [] => []
  | a :: as => if total size (a :: as) ≤ budget then a :: as else fitting budget as

variable {size} {budget : ℕ}

theorem fitting_of_le {as : List α} (h : total size as ≤ budget) : fitting size budget as = as := by
  cases as with
  | nil => rfl
  | cons a as => exact if_pos h

theorem fitting_isSuffix (as : List α) : fitting size budget as <:+ as := by
  induction as with
  | nil => exact List.suffix_rfl
  | cons a as ih =>
    rw [fitting]
    split
    · exact List.suffix_rfl
    · exact ih.trans (List.suffix_cons a as)

theorem total_fitting (as : List α) : total size (fitting size budget as) ≤ budget := by
  induction as with
  | nil => exact Nat.zero_le _
  | cons a as ih =>
    rw [fitting]
    split
    case isTrue h => exact h
    case isFalse => exact ih

theorem isSuffix_fitting {as bs : List α} (h : bs <:+ as) (hfits : total size bs ≤ budget) :
    bs <:+ fitting size budget as := by
  induction as with
  | nil => exact h
  | cons a as ih =>
    rw [fitting]
    split
    case isTrue => exact h
    case isFalse hlarge =>
      rcases List.suffix_cons_iff.mp h with rfl | h
      · exact absurd hfits hlarge
      · exact ih h

theorem fitting_fitting {smaller : ℕ} (h : smaller ≤ budget) (as : List α) :
    fitting size smaller (fitting size budget as) = fitting size smaller as := by
  apply List.IsSuffix.eq_of_length_le
  · exact isSuffix_fitting ((fitting_isSuffix _).trans (fitting_isSuffix _)) (total_fitting _)
  · exact (isSuffix_fitting
      (isSuffix_fitting (fitting_isSuffix as) ((total_fitting as).trans h))
      (total_fitting as)).length_le

theorem fitting_append_singleton (as : List α) {a : α} (h : size a ≤ budget) :
    fitting size budget (as ++ [a]) = fitting size (budget - size a) as ++ [a] := by
  induction as with
  | nil =>
    rw [List.nil_append, fitting_of_le (by simpa using h)]
    rfl
  | cons b as ih =>
    rw [List.cons_append, fitting, fitting]
    have hiff : total size (b :: (as ++ [a])) ≤ budget
        ↔ total size (b :: as) ≤ budget - size a := by
      simp only [total_cons, total_append, total_nil]
      omega
    by_cases hfits : total size (b :: as) ≤ budget - size a
    · rw [if_pos (hiff.mpr hfits), if_pos hfits, List.cons_append]
    · rw [if_neg (mt hiff.mp hfits), if_neg hfits, ih]

end Sipnab.FittingSuffix
