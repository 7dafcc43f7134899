import Mathlib

/-!
# Fields of a byte string

A field is a range of bytes. Overwriting one range leaves every range that it does not meet.
-/

namespace Sipnab

open List

variable {α : Type*}

def bytesAt (d : List α) (i n : ℕ) : List α := (d.drop i).take n

def patch (d : List α) (i : ℕ) (b : List α) : List α := d.take i ++ b ++ d.drop (i + b.length)

variable {d a b c : List α} {i j n : ℕ}

theorem length_bytesAt (h : i + n ≤ d.length) : (bytesAt d i n).length = n := by
  simp only [bytesAt, length_take, length_drop]
  omega

theorem length_patch (h : i + b.length ≤ d.length) : (patch d i b).length = d.length := by
  simp only [patch, length_append, length_take, length_drop]
  omega

theorem getElem?_bytesAt (k : ℕ) : (bytesAt d i n)[k]? = if k < n then d[i + k]? else none := by
  simp only [bytesAt, List.getElem?_take, List.getElem?_drop]

section

variable (h : i + b.length ≤ d.length)
include h

theorem getElem?_patch (k : ℕ) :
    (patch d i b)[k]? =
      if k < i then d[k]? else if k < i + b.length then b[k - i]? else d[k]? := by
  have hlength : (d.take i).length = i := by
    rw [length_take]
    omega
  unfold patch
  split_ifs with hlow hmid
  · rw [List.getElem?_append_left (by rw [length_append, hlength]; omega),
      List.getElem?_append_left (by rw [hlength]; exact hlow), List.getElem?_take_of_lt hlow]
  · rw [List.getElem?_append_left (by rw [length_append, hlength]; exact hmid),
      List.getElem?_append_right (by rw [hlength]; omega), hlength]
  · rw [List.getElem?_append_right (by rw [length_append, hlength]; omega),
      length_append, hlength, List.getElem?_drop]
    congr 1
    omega

theorem bytesAt_patch_self : bytesAt (patch d i b) i b.length = b := by
  apply ext_getElem?
  intro k
  rw [getElem?_bytesAt, getElem?_patch h]
  split_ifs with hk
  · omega
  · rw [Nat.add_sub_cancel_left]
  · omega
  · exact (List.getElem?_eq_none (by omega)).symm

theorem bytesAt_patch_self' (hn : b.length = n) : bytesAt (patch d i b) i n = b := by
  rw [← hn]
  exact bytesAt_patch_self h

theorem bytesAt_patch_of_disjoint (hj : j + n ≤ i ∨ i + b.length ≤ j) :
    bytesAt (patch d i b) j n = bytesAt d j n := by
  apply ext_getElem?
  intro k
  rw [getElem?_bytesAt, getElem?_bytesAt, getElem?_patch h]
  by_cases hk : k < n
  · rw [if_pos hk, if_pos hk]
    split_ifs
    · rfl
    · omega
    · rfl
  · rw [if_neg hk, if_neg hk]

end

theorem bytesAt_append_left (h : j + n ≤ a.length) : bytesAt (a ++ b) j n = bytesAt a j n := by
  apply ext_getElem?
  intro k
  rw [getElem?_bytesAt, getElem?_bytesAt]
  by_cases hk : k < n
  · rw [if_pos hk, if_pos hk, List.getElem?_append_left (by omega)]
  · rw [if_neg hk, if_neg hk]

theorem bytesAt_append_right (h : a.length ≤ j) :
    bytesAt (a ++ b) j n = bytesAt b (j - a.length) n := by
  apply ext_getElem?
  intro k
  rw [getElem?_bytesAt, getElem?_bytesAt, List.getElem?_append_right (by omega)]
  congr 2
  omega

theorem bytesAt_bytesAt {m : ℕ} (h : j + n ≤ m) :
    bytesAt (bytesAt d i m) j n = bytesAt d (i + j) n := by
  apply ext_getElem?
  intro k
  rw [getElem?_bytesAt, getElem?_bytesAt, getElem?_bytesAt]
  by_cases hk : k < n
  · rw [if_pos hk, if_pos hk, if_pos (by omega), Nat.add_assoc]
  · rw [if_neg hk, if_neg hk]

theorem bytesAt_add (m : ℕ) : bytesAt d i (m + n) = bytesAt d i m ++ bytesAt d (i + m) n := by
  unfold bytesAt
  rw [take_add, drop_drop]

theorem bytesAt_all (h : d.length ≤ n) : bytesAt d 0 n = d := by
  rw [bytesAt, drop_zero, take_of_length_le h]

end Sipnab
