import Mathlib

/-!
# Numbers as bytes

A number as so many bytes, the highest first, and back.
-/

namespace Sipnab

open List

def toBeBytes : ℕ → ℕ → List UInt8
  | 0, _ => []
  | k + 1, n => toBeBytes k (n / 256) ++ [UInt8.ofNat n]

def ofBeBytes (bytes : List UInt8) : ℕ := bytes.foldl (fun n b => 256 * n + b.toNat) 0

def ofLeBytes (bytes : List UInt8) : ℕ := ofBeBytes bytes.reverse

@[simp] theorem length_toBeBytes (k n : ℕ) : (toBeBytes k n).length = k := by
  induction k generalizing n with
  | zero => rfl
  | succ k ih => rw [toBeBytes, length_append, ih, length_singleton]

theorem ofBeBytes_concat (bytes : List UInt8) (b : UInt8) :
    ofBeBytes (bytes ++ [b]) = 256 * ofBeBytes bytes + b.toNat := by
  rw [ofBeBytes, foldl_append]
  rfl

@[simp] theorem ofBeBytes_toBeBytes {k n : ℕ} (h : n < 256 ^ k) : ofBeBytes (toBeBytes k n) = n := by
  induction k generalizing n with
  | zero =>
    rw [pow_zero, Nat.lt_one_iff] at h
    rw [h]
    rfl
  | succ k ih =>
    have hlast : (UInt8.ofNat n).toNat = n % 256 := rfl
    have hrest : n / 256 < 256 ^ k := by
      apply Nat.div_lt_of_lt_mul
      rw [pow_succ, Nat.mul_comm] at h
      exact h
    rw [toBeBytes, ofBeBytes_concat, ih hrest, hlast]
    omega

theorem ofBeBytes_lt (bytes : List UInt8) : ofBeBytes bytes < 256 ^ bytes.length := by
  induction bytes using List.reverseRecOn with
  | nil => exact Nat.one_pos
  | append_singleton bytes b ih =>
    have hb := b.toNat_lt
    rw [ofBeBytes_concat, length_append, length_singleton, pow_succ]
    omega

theorem ofBeBytes_inj {a b : List UInt8} (hlength : a.length = b.length)
    (h : ofBeBytes a = ofBeBytes b) : a = b := by
  induction a using List.reverseRecOn generalizing b with
  | nil => exact (length_eq_zero_iff.mp hlength.symm).symm
  | append_singleton a x ih =>
    rcases eq_nil_or_concat b with rfl | ⟨b, y, rfl⟩
    · simp at hlength
    · have hx := x.toNat_lt
      have hy := y.toNat_lt
      rw [concat_eq_append] at h hlength ⊢
      rw [ofBeBytes_concat, ofBeBytes_concat] at h
      simp only [length_append, length_singleton, Nat.add_right_cancel_iff] at hlength
      have hlast : x = y := UInt8.toNat_inj.mp (by omega)
      rw [ih hlength (by omega), hlast]

end Sipnab
