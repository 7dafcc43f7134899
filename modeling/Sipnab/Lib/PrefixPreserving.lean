import Mathlib

/-!
# Maps that keep prefixes

A map on numbers of a fixed width that turns each bit over, or not, by what the bits above it say.
Two images share as many leading bits as the numbers do, so that the map is a permutation.
-/

namespace Sipnab

variable {w : ℕ}

def sharedBits (a b : BitVec w) : ℕ :=
  ((List.range w).takeWhile (fun i => a.getMsbD i = b.getMsbD i)).length

theorem le_length_takeWhile_iff {α : Type*} (p : α → Bool) (l : List α) (k : ℕ) :
    k ≤ (l.takeWhile p).length ↔ k ≤ l.length ∧ ∀ x ∈ l.take k, p x = true := by
  induction l generalizing k with
  | nil => simp
  | cons x l ih =>
    cases k with
    | zero => simp
    | succ k =>
      rw [List.takeWhile_cons, List.take_succ_cons, List.forall_mem_cons, List.length_cons,
        Nat.succ_le_succ_iff]
      cases hx : p x with
      | true =>
        simp only [if_true, List.length_cons, Nat.succ_le_succ_iff, ih, true_and]
      | false =>
        simp

theorem le_sharedBits_iff {a b : BitVec w} {k : ℕ} :
    k ≤ sharedBits a b ↔ k ≤ w ∧ ∀ i < k, a.getMsbD i = b.getMsbD i := by
  rw [sharedBits, le_length_takeWhile_iff, List.length_range, and_congr_right_iff]
  intro hk
  rw [List.take_range, min_eq_left hk]
  simp

theorem sharedBits_eq_width_iff {a b : BitVec w} : sharedBits a b = w ↔ a = b := by
  constructor
  · intro h
    apply BitVec.eq_of_getMsbD_eq
    exact (le_sharedBits_iff.mp h.ge).2
  · rintro rfl
    apply le_antisymm
    · exact (le_sharedBits_iff.mp le_rfl).1
    · exact le_sharedBits_iff.mpr ⟨le_rfl, fun _ _ => rfl⟩

def firstBits (a : BitVec w) (n : ℕ) : BitVec w := (a >>> (w - n)) <<< (w - n)

theorem getMsbD_firstBits (a : BitVec w) {n i : ℕ} (hn : n ≤ w) :
    (firstBits a n).getMsbD i = (decide (i < n) && a.getMsbD i) := by
  rw [firstBits, BitVec.getMsbD_shiftLeft, BitVec.getMsbD_ushiftRight]
  by_cases hi : i < n
  · have hlt : i + (w - n) < w := by omega
    simp [hi, hlt]
  · have hge : w ≤ i + (w - n) := by omega
    simp [hi, hge]

theorem firstBits_congr {a b : BitVec w} {n : ℕ} (hn : n ≤ w)
    (h : ∀ i < n, a.getMsbD i = b.getMsbD i) : firstBits a n = firstBits b n := by
  apply BitVec.eq_of_getMsbD_eq
  intro i _
  rw [getMsbD_firstBits a hn, getMsbD_firstBits b hn]
  by_cases hi : i < n
  · rw [h i hi]
  · simp [hi]

theorem firstBits_zero (n : ℕ) : firstBits (0#w) n = 0#w := by simp [firstBits]

/-- Each bit is turned over, or not, by the bits above it. -/
def TurnsBits (turn : ℕ → BitVec w → Bool) (m : BitVec w → BitVec w) : Prop :=
  ∀ a, ∀ i < w, (m a).getMsbD i = (a.getMsbD i ^^ turn i (firstBits a i))

namespace TurnsBits

variable {turn : ℕ → BitVec w → Bool} {m : BitVec w → BitVec w} {a b : BitVec w}

section

variable (h : TurnsBits turn m)
include h

theorem agree_iff {k : ℕ} (hk : k ≤ w) :
    (∀ i < k, (m a).getMsbD i = (m b).getMsbD i) ↔ ∀ i < k, a.getMsbD i = b.getMsbD i := by
  induction k with
  | zero => simp
  | succ k ih =>
    rw [Nat.forall_lt_succ_right, Nat.forall_lt_succ_right, ih (Nat.le_of_succ_le hk)]
    apply and_congr_right
    intro habove
    rw [h a k hk, h b k hk, firstBits_congr (Nat.le_of_succ_le hk) habove, Bool.xor_left_inj]

theorem sharedBits_eq (a b : BitVec w) : sharedBits (m a) (m b) = sharedBits a b := by
  have hle : ∀ k, k ≤ sharedBits (m a) (m b) ↔ k ≤ sharedBits a b := by
    intro k
    rw [le_sharedBits_iff, le_sharedBits_iff, and_congr_right_iff]
    exact fun hk => h.agree_iff hk
  exact le_antisymm ((hle _).mp le_rfl) ((hle _).mpr le_rfl)

theorem injective : Function.Injective m := by
  intro a b heq
  rw [← sharedBits_eq_width_iff, ← h.sharedBits_eq, heq, sharedBits_eq_width_iff]

theorem surjective : Function.Surjective m := by
  have hfinite : Finite (BitVec w) := Finite.of_equiv _ BitVec.equivFin.symm.toEquiv
  exact Finite.surjective_of_injective h.injective

theorem zero_iff : m 0#w = 0#w ↔ ∀ i < w, turn i 0#w = false := by
  constructor
  · intro hzero i hi
    have hbit := h 0#w i hi
    rw [hzero, firstBits_zero] at hbit
    simpa using hbit.symm
  · intro hturn
    apply BitVec.eq_of_getMsbD_eq
    intro i hi
    rw [h 0#w i hi, firstBits_zero, hturn i hi]
    simp

theorem zero_only_iff : (∀ a, a ≠ 0#w → m a ≠ 0#w) ↔ ∀ i < w, turn i 0#w = false := by
  rw [← h.zero_iff]
  constructor
  · intro honly
    obtain ⟨a, ha⟩ := h.surjective 0#w
    have hzero : a = 0#w := by
      by_contra hne
      exact honly a hne ha
    rw [← hzero, ha, hzero]
  · intro hzero a hne heq
    exact hne (h.injective (heq.trans hzero.symm))

end

end TurnsBits

end Sipnab
