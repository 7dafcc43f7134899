import Mathlib

/-!
# Decimal numbers as bytes

A natural number is spelled with ASCII digits, most significant first and without leading zeros.
Each number has one such spelling, and each such spelling is the one of its value.
-/

namespace Sipnab.Decimal

open List

def isDigit (b : UInt8) : Bool := 48 ≤ b && b ≤ 57

def ofDigit (d : ℕ) : UInt8 := UInt8.ofNat (48 + d)

def digitOf (b : UInt8) : ℕ := b.toNat - 48

def spell (n : ℕ) : List UInt8 :=
  if n = 0 then [48] else (Nat.digits 10 n).reverse.map ofDigit

def value (digits : List UInt8) : ℕ := Nat.ofDigits 10 (digits.reverse.map digitOf)

/-- Digits without a leading zero, apart from the zero itself. -/
structure Canonical (digits : List UInt8) : Prop where
  ne_nil : digits ≠ []
  isDigit : ∀ b ∈ digits, isDigit b = true
  leading : digits = [48] ∨ digits.head? ≠ some 48

theorem digitOf_ofDigit {d : ℕ} (h : d < 10) : digitOf (ofDigit d) = d := by
  rw [digitOf, ofDigit, UInt8.toNat_ofNat_of_lt' (show 48 + d < 256 by omega)]
  omega

theorem isDigit_iff {b : UInt8} : isDigit b = true ↔ 48 ≤ b.toNat ∧ b.toNat ≤ 57 := by
  rw [isDigit, Bool.and_eq_true, decide_eq_true_eq, decide_eq_true_eq, UInt8.le_iff_toNat_le,
    UInt8.le_iff_toNat_le]
  rfl

theorem isDigit_ofDigit {d : ℕ} (h : d < 10) : isDigit (ofDigit d) = true := by
  rw [isDigit_iff, ofDigit, UInt8.toNat_ofNat_of_lt' (show 48 + d < 256 by omega)]
  omega

theorem ofDigit_digitOf {b : UInt8} (h : isDigit b = true) : ofDigit (digitOf b) = b := by
  have hb := isDigit_iff.mp h
  apply UInt8.toNat_inj.mp
  rw [ofDigit, digitOf, UInt8.toNat_ofNat_of_lt' (show 48 + (b.toNat - 48) < 256 by omega)]
  omega

theorem digitOf_lt {b : UInt8} (h : isDigit b = true) : digitOf b < 10 := by
  have hb := isDigit_iff.mp h
  rw [digitOf]
  omega

theorem value_spell (n : ℕ) : value (spell n) = n := by
  unfold spell
  split
  case isTrue h => rw [h]; rfl
  case isFalse h =>
    have hmap : ((Nat.digits 10 n).map ofDigit).map digitOf = Nat.digits 10 n := by
      rw [List.map_map]
      conv_rhs => rw [← List.map_id (Nat.digits 10 n)]
      refine map_congr_left (fun d hd => ?_)
      exact digitOf_ofDigit (Nat.digits_lt_base (by omega) hd)
    rw [value, ← map_reverse, reverse_reverse, hmap, Nat.ofDigits_digits]

theorem canonical_spell (n : ℕ) : Canonical (spell n) := by
  unfold spell
  split
  case isTrue h => exact ⟨by simp, by simp [isDigit_iff], .inl rfl⟩
  case isFalse h =>
    have hne : Nat.digits 10 n ≠ [] := Nat.digits_ne_nil_iff_ne_zero.mpr h
    refine ⟨by simpa using hne, ?_, .inr ?_⟩
    · intro b hb
      obtain ⟨d, hd, rfl⟩ := List.mem_map.mp hb
      exact isDigit_ofDigit (Nat.digits_lt_base (by omega) (mem_reverse.mp hd))
    · rw [List.head?_map, List.head?_reverse, List.getLast?_eq_getLast_of_ne_nil hne]
      intro hzero
      have hlast : ofDigit ((Nat.digits 10 n).getLast hne) = 48 := Option.some.inj hzero
      have hlt : (Nat.digits 10 n).getLast hne < 10 :=
        Nat.digits_lt_base (by omega) (getLast_mem hne)
      have hdigit := digitOf_ofDigit hlt
      rw [hlast] at hdigit
      exact Nat.getLast_digit_ne_zero 10 h hdigit.symm

theorem map_ofDigit_digitOf {digits : List UInt8} (h : ∀ b ∈ digits, isDigit b = true) :
    (digits.map digitOf).map ofDigit = digits := by
  rw [List.map_map]
  conv_rhs => rw [← List.map_id digits]
  exact map_congr_left (fun b hb => ofDigit_digitOf (h b hb))

theorem spell_value {digits : List UInt8} (h : Canonical digits) :
    spell (value digits) = digits := by
  by_cases hzero : digits = [48]
  · rw [hzero]
    rfl
  have hhead : digits.head? ≠ some 48 := h.leading.resolve_left hzero
  have hlt : ∀ d ∈ digits.reverse.map digitOf, d < 10 := by
    intro d hd
    obtain ⟨b, hb, rfl⟩ := List.mem_map.mp hd
    exact digitOf_lt (h.isDigit b (mem_reverse.mp hb))
  have hlast : ∀ hne : digits.reverse.map digitOf ≠ [],
      (digits.reverse.map digitOf).getLast hne ≠ 0 := by
    intro hne heq
    have hsome := List.getLast?_eq_getLast_of_ne_nil hne
    rw [heq, List.getLast?_map, List.getLast?_reverse] at hsome
    obtain ⟨b, hb, hdigit⟩ := Option.map_eq_some_iff.mp hsome
    have hback := ofDigit_digitOf (h.isDigit b (mem_of_head? hb))
    rw [hdigit] at hback
    exact hhead (hb.trans (congrArg some hback.symm))
  have hdigits : Nat.digits 10 (value digits) = digits.reverse.map digitOf :=
    Nat.digits_ofDigits 10 (by omega) _ hlt hlast
  have hne : value digits ≠ 0 := by
    intro heq
    rw [heq, Nat.digits_zero] at hdigits
    exact h.ne_nil (by simpa using hdigits.symm)
  rw [spell, if_neg hne, hdigits, ← map_reverse, reverse_reverse, map_ofDigit_digitOf h.isDigit]

end Sipnab.Decimal
