import Mathlib

/-!
# Serial numbers

Numbers of a fixed width compared by the sign of their difference. Within a span of less than half
the numbers this is the order of the offsets from any base, also where the span wraps around.
-/

namespace Sipnab

variable {w : ℕ}

/-- The numeric order, in which a map of serial numbers keeps its keys. -/
instance instLinearOrderBitVec : LinearOrder (BitVec w) where
  le_refl := BitVec.le_refl
  le_trans := fun _ _ _ => BitVec.le_trans
  le_antisymm := fun _ _ => BitVec.le_antisymm
  le_total := BitVec.le_total
  lt_iff_le_not_ge := fun a b => by
    rw [BitVec.not_le]
    exact ⟨fun h => ⟨BitVec.le_of_lt h, h⟩, fun h => h.2⟩
  toDecidableLE := inferInstance
  toDecidableEq := inferInstance
  toDecidableLT := inferInstance

def serialLt (a b : BitVec w) : Bool := (a - b).toInt < 0

def atOffset (base : BitVec w) (n : ℕ) : BitVec w := base + BitVec.ofNat w n

theorem ofInt_sub_ofInt (x y : ℤ) :
    BitVec.ofInt w x - BitVec.ofInt w y = BitVec.ofInt w (x - y) := by
  rw [sub_eq_add_neg x, BitVec.ofInt_add, BitVec.ofInt_neg, sub_eq_add_neg]

theorem ofInt_eq_ofInt_iff {x y : ℤ} :
    BitVec.ofInt w x = BitVec.ofInt w y ↔ x % (2 ^ w : ℕ) = y % (2 ^ w : ℕ) := by
  have hpos : (0 : ℤ) < (2 ^ w : ℕ) := by exact_mod_cast Nat.two_pow_pos w
  have hx := Int.emod_nonneg x (Int.ne_of_gt hpos)
  have hy := Int.emod_nonneg y (Int.ne_of_gt hpos)
  rw [← BitVec.toNat_inj, BitVec.toNat_ofInt, BitVec.toNat_ofInt]
  omega

section

variable (base : BitVec w)
include base

theorem atOffset_sub (x y : ℕ) :
    atOffset base x - atOffset base y = BitVec.ofInt w ((x : ℤ) - y) := by
  rw [← ofInt_sub_ofInt, BitVec.ofInt_natCast, BitVec.ofInt_natCast, atOffset, atOffset,
    add_sub_add_left_eq_sub]

/-- The signed difference of two numbers is that of their offsets, while these are less than half
the numbers apart. -/
theorem toInt_atOffset_sub {x y : ℕ} (hlow : 2 * y ≤ 2 * x + 2 ^ w) (hhigh : 2 * x < 2 * y + 2 ^ w) :
    (atOffset base x - atOffset base y).toInt = (x : ℤ) - y := by
  rw [atOffset_sub, BitVec.toInt_ofInt]
  apply Int.bmod_eq_of_le <;> omega

theorem serialLt_atOffset_of_near {x y : ℕ} (hlow : 2 * y ≤ 2 * x + 2 ^ w)
    (hhigh : 2 * x < 2 * y + 2 ^ w) :
    serialLt (atOffset base x) (atOffset base y) = true ↔ x < y := by
  rw [serialLt, toInt_atOffset_sub base hlow hhigh, decide_eq_true_eq]
  omega

theorem serialLt_atOffset {x y : ℕ} (hx : 2 * x < 2 ^ w) (hy : 2 * y < 2 ^ w) :
    serialLt (atOffset base x) (atOffset base y) = true ↔ x < y :=
  serialLt_atOffset_of_near base (by omega) (by omega)

theorem atOffset_inj_of_near {x y : ℕ} (hlow : 2 * y ≤ 2 * x + 2 ^ w)
    (hhigh : 2 * x < 2 * y + 2 ^ w) : atOffset base x = atOffset base y ↔ x = y := by
  constructor
  · intro h
    have hzero := toInt_atOffset_sub base hlow hhigh
    rw [h, BitVec.sub_self, BitVec.toInt_zero] at hzero
    omega
  · intro h
    rw [h]

theorem atOffset_inj {x y : ℕ} (hx : x < 2 ^ w) (hy : y < 2 ^ w) :
    atOffset base x = atOffset base y ↔ x = y := by
  rw [atOffset, atOffset, BitVec.add_right_inj]
  constructor
  · intro h
    have hnat := congrArg BitVec.toNat h
    rw [BitVec.toNat_ofNat, BitVec.toNat_ofNat, Nat.mod_eq_of_lt hx, Nat.mod_eq_of_lt hy] at hnat
    exact hnat
  · intro h
    rw [h]

theorem atOffset_add (x n : ℕ) : atOffset base x + BitVec.ofNat w n = atOffset base (x + n) := by
  rw [atOffset, atOffset, BitVec.ofNat_add, BitVec.add_assoc]

end

end Sipnab
