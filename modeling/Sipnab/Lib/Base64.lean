import Mathlib

/-!
# Base64 for URLs

Bytes as text without padding. Every text stands for at most one list of bytes, and the bits that a
last character has too many are zero, so no list of bytes has two texts.
-/

namespace Sipnab.Base64

open Option

def digit (n : ℕ) : Char :=
  if n < 26 then Char.ofNat (65 + n)
  else if n < 52 then Char.ofNat (71 + n)
  else if n < 62 then Char.ofNat (n - 4)
  else if n = 62 then '-'
  else '_'

def value (c : Char) : Option ℕ :=
  let n := c.toNat
  if 65 ≤ n ∧ n < 91 then some (n - 65)
  else if 97 ≤ n ∧ n < 123 then some (n - 71)
  else if 48 ≤ n ∧ n < 58 then some (n + 4)
  else if c = '-' then some 62
  else if c = '_' then some 63
  else none

def encode : List UInt8 → List Char
  | [] => []
  | [a] => [digit (a.toNat / 4), digit (a.toNat % 4 * 16)]
  | [a, b] =>
    [digit (a.toNat / 4), digit (a.toNat % 4 * 16 + b.toNat / 16), digit (b.toNat % 16 * 4)]
  | a :: b :: c :: rest =>
    digit (a.toNat / 4) :: digit (a.toNat % 4 * 16 + b.toNat / 16) ::
      digit (b.toNat % 16 * 4 + c.toNat / 64) :: digit (c.toNat % 64) :: encode rest

def decode : List Char → Option (List UInt8)
  | [] => some []
  | [_] => none
  | [p, q] => do
    let x ← value p
    let y ← value q
    if y % 16 = 0 then some [UInt8.ofNat (x * 4 + y / 16)] else none
  | [p, q, r] => do
    let x ← value p
    let y ← value q
    let z ← value r
    if z % 4 = 0 then
      some [UInt8.ofNat (x * 4 + y / 16), UInt8.ofNat (y % 16 * 16 + z / 4)]
    else none
  | p :: q :: r :: s :: rest => do
    let x ← value p
    let y ← value q
    let z ← value r
    let w ← value s
    let bytes ← decode rest
    some (UInt8.ofNat (x * 4 + y / 16) :: UInt8.ofNat (y % 16 * 16 + z / 4) ::
      UInt8.ofNat (z % 4 * 64 + w) :: bytes)

variable {n : ℕ} (bytes : List UInt8)

theorem value_digit (h : n < 64) : value (digit n) = some n := by
  have hall : ∀ n : Fin 64, value (digit n) = some n.val := by decide
  exact hall ⟨n, h⟩

theorem ofNat_toNat_add (c : Char) (h : n = c.toNat) : Char.ofNat n = c := by
  rw [h, Char.ofNat_toNat]

theorem digit_value {c : Char} (h : value c = some n) : n < 64 ∧ digit n = c := by
  simp only [value] at h
  split_ifs at h with hupper hlower hdigit hdash hunder
  · obtain rfl := some.inj h
    refine ⟨by omega, ?_⟩
    rw [digit, if_pos (by omega)]
    exact ofNat_toNat_add c (by omega)
  · obtain rfl := some.inj h
    refine ⟨by omega, ?_⟩
    rw [digit, if_neg (by omega), if_pos (by omega)]
    exact ofNat_toNat_add c (by omega)
  · obtain rfl := some.inj h
    refine ⟨by omega, ?_⟩
    rw [digit, if_neg (by omega), if_neg (by omega), if_pos (by omega)]
    exact ofNat_toNat_add c (by omega)
  · obtain rfl := some.inj h
    exact ⟨by omega, hdash ▸ rfl⟩
  · obtain rfl := some.inj h
    exact ⟨by omega, hunder ▸ rfl⟩

theorem digit_ne_dot (h : n < 64) : digit n ≠ '.' := by
  have hall : ∀ n : Fin 64, digit n ≠ '.' := by decide
  exact hall ⟨n, h⟩

theorem byte_eq {b : UInt8} (h : n = b.toNat) : UInt8.ofNat n = b := by
  rw [h, UInt8.ofNat_toNat]

theorem first_of_digits (a b : UInt8) :
    UInt8.ofNat (a.toNat / 4 * 4 + (a.toNat % 4 * 16 + b.toNat / 16) / 16) = a := by
  have hb := b.toNat_lt
  exact byte_eq (by omega)

theorem second_of_digits (a b c : UInt8) :
    UInt8.ofNat ((a.toNat % 4 * 16 + b.toNat / 16) % 16 * 16 +
      (b.toNat % 16 * 4 + c.toNat / 64) / 4) = b := by
  have hb := b.toNat_lt
  have hc := c.toNat_lt
  exact byte_eq (by omega)

theorem third_of_digits (b c : UInt8) :
    UInt8.ofNat ((b.toNat % 16 * 4 + c.toNat / 64) % 4 * 64 + c.toNat % 64) = c := by
  have hc := c.toNat_lt
  exact byte_eq (by omega)

theorem decode_encode : decode (encode bytes) = some bytes := by
  induction bytes using encode.induct with
  | case1 => rfl
  | case2 a =>
    have ha := a.toNat_lt
    have hx : value (digit (a.toNat / 4)) = some _ := value_digit (by omega)
    have hy : value (digit (a.toNat % 4 * 16)) = some _ := value_digit (by omega)
    simp only [encode, decode, hx, hy, bind_eq_bind, bind_some]
    have hfirst : UInt8.ofNat (a.toNat / 4 * 4 + a.toNat % 4 * 16 / 16) = a := byte_eq (by omega)
    rw [if_pos (by omega), hfirst]
  | case3 a b =>
    have ha := a.toNat_lt
    have hb := b.toNat_lt
    have hx : value (digit (a.toNat / 4)) = some _ := value_digit (by omega)
    have hy : value (digit (a.toNat % 4 * 16 + b.toNat / 16)) = some _ := value_digit (by omega)
    have hz : value (digit (b.toNat % 16 * 4)) = some _ := value_digit (by omega)
    simp only [encode, decode, hx, hy, hz, bind_eq_bind, bind_some]
    have hsecond : UInt8.ofNat ((a.toNat % 4 * 16 + b.toNat / 16) % 16 * 16 +
        b.toNat % 16 * 4 / 4) = b := byte_eq (by omega)
    rw [if_pos (by omega), first_of_digits, hsecond]
  | case4 a b c rest ih =>
    have ha := a.toNat_lt
    have hb := b.toNat_lt
    have hc := c.toNat_lt
    have hx : value (digit (a.toNat / 4)) = some _ := value_digit (by omega)
    have hy : value (digit (a.toNat % 4 * 16 + b.toNat / 16)) = some _ := value_digit (by omega)
    have hz : value (digit (b.toNat % 16 * 4 + c.toNat / 64)) = some _ := value_digit (by omega)
    have hw : value (digit (c.toNat % 64)) = some _ := value_digit (by omega)
    simp only [encode, decode, hx, hy, hz, hw, ih, bind_eq_bind, bind_some]
    rw [first_of_digits, second_of_digits, third_of_digits]

theorem toNat_ofNat_of_lt (h : n < 256) : (UInt8.ofNat n).toNat = n := by
  rw [UInt8.toNat_ofNat']
  exact Nat.mod_eq_of_lt h

theorem encode_of_decode {text : List Char} {bytes : List UInt8} (h : decode text = some bytes) :
    encode bytes = text := by
  induction text using decode.induct generalizing bytes with
  | case1 =>
    obtain rfl := some.inj h
    rfl
  | case2 c => simp [decode] at h
  | case3 p q =>
    simp only [decode, bind_eq_bind, bind_eq_some_iff] at h
    obtain ⟨x, hx, y, hy, hbytes⟩ := h
    obtain ⟨hx64, rfl⟩ := digit_value hx
    obtain ⟨hy64, rfl⟩ := digit_value hy
    split_ifs at hbytes with hzero
    obtain rfl := some.inj hbytes
    have hfirst : (x * 4 + y / 16) / 4 = x := by omega
    have hsecond : (x * 4 + y / 16) % 4 * 16 = y := by omega
    rw [encode, toNat_ofNat_of_lt (by omega), hfirst, hsecond]
  | case4 p q r =>
    simp only [decode, bind_eq_bind, bind_eq_some_iff] at h
    obtain ⟨x, hx, y, hy, z, hz, hbytes⟩ := h
    obtain ⟨hx64, rfl⟩ := digit_value hx
    obtain ⟨hy64, rfl⟩ := digit_value hy
    obtain ⟨hz64, rfl⟩ := digit_value hz
    split_ifs at hbytes with hzero
    obtain rfl := some.inj hbytes
    have hfirst : (x * 4 + y / 16) / 4 = x := by omega
    have hsecond : (x * 4 + y / 16) % 4 * 16 + (y % 16 * 16 + z / 4) / 16 = y := by omega
    have hthird : (y % 16 * 16 + z / 4) % 16 * 4 = z := by omega
    rw [encode, toNat_ofNat_of_lt (by omega), toNat_ofNat_of_lt (by omega), hfirst, hsecond, hthird]
  | case5 p q r s rest ih =>
    simp only [decode, bind_eq_bind, bind_eq_some_iff] at h
    obtain ⟨x, hx, y, hy, z, hz, w, hw, tail, htail, hbytes⟩ := h
    obtain ⟨hx64, rfl⟩ := digit_value hx
    obtain ⟨hy64, rfl⟩ := digit_value hy
    obtain ⟨hz64, rfl⟩ := digit_value hz
    obtain ⟨hw64, rfl⟩ := digit_value hw
    obtain rfl := some.inj hbytes
    have hfirst : (x * 4 + y / 16) / 4 = x := by omega
    have hsecond : (x * 4 + y / 16) % 4 * 16 + (y % 16 * 16 + z / 4) / 16 = y := by omega
    have hthird : (y % 16 * 16 + z / 4) % 16 * 4 + (z % 4 * 64 + w) / 64 = z := by omega
    have hlast : (z % 4 * 64 + w) % 64 = w := by omega
    rw [encode, toNat_ofNat_of_lt (by omega), toNat_ofNat_of_lt (by omega),
      toNat_ofNat_of_lt (by omega), hfirst, hsecond, hthird, hlast, ih htail]

theorem dot_not_mem_encode : '.' ∉ encode bytes := by
  have hne : ∀ {n : ℕ}, n < 64 → '.' ≠ digit n := fun h => (digit_ne_dot h).symm
  induction bytes using encode.induct with
  | case1 => simp [encode]
  | case2 a =>
    have ha := a.toNat_lt
    simp only [encode, List.mem_cons, List.not_mem_nil, not_or, or_false]
    exact ⟨hne (by omega), hne (by omega)⟩
  | case3 a b =>
    have ha := a.toNat_lt
    have hb := b.toNat_lt
    simp only [encode, List.mem_cons, List.not_mem_nil, not_or, or_false]
    exact ⟨hne (by omega), hne (by omega), hne (by omega)⟩
  | case4 a b c rest ih =>
    have ha := a.toNat_lt
    have hb := b.toNat_lt
    have hc := c.toNat_lt
    simp only [encode, List.mem_cons, not_or]
    exact ⟨hne (by omega), hne (by omega), hne (by omega), hne (by omega), ih⟩

end Sipnab.Base64
