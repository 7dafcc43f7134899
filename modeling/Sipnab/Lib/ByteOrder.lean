import Sipnab.Lib.BigEndian

/-!
# Fields at offsets

Bytes from an offset on, and numbers there in either byte order.
-/

namespace Sipnab

open List

def getRange (data : List UInt8) (offset length : ℕ) : Option (List UInt8) :=
  if offset + length ≤ data.length then some ((data.drop offset).take length) else none

def ofBytes (bigEndian : Bool) (bytes : List UInt8) : ℕ :=
  if bigEndian then ofBeBytes bytes else ofLeBytes bytes

def toBytes (bigEndian : Bool) (k n : ℕ) : List UInt8 :=
  if bigEndian then toBeBytes k n else (toBeBytes k n).reverse

@[simp] theorem length_toBytes (bigEndian : Bool) (k n : ℕ) :
    (toBytes bigEndian k n).length = k := by
  cases bigEndian <;> simp [toBytes]

theorem ofBytes_toBytes (bigEndian : Bool) {k n : ℕ} (h : n < 256 ^ k) :
    ofBytes bigEndian (toBytes bigEndian k n) = n := by
  cases bigEndian with
  | false => simp [ofBytes, toBytes, ofLeBytes, ofBeBytes_toBeBytes h]
  | true => simp [ofBytes, toBytes, ofBeBytes_toBeBytes h]

theorem ofBeBytes_cons (b : UInt8) (bytes : List UInt8) :
    ofBeBytes (b :: bytes) = b.toNat * 256 ^ bytes.length + ofBeBytes bytes := by
  induction bytes using List.reverseRecOn with
  | nil => simp [ofBeBytes]
  | append_singleton bytes c ih =>
    rw [← cons_append, ofBeBytes_concat, ofBeBytes_concat, ih, length_append,
      length_singleton, pow_succ]
    ring

theorem le_ofBytes_not (bigEndian : Bool) (k n : ℕ) :
    n % 256 * 256 ^ k ≤ ofBytes (!bigEndian) (toBytes bigEndian (k + 1) n) := by
  have hswapped : ofBytes (!bigEndian) (toBytes bigEndian (k + 1) n) =
      ofBeBytes (toBeBytes (k + 1) n).reverse := by
    cases bigEndian <;> rfl
  have hlast : (UInt8.ofNat n).toNat = n % 256 := rfl
  rw [hswapped, toBeBytes, reverse_append, reverse_singleton, singleton_append,
    ofBeBytes_cons, length_reverse, length_toBeBytes, hlast]
  omega

variable {data field behind : List UInt8} {offset length : ℕ}

section

variable (h : data.drop offset = field ++ behind)
include h

theorem length_of_drop (hne : field ≠ []) :
    data.length = offset + (field.length + behind.length) := by
  have hlength := congrArg List.length h
  have hpos := length_pos_iff.mpr hne
  rw [length_drop, length_append] at hlength
  omega

theorem getRange_of_drop (hlength : field.length = length) (hwithin : offset ≤ data.length) :
    getRange data offset length = some field := by
  have hfits : offset + length ≤ data.length := by
    have htotal := congrArg List.length h
    rw [length_drop, length_append] at htotal
    omega
  rw [getRange, if_pos hfits, h, take_left' hlength]

theorem take_drop_of_drop {start : ℕ} (hwithin : start + length ≤ field.length) :
    (data.drop (offset + start)).take length = (field.drop start).take length := by
  rw [← drop_drop, h, drop_append_of_le_length (by omega),
    take_append_of_le_length (by rw [length_drop]; omega)]

theorem getRange_in_field {start : ℕ} (hwithin : start + length ≤ field.length) (hne : field ≠ []) :
    getRange data (offset + start) length = some ((field.drop start).take length) := by
  have htotal := length_of_drop h hne
  rw [getRange, if_pos (by omega), take_drop_of_drop h hwithin]

theorem drop_field {next : ℕ} (hnext : offset + field.length = next) : data.drop next = behind := by
  rw [← hnext, ← drop_drop, h, drop_left]

end

end Sipnab
