import Sipnab.Lib.Base64
import Sipnab.Sip.TopologyHiding

/-!
# The hidden form of a Call-ID

What the proxy writes: the original Call-ID, a separator and the tag when there is one, xor-ed with
the repeating secret and written in word64 behind the prefix. The decoder accepts these texts and
no others.
-/

namespace Sipnab

open List Option

/-! ## Bytes of texts -/

theorem utf8Bytes_append (a b : String) : utf8Bytes (a ++ b) = utf8Bytes a ++ utf8Bytes b := by
  simp only [utf8Bytes, String.toUTF8, String.toByteArray_append, ByteArray.data_append,
    Array.toList_append]

theorem utf8Bytes_injective {a b : String} (h : utf8Bytes a = utf8Bytes b) : a = b :=
  String.toByteArray_inj.mp (ByteArray.ext (Array.toList_inj.mp h))

theorem utf8EncodeChar_ascii {b : UInt8} (h : b.toNat < 128) :
    String.utf8EncodeChar (Char.ofNat b.toNat) = [b] := by
  have hall : ∀ n : Fin 128, String.utf8EncodeChar (Char.ofNat n.val) = [UInt8.ofNat n.val] := by
    decide
  have hb := hall ⟨b.toNat, h⟩
  rwa [UInt8.ofNat_toNat] at hb

variable {bytes : List UInt8} {n y z : ℕ} {c : UInt8}

theorem utf8Bytes_asciiText (h : ∀ b ∈ bytes, b.toNat < 128) :
    utf8Bytes (asciiText bytes) = bytes := by
  have hencode : (bytes.map (fun b => Char.ofNat b.toNat)).flatMap String.utf8EncodeChar
      = bytes := by
    induction bytes with
    | nil => rfl
    | cons b rest ih =>
      rw [map_cons, flatMap_cons, utf8EncodeChar_ascii (h b mem_cons_self),
        ih (fun c hc => h c (mem_cons_of_mem b hc)), singleton_append]
  rw [utf8Bytes, asciiText, String.toUTF8, String.toByteArray_ofList, List.utf8Encode, hencode,
    data_toByteArray]

theorem asciiText_utf8Bytes {text : String} (h : ∀ b ∈ utf8Bytes text, b.toNat < 128) :
    asciiText (utf8Bytes text) = text :=
  utf8Bytes_injective (utf8Bytes_asciiText h)

/-! ## word64 -/

def word64Digit (n : ℕ) : UInt8 := word64Digits.getD n 0

/-- Three bytes in four digits; the last group is padded. -/
def word64Encode : List UInt8 → List UInt8
  | [] => []
  | [a] =>
    [word64Digit (a.toNat / 4), word64Digit (a.toNat % 4 * 16), word64Pad, word64Pad]
  | [a, b] =>
    [word64Digit (a.toNat / 4), word64Digit (a.toNat % 4 * 16 + b.toNat / 16),
      word64Digit (b.toNat % 16 * 4), word64Pad]
  | a :: b :: c :: rest =>
    word64Digit (a.toNat / 4) :: word64Digit (a.toNat % 4 * 16 + b.toNat / 16) ::
      word64Digit (b.toNat % 16 * 4 + c.toNat / 64) :: word64Digit (c.toNat % 64) ::
      word64Encode rest

theorem word64Value_digit (h : n < 64) : word64Value (word64Digit n) = some (.ofNat n) := by
  have hall : ∀ n : Fin 64, word64Value (word64Digit n) = some (.ofNat n.val) := by decide
  exact hall ⟨n, h⟩

theorem word64Digit_ne_pad (h : n < 64) : word64Digit n ≠ word64Pad := by
  have hall : ∀ n : Fin 64, word64Digit n ≠ word64Pad := by decide
  exact hall ⟨n, h⟩

theorem word64Digit_ascii (h : n < 64) : (word64Digit n).toNat < 128 := by
  have hall : ∀ n : Fin 64, (word64Digit n).toNat < 128 := by decide
  exact hall ⟨n, h⟩

theorem word64Value_eq_some {v : UInt8} (h : word64Value c = some v) :
    ∃ n < 64, c = word64Digit n ∧ v = .ofNat n := by
  obtain ⟨n, hn, hv⟩ := map_eq_some_iff.mp h
  obtain ⟨hlt, hget, -⟩ := List.idxOf?_eq_some_iff.mp hn
  have hlen : word64Digits.length = 64 := by decide
  refine ⟨n, by omega, ?_, hv.symm⟩
  rw [word64Digit, getD_eq_getElem?_getD, List.getElem?_eq_getElem hlt]
  exact hget.symm

theorem toNat_shiftLeft_or {x y : UInt8} {k : ℕ} (hk : k < 8) (hy : y.toNat < 2 ^ k) :
    ((x <<< UInt8.ofNat k) ||| y).toNat = x.toNat % 2 ^ (8 - k) * 2 ^ k + y.toNat := by
  have hpow : 2 ^ 8 = 2 ^ (8 - k) * 2 ^ k := by rw [← Nat.pow_add, Nat.sub_add_cancel (by omega)]
  have hshift : (x <<< UInt8.ofNat k).toNat = x.toNat % 2 ^ (8 - k) * 2 ^ k := by
    rw [UInt8.toNat_shiftLeft, Base64.toNat_ofNat_of_lt (by omega), Nat.mod_eq_of_lt hk,
      Nat.shiftLeft_eq, hpow, Nat.mul_mod_mul_right]
  rw [UInt8.toNat_or, hshift, Nat.mul_comm, Nat.two_pow_add_eq_or_of_lt hy]

theorem toNat_ofNat_shiftRight (h : n < 64) (k : UInt8) (hk : k.toNat < 8) :
    (UInt8.ofNat n >>> k).toNat = n / 2 ^ k.toNat := by
  rw [UInt8.toNat_shiftRight, Nat.mod_eq_of_lt hk, Nat.shiftRight_eq_div_pow,
    Base64.toNat_ofNat_of_lt (by omega)]

theorem first_byte {x : ℕ} (hx : x < 64) (hy : y < 64) :
    (UInt8.ofNat x <<< 2) ||| (UInt8.ofNat y >>> 4) = .ofNat (x * 4 + y / 16) := by
  have hshift : (UInt8.ofNat y >>> 4).toNat = y / 16 :=
    toNat_ofNat_shiftRight hy 4 (by decide)
  have hlt : (UInt8.ofNat y >>> 4).toNat < 2 ^ 2 := by omega
  have hor : ((UInt8.ofNat x <<< 2) ||| (UInt8.ofNat y >>> 4)).toNat =
      (UInt8.ofNat x).toNat % 64 * 4 + (UInt8.ofNat y >>> 4).toNat :=
    toNat_shiftLeft_or (by decide) hlt
  rw [Base64.toNat_ofNat_of_lt (by omega), hshift] at hor
  rw [← UInt8.toNat_inj, hor, Base64.toNat_ofNat_of_lt (by omega)]
  omega

theorem second_byte (hy : y < 64) (hz : z < 64) :
    (UInt8.ofNat y <<< 4) ||| (UInt8.ofNat z >>> 2) = .ofNat (y % 16 * 16 + z / 4) := by
  have hshift : (UInt8.ofNat z >>> 2).toNat = z / 4 :=
    toNat_ofNat_shiftRight hz 2 (by decide)
  have hlt : (UInt8.ofNat z >>> 2).toNat < 2 ^ 4 := by omega
  have hor : ((UInt8.ofNat y <<< 4) ||| (UInt8.ofNat z >>> 2)).toNat =
      (UInt8.ofNat y).toNat % 16 * 16 + (UInt8.ofNat z >>> 2).toNat :=
    toNat_shiftLeft_or (by decide) hlt
  rw [Base64.toNat_ofNat_of_lt (by omega), hshift] at hor
  rw [← UInt8.toNat_inj, hor, Base64.toNat_ofNat_of_lt (by omega)]

theorem third_byte {w : ℕ} (hz : z < 64) (hw : w < 64) :
    (UInt8.ofNat z <<< 6) ||| UInt8.ofNat w = .ofNat (z % 4 * 64 + w) := by
  have hlt : (UInt8.ofNat w).toNat < 2 ^ 6 := by rwa [Base64.toNat_ofNat_of_lt (by omega)]
  have hor : ((UInt8.ofNat z <<< 6) ||| UInt8.ofNat w).toNat =
      (UInt8.ofNat z).toNat % 4 * 64 + (UInt8.ofNat w).toNat :=
    toNat_shiftLeft_or (by decide) hlt
  rw [Base64.toNat_ofNat_of_lt (by omega), Base64.toNat_ofNat_of_lt (by omega)] at hor
  rw [← UInt8.toNat_inj, hor, Base64.toNat_ofNat_of_lt (by omega)]

theorem low_two_bits (hz : z < 64) : UInt8.ofNat z &&& 0x03 ≠ 0 ↔ z % 4 ≠ 0 := by
  rw [Ne, ← UInt8.toNat_inj, UInt8.toNat_and, Base64.toNat_ofNat_of_lt (by omega)]
  exact not_congr (Eq.congr_left (Nat.and_two_pow_sub_one_eq_mod z 2))

theorem low_four_bits (hy : y < 64) : UInt8.ofNat y &&& 0x0f ≠ 0 ↔ y % 16 ≠ 0 := by
  rw [Ne, ← UInt8.toNat_inj, UInt8.toNat_and, Base64.toNat_ofNat_of_lt (by omega)]
  exact not_congr (Eq.congr_left (Nat.and_two_pow_sub_one_eq_mod y 4))

/-! ### One group

A group by the number of its padding characters. -/

theorem word64Group_full (last : Bool) {x y z w : ℕ} (hx : x < 64) (hy : y < 64) (hz : z < 64)
    (hw : w < 64) :
    word64Group last (word64Digit x) (word64Digit y) (word64Digit z) (word64Digit w) =
      some [.ofNat (x * 4 + y / 16), .ofNat (y % 16 * 16 + z / 4), .ofNat (z % 4 * 64 + w)] := by
  have hpads : ([word64Digit w, word64Digit z, word64Digit y, word64Digit x].takeWhile
      (· = word64Pad)).length = 0 := by
    simp [word64Digit_ne_pad hw]
  rw [word64Group, hpads, if_neg (by omega), word64Value_digit hx, word64Value_digit hy,
    word64Value_digit hz, word64Value_digit hw, ← first_byte hx hy, ← second_byte hy hz,
    ← third_byte hz hw]
  rfl

theorem word64Group_one_pad {x y z : ℕ} (hx : x < 64) (hy : y < 64) (hz : z < 64) :
    word64Group true (word64Digit x) (word64Digit y) (word64Digit z) word64Pad =
      if z % 4 ≠ 0 then none
      else some [.ofNat (x * 4 + y / 16), .ofNat (y % 16 * 16 + z / 4)] := by
  have hpads : ([word64Pad, word64Digit z, word64Digit y, word64Digit x].takeWhile
      (· = word64Pad)).length = 1 := by
    simp [word64Digit_ne_pad hz]
  rw [word64Group, hpads, if_neg (by simp), word64Value_digit hx, word64Value_digit hy,
    word64Value_digit hz, ← first_byte hx hy, ← second_byte hy hz]
  exact if_congr (low_two_bits hz) rfl rfl

theorem word64Group_two_pads {x y : ℕ} (hx : x < 64) (hy : y < 64) :
    word64Group true (word64Digit x) (word64Digit y) word64Pad word64Pad =
      if y % 16 ≠ 0 then none else some [.ofNat (x * 4 + y / 16)] := by
  have hpads : ([word64Pad, word64Pad, word64Digit y, word64Digit x].takeWhile
      (· = word64Pad)).length = 2 := by
    simp [word64Digit_ne_pad hy]
  rw [word64Group, hpads, if_neg (by simp), word64Value_digit hx, word64Value_digit hy,
    ← first_byte hx hy]
  exact if_congr (low_four_bits hy) rfl rfl

theorem word64Group_cases {last : Bool} {a b d : UInt8}
    (h : word64Group last a b c d = some bytes) :
    ∃ x < 64, ∃ y < 64, a = word64Digit x ∧ b = word64Digit y ∧
      ((∃ z < 64, ∃ w < 64, c = word64Digit z ∧ d = word64Digit w) ∨
        (last = true ∧ d = word64Pad ∧ ∃ z < 64, c = word64Digit z) ∨
        (last = true ∧ d = word64Pad ∧ c = word64Pad)) := by
  rw [word64Group] at h
  split_ifs at h with hpads
  simp only [bind_eq_bind, bind_eq_some_iff] at h
  obtain ⟨v0, hv0, v1, hv1, hrest⟩ := h
  obtain ⟨x, hx, rfl, rfl⟩ := word64Value_eq_some hv0
  obtain ⟨y, hy, rfl, rfl⟩ := word64Value_eq_some hv1
  refine ⟨x, hx, y, hy, rfl, rfl, ?_⟩
  by_cases hd : d = word64Pad
  · have hlast : last = true := by
      cases last with
      | true => rfl
      | false => exact absurd (Or.inr ⟨by simp [takeWhile_cons, hd], rfl⟩) hpads
    by_cases hc : c = word64Pad
    · exact .inr (.inr ⟨hlast, hd, hc⟩)
    · have hone : ([d, c, word64Digit y, word64Digit x].takeWhile
          (· = word64Pad)).length = 1 := by
        simp [hd, hc]
      rw [hone] at hrest
      simp only [bind_eq_some_iff] at hrest
      obtain ⟨v2, hv2, -⟩ := hrest
      obtain ⟨z, hz, rfl, -⟩ := word64Value_eq_some hv2
      exact .inr (.inl ⟨hlast, hd, z, hz, rfl⟩)
  · have hnone : ([d, c, word64Digit y, word64Digit x].takeWhile
        (· = word64Pad)).length = 0 := by
      simp [hd]
    rw [hnone] at hrest
    simp only [bind_eq_some_iff] at hrest
    obtain ⟨v2, hv2, v3, hv3, -⟩ := hrest
    obtain ⟨z, hz, rfl, -⟩ := word64Value_eq_some hv2
    obtain ⟨w, hw, rfl, -⟩ := word64Value_eq_some hv3
    exact .inl ⟨z, hz, w, hw, rfl, rfl⟩

/-! ### The whole text -/

theorem word64Groups_encode (bytes : List UInt8) :
    word64Groups (word64Encode bytes) = some bytes := by
  induction bytes using word64Encode.induct with
  | case1 => rfl
  | case2 a =>
    have ha := a.toNat_lt
    have hgroup := @word64Group_two_pads (a.toNat / 4) (a.toNat % 4 * 16) (by omega) (by omega)
    have hfirst : UInt8.ofNat (a.toNat / 4 * 4 + a.toNat % 4 * 16 / 16) = a :=
      Base64.byte_eq (by omega)
    rw [if_neg (by omega), hfirst] at hgroup
    rw [word64Encode, word64Groups, isEmpty_nil, hgroup]
    rfl
  | case3 a b =>
    have ha := a.toNat_lt
    have hb := b.toNat_lt
    have hgroup := @word64Group_one_pad (a.toNat / 4) (a.toNat % 4 * 16 + b.toNat / 16)
      (b.toNat % 16 * 4) (by omega) (by omega) (by omega)
    have hsecond : UInt8.ofNat ((a.toNat % 4 * 16 + b.toNat / 16) % 16 * 16 +
        b.toNat % 16 * 4 / 4) = b := Base64.byte_eq (by omega)
    rw [if_neg (by omega), Base64.first_of_digits, hsecond] at hgroup
    rw [word64Encode, word64Groups, isEmpty_nil, hgroup]
    rfl
  | case4 a b c rest ih =>
    have ha := a.toNat_lt
    have hb := b.toNat_lt
    have hc := c.toNat_lt
    have hgroup := fun last => @word64Group_full last (a.toNat / 4)
      (a.toNat % 4 * 16 + b.toNat / 16) (b.toNat % 16 * 4 + c.toNat / 64) (c.toNat % 64)
      (by omega) (by omega) (by omega) (by omega)
    rw [Base64.first_of_digits, Base64.second_of_digits, Base64.third_of_digits] at hgroup
    rw [word64Encode, word64Groups, hgroup, ih]
    rfl

variable {b input : List UInt8} {cid : String} {tag : Option String} (buf key : List UInt8)

theorem word64Encode_of_groups (h : word64Groups input = some bytes) :
    word64Encode bytes = input := by
  induction input using word64Groups.induct generalizing bytes with
  | case1 =>
    obtain rfl := some.inj h
    rfl
  | case2 a b c d rest ih =>
    simp only [word64Groups, bind_eq_bind, bind_eq_some_iff] at h
    obtain ⟨group, hgroup, tail, htail, hbytes⟩ := h
    obtain rfl := some.inj hbytes
    obtain ⟨x, hx, y, hy, rfl, rfl, hshape⟩ := word64Group_cases hgroup
    rcases hshape with ⟨z, hz, w, hw, rfl, rfl⟩ | ⟨hlast, rfl, z, hz, rfl⟩ | ⟨hlast, rfl, rfl⟩
    · rw [word64Group_full _ hx hy hz hw] at hgroup
      obtain rfl := some.inj hgroup
      have hfirst : (x * 4 + y / 16) / 4 = x := by omega
      have hsecond : (x * 4 + y / 16) % 4 * 16 + (y % 16 * 16 + z / 4) / 16 = y := by omega
      have hthird : (y % 16 * 16 + z / 4) % 16 * 4 + (z % 4 * 64 + w) / 64 = z := by omega
      have hlast : (z % 4 * 64 + w) % 64 = w := by omega
      simp only [cons_append, nil_append]
      rw [word64Encode, Base64.toNat_ofNat_of_lt (by omega), Base64.toNat_ofNat_of_lt (by omega),
        Base64.toNat_ofNat_of_lt (by omega), hfirst, hsecond, hthird, hlast, ih htail]
    · -- Padding ends the text.
      obtain rfl := List.isEmpty_iff.mp hlast
      obtain rfl := some.inj htail
      rw [isEmpty_nil, word64Group_one_pad hx hy hz] at hgroup
      split_ifs at hgroup with hzero
      obtain rfl := some.inj hgroup
      have hfirst : (x * 4 + y / 16) / 4 = x := by omega
      have hsecond : (x * 4 + y / 16) % 4 * 16 + (y % 16 * 16 + z / 4) / 16 = y := by omega
      have hthird : (y % 16 * 16 + z / 4) % 16 * 4 = z := by omega
      rw [append_nil, word64Encode, Base64.toNat_ofNat_of_lt (by omega),
        Base64.toNat_ofNat_of_lt (by omega), hfirst, hsecond, hthird]
    · obtain rfl := List.isEmpty_iff.mp hlast
      obtain rfl := some.inj htail
      rw [isEmpty_nil, word64Group_two_pads hx hy] at hgroup
      split_ifs at hgroup with hzero
      obtain rfl := some.inj hgroup
      have hfirst : (x * 4 + y / 16) / 4 = x := by omega
      have hsecond : (x * 4 + y / 16) % 4 * 16 = y := by omega
      rw [append_nil, word64Encode, Base64.toNat_ofNat_of_lt (by omega), hfirst, hsecond]
  | case3 input hnil hfour =>
    rw [word64Groups] at h
    · cases h
    · exact hnil
    · exact hfour

theorem word64Decode_eq_some_iff :
    word64Decode input = some bytes ↔ bytes ≠ [] ∧ input = word64Encode bytes := by
  constructor
  · intro h
    rw [word64Decode] at h
    split_ifs at h with hempty
    refine ⟨?_, (word64Encode_of_groups h).symm⟩
    rintro rfl
    have hinput := word64Encode_of_groups h
    rw [word64Encode] at hinput
    exact hempty (by rw [← hinput]; rfl)
  · rintro ⟨hne, rfl⟩
    have hgroups := word64Groups_encode bytes
    rw [word64Decode, if_neg, hgroups]
    intro hempty
    rw [List.isEmpty_iff.mp hempty, word64Groups] at hgroups
    exact hne (some.inj hgroups).symm

theorem word64Encode_ascii (bytes : List UInt8) : ∀ b ∈ word64Encode bytes, b.toNat < 128 := by
  have hpad : word64Pad.toNat < 128 := by decide
  induction bytes using word64Encode.induct with
  | case1 => simp [word64Encode]
  | case2 a =>
    have ha := a.toNat_lt
    simp only [word64Encode, forall_mem_cons]
    exact ⟨word64Digit_ascii (by omega), word64Digit_ascii (by omega), hpad, hpad, by simp⟩
  | case3 a b =>
    have ha := a.toNat_lt
    have hb := b.toNat_lt
    simp only [word64Encode, forall_mem_cons]
    exact ⟨word64Digit_ascii (by omega), word64Digit_ascii (by omega),
      word64Digit_ascii (by omega), hpad, by simp⟩
  | case4 a b c rest ih =>
    have ha := a.toNat_lt
    have hb := b.toNat_lt
    have hc := c.toNat_lt
    simp only [word64Encode, forall_mem_cons]
    exact ⟨word64Digit_ascii (by omega), word64Digit_ascii (by omega),
      word64Digit_ascii (by omega), word64Digit_ascii (by omega), ih⟩

/-! ## The secret and the separator -/

theorem length_xorWithKey : (xorWithKey buf key).length = buf.length :=
  length_mapIdx

theorem xorWithKey_xorWithKey : xorWithKey (xorWithKey buf key) key = buf := by
  refine ext_getElem (by simp [length_xorWithKey]) (fun i hi hi' => ?_)
  simp only [xorWithKey, getElem_mapIdx]
  rw [UInt8.xor_assoc, UInt8.xor_self, UInt8.xor_zero]

theorem xorWithKey_ne_nil {buf key : List UInt8} (h : buf ≠ []) : xorWithKey buf key ≠ [] := by
  intro hnil
  have hlen := length_xorWithKey buf key
  rw [hnil, length_nil] at hlen
  exact h (eq_nil_of_length_eq_zero hlen.symm)

theorem alphanumeric_range (h : isAsciiAlphanumeric c = true) : c.toNat < 128 ∧ c ≠ 124 := by
  simp only [isAsciiAlphanumeric, Bool.or_eq_true, Bool.and_eq_true, decide_eq_true_eq,
    UInt8.le_iff_toNat_le, UInt8.reduceToNat] at h
  refine ⟨by omega, ?_⟩
  rintro rfl
  revert h
  decide

theorem range_of_mem {chars : List UInt8}
    (h : chars.all (fun c => c.toNat < 128 ∧ c ≠ 124) = true) (hc : chars.contains c = true) :
    c.toNat < 128 ∧ c ≠ 124 :=
  of_decide_eq_true (List.all_eq_true.mp h c (contains_iff_mem.mp hc))

theorem wordChar_range (h : isWordChar c = true) : c.toNat < 128 ∧ c ≠ 124 := by
  rw [isWordChar, Bool.or_eq_true] at h
  rcases h with h | h
  · exact alphanumeric_range h
  · exact range_of_mem (by decide) h

theorem tokenChar_range (h : isTokenChar c = true) : c.toNat < 128 ∧ c ≠ 124 := by
  rw [isTokenChar, Bool.or_eq_true] at h
  rcases h with h | h
  · exact alphanumeric_range h
  · exact range_of_mem (by decide) h

theorem eq_of_dropWhile_ne {rest : List UInt8} {sep : UInt8}
    (h : b.dropWhile (· ≠ c) = sep :: rest) : sep = c := by
  have hhead := List.head?_dropWhile_not (· ≠ c) b
  rw [h] at hhead
  simpa using hhead

theorem callid_range (h : isRfc3261Callid b = true) :
    b ≠ [] ∧ ∀ c ∈ b, c.toNat < 128 ∧ c ≠ 124 := by
  have hsplit := takeWhile_append_dropWhile (p := (· ≠ (64 : UInt8))) (l := b)
  rw [isRfc3261Callid] at h
  cases hhost : b.dropWhile (· ≠ 64) with
  | nil =>
    simp only [hhost, Bool.and_eq_true] at h
    refine ⟨(by rintro rfl; exact absurd h.1 (by decide)), fun c hc => ?_⟩
    exact wordChar_range (List.all_eq_true.mp h.2 c hc)
  | cons sep host =>
    simp only [hhost, Bool.and_eq_true] at h
    obtain ⟨⟨-, huser⟩, -, hhostOk⟩ := h
    have hsep := eq_of_dropWhile_ne hhost
    rw [hhost] at hsplit
    refine ⟨(by rintro rfl; cases hhost), fun c hc => ?_⟩
    rw [← hsplit, mem_append, mem_cons] at hc
    rcases hc with hc | rfl | hc
    · exact wordChar_range (List.all_eq_true.mp huser c hc)
    · rw [hsep]
      decide
    · exact wordChar_range (List.all_eq_true.mp hhostOk c hc)

/-- The bytes that are hidden: the Call-ID, and a separator and the tag when there is one. -/
def originalBytes (cid : String) : Option String → List UInt8
  | none => utf8Bytes cid
  | some tag => utf8Bytes cid ++ 124 :: utf8Bytes tag

def isToken (b : List UInt8) : Bool := !b.isEmpty && b.all isTokenChar

structure IsOriginal (cid : String) (tag : Option String) : Prop where
  callid : isRfc3261Callid (utf8Bytes cid) = true
  token : ∀ t ∈ tag, isToken (utf8Bytes t) = true

theorem splitDecoded_originalBytes (h : IsOriginal cid tag) :
    splitDecoded (originalBytes cid tag) = .decoded cid tag := by
  obtain ⟨-, hcid⟩ := callid_range h.callid
  have hno : ∀ c ∈ utf8Bytes cid, decide (c ≠ 124) = true :=
    fun c hc => decide_eq_true (hcid c hc).2
  have htext := asciiText_utf8Bytes (fun c hc => (hcid c hc).1)
  cases tag with
  | none =>
    have hdrop : (utf8Bytes cid).dropWhile (· ≠ 124) = [] := dropWhile_eq_nil_iff.mpr hno
    rw [originalBytes, splitDecoded, hdrop]
    simp only [h.callid, htext, Bool.true_eq_false, if_false]
  | some t =>
    have htoken := h.token t rfl
    have hdrop : (utf8Bytes cid ++ 124 :: utf8Bytes t).dropWhile (· ≠ 124)
        = 124 :: utf8Bytes t := by
      rw [dropWhile_append_of_pos hno]
      rfl
    have htake : (utf8Bytes cid ++ 124 :: utf8Bytes t).takeWhile (· ≠ 124) = utf8Bytes cid := by
      rw [takeWhile_append_of_pos hno]
      simp
    have hall : (utf8Bytes t).all isTokenChar = true := (Bool.and_eq_true_iff.mp htoken).2
    have hrange := fun c hc => (tokenChar_range (List.all_eq_true.mp hall c hc)).1
    have hne : (utf8Bytes t).isEmpty = false :=
      Bool.not_eq_true' _ ▸ (Bool.and_eq_true_iff.mp htoken).1
    rw [originalBytes, splitDecoded, hdrop, htake]
    simp only [h.callid, htext, hne, hall, asciiText_utf8Bytes hrange, Bool.true_eq_false,
      Bool.not_true, Bool.or_self, if_false, Bool.false_eq_true]

theorem originalBytes_of_splitDecoded {plain : List UInt8}
    (h : splitDecoded plain = .decoded cid tag) :
    IsOriginal cid tag ∧ plain = originalBytes cid tag := by
  have hsplit := takeWhile_append_dropWhile (p := (· ≠ (124 : UInt8))) (l := plain)
  rw [splitDecoded] at h
  cases hrest : plain.dropWhile (· ≠ 124) with
  | nil =>
    simp only [hrest] at h
    split_ifs at h with hcallid
    rw [Bool.not_eq_false] at hcallid
    obtain ⟨rfl, rfl⟩ := Decode.decoded.inj h
    have hbytes := utf8Bytes_asciiText (fun c hc => ((callid_range hcallid).2 c hc).1)
    exact ⟨⟨hbytes.symm ▸ hcallid, by simp⟩, hbytes.symm⟩
  | cons sep t =>
    simp only [hrest] at h
    split_ifs at h with hcallid htoken
    rw [Bool.not_eq_false] at hcallid
    rw [Bool.or_eq_true, not_or, Bool.not_eq_true, Bool.not_eq_true', Bool.not_eq_false] at htoken
    obtain ⟨rfl, rfl⟩ := Decode.decoded.inj h
    obtain rfl := eq_of_dropWhile_ne hrest
    have hbytes := utf8Bytes_asciiText (fun c hc => ((callid_range hcallid).2 c hc).1)
    have htag := utf8Bytes_asciiText
      (fun c hc => (tokenChar_range (List.all_eq_true.mp htoken.2 c hc)).1)
    refine ⟨⟨hbytes.symm ▸ hcallid, fun u hu => ?_⟩, ?_⟩
    · obtain rfl := some.inj hu
      rw [htag, isToken, htoken.1, htoken.2]
      rfl
    · rw [originalBytes, hbytes, htag, ← hrest]
      exact hsplit.symm

/-! ## Hidden Call-IDs -/

namespace ThCallid

def hiddenForm (th : ThCallid) (cid : String) (tag : Option String) : String :=
  th.hiddenPrefix ++ asciiText (word64Encode (xorWithKey (originalBytes cid tag) th.key))

variable (th : ThCallid)

theorem utf8Bytes_hiddenForm (cid : String) (tag : Option String) :
    utf8Bytes (th.hiddenForm cid tag) = utf8Bytes th.hiddenPrefix ++
      word64Encode (xorWithKey (originalBytes cid tag) th.key) := by
  rw [hiddenForm, utf8Bytes_append, utf8Bytes_asciiText (word64Encode_ascii _)]

theorem decode_eq_decoded_iff (callId cid : String) (tag : Option String) :
    th.decode callId = .decoded cid tag ↔
      IsOriginal cid tag ∧ callId = th.hiddenForm cid tag := by
  constructor
  · intro h
    rw [decode] at h
    cases hbody : (utf8Bytes th.hiddenPrefix).isPrefixOf? (utf8Bytes callId) with
    | none => simp [hbody] at h
    | some body =>
      simp only [hbody] at h
      cases hplain : word64Decode body with
      | none => simp [hplain] at h
      | some plain =>
        simp only [hplain] at h
        obtain ⟨horiginal, hbytes⟩ := originalBytes_of_splitDecoded h
        refine ⟨horiginal, utf8Bytes_injective ?_⟩
        rw [utf8Bytes_hiddenForm, ← hbytes, xorWithKey_xorWithKey,
          ← (word64Decode_eq_some_iff.mp hplain).2]
        exact (List.isPrefixOf?_eq_some_iff_append_eq.mp hbody).symm
  · rintro ⟨horiginal, rfl⟩
    have hne : originalBytes cid tag ≠ [] := by
      have hcid := (callid_range horiginal.callid).1
      cases tag with
      | none => exact hcid
      | some t => simp [originalBytes]
    have hbody := List.isPrefixOf?_eq_some_iff_append_eq.mpr (th.utf8Bytes_hiddenForm cid tag).symm
    have hplain := word64Decode_eq_some_iff.mpr
      ⟨@xorWithKey_ne_nil _ th.key hne, rfl⟩
    rw [decode, hbody]
    simp only [hplain, xorWithKey_xorWithKey]
    exact splitDecoded_originalBytes horiginal

/-- Decoding inverts hiding: an original has one hidden Call-ID, and no other is read as it. -/
theorem decode_inverts_hiding (th : ThCallid) (cid : String) (tag : Option String) :
    (∀ callId : String, th.decode callId = .decoded cid tag ↔
        IsOriginal cid tag ∧ callId = th.hiddenForm cid tag) ∧
      (IsOriginal cid tag → ∃! callId : String, th.decode callId = .decoded cid tag) ∧
      ∀ first second : String, first ≠ second → th.decode first = .decoded cid tag →
        th.decode second ≠ .decoded cid tag := by
  have hiff := fun callId => th.decode_eq_decoded_iff callId cid tag
  refine ⟨hiff, fun h => ⟨th.hiddenForm cid tag, (hiff _).mpr ⟨h, rfl⟩, ?_⟩, ?_⟩
  · intro callId hcallId
    exact ((hiff callId).mp hcallId).2
  · intro first second hne hfirst hsecond
    exact hne (((hiff first).mp hfirst).2.trans ((hiff second).mp hsecond).2.symm)

/-- A one-byte secret hides the Call-ID `a` with the tag `t` in one group. -/
theorem decode_inverts_hiding_one_group :
    let th : ThCallid := ⟨[107], "DLGCH_", by decide, by decide⟩
    (∃! callId : String, th.decode callId = .decoded "a" (some "t")) ∧
      th.decode "DLGCH_Chcf" = .decoded "a" (some "t") ∧
      th.decode "DLGCH_Chcg" ≠ .decoded "a" (some "t") := by
  intro th
  obtain ⟨hiff, hone, hother⟩ := th.decode_inverts_hiding "a" (some "t")
  have hreads : th.decode "DLGCH_Chcf" = .decoded "a" (some "t") := by decide
  exact ⟨hone ((hiff _).mp hreads).1, hreads, hother _ _ (by decide) hreads⟩

end ThCallid

end Sipnab
