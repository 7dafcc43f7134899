import Sipnab.Lib.BigEndian
import Sipnab.Lib.PrefixPreserving
import Sipnab.Sip.Message

/-!
# Pseudonyms of addresses

An address is replaced bit by bit: a bit is turned over by a keyed hash of the bits above it. The
unspecified address is left as it is, for in SDP it puts a call on hold.
-/

namespace Sipnab.Redact

/-- What a run redacts addresses with: a keyed hash. -/
structure Redactor where
  prf (domain : UInt8) (input : List UInt8) : Vector UInt8 32

def domainIpv4 : UInt8 := 4

def domainIpv6 : UInt8 := 5

namespace Redactor

variable (redactor : Redactor)

/-- The bit of the hash that turns over the bit of an address behind a prefix. -/
def padBit {w : ℕ} (domain : UInt8) (bit : ℕ) (above : BitVec w) : UInt8 :=
  (redactor.prf domain (UInt8.ofNat bit :: toBeBytes (w / 8) above.toNat))[0] &&& 1

def cryptoPan {w : ℕ} (domain : UInt8) (original : BitVec w) : BitVec w :=
  original ^^^ (List.range w).foldl (fun pad bit =>
    let above := if bit = 0 then 0 else (original >>> (w - bit)) <<< (w - bit)
    pad ||| BitVec.ofNat w (redactor.padBit domain bit above).toNat <<< (w - 1 - bit)) 0

def ipv4 (addr : BitVec 32) : BitVec 32 := redactor.cryptoPan domainIpv4 addr

def ipv6 (addr : BitVec 128) : BitVec 128 := redactor.cryptoPan domainIpv6 addr

def ip : IpAddr → IpAddr
  | .v4 v4 => if v4 = 0 then .v4 v4 else .v4 (redactor.ipv4 v4)
  | .v6 v6 => if v6 = 0 then .v6 v6 else .v6 (redactor.ipv6 v6)

/-! ## Shared prefixes -/

variable {redactor} {w : ℕ} {domain : UInt8}

theorem padBit_toNat (bit : ℕ) (above : BitVec w) :
    (redactor.padBit domain bit above).toNat =
      (decide ((redactor.padBit domain bit above).toNat = 1)).toNat := by
  have hlt : (redactor.padBit domain bit above).toNat < 2 := by
    rw [padBit, UInt8.toNat_and, UInt8.toNat_one, Nat.and_one_is_mod]
    exact Nat.mod_lt _ Nat.two_pos
  by_cases hone : (redactor.padBit domain bit above).toNat = 1
  · simp [hone]
  · have hzero : (redactor.padBit domain bit above).toNat = 0 := by omega
    simp [hzero]

theorem getMsbD_foldl_or (turn : ℕ → Bool) {n : ℕ} (hn : n ≤ w) {i : ℕ} (hi : i < w) :
    ((List.range n).foldl (fun pad bit =>
        pad ||| BitVec.ofNat w (turn bit).toNat <<< (w - 1 - bit)) (0#w)).getMsbD i =
      (decide (i < n) && turn i) := by
  induction n with
  | zero => simp
  | succ n ih =>
    have hbit : (BitVec.ofNat w (turn n).toNat <<< (w - 1 - n)).getMsbD i =
        (decide (i = n) && turn n) := by
      rw [BitVec.getMsbD_eq_getLsbD, BitVec.getLsbD_shiftLeft, BitVec.getLsbD_ofNat]
      cases turn n with
      | false => simp
      | true =>
        rw [Bool.eq_iff_iff]
        simp [Nat.testBit_one_eq_true_iff_self_eq_zero]
        omega
    rw [List.range_succ, List.foldl_append, List.foldl_cons, List.foldl_nil, BitVec.getMsbD_or,
      ih (Nat.le_of_succ_le hn), hbit]
    by_cases hin : i = n
    · simp [hin]
    · have hlt : i < n + 1 ↔ i < n := by omega
      simp [hin, hlt]

theorem turnsBits_cryptoPan (domain : UInt8) :
    TurnsBits (fun bit above => decide ((redactor.padBit domain bit above).toNat = 1))
      (@cryptoPan redactor w domain) := by
  intro a i hi
  have habove : ∀ bit, (if bit = 0 then 0 else (a >>> (w - bit)) <<< (w - bit)) =
      firstBits a bit := by
    intro bit
    split_ifs with hbit
    · rw [hbit, firstBits]
      simp
    · rfl
  rw [cryptoPan, BitVec.getMsbD_xor]
  simp only [habove]
  have hpad := getMsbD_foldl_or
    (fun bit => decide ((redactor.padBit domain bit (firstBits a bit)).toNat = 1)) le_rfl hi
  simp only [← padBit_toNat] at hpad
  rw [decide_eq_true hi, Bool.true_and] at hpad
  exact congrArg (a.getMsbD i ^^ ·) hpad

/-! ## Addresses of a family -/

def isUnspecified : IpAddr → Bool
  | .v4 v4 => v4 = 0
  | .v6 v6 => v6 = 0

def leadingBits : IpAddr → IpAddr → Option ℕ
  | .v4 a, .v4 b => some (sharedBits a b)
  | .v6 a, .v6 b => some (sharedBits a b)
  | _, _ => none

theorem ip_of_specified {addr : IpAddr} (h : isUnspecified addr = false) :
    redactor.ip addr = match addr with
      | .v4 v4 => .v4 (redactor.ipv4 v4)
      | .v6 v6 => .v6 (redactor.ipv6 v6) := by
  cases addr with
  | v4 v4 =>
    rw [ip, if_neg (by simpa [isUnspecified] using h)]
  | v6 v6 =>
    rw [ip, if_neg (by simpa [isUnspecified] using h)]

theorem leadingBits_ip {a b : IpAddr} (ha : isUnspecified a = false) (hb : isUnspecified b = false) :
    leadingBits (redactor.ip a) (redactor.ip b) = leadingBits a b := by
  rw [ip_of_specified ha, ip_of_specified hb]
  cases a with
  | v4 a =>
    cases b with
    | v4 b => exact congrArg some ((turnsBits_cryptoPan domainIpv4).sharedBits_eq a b)
    | v6 b => rfl
  | v6 a =>
    cases b with
    | v4 b => rfl
    | v6 b => exact congrArg some ((turnsBits_cryptoPan domainIpv6).sharedBits_eq a b)

theorem ip_injective {a b : IpAddr} (ha : isUnspecified a = false) (hb : isUnspecified b = false)
    (h : redactor.ip a = redactor.ip b) : a = b := by
  rw [ip_of_specified ha, ip_of_specified hb] at h
  cases a with
  | v4 a =>
    cases b with
    | v4 b => rw [(turnsBits_cryptoPan domainIpv4).injective (IpAddr.v4.inj h)]
    | v6 b => cases h
  | v6 a =>
    cases b with
    | v4 b => cases h
    | v6 b => rw [(turnsBits_cryptoPan domainIpv6).injective (IpAddr.v6.inj h)]

structure KeepsAddresses (redactor : Redactor) : Prop where
  leadingBits : ∀ a b, isUnspecified a = false → isUnspecified b = false →
    leadingBits (redactor.ip a) (redactor.ip b) = leadingBits a b
  injective : ∀ a b, isUnspecified a = false → isUnspecified b = false →
    redactor.ip a = redactor.ip b → a = b
  specified : ∀ a, isUnspecified a = false → isUnspecified (redactor.ip a) = false

/-- Prefixes are kept by every key. Some address becomes the unspecified one, unless the hash leaves
every bit of that one as it is. -/
theorem keepsAddresses_iff (redactor : Redactor) :
    redactor.KeepsAddresses ↔
      (∀ bit < 32, redactor.padBit domainIpv4 bit (0#32) = 0) ∧
        ∀ bit < 128, redactor.padBit domainIpv6 bit (0#128) = 0 := by
  have hzero : ∀ {w : ℕ} (domain : UInt8), (∀ a : BitVec w, a ≠ 0#w →
      redactor.cryptoPan domain a ≠ 0#w) ↔ ∀ bit < w, redactor.padBit domain bit (0#w) = 0 := by
    intro w domain
    rw [(@turnsBits_cryptoPan redactor w domain).zero_only_iff]
    refine forall_congr' (fun bit => imp_congr_right (fun _ => ?_))
    have hbit := @padBit_toNat redactor w domain bit (0#w)
    rw [decide_eq_false_iff_not, ← UInt8.toNat_inj, UInt8.toNat_zero]
    cases hone : decide ((redactor.padBit domain bit (0#w)).toNat = 1) <;> rw [hone] at hbit <;>
      simp [hbit]
  have hspecified : (∀ a, isUnspecified a = false → isUnspecified (redactor.ip a) = false) ↔
      (∀ a : BitVec 32, a ≠ 0#32 → redactor.ipv4 a ≠ 0#32) ∧
        ∀ a : BitVec 128, a ≠ 0#128 → redactor.ipv6 a ≠ 0#128 := by
    constructor
    · intro h
      constructor
      · intro a ha
        have ha' : isUnspecified (.v4 a) = false := decide_eq_false ha
        have hip := h (.v4 a) ha'
        rw [ip_of_specified ha'] at hip
        exact of_decide_eq_false hip
      · intro a ha
        have ha' : isUnspecified (.v6 a) = false := decide_eq_false ha
        have hip := h (.v6 a) ha'
        rw [ip_of_specified ha'] at hip
        exact of_decide_eq_false hip
    · rintro ⟨h4, h6⟩ a ha
      rw [ip_of_specified ha]
      cases a with
      | v4 a => exact decide_eq_false (h4 a (of_decide_eq_false ha))
      | v6 a => exact decide_eq_false (h6 a (of_decide_eq_false ha))
  rw [← hzero domainIpv4, ← hzero domainIpv6]
  constructor
  · intro h
    exact hspecified.mp h.specified
  · intro h
    exact ⟨fun a b => leadingBits_ip, fun a b => ip_injective, hspecified.mpr h⟩

def turningRedactor : Redactor := ⟨fun _ _ => Vector.replicate 32 1⟩

/-- The broadcast address becomes the address that means hold. -/
theorem broadcast_held :
    turningRedactor.ip (.v4 0xffffffff) = .v4 0 ∧ ¬ turningRedactor.KeepsAddresses := by
  have hheld : turningRedactor.ip (.v4 0xffffffff) = .v4 0 := by decide +kernel
  refine ⟨hheld, ?_⟩
  intro h
  have hspecified := h.specified (.v4 0xffffffff) (by decide)
  rw [hheld] at hspecified
  cases hspecified

end Redactor

end Sipnab.Redact
