import Sipnab.Lib.IndexMap
import Sipnab.Hep.Packet

/-!
# Signed HEP packets

The auth chunk of a signed packet holds a token: a version, a time, a nonce and a tag. The tag is
that of the whole datagram with zeros in the place of the tag. The receiver takes a token whose time
is near its own and whose nonce it does not remember.
-/

namespace Sipnab

/-- `constant_time_eq`: every place is looked at, a place past the end as zero. -/
def constantTimeEq (a b : List UInt8) : Bool :=
  let byteDiff := (List.range (max a.length b.length)).foldl
    (fun diff i => diff ||| (a.getD i 0 ^^^ b.getD i 0)) (0 : UInt8)
  a.length = b.length && byteDiff = 0

theorem foldl_or_eq_zero {α : Type*} (f : α → UInt8) (xs : List α) (d : UInt8) :
    xs.foldl (fun diff x => diff ||| f x) d = 0 ↔ d = 0 ∧ ∀ x ∈ xs, f x = 0 := by
  induction xs generalizing d with
  | nil => simp
  | cons x xs ih =>
    rw [List.foldl_cons, ih, UInt8.or_eq_zero_iff, List.forall_mem_cons, and_assoc]

theorem constantTimeEq_iff {a b : List UInt8} : constantTimeEq a b = true ↔ a = b := by
  rw [constantTimeEq, Bool.and_eq_true, decide_eq_true_eq, decide_eq_true_eq, foldl_or_eq_zero]
  constructor
  · rintro ⟨hlength, -, hdiff⟩
    apply List.ext_getElem hlength
    intro i hi hi'
    have h := hdiff i (List.mem_range.mpr (lt_max_of_lt_left hi))
    rw [UInt8.xor_eq_zero_iff, List.getD_eq_getElem?_getD, List.getD_eq_getElem?_getD,
      List.getElem?_eq_getElem hi, List.getElem?_eq_getElem hi', Option.getD_some,
      Option.getD_some] at h
    exact h
  · rintro rfl
    refine ⟨rfl, rfl, fun i _ => ?_⟩
    exact UInt8.xor_self

def hmacTokenVersion : UInt8 := 2
def hmacTokenVersionUnbound : UInt8 := 1
def hmacTokenLen : ℕ := 1 + 8 + 16 + 32
def hmacMacOffset : ℕ := 1 + 8 + 16

def tokenTime (token : List UInt8) : ℕ := ofBeBytes ((token.drop 1).take 8)

def tokenNonce (token : List UInt8) : List UInt8 := (token.drop 9).take 16

def zeroMac : List UInt8 := List.replicate 32 0

inductive HmacAuthError
  | badFormat
  | unsupportedVersion
  | timestampOutOfWindow
  | badMac
  | replay
  deriving DecidableEq

/-! ## Nonces that are remembered -/

/-- The accepted nonces with the times of their tokens, and the instant (in nanoseconds) of the last
sweep. -/
structure HmacNonceCache where
  seen : IndexMap (List UInt8) ℕ := .empty
  lastPrune : Option ℕ := none
  deriving DecidableEq

namespace HmacNonceCache

def contains (cache : HmacNonceCache) (nonce : List UInt8) : Bool := (cache.seen.get? nonce).isSome

def insert (cache : HmacNonceCache) (nonce : List UInt8) (ts : ℕ) : HmacNonceCache :=
  { cache with seen := cache.seen.insert nonce ts }

def prune (cache : HmacNonceCache) (minTs : ℕ) : HmacNonceCache :=
  { cache with seen := cache.seen.filter (fun entry => minTs ≤ entry.2) }

def shouldPrune (cache : HmacNonceCache) (instant : ℕ) : Bool × HmacNonceCache :=
  match cache.lastPrune with
  | some prev =>
    if instant - prev < 1000000000 then (false, cache)
    else (true, { cache with lastPrune := some instant })
  | none => (true, { cache with lastPrune := some instant })

def sweep (cache : HmacNonceCache) (instant now window : ℕ) : HmacNonceCache :=
  let (due, cache) := cache.shouldPrune instant
  if due then cache.prune (now - window) else cache

end HmacNonceCache

/-! ## Signing and verifying -/

structure HepHmacSigning where
  key : List UInt8
  tokenTs : BitVec 64
  nonce : List UInt8
  length_nonce : nonce.length = 16

def writeAt (bytes : List UInt8) (start : ℕ) (data : List UInt8) : List UInt8 :=
  bytes.take start ++ data ++ bytes.drop (start + data.length)

def findAuthChunkSpan (datagram : List UInt8) : Option (ℕ × ℕ) :=
  match parseHep datagram with
  | .ok packet => packet.authSpan
  | .error _ => none

/-- A datagram as it arrives, with the monotonic clock in nanoseconds and the seconds since the
epoch. -/
structure HmacArrival where
  bytes : List UInt8
  instant : ℕ
  now : ℕ
  deriving DecidableEq

section Hmac

-- the tag of a message under a key
variable (hmac : List UInt8 → List UInt8 → List UInt8)

def hmacSha256Parts (key : List UInt8) (parts : List (List UInt8)) : List UInt8 :=
  hmac key parts.flatten

def hmacOverDatagram (key datagram : List UInt8) (macStart : ℕ) : List UInt8 :=
  if datagram.length < macStart + 32 then zeroMac
  else hmacSha256Parts hmac key [datagram.take macStart, zeroMac, datagram.drop (macStart + 32)]

def buildHepV3HmacCorrelated (endpoint : HepEndpoint) (timestamp : DateTime)
    (protocol : HepProtocol) (captureId : BitVec 32) (signing : HepHmacSigning)
    (correlationId : Option (List UInt8)) (payload : List UInt8) : List UInt8 :=
  let placeholder := List.replicate hmacTokenLen 0
  let pkt := buildHepV3Correlated endpoint timestamp protocol captureId (some placeholder)
    correlationId payload
  match findAuthChunkSpan pkt with
  | none => pkt
  | some (start, stop) =>
    if stop - start ≠ hmacTokenLen then pkt
    else
      let pkt := writeAt pkt start [hmacTokenVersion]
      let pkt := writeAt pkt (start + 1) (toBeBytes 8 signing.tokenTs.toNat)
      let pkt := writeAt pkt (start + 9) signing.nonce
      let macStart := start + hmacMacOffset
      writeAt pkt macStart (hmacOverDatagram hmac signing.key pkt macStart)

def buildHepV3Hmac (endpoint : HepEndpoint) (timestamp : DateTime) (protocol : HepProtocol)
    (captureId : BitVec 32) (signing : HepHmacSigning) (payload : List UInt8) : List UInt8 :=
  buildHepV3HmacCorrelated hmac endpoint timestamp protocol captureId signing none payload

def verifyHmacDatagram (key datagram : List UInt8) (authSpan : ℕ × ℕ) (instant now window : ℕ)
    (seen : HmacNonceCache) : Except HmacAuthError Unit × HmacNonceCache :=
  let (start, stop) := authSpan
  if datagram.length < stop ∨ stop < start ∨ stop - start ≠ hmacTokenLen then
    (.error .badFormat, seen)
  else
    let token := (datagram.take stop).drop start
    let version := token.headD 0
    if version = hmacTokenVersionUnbound then (.error .unsupportedVersion, seen)
    else if version ≠ hmacTokenVersion then (.error .badFormat, seen)
    else
      let ts := tokenTime token
      if window < (now - ts) + (ts - now) then (.error .timestampOutOfWindow, seen)
      else
        let nonce := tokenNonce token
        let macStart := start + hmacMacOffset
        let expected := hmacOverDatagram hmac key datagram macStart
        if constantTimeEq expected ((datagram.take stop).drop macStart) = false then
          (.error .badMac, seen)
        else
          let seen := seen.sweep instant now window
          if seen.contains nonce then (.error .replay, seen)
          else (.ok (), seen.insert nonce ts)

/-- `hmac_auth_ok` under a configured key. Without an auth chunk there is nothing to verify. -/
def hmacAuthOk (key : List UInt8) (window : ℕ) (cache : HmacNonceCache) (arrival : HmacArrival) :
    Except (Option HmacAuthError) Unit × HmacNonceCache :=
  match findAuthChunkSpan arrival.bytes with
  | none => (.error none, cache)
  | some span =>
    let (verdict, cache) := verifyHmacDatagram hmac key arrival.bytes span arrival.instant
      arrival.now window cache
    (verdict.mapError some, cache)

def cacheAfter (key : List UInt8) (window : ℕ) (arrivals : List HmacArrival) : HmacNonceCache :=
  arrivals.foldl (fun cache arrival => (hmacAuthOk hmac key window cache arrival).2) {}

def Accepted (key : List UInt8) (window : ℕ) (before : List HmacArrival) (arrival : HmacArrival) :
    Prop :=
  (hmacAuthOk hmac key window (cacheAfter hmac key window before) arrival).1 = .ok ()

theorem eq_ok_iff_isOk {ε : Type*} {x : Except ε Unit} : x.isOk = true ↔ x = .ok () := by
  cases x with
  | error e => exact ⟨(fun h => by cases h), (fun h => by cases h)⟩
  | ok u => exact ⟨fun _ => rfl, fun _ => rfl⟩

instance (key : List UInt8) (window : ℕ) (before : List HmacArrival) (arrival : HmacArrival) :
    Decidable (Accepted hmac key window before arrival) :=
  decidable_of_iff
    ((hmacAuthOk hmac key window (cacheAfter hmac key window before) arrival).1.isOk = true)
    eq_ok_iff_isOk

end Hmac

end Sipnab
