import Sipnab.Lib.IndexMap

/-!
# SRTP

A packet is authenticated by a tag over its bytes and the rollover counter, the high bits of its
index, which no packet carries. The counter is estimated from the highest index seen for the
packet's SSRC. A context holds candidate keys, tries them in turn, and decrypts with the counter
that authenticated the packet. The keyed hash and the block cipher are those of a library.
-/

namespace Sipnab

inductive SrtpError
  | packetTooShort (length : ℕ)
  | saltTooLong (length : ℕ)
  | badKeyLength (length : ℕ)
  | backend (reason : String)
  deriving DecidableEq

inductive SrtpSuite
  | aesCm128HmacSha1_80 | aesCm128HmacSha1_32 | aesCm256HmacSha1_80
  | unknown (name : String)
  deriving DecidableEq

structure SrtpKeyMaterial where
  suite : SrtpSuite
  masterKey : List UInt8
  masterSalt : List UInt8
  ssrc : Option (BitVec 32) := none
  deriving DecidableEq

/-- The library's functions: the keyed hash, the block cipher, and the hash that tells key material
apart. -/
structure Crypto where
  hmacSha1 : List UInt8 → List UInt8 → Except SrtpError (List UInt8)
  encryptBlock : List UInt8 → List UInt8 → List UInt8
  length_encryptBlock : ∀ key block, (encryptBlock key block).length = 16
  fingerprint : List UInt8 → List UInt8 → SrtpSuite → ℕ

def authTagLen : SrtpSuite → ℕ
  | .aesCm128HmacSha1_80 | .aesCm256HmacSha1_80 => 10
  | .aesCm128HmacSha1_32 => 4
  | .unknown _ => 10

/-! ## Keys -/

def prfIv (masterSalt : List UInt8) (label : UInt8) : List UInt8 :=
  (masterSalt ++ List.replicate (16 - masterSalt.length) 0).modify 7 (· ^^^ label)

/-- The key derivation: the cipher in counter mode from the labelled salt. -/
def aesCmPrf (crypto : Crypto) (masterKey masterSalt : List UInt8) (label : UInt8)
    (outputLen : ℕ) : Except SrtpError (List UInt8) :=
  if 14 < masterSalt.length then .error (.saltTooLong masterSalt.length)
  else if outputLen = 0 then .ok []
  else if masterKey.length ≠ 16 ∧ masterKey.length ≠ 32 then
    .error (.badKeyLength masterKey.length)
  else
    let block := fun counter : ℕ =>
      ((prfIv masterSalt label).set 14 (UInt8.ofNat (counter / 256))).set 15 (UInt8.ofNat counter)
    .ok (((List.range ((outputLen + 15) / 16)).flatMap
      (fun counter => crypto.encryptBlock masterKey (block counter))).take outputLen)

def deriveSessionKey (crypto : Crypto) (masterKey masterSalt : List UInt8) (label : UInt8)
    (outputLen : ℕ) : Except SrtpError (List UInt8) :=
  aesCmPrf crypto masterKey masterSalt label outputLen

def srtpLabelAuth : UInt8 := 1

def srtpAuthKeyLen : ℕ := 20

/-- The session keys of one master key, with the hash of what they come from. -/
structure DerivedSessionKeys where
  fingerprint : ℕ
  cipherKey : List UInt8
  cipherSalt : List UInt8
  authKey : List UInt8
  deriving DecidableEq

def DerivedSessionKeys.derive (crypto : Crypto) (km : SrtpKeyMaterial) (fingerprint : ℕ) :
    Except SrtpError DerivedSessionKeys := do
  let cipherKey ← aesCmPrf crypto km.masterKey km.masterSalt 0 km.masterKey.length
  let cipherSalt ← aesCmPrf crypto km.masterKey km.masterSalt 2 14
  let authKey ← deriveSessionKey crypto km.masterKey km.masterSalt srtpLabelAuth srtpAuthKeyLen
  return { fingerprint, cipherKey, cipherSalt, authKey }

/-! ## Authentication -/

def bigEndian (bytes : List UInt8) : ℕ := bytes.foldl (fun n b => 256 * n + b.toNat) 0

def rocBytes (roc : BitVec 32) : List UInt8 :=
  [24, 16, 8, 0].map (fun shift => UInt8.ofNat (roc.toNat / 2 ^ shift))

def packetSequence (packet : List UInt8) : BitVec 16 :=
  BitVec.ofNat 16 (bigEndian ((packet.drop 2).take 2))

def packetSsrc (packet : List UInt8) : BitVec 32 :=
  BitVec.ofNat 32 (bigEndian ((packet.drop 8).take 4))

/-- The tag over the bytes and the counter is the one received. -/
def srtpTagMatches (crypto : Crypto) (authPortion receivedTag sessionAuthKey : List UInt8)
    (roc : BitVec 32) (tagLen : ℕ) : Except SrtpError Bool := do
  let fullTag ← crypto.hmacSha1 sessionAuthKey (authPortion ++ rocBytes roc)
  return fullTag.take tagLen == receivedTag

structure RocState where
  roc : BitVec 32
  sL : BitVec 16
  deriving DecidableEq

/-- The counter of a packet from the highest one seen: one less for a late packet of the epoch
before, one more where the sequence numbers wrapped. -/
def estimateRoc (roc : BitVec 32) (sL seq : BitVec 16) : BitVec 32 :=
  let half : ℤ := 2 ^ 15
  if (sL.toNat : ℤ) < half then
    if half < (seq.toNat : ℤ) - sL.toNat then roc - 1 else roc
  else if (seq.toNat : ℤ) < sL.toNat - half then roc + 1 else roc

structure SrtpRocTracker where
  perSsrc : IndexMap (BitVec 32) RocState := .empty

namespace SrtpRocTracker

/-- The state behind an authenticated packet: its own if it is the newest. -/
def advance (existing : Option RocState) (roc : BitVec 32) (seq : BitVec 16) : RocState :=
  match existing with
  | none => { roc := 0, sL := seq }
  | some prev =>
    if roc = prev.roc + 1 ∨ (roc = prev.roc ∧ prev.sL < seq) then { roc, sL := seq } else prev

/-- The counter that authenticated the packet, and the tracker behind it. A tag that does not match
leaves the tracker alone, and so does an error. -/
def verifyRocWithAuthKey (crypto : Crypto) (tracker : SrtpRocTracker) (packet : List UInt8)
    (tagLen : ℕ) (sessionAuthKey : List UInt8) :
    Except SrtpError (Option (BitVec 32) × SrtpRocTracker) :=
  if packet.length < 12 + tagLen then .error (.packetTooShort packet.length)
  else do
    let seq := packetSequence packet
    let ssrc := packetSsrc packet
    let authPortionLen := packet.length - tagLen
    let existing := tracker.perSsrc.get? ssrc
    let roc := match existing with
      | some st => estimateRoc st.roc st.sL seq
      | none => 0
    let verified ← srtpTagMatches crypto (packet.take authPortionLen) (packet.drop authPortionLen)
      sessionAuthKey roc tagLen
    if verified then
      return (some roc, { perSsrc := tracker.perSsrc.insert ssrc (advance existing roc seq) })
    else return (none, tracker)

def verifyRoc (crypto : Crypto) (tracker : SrtpRocTracker) (packet : List UInt8)
    (km : SrtpKeyMaterial) : Except SrtpError (Option (BitVec 32) × SrtpRocTracker) :=
  let tagLen := authTagLen km.suite
  if packet.length < 12 + tagLen then .error (.packetTooShort packet.length)
  else do
    let sessionAuthKey ← deriveSessionKey crypto km.masterKey km.masterSalt srtpLabelAuth
      srtpAuthKeyLen
    verifyRocWithAuthKey crypto tracker packet tagLen sessionAuthKey

end SrtpRocTracker

/-! ## Decryption -/

/-- The first counter block: the salt, the SSRC and the packet's index. -/
def srtpCipherIv (sessionSalt : List UInt8) (ssrc : BitVec 32) (packetIndex : ℕ) : List UInt8 :=
  let salt := sessionSalt.take 14
  let padded := salt ++ List.replicate (16 - salt.length) 0
  let bytes := List.replicate 4 0 ++ rocBytes ssrc ++
    ([40, 32, 24, 16, 8, 0].map (fun shift => UInt8.ofNat (packetIndex / 2 ^ shift))) ++ [0, 0]
  List.zipWith (· ^^^ ·) padded bytes

def incrLe : List UInt8 → List UInt8
  | [] => []
  | b :: bs => if b = 255 then 0 :: incrLe bs else (b + 1) :: bs

def incrBe128 (block : List UInt8) : List UInt8 := (incrLe block.reverse).reverse

def srtpAesCmKeystream (crypto : Crypto) (sessionKey iv : List UInt8) (len : ℕ) :
    Except SrtpError (List UInt8) :=
  if sessionKey.length ≠ 16 ∧ sessionKey.length ≠ 32 then .error (.badKeyLength sessionKey.length)
  else .ok (((List.iterate incrBe128 iv ((len + 15) / 16)).flatMap
    (crypto.encryptBlock sessionKey)).take len)

def decryptSrtpPayloadWithSession (crypto : Crypto) (packet : List UInt8) (payloadOffset tagLen : ℕ)
    (sessionKey sessionSalt : List UInt8) (roc : BitVec 32) : Except SrtpError (List UInt8) :=
  if packet.length < payloadOffset + tagLen ∨ payloadOffset < 12 then
    .error (.packetTooShort packet.length)
  else do
    let packetIndex := roc.toNat * 2 ^ 16 + (packetSequence packet).toNat
    let ciphertext := (packet.take (packet.length - tagLen)).drop payloadOffset
    let iv := srtpCipherIv sessionSalt (packetSsrc packet) packetIndex
    let keystream ← srtpAesCmKeystream crypto sessionKey iv ciphertext.length
    return List.zipWith (· ^^^ ·) ciphertext keystream

/-! ## A context of candidate keys -/

structure SessionKeyCache where
  entries : IndexMap ℕ DerivedSessionKeys := .empty
  deriveCount : ℕ := 0

namespace SessionKeyCache

/-- The session keys of a candidate, derived where they are not held for this key material. -/
def getOrDerive (crypto : Crypto) (cache : SessionKeyCache) (index : ℕ) (km : SrtpKeyMaterial) :
    Except SrtpError (DerivedSessionKeys × SessionKeyCache) :=
  let fingerprint := crypto.fingerprint km.masterKey km.masterSalt km.suite
  match cache.entries.get? index with
  | some cached =>
    if cached.fingerprint = fingerprint then .ok (cached, cache)
    else do
      let derived ← DerivedSessionKeys.derive crypto km fingerprint
      return (derived, ⟨cache.entries.insert index derived, cache.deriveCount + 1⟩)
  | none => do
    let derived ← DerivedSessionKeys.derive crypto km fingerprint
    return (derived, ⟨cache.entries.insert index derived, cache.deriveCount + 1⟩)

end SessionKeyCache

structure SrtpContext where
  keys : List SrtpKeyMaterial
  tracker : SrtpRocTracker := {}
  sessionCache : SessionKeyCache := {}
  decryptedCount : ℕ := 0

namespace SrtpContext

/-- The candidates for an SSRC: keys pinned to it, then those pinned to none. -/
def candidates (ctx : SrtpContext) (ssrc : BitVec 32) : List (ℕ × SrtpKeyMaterial) :=
  let indexed := (List.range ctx.keys.length).zip ctx.keys
  indexed.filter (fun e => e.2.ssrc = some ssrc) ++ indexed.filter (fun e => e.2.ssrc = none)

/-- Try one candidate after the other. The first that authenticates the packet decides: the counter
it used, and the packet in plain text where it decrypts. -/
def tryKeys (crypto : Crypto) (packet : List UInt8) (payloadOffset : ℕ) :
    List (ℕ × SrtpKeyMaterial) → SrtpContext →
      SrtpContext × Option (BitVec 32 × Option (List UInt8))
  | [], ctx => (ctx, none)
  | (i, km) :: rest, ctx =>
    let tagLen := authTagLen km.suite
    match ctx.sessionCache.getOrDerive crypto i km with
    | .error _ => tryKeys crypto packet payloadOffset rest ctx
    | .ok (session, sessionCache) =>
      let ctx := { ctx with sessionCache }
      match ctx.tracker.verifyRocWithAuthKey crypto packet tagLen session.authKey with
      | .ok (some roc, tracker) =>
        let ctx := { ctx with tracker }
        match decryptSrtpPayloadWithSession crypto packet payloadOffset tagLen session.cipherKey
            session.cipherSalt roc with
        | .ok plaintext =>
          ({ ctx with decryptedCount := ctx.decryptedCount + 1 },
            some (roc, some (packet.take payloadOffset ++ plaintext)))
        | .error _ => (ctx, some (roc, none))
      | .ok (none, _) => tryKeys crypto packet payloadOffset rest ctx
      | .error _ => tryKeys crypto packet payloadOffset rest ctx

/-- The counter that authenticated a packet with what came out of it. -/
def decryptRoc (crypto : Crypto) (ctx : SrtpContext) (packet : List UInt8) (payloadOffset : ℕ) :
    SrtpContext × Option (BitVec 32 × Option (List UInt8)) :=
  if ctx.keys.isEmpty ∨ packet.length < 12 ∨ payloadOffset < 12 then (ctx, none)
  else tryKeys crypto packet payloadOffset (ctx.candidates (packetSsrc packet)) ctx

end SrtpContext

end Sipnab
