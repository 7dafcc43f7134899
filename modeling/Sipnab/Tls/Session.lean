import Sipnab.Lib.BigEndian
import Sipnab.Rtp.Stream

/-!
# TLS sessions

A session holds the keys of one connection and, for each direction, how far its records have been
followed. A record is opened by trying sequence numbers: nothing on the wire carries them, and the
authentication of the cipher decides which one is right.
-/

namespace Sipnab.Tls

abbrev Bytes := List UInt8

/-! ## Records -/

inductive TlsContentType
  | changeCipherSpec
  | alert
  | handshake
  | applicationData
  | unknown (byte : UInt8)
  deriving DecidableEq

inductive TlsVersion
  | tls10
  | tls11
  | tls12
  | tls13
  | unknown (code : UInt16)
  deriving DecidableEq

structure TlsRecord where
  contentType : TlsContentType
  version : TlsVersion
  length : UInt16
  payload : Bytes
  deriving DecidableEq

def TlsContentType.toByte : TlsContentType → UInt8
  | changeCipherSpec => 20
  | alert => 21
  | handshake => 22
  | applicationData => 23
  | unknown b => b

def TlsVersion.toCode : TlsVersion → UInt16
  | tls10 => 0x0301
  | tls11 => 0x0302
  | tls12 | tls13 => 0x0303
  | unknown v => v

def buildRecordAad (record : TlsRecord) : Bytes :=
  record.contentType.toByte ::
    (toBeBytes 2 record.version.toCode.toNat ++ toBeBytes 2 record.length.toNat)

def buildTls12GcmAad (seq : ℕ) (contentType : UInt8) (version : UInt16) (plaintextLen : ℕ) : Bytes :=
  toBeBytes 8 seq ++ contentType :: (toBeBytes 2 version.toNat ++ toBeBytes 2 plaintextLen)

/-! ## Ciphers and keys -/

inductive HashAlg
  | sha256
  | sha384
  deriving DecidableEq

structure CryptoBackend where
  aesGcmDecrypt (key nonce aad ciphertext : Bytes) : Option Bytes
  hkdfExpand (prk info : Bytes) (len : ℕ) (hash : HashAlg) : Option Bytes
  hmac (key data : Bytes) (hash : HashAlg) : Bytes

inductive CipherSuite
  | aes128Gcm
  | aes256Gcm
  | aes128CbcSha
  | aes256CbcSha256
  deriving DecidableEq

namespace CipherSuite

def keyLen : CipherSuite → ℕ
  | aes128Gcm | aes128CbcSha => 16
  | aes256Gcm | aes256CbcSha256 => 32

def ivLen : CipherSuite → ℕ
  | aes128Gcm | aes256Gcm => 12
  | aes128CbcSha | aes256CbcSha256 => 16

def tls12FixedIvLen : CipherSuite → ℕ
  | aes128Gcm | aes256Gcm => 4
  | aes128CbcSha | aes256CbcSha256 => 16

def macKeyLen : CipherSuite → ℕ
  | aes128CbcSha => 20
  | aes256CbcSha256 => 32
  | aes128Gcm | aes256Gcm => 0

def isCbc : CipherSuite → Bool
  | aes128CbcSha | aes256CbcSha256 => true
  | aes128Gcm | aes256Gcm => false

def hash : CipherSuite → HashAlg
  | aes256Gcm => .sha384
  | aes128Gcm | aes128CbcSha | aes256CbcSha256 => .sha256

def fromCodePoint (code : ℕ) : Option CipherSuite :=
  if code ∈ [0x1301, 0xC02B, 0xC02F, 0x009E, 0x009C] then some aes128Gcm
  else if code ∈ [0x1302, 0xC02C, 0xC030, 0x009F, 0x009D] then some aes256Gcm
  else if code ∈ [0x002F, 0x003C, 0xC013] then some aes128CbcSha
  else if code ∈ [0x003D, 0x0035, 0xC014] then some aes256CbcSha256
  else none

end CipherSuite

def ascii (s : String) : Bytes := s.toUTF8.toList

def hkdfExpandLabelInfo (label context : Bytes) (length : ℕ) : Bytes :=
  let tlsLabel := ascii "tls13 " ++ label
  toBeBytes 2 length ++ UInt8.ofNat tlsLabel.length :: tlsLabel ++
    UInt8.ofNat context.length :: context

variable (crypto : CryptoBackend)

def deriveKeyIv (secret : Bytes) (suite : CipherSuite) : Option (Bytes × Bytes) := do
  let key ← crypto.hkdfExpand secret (hkdfExpandLabelInfo (ascii "key") [] suite.keyLen)
    suite.keyLen suite.hash
  let iv ← crypto.hkdfExpand secret (hkdfExpandLabelInfo (ascii "iv") [] suite.ivLen)
    suite.ivLen suite.hash
  return (key, iv)

/-! ## Sessions -/

inductive SessionVersion
  | tls12
  | tls13
  deriving DecidableEq

structure TlsSession where
  version : SessionVersion
  clientWriteKey : Bytes
  serverWriteKey : Bytes
  clientWriteIv : Bytes
  serverWriteIv : Bytes
  cipherSuite : CipherSuite
  sequenceClient : ℕ
  sequenceServer : ℕ
  lockedClient : Bool
  lockedServer : Bool
  clientAddr : Option IpAddr
  lockonFloor : List ((IpAddr × IpAddr) × ℕ)
  handshakeSeen : Bool
  clientSecret : Bytes
  serverSecret : Bytes
  lockonAttempts : ℕ
  deriving DecidableEq

def u64Max : ℕ := 2 ^ 64 - 1

def seqResyncWindow : ℕ := 16

def sequences (seqStart window : ℕ) : List ℕ :=
  List.range' seqStart (min (seqStart + window) u64Max + 1 - seqStart)

/-- The first number that opens, and how many were tried. -/
def searchSequences (openAt : ℕ → Option Bytes) : List ℕ → Option (Bytes × ℕ) × ℕ
  | [] => (none, 0)
  | seq :: rest =>
    match openAt seq with
    | some plaintext => (some (plaintext, seq), 1)
    | none =>
      let (found, trials) := searchSequences openAt rest
      (found, trials + 1)

/-- The last byte is taken for the content type, and zeros before it are dropped. -/
def stripTls13Padding (plaintext : Bytes) : Bytes × Option UInt8 :=
  match plaintext.getLast? with
  | none => (plaintext, none)
  | some inner => (plaintext.dropLast.rdropWhile (· == 0), some inner)

/-- The bytes of the number in the last bytes of the initialization vector. -/
def tls13Nonce (writeIv : Bytes) (seq : ℕ) : Bytes :=
  let offset := writeIv.length - 8
  writeIv.mapIdx (fun i b => if offset ≤ i then b ^^^ (toBeBytes 8 seq).getD (i - offset) 0 else b)

def openTls13At (writeKey writeIv : Bytes) (record : TlsRecord) (seq : ℕ) : Option Bytes :=
  crypto.aesGcmDecrypt writeKey (tls13Nonce writeIv seq) (buildRecordAad record) record.payload

def decryptTls13Record (writeKey writeIv : Bytes) (seqStart window : ℕ) (record : TlsRecord) :
    Option (Bytes × ℕ × Option UInt8) × ℕ :=
  let (found, trials) :=
    searchSequences (openTls13At crypto writeKey writeIv record) (sequences seqStart window)
  (found.map (fun p => ((stripTls13Padding p.1).1, p.2, (stripTls13Padding p.1).2)), trials)

def openTls12At (writeKey fixedIv : Bytes) (record : TlsRecord) (seq : ℕ) : Option Bytes :=
  let aeadInput := record.payload.drop 8
  crypto.aesGcmDecrypt writeKey (fixedIv.take 4 ++ record.payload.take 8)
    (buildTls12GcmAad seq record.contentType.toByte record.version.toCode (aeadInput.length - 16))
    aeadInput

def decryptTls12GcmRecord (writeKey fixedIv : Bytes) (seqStart window : ℕ) (record : TlsRecord) :
    Option (Bytes × ℕ) × ℕ :=
  if fixedIv.length < 4 ∨ record.payload.length < 24 then (none, 0)
  else searchSequences (openTls12At crypto writeKey fixedIv record) (sequences seqStart window)

namespace TlsSession

variable (session : TlsSession)

def writeKey (isClientToServer : Bool) : Bytes :=
  if isClientToServer then session.clientWriteKey else session.serverWriteKey

def writeIv (isClientToServer : Bool) : Bytes :=
  if isClientToServer then session.clientWriteIv else session.serverWriteIv

def openRecord (record : TlsRecord) (isClientToServer : Bool) (seq window : ℕ) :
    Option (Bytes × ℕ × Option UInt8) × ℕ :=
  let key := session.writeKey isClientToServer
  let iv := session.writeIv isClientToServer
  match session.version with
  | .tls13 => decryptTls13Record crypto key iv seq window record
  | .tls12 =>
    let (found, trials) := decryptTls12GcmRecord crypto key iv seq window record
    (found.map (fun p => (p.1, p.2, none)), trials)

def directionPosition (isClientToServer : Bool) : ℕ × Bool :=
  if isClientToServer then (session.sequenceClient, session.lockedClient)
  else (session.sequenceServer, session.lockedServer)

def lockonFloorFor (pair : IpAddr × IpAddr) : ℕ :=
  ((session.lockonFloor.find? (fun e => e.1 = pair)).map Prod.snd).getD 0

/-- One more failed search; the floor of the pair is raised, never lowered. -/
def raiseLockonFloor (pair : IpAddr × IpAddr) (floor : ℕ) : TlsSession :=
  { session with
    lockonAttempts := session.lockonAttempts + 1
    lockonFloor :=
      if session.lockonFloor.any (fun e => e.1 = pair) then
        session.lockonFloor.map (fun e => if e.1 = pair then (e.1, max e.2 floor) else e)
      else session.lockonFloor ++ [(pair, floor)] }

def lockOn (isClientToServer : Bool) (usedSeq : ℕ) (src dst : IpAddr) : TlsSession :=
  let session := { session with
    clientAddr := session.clientAddr.orElse (fun _ => if isClientToServer then src else dst) }
  if isClientToServer then { session with sequenceClient := usedSeq + 1, lockedClient := true }
  else { session with sequenceServer := usedSeq + 1, lockedServer := true }

/-- The secret behind one, with its key and initialization vector. -/
def nextSecret (current : Bytes) : Option (Bytes × Bytes × Bytes) := do
  let hash := if current.length = 48 then HashAlg.sha384 else HashAlg.sha256
  let next ← crypto.hkdfExpand current
    (hkdfExpandLabelInfo (ascii "traffic upd") [] current.length) current.length hash
  let (key, iv) ← deriveKeyIv crypto next session.cipherSuite
  return (next, key, iv)

/-- The sender of a key update has gone on to its next secret and begun counting again. -/
def followKeyUpdate (isClientToServer : Bool) : TlsSession :=
  let current := if isClientToServer then session.clientSecret else session.serverSecret
  if current = [] then session
  else
    match session.nextSecret crypto current with
    | none => session
    | some (next, key, iv) =>
      if isClientToServer then
        { session with
          clientSecret := next, clientWriteKey := key, clientWriteIv := iv, sequenceClient := 0 }
      else
        { session with
          serverSecret := next, serverWriteKey := key, serverWriteIv := iv, sequenceServer := 0 }

end TlsSession

/-! ## Opening a record -/

structure LockOn where
  budget : ℕ
  window : ℕ
  replay : Bool
  deriving DecidableEq

def candidateDirections (clientAddr : Option IpAddr) (src dst : IpAddr) : List Bool :=
  match clientAddr with
  | some client => if src ≠ dst then if src = client then [true] else [false] else [true, false]
  | none => [true, false]

def sequenceSearchWindow (replay locked : Bool) (recordWindow budget : ℕ) : ℕ :=
  if replay then 1 else if locked then seqResyncWindow else min recordWindow budget

def isKeyUpdate (version : SessionVersion) (innerType : Option UInt8) (plaintext : Bytes) : Bool :=
  version = .tls13 && innerType = some 22 && plaintext.head? = some 24

def applicationData (plaintext : Bytes) (innerType : Option UInt8) : Option Bytes :=
  if innerType.any (fun t => t ≠ 23) then none else some plaintext

namespace TlsSession

/-- The widest search of one record, which failed searches have widened. -/
def recordWindow (session : TlsSession) (lockonWindow : ℕ) : ℕ :=
  min (seqResyncWindow * 2 ^ min session.lockonAttempts 24) lockonWindow

def follow (session : TlsSession) (isClientToServer : Bool) (src dst : IpAddr)
    (opened : Bytes × ℕ × Option UInt8) : TlsSession :=
  let session := session.lockOn isClientToServer opened.2.1 src dst
  if isKeyUpdate session.version opened.2.2 opened.1 then
    session.followKeyUpdate crypto isClientToServer
  else session

/-- The directions in turn: the budget left, the session, and what the caller gets. -/
def tryDirections (record : TlsRecord) (src dst : IpAddr) (replay : Bool)
    (pairFloor recordWindow : ℕ) :
    List Bool → TlsSession → ℕ → Option ℕ → TlsSession × ℕ × Option Bytes
  | [], session, budget, searched =>
    match searched with
    | some width =>
      if replay || session.handshakeSeen then (session, budget, none)
      else
        (session.raiseLockonFloor (src, dst) (min (pairFloor + width) u64Max), budget, none)
    | none => (session, budget, none)
  | isClientToServer :: directions, session, budget, searched =>
    let (seq, locked) := session.directionPosition isClientToServer
    let seq := if locked then seq else pairFloor
    let window := sequenceSearchWindow replay locked recordWindow budget
    let (decrypted, trials) := session.openRecord crypto record isClientToServer seq window
    let guessing := !locked && !replay
    let budget := if guessing then budget - trials else budget
    match decrypted with
    | some opened =>
      let session := if guessing then { session with lockonAttempts := 0 } else session
      (session.follow crypto isClientToServer src dst opened, budget,
        applicationData opened.1 opened.2.2)
    | none =>
      let searched := if guessing then some (max (searched.getD 0) window) else searched
      tryDirections record src dst replay pairFloor recordWindow directions session budget searched

def tryDecryptWithSession (session : TlsSession) (record : TlsRecord) (src dst : IpAddr)
    (lockon : LockOn) : TlsSession × ℕ × Option Bytes :=
  -- No plaintext is handed on whose authentication is not checked.
  if session.cipherSuite.isCbc then (session, lockon.budget, none)
  else
    session.tryDirections crypto record src dst lockon.replay (session.lockonFloorFor (src, dst))
      (session.recordWindow lockon.window) (candidateDirections session.clientAddr src dst)
      lockon.budget none

end TlsSession

end Sipnab.Tls
