import Sipnab.Lib.IndexMap
import Sipnab.Tls.Session

/-!
# The TLS decryptor

Sessions come from the key log, by the random of the client that opened them, or from an RSA key.
Handshakes are watched on the way: a ServerHello is paired with the oldest ClientHello of its own
connection. A record that no session opens is held, and tried again when keys have been added.

The sessions are visited in the order of their entries; `reorder` is another order of them.
-/

namespace Sipnab.Tls

structure KeyLogEntry where
  label : String
  clientRandom : Bytes
  secret : Bytes
  deriving DecidableEq

structure HandshakeInfo where
  serverRandom : Option Bytes
  cipherSuiteCode : Option ℕ
  clientRandom : Option Bytes
  deriving DecidableEq

/-! ## Handshake messages -/

def parseServerHello (data : Bytes) : Option HandshakeInfo :=
  if data.length < 39 ∨ data.head? ≠ some 2 then none
  else
    let cipherOffset := 39 + (data.getD 38 0).toNat
    if data.length < cipherOffset + 2 then none
    else
      some ⟨some ((data.drop 6).take 32), some (ofBeBytes ((data.drop cipherOffset).take 2)), none⟩

def parseClientHelloRandom (data : Bytes) : Option Bytes :=
  if data.length < 38 ∨ data.head? ≠ some 1 then none else some ((data.drop 6).take 32)

def parseClientKeyExchangeRsa (data : Bytes) : Option Bytes :=
  if data.head? ≠ some 16 ∨ data.length < 6 then none
  else
    let ctLen := ofBeBytes ((data.drop 4).take 2)
    if data.length < 6 + ctLen then none else some ((data.drop 6).take ctLen)

/-! ## Keys of TLS 1.2 -/

variable (crypto : CryptoBackend)

def prfBlocks (secret labelSeed : Bytes) (hash : HashAlg) : ℕ → Bytes → Bytes
  | 0, _ => []
  | n + 1, a => crypto.hmac secret (a ++ labelSeed) hash ++
      prfBlocks secret labelSeed hash n (crypto.hmac secret a hash)

def tls12Prf (secret label seed : Bytes) (outputLen : ℕ) (hash : HashAlg) : Bytes :=
  (prfBlocks crypto secret (label ++ seed) hash outputLen
    (crypto.hmac secret (label ++ seed) hash)).take outputLen

def TlsSession.atStreamStart (version : SessionVersion)
    (clientWriteKey serverWriteKey clientWriteIv serverWriteIv : Bytes) (cipherSuite : CipherSuite)
    (handshakeSeen : Bool) : TlsSession where
  version := version
  clientWriteKey := clientWriteKey
  serverWriteKey := serverWriteKey
  clientWriteIv := clientWriteIv
  serverWriteIv := serverWriteIv
  cipherSuite := cipherSuite
  sequenceClient := 0
  sequenceServer := 0
  lockedClient := false
  lockedServer := false
  clientAddr := none
  lockonFloor := []
  handshakeSeen := handshakeSeen
  clientSecret := []
  serverSecret := []
  lockonAttempts := 0

/-- The session of a master secret: its keys are behind the keys of the authentication codes. -/
def tls12Session (masterSecret clientRandom serverRandom : Bytes) (suite : CipherSuite) :
    TlsSession :=
  let needed := 2 * suite.macKeyLen + 2 * suite.keyLen + 2 * suite.tls12FixedIvLen
  let keys := (tls12Prf crypto masterSecret (ascii "key expansion") (serverRandom ++ clientRandom)
    needed suite.hash).drop (2 * suite.macKeyLen)
  let ivs := keys.drop (2 * suite.keyLen)
  .atStreamStart .tls12 (keys.take suite.keyLen) ((keys.drop suite.keyLen).take suite.keyLen)
    (ivs.take suite.tls12FixedIvLen) ((ivs.drop suite.tls12FixedIvLen).take suite.tls12FixedIvLen)
    suite false

/-! ## Sessions of the key log -/

def latestSecret (entries : List KeyLogEntry) (label : String) : Option Bytes :=
  (entries.reverse.find? (fun e => e.label = label)).map KeyLogEntry.secret

def suiteOfSecret (secret : Bytes) : Option CipherSuite :=
  if secret.length = 32 then some .aes128Gcm
  else if secret.length = 48 then some .aes256Gcm
  else none

inductive KeylogError
  | unsupportedSecretLength
  deriving DecidableEq

def tls13SessionFromKeylog (clientRandom : Bytes) (entries : List KeyLogEntry)
    (observedHandshakes : List HandshakeInfo) : Except KeylogError (Option TlsSession) :=
  match latestSecret entries "CLIENT_TRAFFIC_SECRET_0",
    latestSecret entries "SERVER_TRAFFIC_SECRET_0" with
  | some clientSecret, some serverSecret =>
    match suiteOfSecret clientSecret with
    | none => .error .unsupportedSecretLength
    | some suite =>
      match deriveKeyIv crypto clientSecret suite, deriveKeyIv crypto serverSecret suite with
      | some (clientKey, clientIv), some (serverKey, serverIv) =>
        let sawHandshake := observedHandshakes.any (fun h => h.clientRandom = some clientRandom)
        .ok (some
          { TlsSession.atStreamStart .tls13 clientKey serverKey clientIv serverIv suite sawHandshake
            with clientSecret := clientSecret, serverSecret := serverSecret })
      | _, _ => .ok none
  | _, _ => .ok none

/-- The handshakes of the client's random, or those of no known one. -/
def tls12HandshakeCandidates (clientRandom : Bytes) (observedHandshakes : List HandshakeInfo) :
    List HandshakeInfo :=
  let hasExact := observedHandshakes.any (fun h => h.clientRandom = some clientRandom)
  let wanted := if hasExact then some clientRandom else none
  observedHandshakes.filter (fun h => h.clientRandom = wanted)

def tls12SessionForHandshake (clientRandom masterSecret : Bytes) (handshake : HandshakeInfo) :
    Option TlsSession := do
  let serverRandom ← handshake.serverRandom
  let suite ← CipherSuite.fromCodePoint (← handshake.cipherSuiteCode)
  return tls12Session crypto masterSecret clientRandom serverRandom suite

def tls12SessionFromKeylog (clientRandom : Bytes) (entries : List KeyLogEntry)
    (observedHandshakes : List HandshakeInfo) : Option TlsSession := do
  let entry ← entries.find? (fun e => e.label = "CLIENT_RANDOM")
  (tls12HandshakeCandidates clientRandom observedHandshakes).findSome?
    (tls12SessionForHandshake crypto clientRandom entry.secret)

/-! ## The decryptor -/

/-- The newest randoms and cipher seen, of any connection. -/
structure RsaHandshakeState where
  decryptPremaster : Bytes → Option Bytes
  clientRandom : Option Bytes
  serverRandom : Option Bytes
  cipher : Option ℕ

structure PendingRecord where
  record : TlsRecord
  src : SocketAddr
  dst : SocketAddr
  timestamp : DateTime
  deriving DecidableEq

structure RecoveredRecord where
  plaintext : Bytes
  timestamp : DateTime
  src : SocketAddr
  dst : SocketAddr
  deriving DecidableEq

def maxPendingHandshakeConns : ℕ := 4096

def maxPendingPerConn : ℕ := 32

def rewindBudgetBytes : ℕ := 4 * 1024 * 1024

def rewindMaxAge : ℤ := 5 * 1000000000

def rewindTrialsPerSweep : ℕ := 2048

def maxRewindPerDirection : ℕ := 16

def maxRewindDirections : ℕ := 4096

structure TlsDecryptor where
  keylogEntries : List KeyLogEntry
  sessions : IndexMap Bytes TlsSession
  decryptedCount : ℕ
  appDataRecords : ℕ
  lockonBudget : ℕ
  lockonWindow : ℕ
  observedHandshakes : List HandshakeInfo
  pendingClientRandoms : IndexMap (SocketAddr × SocketAddr) (List Bytes)
  keylogProcessedCount : ℕ
  rewindPending : IndexMap (SocketAddr × SocketAddr) (List PendingRecord)
  rewindBytes : ℕ
  keylogGeneration : ℕ
  lastRewindGeneration : ℕ
  newestSeen : Option DateTime
  keysMayStillArrive : Bool
  rewindEvicted : ℕ
  rewindRecovered : ℕ
  rsa : Option RsaHandshakeState

def TlsDecryptor.new (keylogEntries : List KeyLogEntry) (rsa : Option RsaHandshakeState)
    (keysMayStillArrive : Bool) : TlsDecryptor where
  keylogEntries := keylogEntries
  sessions := .empty
  decryptedCount := 0
  appDataRecords := 0
  lockonBudget := 2 ^ 22
  lockonWindow := 2 ^ 20
  observedHandshakes := []
  pendingClientRandoms := .empty
  keylogProcessedCount := 0
  rewindPending := .empty
  rewindBytes := 0
  keylogGeneration := 0
  lastRewindGeneration := 0
  newestSeen := none
  keysMayStillArrive := keysMayStillArrive
  rewindEvicted := 0
  rewindRecovered := 0
  rsa := rsa

def IpAddr.le : IpAddr → IpAddr → Bool
  | .v4 a, .v4 b => a ≤ b
  | .v4 _, .v6 _ => true
  | .v6 _, .v4 _ => false
  | .v6 a, .v6 b => a ≤ b

def SocketAddr.le (a b : SocketAddr) : Bool :=
  if a.1 = b.1 then a.2 ≤ b.2 else IpAddr.le a.1 b.1

def connKey (src dst : SocketAddr) : SocketAddr × SocketAddr :=
  if SocketAddr.le src dst then (src, dst) else (dst, src)

namespace TlsDecryptor

variable (d : TlsDecryptor)

/-! ### Handshakes -/

local instance lawfulBEqSockets : LawfulBEq (SocketAddr × SocketAddr) := inferInstance

def observeClientHello (conn : SocketAddr × SocketAddr) (clientRandom : Bytes) : TlsDecryptor :=
  let pending :=
    if conn ∉ d.pendingClientRandoms.keys ∧
        maxPendingHandshakeConns ≤ d.pendingClientRandoms.length then
      d.pendingClientRandoms.dropFirst 1
    else d.pendingClientRandoms
  { d with
    pendingClientRandoms := pending.alter conn (fun queue =>
      let queue := queue.getD []
      (if maxPendingPerConn ≤ queue.length then queue.drop 1 else queue) ++ [clientRandom])
    rsa := d.rsa.map (fun rsa => { rsa with clientRandom := some clientRandom }) }

/-- The oldest ClientHello of the connection that is not answered, taken from its queue. -/
def pairPendingClientRandom (conn : SocketAddr × SocketAddr) : TlsDecryptor × Option Bytes :=
  match d.pendingClientRandoms.get? conn with
  | none => (d, none)
  | some queue =>
    let pending :=
      if queue.drop 1 = [] then d.pendingClientRandoms.filter (fun e => e.1 ≠ conn)
      else d.pendingClientRandoms.insert conn (queue.drop 1)
    ({ d with pendingClientRandoms := pending }, queue.head?)

/-- A session whose handshake was seen has its records from the first on. -/
def markHandshakeSeen (clientRandom : Bytes) : TlsDecryptor :=
  { d with
    sessions := d.sessions.mapValues (fun key session =>
      if key = clientRandom then
        { session with handshakeSeen := true, lockonFloor := [], lockonAttempts := 0 }
      else session) }

def dropTls12Sessions : TlsDecryptor :=
  { d with sessions := d.sessions.filter (fun e => e.2.version ≠ .tls12) }

def observeServerHello (conn : SocketAddr × SocketAddr) (info : HandshakeInfo) : TlsDecryptor :=
  let d : TlsDecryptor := { d with
    rsa := d.rsa.map (fun rsa =>
      { rsa with serverRandom := info.serverRandom, cipher := info.cipherSuiteCode }) }
  let (d, paired) := d.pairPendingClientRandom conn
  let info := { info with clientRandom := paired.orElse (fun _ => info.clientRandom) }
  let d := info.clientRandom.elim d d.markHandshakeSeen
  dropTls12Sessions { d with observedHandshakes := d.observedHandshakes ++ [info] }

def deriveRsaSession (premasterCt : Bytes) : Option (Bytes × TlsSession) := do
  let rsa ← d.rsa
  let clientRandom ← rsa.clientRandom
  let serverRandom ← rsa.serverRandom
  let suite ← CipherSuite.fromCodePoint (← rsa.cipher)
  let premaster ← rsa.decryptPremaster premasterCt
  if premaster.length ≠ 48 then none
  else
    let master := tls12Prf crypto premaster (ascii "master secret") (clientRandom ++ serverRandom)
      48 suite.hash
    return (clientRandom, tls12Session crypto master clientRandom serverRandom suite)

def observeClientKeyExchange (payload : Bytes) : TlsDecryptor :=
  match (parseClientKeyExchangeRsa payload).bind (d.deriveRsaSession crypto) with
  | some (clientRandom, session) => { d with sessions := d.sessions.insert clientRandom session }
  | none => d

def processRecord (record : TlsRecord) (src dst : SocketAddr) : TlsDecryptor :=
  if record.contentType ≠ .handshake then d
  else
    match record.payload.head? with
    | some 1 => (parseClientHelloRandom record.payload).elim d (d.observeClientHello (connKey src dst))
    | some 2 => (parseServerHello record.payload).elim d (d.observeServerHello (connKey src dst))
    | some 16 => d.observeClientKeyExchange crypto record.payload
    | _ => d

/-! ### Keys -/

def addKeylogEntries (entries : List KeyLogEntry) : TlsDecryptor :=
  { d with
    keylogEntries := d.keylogEntries ++ entries
    keylogGeneration := if entries = [] then d.keylogGeneration else d.keylogGeneration + 1 }

def pollKeylog (entries : List KeyLogEntry) : TlsDecryptor :=
  if entries = [] then d else (d.addKeylogEntries entries).dropTls12Sessions

def populate (observedHandshakes : List HandshakeInfo) (entries : List KeyLogEntry)
    (sessions : IndexMap Bytes TlsSession) (clientRandom : Bytes) : IndexMap Bytes TlsSession :=
  if clientRandom ∈ sessions.keys then sessions
  else
    let entries := entries.filter (fun e => e.clientRandom = clientRandom)
    match tls13SessionFromKeylog crypto clientRandom entries observedHandshakes with
    | .error _ => sessions
    | .ok tls13 =>
      let sessions := tls13.elim sessions (sessions.insert clientRandom)
      (tls12SessionFromKeylog crypto clientRandom entries observedHandshakes).elim sessions
        (sessions.insert clientRandom)

def clientRandoms (entries : List KeyLogEntry) : List Bytes :=
  ((entries.map KeyLogEntry.clientRandom).filter (fun r => r.length = 32)).dedup

def ensureSessionsPopulated : TlsDecryptor :=
  if d.keylogEntries = [] ∨ d.keylogEntries.length = d.keylogProcessedCount then d
  else
    { d with
      keylogProcessedCount := d.keylogEntries.length
      sessions := (clientRandoms d.keylogEntries).foldl
        (populate crypto d.observedHandshakes d.keylogEntries) d.sessions }

/-! ### Records -/

/-- The sessions in turn, up to the one that hands on the record's plaintext. -/
def trySessions (record : TlsRecord) (src dst : IpAddr) (lockonWindow : ℕ) :
    List (Bytes × TlsSession) → ℕ → List (Bytes × TlsSession) × ℕ × Option Bytes
  | [], budget => ([], budget, none)
  | (key, session) :: rest, budget =>
    match session.tryDecryptWithSession crypto record src dst ⟨budget, lockonWindow, false⟩ with
    | (session, budget, some plaintext) => ((key, session) :: rest, budget, some plaintext)
    | (session, budget, none) =>
      let (rest, budget, result) := trySessions record src dst lockonWindow rest budget
      ((key, session) :: rest, budget, result)

variable (record : TlsRecord) (src dst : IpAddr)

variable (lockonWindow : ℕ) (sessions : List (Bytes × TlsSession)) (budget : ℕ)

theorem keys_trySessions :
    (trySessions crypto record src dst lockonWindow sessions budget).1.map Prod.fst =
      sessions.map Prod.fst := by
  induction sessions generalizing budget with
  | nil => rfl
  | cons e sessions ih =>
    rw [trySessions]
    split
    · rfl
    · rw [List.map_cons, List.map_cons, ih]

def offer (record : TlsRecord) (src dst : IpAddr) : TlsDecryptor × Option Bytes :=
  let tried := trySessions crypto record src dst d.lockonWindow d.sessions.entries d.lockonBudget
  let sessions : IndexMap Bytes TlsSession := ⟨tried.1, by
    rw [keys_trySessions]
    exact d.sessions.nodup⟩
  ({ d with sessions := sessions, lockonBudget := tried.2.1 }, tried.2.2)

theorem offer_snd :
    (d.offer crypto record src dst).2 = (trySessions crypto record src dst d.lockonWindow
      d.sessions.entries d.lockonBudget).2.2 := rfl

/-- Drop the oldest records held until they are within the budget of bytes. -/
def evictOverBudget : ℕ → TlsDecryptor → TlsDecryptor
  | 0, d => d
  | n + 1, d =>
    if d.rewindBytes ≤ rewindBudgetBytes then d
    else
      match d.rewindPending.entries with
      | [] => d
      | (_, []) :: _ => evictOverBudget n { d with rewindPending := d.rewindPending.dropFirst 1 }
      | (key, old :: queue) :: _ =>
        evictOverBudget n { d with
          rewindBytes := d.rewindBytes - old.record.payload.length
          rewindEvicted := d.rewindEvicted + 1
          rewindPending :=
            if queue = [] then d.rewindPending.dropFirst 1 else d.rewindPending.insert key queue }

def heldBytes (queue : List PendingRecord) : ℕ :=
  (queue.map (fun r => r.record.payload.length)).sum

def evictDirection (direction : SocketAddr × SocketAddr) : TlsDecryptor :=
  if direction ∉ d.rewindPending.keys ∧ maxRewindDirections ≤ d.rewindPending.length then
    let dropped := (d.rewindPending.values.head?).getD []
    { d with
      rewindPending := d.rewindPending.dropFirst 1
      rewindBytes := d.rewindBytes - heldBytes dropped
      rewindEvicted := d.rewindEvicted + dropped.length }
  else d

/-- Make room in a direction that holds as many records as it may. -/
def evictOldest (direction : SocketAddr × SocketAddr) : TlsDecryptor :=
  match d.rewindPending.get? direction with
  | some (old :: queue) =>
    if maxRewindPerDirection ≤ (old :: queue).length then
      { d with
        rewindPending := d.rewindPending.insert direction queue
        rewindBytes := d.rewindBytes - old.record.payload.length
        rewindEvicted := d.rewindEvicted + 1 }
    else d
  | _ => d

def holdForRewind (record : TlsRecord) (src dst : SocketAddr) (timestamp : DateTime) :
    TlsDecryptor :=
  let d := { d with newestSeen := some (d.newestSeen.elim timestamp (max timestamp)) }
  if !d.keysMayStillArrive then d
  else if rewindBudgetBytes < record.payload.length then
    { d with rewindEvicted := d.rewindEvicted + 1 }
  else
    let d := (d.evictDirection (src, dst)).evictOldest (src, dst)
    let d := { d with
      rewindPending := d.rewindPending.alter (src, dst) (fun queue =>
        queue.getD [] ++ [⟨record, src, dst, timestamp⟩])
      rewindBytes := d.rewindBytes + record.payload.length }
    evictOverBudget (d.rewindPending.length + (d.rewindPending.values.map List.length).sum) d

def decryptInner (record : TlsRecord) (src dst : SocketAddr) (timestamp : DateTime) :
    TlsDecryptor × Option Bytes :=
  if record.contentType ≠ .applicationData then (d, none)
  else
    let d := ensureSessionsPopulated crypto { d with appDataRecords := d.appDataRecords + 1 }
    match d.offer crypto record src.1 dst.1 with
    | (d, some plaintext) => ({ d with decryptedCount := d.decryptedCount + 1 }, some plaintext)
    | (d, none) => (d.holdForRewind record src dst timestamp, none)

/-! ### Replay -/

/-- The sessions that may be of the record's connection in turn; how many were tried. -/
def replaySessions (record : TlsRecord) (src dst : IpAddr) (lockonWindow : ℕ) :
    List (Bytes × TlsSession) → ℕ → List (Bytes × TlsSession) × ℕ × ℕ × Option Bytes
  | [], budget => ([], budget, 0, none)
  | (key, session) :: rest, budget =>
    if session.clientAddr.any (fun a => a ≠ src && a ≠ dst) then
      let (rest, budget, trials, result) := replaySessions record src dst lockonWindow rest budget
      ((key, session) :: rest, budget, trials, result)
    else
      match session.tryDecryptWithSession crypto record src dst ⟨budget, lockonWindow, true⟩ with
      | (session, budget, some plaintext) => ((key, session) :: rest, budget, 1, some plaintext)
      | (session, budget, none) =>
        let (rest, budget, trials, result) := replaySessions record src dst lockonWindow rest budget
        ((key, session) :: rest, budget, trials + 1, result)

theorem keys_replaySessions :
    (replaySessions crypto record src dst lockonWindow sessions budget).1.map Prod.fst =
      sessions.map Prod.fst := by
  induction sessions generalizing budget with
  | nil => rfl
  | cons e sessions ih =>
    rw [replaySessions]
    split_ifs
    · rw [List.map_cons, List.map_cons, ih]
    · split
      · rfl
      · rw [List.map_cons, List.map_cons, ih]

/-- A held record on the sessions, and how many were tried. -/
def offerAgain (record : TlsRecord) (src dst : IpAddr) : TlsDecryptor × ℕ × Option Bytes :=
  let tried := replaySessions crypto record src dst d.lockonWindow d.sessions.entries d.lockonBudget
  let sessions : IndexMap Bytes TlsSession := ⟨tried.1, by
    rw [keys_replaySessions]
    exact d.sessions.nodup⟩
  ({ d with sessions := sessions, lockonBudget := tried.2.1 }, tried.2.2.1, tried.2.2.2)

/-- A sweep under way: the records tried so far are recovered or held again. -/
structure Sweep where
  decryptor : TlsDecryptor
  trials : ℕ
  still : IndexMap (SocketAddr × SocketAddr) (List PendingRecord)
  heldBytes : ℕ
  recovered : List RecoveredRecord

def Sweep.keep (sweep : Sweep) (direction : SocketAddr × SocketAddr) (item : PendingRecord) : Sweep :=
  { sweep with
    still := sweep.still.alter direction (fun queue => queue.getD [] ++ [item])
    heldBytes := sweep.heldBytes + item.record.payload.length }

def Sweep.step (cutoff : Option DateTime) (sweep : Sweep)
    (held : (SocketAddr × SocketAddr) × PendingRecord) : Sweep :=
  let d := sweep.decryptor
  let item := held.2
  if cutoff.any (fun c => item.timestamp < c) then
    { sweep with decryptor := { d with rewindEvicted := d.rewindEvicted + 1 } }
  else if rewindTrialsPerSweep ≤ sweep.trials then sweep.keep held.1 item
  else
    match d.offerAgain crypto item.record item.src.1 item.dst.1 with
    | (d, trials, some plaintext) =>
      { sweep with
        trials := sweep.trials + trials
        decryptor := { d with
          decryptedCount := d.decryptedCount + 1, rewindRecovered := d.rewindRecovered + 1 }
        recovered := sweep.recovered ++ [⟨plaintext, item.timestamp, item.src, item.dst⟩] }
    | (d, trials, none) =>
      Sweep.keep { sweep with trials := sweep.trials + trials, decryptor := d } held.1 item

def heldRecords : List ((SocketAddr × SocketAddr) × PendingRecord) :=
  d.rewindPending.entries.flatMap (fun e => e.2.map (fun item => (e.1, item)))

def sweep : Sweep :=
  d.heldRecords.foldl (Sweep.step crypto (d.newestSeen.map (fun t => t - rewindMaxAge)))
    ⟨{ d with rewindPending := .empty }, 0, .empty, 0, []⟩

def rewind : TlsDecryptor × List RecoveredRecord :=
  if d.rewindPending.entries = [] then (d, [])
  else
    let swept := (d.ensureSessionsPopulated crypto).sweep crypto
    ({ swept.decryptor with rewindPending := swept.still, rewindBytes := swept.heldBytes },
      swept.recovered.mergeSort (fun a b => a.timestamp ≤ b.timestamp))

def rewindIfKeysChanged : TlsDecryptor × List RecoveredRecord :=
  if d.keylogGeneration = d.lastRewindGeneration then (d, [])
  else rewind crypto { d with lastRewindGeneration := d.keylogGeneration }

def reorder (entries : List (Bytes × TlsSession)) : TlsDecryptor :=
  if h : entries.Perm d.sessions.entries then
    { d with sessions := ⟨entries, (h.map Prod.fst).nodup_iff.mpr d.sessions.nodup⟩ }
  else d

end TlsDecryptor

end Sipnab.Tls
