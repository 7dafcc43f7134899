import Sipnab.Tls.Follower

/-!
# Sessions follow

A session whose handshake was seen begins its search at the number that is next. Where nothing
beyond that number opens a record, live search and replay both do what following in order does.
-/

namespace Sipnab.Tls

namespace TlsSession

def secret (session : TlsSession) (isClientToServer : Bool) : Bytes :=
  if isClientToServer then session.clientSecret else session.serverSecret

/-- How far a direction has been followed. A direction that is not locked is at its first record. -/
def follower (session : TlsSession) (isClientToServer : Bool) : Follower where
  keys := ⟨session.secret isClientToServer, session.writeKey isClientToServer,
    session.writeIv isClientToServer⟩
  seq := if (session.directionPosition isClientToServer).2 then
    (session.directionPosition isClientToServer).1 else 0

structure Runs (session : TlsSession) (suite : CipherSuite) : Prop where
  version : session.version = .tls13
  cipherSuite : session.cipherSuite = suite
  authenticated : suite.isCbc = false

/-- The handshake was seen, so no search moves the floor. -/
structure Seen (session : TlsSession) : Prop where
  handshakeSeen : session.handshakeSeen = true
  lockonFloor : session.lockonFloor = []
  lockonAttempts : session.lockonAttempts = 0

variable {crypto : CryptoBackend} {suite : CipherSuite} {session : TlsSession} {record : TlsRecord}
  {src dst : IpAddr} {direction : Bool}

theorem openAt_eq_follower (hruns : session.Runs suite) (isClientToServer : Bool) (n : ℕ) :
    session.openAt crypto record isClientToServer n =
      (session.follower isClientToServer).openAt crypto record n := by
  rw [openAt, hruns.version]
  rfl

theorem reading_eq (hruns : session.Runs suite) (plaintext : Bytes) (n : ℕ) :
    session.reading plaintext n =
      ((stripTls13Padding plaintext).1, n, (stripTls13Padding plaintext).2) := by
  rw [reading, hruns.version]

/-! ## What following a record leaves -/

structure Keeps (session session' : TlsSession) : Prop where
  version : session'.version = session.version
  cipherSuite : session'.cipherSuite = session.cipherSuite
  handshakeSeen : session'.handshakeSeen = session.handshakeSeen
  lockonFloor : session'.lockonFloor = session.lockonFloor
  lockonAttempts : session'.lockonAttempts = session.lockonAttempts

theorem Keeps.trans {a b c : TlsSession} (h : Keeps a b) (h' : Keeps b c) : Keeps a c where
  version := h'.version.trans h.version
  cipherSuite := h'.cipherSuite.trans h.cipherSuite
  handshakeSeen := h'.handshakeSeen.trans h.handshakeSeen
  lockonFloor := h'.lockonFloor.trans h.lockonFloor
  lockonAttempts := h'.lockonAttempts.trans h.lockonAttempts

theorem Runs.of_keeps {session' : TlsSession} (h : session.Runs suite) (hkeeps : Keeps session session') :
    session'.Runs suite :=
  ⟨hkeeps.version.trans h.version, hkeeps.cipherSuite.trans h.cipherSuite, h.authenticated⟩

theorem Seen.of_keeps {session' : TlsSession} (h : session.Seen) (hkeeps : Keeps session session') :
    session'.Seen :=
  ⟨hkeeps.handshakeSeen.trans h.handshakeSeen, hkeeps.lockonFloor.trans h.lockonFloor,
    hkeeps.lockonAttempts.trans h.lockonAttempts⟩

theorem keeps_lockOn (usedSeq : ℕ) : Keeps session (session.lockOn direction usedSeq src dst) := by
  unfold lockOn
  cases direction <;> exact ⟨rfl, rfl, rfl, rfl, rfl⟩

theorem follower_lockOn (usedSeq : ℕ) :
    (session.lockOn direction usedSeq src dst).follower direction =
        ⟨(session.follower direction).keys, usedSeq + 1⟩ ∧
      (session.lockOn direction usedSeq src dst).follower (!direction) =
        session.follower (!direction) := by
  unfold lockOn
  cases direction <;> exact ⟨rfl, rfl⟩

theorem keeps_followKeyUpdate : Keeps session (session.followKeyUpdate crypto direction) ∧
    (session.followKeyUpdate crypto direction).clientAddr = session.clientAddr := by
  have hsame : Keeps session session := ⟨rfl, rfl, rfl, rfl, rfl⟩
  unfold followKeyUpdate
  cases direction
  · simp only [Bool.false_eq_true, if_false]
    split_ifs
    · exact ⟨hsame, rfl⟩
    · split
      · exact ⟨hsame, rfl⟩
      · exact ⟨⟨rfl, rfl, rfl, rfl, rfl⟩, rfl⟩
  · simp only [if_true]
    split_ifs
    · exact ⟨hsame, rfl⟩
    · split
      · exact ⟨hsame, rfl⟩
      · exact ⟨⟨rfl, rfl, rfl, rfl, rfl⟩, rfl⟩

theorem next_follower (hsuite : session.cipherSuite = suite) :
    (session.follower direction).keys.next crypto suite =
      if session.secret direction = [] then none
      else (session.nextSecret crypto (session.secret direction)).map (fun k => ⟨k.1, k.2.1, k.2.2⟩) := by
  unfold TrafficKeys.next nextSecret
  rw [hsuite]
  dsimp only [follower]
  cases crypto.hkdfExpand (session.secret direction) (hkdfExpandLabelInfo (ascii "traffic upd") []
      (session.secret direction).length) (session.secret direction).length
      (if (session.secret direction).length = 48 then HashAlg.sha384 else HashAlg.sha256) with
  | none => simp
  | some next =>
    cases hderive : deriveKeyIv crypto next suite with
    | none => simp [hderive]
    | some pair => simp [hderive]

theorem follower_followKeyUpdate (hsuite : session.cipherSuite = suite) :
    (session.followKeyUpdate crypto direction).follower direction =
        (session.follower direction).ratchet crypto suite ∧
      (session.followKeyUpdate crypto direction).follower (!direction) =
        session.follower (!direction) := by
  have hnext := @next_follower crypto suite session direction hsuite
  have hsecret : (if direction then session.clientSecret else session.serverSecret) =
      session.secret direction := rfl
  unfold followKeyUpdate Follower.ratchet
  rw [hnext]
  dsimp only
  rw [hsecret]
  by_cases hempty : session.secret direction = []
  · rw [if_pos hempty, if_pos hempty]
    exact ⟨rfl, rfl⟩
  · rw [if_neg hempty, if_neg hempty]
    cases session.nextSecret crypto (session.secret direction) with
    | none => exact ⟨rfl, rfl⟩
    | some keys =>
      obtain ⟨next, key, iv⟩ := keys
      dsimp only [Option.map_some]
      cases direction
      · refine ⟨?_, rfl⟩
        simp [follower, secret, writeKey, writeIv, directionPosition]
      · refine ⟨?_, rfl⟩
        simp [follower, secret, writeKey, writeIv, directionPosition]

theorem follow_spec (hruns : session.Runs suite) (plaintext : Bytes) :
    Keeps session (session.follow crypto direction src dst
        (session.reading plaintext (session.follower direction).seq)) ∧
      (session.follow crypto direction src dst
          (session.reading plaintext (session.follower direction).seq)).clientAddr =
        session.clientAddr.orElse (fun _ => if direction then src else dst) ∧
      (session.follow crypto direction src dst
          (session.reading plaintext (session.follower direction).seq)).follower direction =
        (session.follower direction).advance crypto suite plaintext ∧
      (session.follow crypto direction src dst
          (session.reading plaintext (session.follower direction).seq)).follower (!direction) =
        session.follower (!direction) := by
  have hlocked := @follower_lockOn session src dst direction (session.follower direction).seq
  have hkeeps : Keeps session (session.lockOn direction (session.follower direction).seq src dst) :=
    keeps_lockOn _
  have haddr : (session.lockOn direction (session.follower direction).seq src dst).clientAddr =
      session.clientAddr.orElse (fun _ => if direction then src else dst) := by
    unfold lockOn
    cases direction <;> rfl
  have hupdate := @follower_followKeyUpdate crypto suite
    (session.lockOn direction (session.follower direction).seq src dst) direction
    (hkeeps.cipherSuite.trans hruns.cipherSuite)
  rw [reading_eq hruns, follow, Follower.advance]
  dsimp only
  rw [hkeeps.version, hruns.version]
  cases isKeyUpdate .tls13 (stripTls13Padding plaintext).2 (stripTls13Padding plaintext).1 with
  | true =>
    rw [if_pos rfl, if_pos rfl]
    exact ⟨hkeeps.trans keeps_followKeyUpdate.1, keeps_followKeyUpdate.2.trans haddr,
      hupdate.1.trans (congrArg _ hlocked.1), hupdate.2.trans hlocked.2⟩
  | false =>
    rw [if_neg Bool.false_ne_true, if_neg Bool.false_ne_true]
    exact ⟨hkeeps, haddr, hlocked.1, hlocked.2⟩

/-! ## Searching from the next number -/

def opening (crypto : CryptoBackend) (session : TlsSession) (record : TlsRecord)
    (isClientToServer : Bool) : Option Bytes :=
  if (session.follower isClientToServer).seq ≤ u64Max then
    (session.follower isClientToServer).openAt crypto record (session.follower isClientToServer).seq
  else none

theorem openRecord_of_settled (hruns : session.Runs suite)
    (hsettled : (session.follower direction).Settled crypto record) (window : ℕ) :
    (session.openRecord crypto record direction (session.follower direction).seq window).1 =
      (session.opening crypto record direction).map
        (fun plaintext => session.reading plaintext (session.follower direction).seq) := by
  rw [openRecord_fst, opening]
  have hopen : session.openAt crypto record direction =
      (session.follower direction).openAt crypto record :=
    funext (openAt_eq_follower hruns direction)
  rw [hopen]
  split_ifs with hle
  · obtain ⟨rest, hrest⟩ := @sequences_eq_cons _ window hle
    rw [hrest]
    cases hfirst : (session.follower direction).openAt crypto record
        (session.follower direction).seq with
    | some plaintext =>
      rw [searchSequences_head hfirst]
      rfl
    | none =>
      have hall : ∀ n ∈ (session.follower direction).seq :: rest,
          (session.follower direction).openAt crypto record n = none := by
        intro n hn
        have hbounds := mem_sequences (hrest ▸ hn)
        rcases Nat.eq_or_lt_of_le hbounds.1 with heq | hlt
        · rw [← heq, hfirst]
        · exact hsettled n hlt hbounds.2
      rw [searchSequences_eq_none hall]
      rfl
  · have hempty : sequences (session.follower direction).seq window = [] := by
      rw [sequences, List.range'_eq_nil_iff]
      omega
    rw [hempty]
    rfl

/-- A direction whose keys open nothing is passed over, and the record's own is searched from the
next number. -/
theorem tryDirections_of_settled (hruns : session.Runs suite) (hseen : session.Seen)
    (hsettled : (session.follower direction).Settled crypto record)
    (hother : ∀ n ≤ u64Max, (session.follower (!direction)).openAt crypto record n = none)
    (replay : Bool) (recordWindow : ℕ) (directions : List Bool) (budget : ℕ)
    (searched : Option ℕ) :
    ∃ budget', tryDirections crypto record src dst replay 0 recordWindow directions session budget
        searched =
      if direction ∈ directions then
        (session.opening crypto record direction).elim (session, budget', none) (fun plaintext =>
          (session.follow crypto direction src dst
              (session.reading plaintext (session.follower direction).seq), budget',
            applicationData (stripTls13Padding plaintext).1 (stripTls13Padding plaintext).2))
      else (session, budget', none) := by
  have hattempts : { session with lockonAttempts := 0 } = session := by
    have hzero := hseen.lockonAttempts
    cases session
    cases hzero
    rfl
  induction directions generalizing budget searched with
  | nil =>
    refine ⟨budget, ?_⟩
    rw [if_neg List.not_mem_nil]
    cases searched with
    | none => rfl
    | some width => rw [tryDirections, hseen.handshakeSeen, Bool.or_true, if_pos rfl]
  | cons tried directions ih =>
    rw [tryDirections]
    dsimp only
    by_cases htried : tried = direction
    · subst htried
      have hstart : (if (session.directionPosition tried).2 then (session.directionPosition tried).1
          else 0) = (session.follower tried).seq := rfl
      rw [hstart, openRecord_of_settled hruns hsettled]
      simp only [List.mem_cons_self, if_true]
      cases hopening : session.opening crypto record tried with
      | some plaintext =>
        dsimp only [Option.map_some, Option.elim_some]
        rw [hattempts, ite_self, reading_eq hruns]
        exact ⟨_, rfl⟩
      | none =>
        dsimp only [Option.map_none, Option.elim_none]
        obtain ⟨budget', hrest⟩ := ih _ _
        refine ⟨budget', hrest.trans ?_⟩
        rw [hopening]
        split_ifs <;> rfl
    · have hnot : tried = !direction := Bool.eq_not.mpr htried
      have hmem : direction ∈ tried :: directions ↔ direction ∈ directions := by
        rw [List.mem_cons]
        exact ⟨fun h => h.resolve_left (fun heq => htried heq.symm), .inr⟩
      rw [openRecord_of_forall]
      · simp only [hmem]
        exact ih _ _
      · intro n hn
        rw [openAt_eq_follower hruns, hnot]
        exact hother n (mem_sequences hn).2

/-- What a record leaves of a session, as following its direction in order does. -/
structure Taken (crypto : CryptoBackend) (suite : CipherSuite) (direction : Bool)
    (record : TlsRecord) (client : IpAddr) (session session' : TlsSession)
    (content : Option Bytes) : Prop where
  keeps : Keeps session session'
  clientAddr : session'.clientAddr = none ∨ session'.clientAddr = some client
  follower : session'.follower direction = ((session.follower direction).take crypto suite record).1
  other : session'.follower (!direction) = session.follower (!direction)
  content : content = ((session.follower direction).take crypto suite record).2

def ends (client server : IpAddr) (direction : Bool) : IpAddr × IpAddr :=
  if direction then (client, server) else (server, client)

theorem mem_candidateDirections {client server : IpAddr} {clientAddr : Option IpAddr}
    (haddr : clientAddr = none ∨ clientAddr = some client) :
    direction ∈ candidateDirections clientAddr (ends client server direction).1
      (ends client server direction).2 := by
  rcases haddr with rfl | rfl
  · cases direction <;> simp [candidateDirections]
  · rw [candidateDirections]
    cases direction
    · by_cases hsame : server = client <;> simp [ends, hsame]
    · by_cases hsame : client = server <;> simp [ends, hsame]

theorem tryDecryptWithSession_of_settled {client server : IpAddr} (hruns : session.Runs suite)
    (hseen : session.Seen) (haddr : session.clientAddr = none ∨ session.clientAddr = some client)
    (hsettled : (session.follower direction).Settled crypto record)
    (hother : ∀ n ≤ u64Max, (session.follower (!direction)).openAt crypto record n = none)
    (lockon : LockOn) :
    ∃ session' budget' content,
      session.tryDecryptWithSession crypto record (ends client server direction).1
          (ends client server direction).2 lockon = (session', budget', content) ∧
        Taken crypto suite direction record client session session' content := by
  have hcbc : ¬ session.cipherSuite.isCbc = true := by
    rw [hruns.cipherSuite, hruns.authenticated]
    exact Bool.false_ne_true
  have hfloor : session.lockonFloorFor (ends client server direction) = 0 := by
    rw [lockonFloorFor, hseen.lockonFloor]
    rfl
  obtain ⟨budget', htry⟩ := @tryDirections_of_settled crypto suite session record
    (ends client server direction).1 (ends client server direction).2 direction hruns hseen
    hsettled hother lockon.replay (session.recordWindow lockon.window)
    (candidateDirections session.clientAddr (ends client server direction).1
      (ends client server direction).2) lockon.budget none
  rw [if_pos (mem_candidateDirections haddr)] at htry
  rw [tryDecryptWithSession, if_neg hcbc, hfloor, htry]
  have hsame : Keeps session session := ⟨rfl, rfl, rfl, rfl, rfl⟩
  cases hopening : session.opening crypto record direction with
  | none =>
    have htake : (session.follower direction).take crypto suite record =
        (session.follower direction, none) := by
      rw [opening] at hopening
      rw [Follower.take]
      split_ifs at hopening ⊢ with hle
      · rw [hopening]
      · rfl
    exact ⟨_, _, _, rfl, hsame, haddr, by rw [htake], rfl, by rw [htake]⟩
  | some plaintext =>
    have htake : (session.follower direction).take crypto suite record =
        ((session.follower direction).advance crypto suite plaintext,
          applicationData (stripTls13Padding plaintext).1 (stripTls13Padding plaintext).2) := by
      rw [opening] at hopening
      rw [Follower.take]
      split_ifs at hopening ⊢ with hle
      rw [hopening]
    obtain ⟨hkeeps, hclient, hfollower, hnot⟩ := @follow_spec crypto suite session
      (ends client server direction).1 (ends client server direction).2 direction hruns plaintext
    refine ⟨_, _, _, rfl, hkeeps, ?_, by rw [htake]; exact hfollower, hnot, by rw [htake]⟩
    rw [hclient]
    rcases haddr with hnone | hsome
    · right
      rw [hnone]
      cases direction <;> rfl
    · right
      rw [hsome]
      rfl

end TlsSession

end Sipnab.Tls
