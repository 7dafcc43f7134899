import Sipnab.Tls.Phases

/-!
# Handshakes of others

A handshake marks the session of its own random and takes nothing from a TLS 1.3 session. What the
handshakes make of a decryptor does not depend on its keys.
-/

namespace Sipnab.Tls

open TlsDecryptor

structure Agree (d d' : TlsDecryptor) : Prop where
  observedHandshakes : d'.observedHandshakes = d.observedHandshakes
  pendingClientRandoms : d'.pendingClientRandoms = d.pendingClientRandoms
  rsa : d'.rsa = d.rsa

theorem Agree.symm {d d' : TlsDecryptor} (h : Agree d d') : Agree d' d :=
  ⟨h.observedHandshakes.symm, h.pendingClientRandoms.symm, h.rsa.symm⟩

theorem Agree.trans {a b c : TlsDecryptor} (h : Agree a b) (h' : Agree b c) : Agree a c :=
  ⟨h'.observedHandshakes.trans h.observedHandshakes,
    h'.pendingClientRandoms.trans h.pendingClientRandoms, h'.rsa.trans h.rsa⟩

structure Observes (d d' : TlsDecryptor) : Prop where
  keylogEntries : d'.keylogEntries = d.keylogEntries
  keylogGeneration : d'.keylogGeneration = d.keylogGeneration
  lastRewindGeneration : d'.lastRewindGeneration = d.lastRewindGeneration
  processed : d'.keylogProcessedCount = d.keylogProcessedCount
  rewindPending : d'.rewindPending = d.rewindPending
  rewindEvicted : d'.rewindEvicted = d.rewindEvicted
  keysMayStillArrive : d'.keysMayStillArrive = d.keysMayStillArrive

theorem Observes.refl (d : TlsDecryptor) : Observes d d := ⟨rfl, rfl, rfl, rfl, rfl, rfl, rfl⟩

variable {crypto : CryptoBackend} {d d' : TlsDecryptor} {record : TlsRecord} {src dst : SocketAddr}

theorem pairPendingClientRandom_spec (d : TlsDecryptor) (conn : SocketAddr × SocketAddr) :
    Observes d (d.pairPendingClientRandom conn).1 ∧
      (d.pairPendingClientRandom conn).1.sessions = d.sessions ∧
      (d.pairPendingClientRandom conn).1.observedHandshakes = d.observedHandshakes := by
  unfold pairPendingClientRandom
  split
  · exact ⟨.refl d, rfl, rfl⟩
  · exact ⟨⟨rfl, rfl, rfl, rfl, rfl, rfl, rfl⟩, rfl, rfl⟩

theorem observeServerHello_spec (d : TlsDecryptor) (conn : SocketAddr × SocketAddr)
    (info : HandshakeInfo) :
    Observes d (d.observeServerHello conn info) ∧ ∃ clientRandom : Option Bytes,
      (d.observeServerHello conn info).observedHandshakes =
          d.observedHandshakes ++ [{ info with clientRandom := clientRandom }] ∧
        (d.observeServerHello conn info).sessions =
          IndexMap.filter (d.sessions.mapValues (fun key session =>
            if some key = clientRandom then
              { session with handshakeSeen := true, lockonFloor := [], lockonAttempts := 0 }
            else session)) (fun e => e.2.version ≠ .tls12) := by
  have hpair := pairPendingClientRandom_spec { d with
    rsa := d.rsa.map (fun rsa =>
      { rsa with serverRandom := info.serverRandom, cipher := info.cipherSuiteCode }) } conn
  unfold observeServerHello
  dsimp only
  generalize pairPendingClientRandom { d with
    rsa := d.rsa.map (fun rsa =>
      { rsa with serverRandom := info.serverRandom, cipher := info.cipherSuiteCode }) } conn =
        paired at hpair ⊢
  obtain ⟨hobserves, hsessions, hhandshakes⟩ := hpair
  cases hrandom : paired.2.orElse (fun _ => info.clientRandom) with
  | none =>
    have hsame : d.sessions.mapValues (fun key session =>
        if some key = none then
          { session with handshakeSeen := true, lockonFloor := [], lockonAttempts := 0 }
        else session) = d.sessions := by
      apply IndexMap.ext
      rw [IndexMap.mapValues]
      simp
    refine ⟨⟨hobserves.keylogEntries, hobserves.keylogGeneration, hobserves.lastRewindGeneration,
      hobserves.processed, hobserves.rewindPending, hobserves.rewindEvicted,
      hobserves.keysMayStillArrive⟩, none, ?_, ?_⟩
    · exact congrArg (· ++ _) hhandshakes
    · rw [hsame]
      exact congrArg (fun m => IndexMap.filter m _) hsessions
  | some clientRandom =>
    refine ⟨⟨hobserves.keylogEntries, hobserves.keylogGeneration, hobserves.lastRewindGeneration,
      hobserves.processed, hobserves.rewindPending, hobserves.rewindEvicted,
      hobserves.keysMayStillArrive⟩, some clientRandom, ?_, ?_⟩
    · exact congrArg (· ++ _) hhandshakes
    · simp only [Option.some.injEq]
      exact congrArg (fun m => IndexMap.filter (IndexMap.mapValues m _) _) hsessions

/-- What a ClientKeyExchange gives is another connection's. -/
def Connection.Harmless (conn : Connection crypto) (mine : TlsRecord → Prop) (d : TlsDecryptor)
    (record : TlsRecord) : Prop :=
  ∀ clientRandom session,
    (parseClientKeyExchangeRsa record.payload).bind (d.deriveRsaSession crypto) =
        some (clientRandom, session) →
      clientRandom ≠ conn.clientRandom ∧ Foreign crypto mine session

theorem processRecord_cases (d : TlsDecryptor) (record : TlsRecord) (src dst : SocketAddr) :
    Observes d (d.processRecord crypto record src dst) ∧
      (((d.processRecord crypto record src dst).sessions = d.sessions ∧
          (d.processRecord crypto record src dst).observedHandshakes = d.observedHandshakes) ∨
        (∃ info : HandshakeInfo, (d.processRecord crypto record src dst).observedHandshakes =
              d.observedHandshakes ++ [info] ∧
            (d.processRecord crypto record src dst).sessions =
              IndexMap.filter (d.sessions.mapValues (fun key session =>
                if some key = info.clientRandom then
                  { session with handshakeSeen := true, lockonFloor := [], lockonAttempts := 0 }
                else session)) (fun e => e.2.version ≠ .tls12)) ∨
        (∃ clientRandom session,
          (parseClientKeyExchangeRsa record.payload).bind (d.deriveRsaSession crypto) =
              some (clientRandom, session) ∧
            (d.processRecord crypto record src dst).sessions =
              d.sessions.insert clientRandom session ∧
            (d.processRecord crypto record src dst).observedHandshakes = d.observedHandshakes)) := by
  unfold processRecord
  split_ifs
  · exact ⟨.refl d, .inl ⟨rfl, rfl⟩⟩
  · split
    · cases parseClientHelloRandom record.payload with
      | none => exact ⟨.refl d, .inl ⟨rfl, rfl⟩⟩
      | some clientRandom => exact ⟨⟨rfl, rfl, rfl, rfl, rfl, rfl, rfl⟩, .inl ⟨rfl, rfl⟩⟩
    · cases parseServerHello record.payload with
      | none => exact ⟨.refl d, .inl ⟨rfl, rfl⟩⟩
      | some info =>
        obtain ⟨hobserves, clientRandom, hobserved, hsessions⟩ :=
          observeServerHello_spec d (connKey src dst) info
        exact ⟨hobserves, .inr (.inl ⟨_, hobserved, hsessions⟩)⟩
    · unfold observeClientKeyExchange
      split
      · next hderived =>
        exact ⟨⟨rfl, rfl, rfl, rfl, rfl, rfl, rfl⟩, .inr (.inr ⟨_, _, hderived, rfl, rfl⟩)⟩
      · exact ⟨.refl d, .inl ⟨rfl, rfl⟩⟩
    · exact ⟨.refl d, .inl ⟨rfl, rfl⟩⟩

def TlsSession.mark (clientRandom : Option Bytes) (key : Bytes) (session : TlsSession) :
    TlsSession :=
  if some key = clientRandom then
    { session with handshakeSeen := true, lockonFloor := [], lockonAttempts := 0 }
  else session

namespace Connection

variable {conn : Connection crypto} {mine : TlsRecord → Prop} {log : List KeyLogEntry}
  {done : Bool → List PendingRecord} {session : TlsSession} {sessions : IndexMap Bytes TlsSession}

theorem Others.mark (h : conn.Others mine sessions.entries) (clientRandom : Option Bytes) :
    conn.Others mine (IndexMap.filter (sessions.mapValues (TlsSession.mark clientRandom))
      (fun e => e.2.version ≠ .tls12)).entries := by
  intro e he hkey
  obtain ⟨hmem, -⟩ := List.mem_filter.mp he
  obtain ⟨old, hold, rfl⟩ := List.mem_map.mp hmem
  have hforeign := h old hold hkey
  dsimp only
  rw [TlsSession.mark]
  split_ifs
  · exact hforeign.touched (.seen old.2)
  · exact hforeign

theorem Others.insert (h : conn.Others mine sessions.entries) {clientRandom : Bytes}
    (hsession : Foreign crypto mine session) :
    conn.Others mine (sessions.insert clientRandom session).entries := by
  intro e he hkey
  rcases entries_insert he with hold | ⟨-, hnew⟩
  · exact h e hold hkey
  · rw [hnew]
    exact hsession

theorem Base.observes (h : conn.Base mine log d) (hobserves : Observes d d')
    (hothers : conn.Others mine d'.sessions.entries) : conn.Base mine log d' where
  others := hothers
  processed := by
    rw [hobserves.processed, hobserves.keylogEntries]
    exact h.processed
  logged := by
    rw [hobserves.keylogEntries]
    exact h.logged
  generation := by
    rw [hobserves.keylogGeneration, hobserves.lastRewindGeneration]
    exact h.generation
  keyed := by
    intro sockets item
    rw [queued_eq_of_rewindPending hobserves.rewindPending]
    exact h.keyed sockets item

theorem others_processRecord (hothers : conn.Others mine d.sessions.entries)
    (hharmless : conn.Harmless mine d record) :
    conn.Others mine (d.processRecord crypto record src dst).sessions.entries ∧
      (d.sessions.get? conn.clientRandom = none →
        (d.processRecord crypto record src dst).sessions.get? conn.clientRandom = none) := by
  obtain ⟨-, hsame | ⟨info, -, hsessions⟩ | ⟨clientRandom, session, hderived, hsessions, -⟩⟩ :=
    @processRecord_cases crypto d record src dst
  · rw [hsame.1]
    exact ⟨hothers, id⟩
  · rw [hsessions]
    refine ⟨hothers.mark info.clientRandom, ?_⟩
    intro hnone
    rw [get?_none_iff] at hnone ⊢
    intro e he
    obtain ⟨hmem, -⟩ := List.mem_filter.mp he
    obtain ⟨old, hold, rfl⟩ := List.mem_map.mp hmem
    exact hnone old hold
  · obtain ⟨hne, hforeign⟩ := hharmless clientRandom session hderived
    rw [hsessions]
    refine ⟨hothers.insert hforeign, ?_⟩
    intro hnone
    rw [IndexMap.get?_insert, if_neg (fun h => hne h.symm)]
    exact hnone

theorem Waiting.processRecord (h : conn.Waiting mine log d done)
    (hharmless : conn.Harmless mine d record) :
    conn.Waiting mine log (d.processRecord crypto record src dst) done := by
  obtain ⟨hobserves, -⟩ := @processRecord_cases crypto d record src dst
  obtain ⟨hothers, hnone⟩ :=
    @others_processRecord crypto d record src dst conn mine h.base.others hharmless
  refine ⟨h.base.observes hobserves hothers, hobserves.keysMayStillArrive.trans h.arrive, ?_,
    hnone h.absent, ?_⟩
  · rw [hobserves.keylogEntries]
    exact h.silent
  · intro direction
    rw [queued_eq_of_rewindPending hobserves.rewindPending]
    exact h.queued direction

theorem Primed.processRecord (h : conn.Primed mine log d done)
    (hharmless : conn.Harmless mine d record) :
    conn.Primed mine log (d.processRecord crypto record src dst) done := by
  obtain ⟨hobserves, -⟩ := @processRecord_cases crypto d record src dst
  obtain ⟨hothers, hnone⟩ :=
    @others_processRecord crypto d record src dst conn mine h.base.others hharmless
  refine ⟨h.base.observes hobserves hothers, ?_, hnone h.absent, ?_, ?_⟩
  · rw [hobserves.keylogEntries]
    exact h.loaded
  · rw [hobserves.processed, hobserves.keylogEntries]
    exact h.unprocessed
  · intro direction
    rw [queued_eq_of_rewindPending hobserves.rewindPending]
    exact h.queued direction

theorem Follows.mark {observed : Bool} (h : conn.Follows session done observed)
    (clientRandom : Option Bytes) :
    conn.Follows (session.mark clientRandom conn.clientRandom) done
      (observed || (clientRandom = some conn.clientRandom)) := by
  rw [TlsSession.mark]
  split_ifs with hmine
  · refine ⟨⟨h.runs.version, h.runs.cipherSuite, h.runs.authenticated⟩, h.clientAddr, ?_,
      fun _ => ⟨rfl, rfl, rfl⟩⟩
    intro direction
    rw [← h.follower direction]
    rfl
  · have hnot : decide (clientRandom = some conn.clientRandom) = false :=
      decide_eq_false (fun heq => hmine heq.symm)
    rw [hnot, Bool.or_false]
    exact h

theorem Ready.processRecord (h : conn.Ready mine log d done session)
    (hharmless : conn.Harmless mine d record) :
    ∃ session', conn.Ready mine log (d.processRecord crypto record src dst) done session' := by
  obtain ⟨hobserves, hcases⟩ := @processRecord_cases crypto d record src dst
  obtain ⟨hothers, -⟩ :=
    @others_processRecord crypto d record src dst conn mine h.base.others hharmless
  have hbase := h.base.observes hobserves hothers
  have hloaded : conn.Loaded (d.processRecord crypto record src dst).keylogEntries := by
    rw [hobserves.keylogEntries]
    exact h.loaded
  have hqueued : ∀ direction, ∀ item ∈
      (d.processRecord crypto record src dst).queued (conn.sockets direction),
        item ∈ done direction := by
    intro direction item
    rw [queued_eq_of_rewindPending hobserves.rewindPending]
    exact h.queued direction item
  have hobservedIn : ∀ d' : TlsDecryptor, d'.observedHandshakes = d.observedHandshakes →
      conn.observedIn d' = conn.observedIn d := by
    intro d' heq
    rw [observedIn, observedIn, heq]
  rcases hcases with hsame | ⟨info, hobserved, hsessions⟩ |
      ⟨clientRandom, session', hderived, hsessions, hobserved⟩
  · refine ⟨session, hbase, hloaded, ?_, ?_, hqueued⟩
    · rw [hsame.1]
      exact h.present
    · rw [hobservedIn _ hsame.2]
      exact h.follows
  · have hmarked := h.follows.mark info.clientRandom
    refine ⟨session.mark info.clientRandom conn.clientRandom, hbase, hloaded, ?_, ?_, hqueued⟩
    · rw [hsessions, IndexMap.get?_eq_some_iff]
      apply List.mem_filter.mpr
      refine ⟨List.mem_map.mpr ⟨_, IndexMap.get?_eq_some_iff.mp h.present, rfl⟩, ?_⟩
      have hversion := hmarked.runs.version
      rw [decide_eq_true_eq]
      exact fun h12 => absurd (hversion.symm.trans h12) (by decide)
    · have happended : conn.observedIn (d.processRecord crypto record src dst) =
          (conn.observedIn d || decide (info.clientRandom = some conn.clientRandom)) := by
        rw [observedIn, observedIn, hobserved, List.any_append]
        simp
      rw [happended]
      exact hmarked
  · obtain ⟨hne, -⟩ := hharmless clientRandom session' hderived
    refine ⟨session, hbase, hloaded, ?_, ?_, hqueued⟩
    · rw [hsessions, IndexMap.get?_insert, if_neg (fun heq => hne heq.symm)]
      exact h.present
    · rw [hobservedIn _ hobserved]
      exact h.follows

theorem Following.processRecord (h : conn.Following mine log d done)
    (hharmless : conn.Harmless mine d record) :
    conn.Following mine log (d.processRecord crypto record src dst) done := by
  rcases h with ⟨session, h⟩ | ⟨h, hdone⟩
  · exact .inl (h.processRecord hharmless)
  · exact .inr ⟨h.processRecord hharmless, hdone⟩

end Connection

/-! ## Handshakes and keys -/

theorem TlsDecryptor.Stays.agree (h : Stays d d') : Agree d d' :=
  ⟨h.observedHandshakes, h.pendingClientRandoms, h.rsa⟩

theorem Agree.deriveRsaSession (h : Agree d d') :
    d'.deriveRsaSession crypto = d.deriveRsaSession crypto := by
  funext premasterCt
  rw [TlsDecryptor.deriveRsaSession, TlsDecryptor.deriveRsaSession, h.rsa]

theorem Agree.pairPendingClientRandom (h : Agree d d') (conn : SocketAddr × SocketAddr) :
    Agree (d.pairPendingClientRandom conn).1 (d'.pairPendingClientRandom conn).1 ∧
      (d'.pairPendingClientRandom conn).2 = (d.pairPendingClientRandom conn).2 := by
  obtain ⟨hobserved, hpending, hrsa⟩ := h
  unfold TlsDecryptor.pairPendingClientRandom
  rw [hpending]
  cases d.pendingClientRandoms.get? conn with
  | none => exact ⟨⟨hobserved, hpending, hrsa⟩, rfl⟩
  | some queue => exact ⟨⟨hobserved, rfl, hrsa⟩, rfl⟩

theorem Agree.observeServerHello (h : Agree d d') (conn : SocketAddr × SocketAddr)
    (info : HandshakeInfo) :
    Agree (d.observeServerHello conn info) (d'.observeServerHello conn info) := by
  have hpaired := @Agree.pairPendingClientRandom
    { d with rsa := d.rsa.map (fun rsa =>
      { rsa with serverRandom := info.serverRandom, cipher := info.cipherSuiteCode }) }
    { d' with rsa := d'.rsa.map (fun rsa =>
      { rsa with serverRandom := info.serverRandom, cipher := info.cipherSuiteCode }) }
    ⟨h.observedHandshakes, h.pendingClientRandoms, congrArg (Option.map _) h.rsa⟩ conn
  unfold TlsDecryptor.observeServerHello
  dsimp only
  generalize TlsDecryptor.pairPendingClientRandom { d with rsa := _ } conn = paired at hpaired ⊢
  generalize TlsDecryptor.pairPendingClientRandom { d' with rsa := _ } conn = paired' at hpaired ⊢
  obtain ⟨⟨hobserved, hpending, hrsa⟩, hrandom⟩ := hpaired
  rw [hrandom]
  cases paired.2.orElse (fun _ => info.clientRandom) with
  | none => exact ⟨congrArg (· ++ _) hobserved, hpending, hrsa⟩
  | some clientRandom => exact ⟨congrArg (· ++ _) hobserved, hpending, hrsa⟩

theorem Agree.processRecord (h : Agree d d') :
    Agree (d.processRecord crypto record src dst) (d'.processRecord crypto record src dst) := by
  obtain ⟨hobserved, hpending, hrsa⟩ := h
  unfold TlsDecryptor.processRecord
  split_ifs
  · exact ⟨hobserved, hpending, hrsa⟩
  · split
    · cases parseClientHelloRandom record.payload with
      | none => exact ⟨hobserved, hpending, hrsa⟩
      | some clientRandom =>
        refine ⟨hobserved, ?_, ?_⟩
        · dsimp only [Option.elim_some, observeClientHello]
          rw [hpending]
        · dsimp only [Option.elim_some, observeClientHello]
          rw [hrsa]
    · cases parseServerHello record.payload with
      | none => exact ⟨hobserved, hpending, hrsa⟩
      | some info => exact Agree.observeServerHello ⟨hobserved, hpending, hrsa⟩ _ info
    · unfold observeClientKeyExchange
      rw [Agree.deriveRsaSession ⟨hobserved, hpending, hrsa⟩]
      split <;> exact ⟨hobserved, hpending, hrsa⟩
    · exact ⟨hobserved, hpending, hrsa⟩

end Sipnab.Tls
