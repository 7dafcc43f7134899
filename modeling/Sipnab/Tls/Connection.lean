import Sipnab.Tls.SessionWalk

/-!
# One connection among others

The session of one connection while records go past all sessions. Its own records, in order, move it
on as following each direction does; records it has had already and records of others leave it where
it is.
-/

namespace Sipnab.Tls

structure Connection (crypto : CryptoBackend) where
  clientRandom : Bytes
  client : SocketAddr
  server : SocketAddr
  suite : CipherSuite
  clientKeys : TrafficKeys
  serverKeys : TrafficKeys
  random_length : clientRandom.length = 32
  ends_ne : client ≠ server
  suite_eq : suiteOfSecret clientKeys.secret = some suite
  client_derived : deriveKeyIv crypto clientKeys.secret suite = some (clientKeys.key, clientKeys.iv)
  server_derived : deriveKeyIv crypto serverKeys.secret suite = some (serverKeys.key, serverKeys.iv)

namespace Connection

variable {crypto : CryptoBackend} (conn : Connection crypto)

def firstKeys (direction : Bool) : TrafficKeys :=
  if direction then conn.clientKeys else conn.serverKeys

def schedule : Schedule := fun direction => keysAfter crypto conn.suite (conn.firstKeys direction)

def start (direction : Bool) : Follower := ⟨conn.firstKeys direction, 0⟩

def sockets (direction : Bool) : SocketAddr × SocketAddr :=
  if direction then (conn.client, conn.server) else (conn.server, conn.client)

def fresh (handshakeSeen : Bool) : TlsSession :=
  { TlsSession.atStreamStart .tls13 conn.clientKeys.key conn.serverKeys.key conn.clientKeys.iv
      conn.serverKeys.iv conn.suite handshakeSeen with
    clientSecret := conn.clientKeys.secret, serverSecret := conn.serverKeys.secret }

theorem authenticated : conn.suite.isCbc = false := by
  have hsuite := conn.suite_eq
  unfold suiteOfSecret at hsuite
  split_ifs at hsuite <;> rw [← Option.some.inj hsuite] <;> rfl

theorem tracked_start (direction : Bool) :
    Tracked crypto conn.schedule direction (conn.start direction) (0, 0) [] where
  linked := ⟨0, rfl, .inl ⟨rfl, rfl⟩⟩
  spent := by simp
  behind := by simp

/-- How far the records of a direction have been followed. -/
def followed (direction : Bool) (done : List PendingRecord) : Follower :=
  ((conn.start direction).takeAll crypto conn.suite done).1

theorem tracked_followed {direction : Bool} {done : List PendingRecord} {place : ℕ × ℕ}
    (h : Stream crypto conn.schedule direction (0, 0) done place) :
    Tracked crypto conn.schedule direction (conn.followed direction done) place done := by
  have hschedule : ∀ epoch, conn.schedule direction (epoch + 1) =
      (conn.schedule direction epoch).bind (TrafficKeys.next crypto conn.suite) := fun _ => rfl
  exact (conn.tracked_start direction).takeAll hschedule h

/-- The records of the connection, in order in each direction. -/
def InOrder (all : Bool → List PendingRecord) : Prop :=
  ∀ direction, (∃ last, Stream crypto conn.schedule direction (0, 0) (all direction) last) ∧
    ∀ item ∈ all direction, (item.src, item.dst) = conn.sockets direction

/-- The session has followed the records done, and knows of the handshake. -/
structure Follows (session : TlsSession) (done : Bool → List PendingRecord) (observed : Bool) :
    Prop where
  runs : session.Runs conn.suite
  clientAddr : session.clientAddr = none ∨ session.clientAddr = some conn.client.1
  follower : ∀ direction, session.follower direction = conn.followed direction (done direction)
  seen : observed = true → session.Seen

theorem follows_fresh (observed : Bool) :
    conn.Follows (conn.fresh observed) (fun _ => []) observed where
  runs := ⟨rfl, rfl, conn.authenticated⟩
  clientAddr := .inl rfl
  follower direction := by cases direction <;> rfl
  seen h := ⟨h, rfl, rfl⟩

def extend (done : Bool → List PendingRecord) (direction : Bool) (item : PendingRecord) :
    Bool → List PendingRecord :=
  Function.update done direction (done direction ++ [item])

variable {conn} {all done : Bool → List PendingRecord} {session session' : TlsSession}
  {direction : Bool} {item : PendingRecord} {observed : Bool}

theorem openAt_not_eq_none (horder : conn.InOrder all) (hitem : item ∈ all direction)
    {other : Follower} {epoch : ℕ} (hkeys : conn.schedule (!direction) epoch = some other.keys) :
    ∀ n ≤ u64Max, other.openAt crypto item.record n = none := by
  obtain ⟨last, hstream⟩ := (horder direction).1
  obtain ⟨before, after, hall⟩ := List.append_of_mem hitem
  rw [hall] at hstream
  obtain ⟨place, -, hrest⟩ := hstream.split
  intro n hn
  cases hrest with
  | handshake hunopened _ => exact hunopened _ epoch _ hkeys n hn
  | traffic hsealed _ _ =>
    have hopen := hsealed.2 _ epoch _ hkeys n hn
    rw [if_neg (fun h => Bool.not_ne_self direction h.1)] at hopen
    exact hopen

theorem exists_place (horder : conn.InOrder all) (hdone : done direction <+: all direction) :
    ∃ place, Stream crypto conn.schedule direction (0, 0) (done direction) place := by
  obtain ⟨last, hstream⟩ := (horder direction).1
  obtain ⟨rest, hall⟩ := hdone
  rw [← hall] at hstream
  obtain ⟨place, hstream, -⟩ := hstream.split
  exact ⟨place, hstream⟩

theorem Follows.other (h : conn.Follows session done observed) (horder : conn.InOrder all)
    (hdone : ∀ direction, done direction <+: all direction) (hitem : item ∈ all direction) :
    ∀ n ≤ u64Max, (session.follower (!direction)).openAt crypto item.record n = none := by
  obtain ⟨place, hstream⟩ := exists_place horder (hdone (!direction))
  obtain ⟨epoch, hkeys, -⟩ := (conn.tracked_followed hstream).linked
  rw [h.follower]
  exact openAt_not_eq_none horder hitem hkeys

section

variable (h : conn.Follows session done true)
include h

theorem Follows.take (horder : conn.InOrder all)
    (hdone : ∀ direction, done direction <+: all direction) (hitem : item ∈ all direction)
    (hsettled : (session.follower direction).Settled crypto item.record) (lockon : LockOn) :
    ∃ session' budget content,
      session.tryDecryptWithSession crypto item.record item.src.1 item.dst.1 lockon =
          (session', budget, content) ∧
        TlsSession.Taken crypto conn.suite direction item.record conn.client.1 session session'
          content := by
  have hends : (item.src.1, item.dst.1) =
      TlsSession.ends conn.client.1 conn.server.1 direction := by
    have hsockets := (horder direction).2 item hitem
    have hsrc := congrArg (fun p => p.1.1) hsockets
    have hdst := congrArg (fun p => p.2.1) hsockets
    dsimp only at hsrc hdst
    rw [hsrc, hdst]
    cases direction <;> rfl
  have hsrc := congrArg Prod.fst hends
  have hdst := congrArg Prod.snd hends
  dsimp only at hsrc hdst
  rw [hsrc, hdst]
  exact TlsSession.tryDecryptWithSession_of_settled h.runs (h.seen rfl) h.clientAddr hsettled
    (h.other horder hdone hitem) lockon

theorem Follows.taken {record : TlsRecord} {content : Option Bytes}
    (htaken : TlsSession.Taken crypto conn.suite direction record conn.client.1 session session'
      content)
    (done' : Bool → List PendingRecord) (hsame : done' (!direction) = done (!direction))
    (hnew : conn.followed direction (done' direction) =
      ((conn.followed direction (done direction)).take crypto conn.suite record).1) :
    conn.Follows session' done' true where
  runs := h.runs.of_keeps htaken.keeps
  clientAddr := htaken.clientAddr
  follower direction' := by
    by_cases hdirection : direction' = direction
    · rw [hdirection, htaken.follower, h.follower, hnew]
    · have hnot : direction' = !direction := Bool.eq_not.mpr hdirection
      rw [hnot, htaken.other, h.follower, hsame]
  seen _ := (h.seen rfl).of_keeps htaken.keeps

theorem Follows.new (horder : conn.InOrder all)
    (hdone : ∀ direction, done direction <+: all direction)
    (hnext : done direction ++ [item] <+: all direction) (lockon : LockOn) :
    ∃ session' budget, session.tryDecryptWithSession crypto item.record item.src.1 item.dst.1
          lockon = (session', budget, ((conn.followed direction (done direction)).take crypto
            conn.suite item.record).2) ∧
      conn.Follows session' (extend done direction item) true := by
  have hitem : item ∈ all direction := hnext.subset (by simp)
  have hsettled : (session.follower direction).Settled crypto item.record := by
    obtain ⟨last, hstream⟩ := (horder direction).1
    obtain ⟨rest, hall⟩ := hnext
    rw [← hall, List.append_assoc] at hstream
    obtain ⟨place, hbefore, hrest⟩ := hstream.split
    have htracked := conn.tracked_followed hbefore
    rw [h.follower]
    cases hrest with
    | handshake hunopened _ =>
      obtain ⟨epoch, hkeys, -⟩ := htracked.linked
      exact fun n _ hn => hunopened _ epoch _ hkeys n hn
    | traffic hsealed _ _ =>
      exact (@take_of_sealedAt crypto conn.suite _ _ _ _ _ _ htracked.linked hsealed).1
  obtain ⟨session', budget, content, htry, htaken⟩ := h.take horder hdone hitem hsettled lockon
  refine ⟨session', budget, ?_, h.taken htaken _ ?_ ?_⟩
  · rw [htry, htaken.content, h.follower]
  · exact Function.update_of_ne (Bool.not_ne_self direction) _ _
  · rw [extend, Function.update_self, followed, Follower.takeAll_concat]
    rfl

theorem Follows.again (horder : conn.InOrder all)
    (hdone : ∀ direction, done direction <+: all direction) (hitem : item ∈ done direction)
    (lockon : LockOn) :
    ∃ session' budget, session.tryDecryptWithSession crypto item.record item.src.1 item.dst.1
          lockon = (session', budget, none) ∧ conn.Follows session' done true := by
  obtain ⟨place, hstream⟩ := exists_place horder (hdone direction)
  have hbehind := (conn.tracked_followed hstream).behind item hitem
  have hsettled : (session.follower direction).Settled crypto item.record := by
    rw [h.follower]
    exact fun n hlt hn => hbehind n (Nat.le_of_lt hlt) hn
  have htake : (conn.followed direction (done direction)).take crypto conn.suite item.record =
      (conn.followed direction (done direction), none) := by
    rw [Follower.take]
    split_ifs with hle
    · rw [hbehind _ le_rfl hle]
    · rfl
  obtain ⟨session', budget, content, htry, htaken⟩ :=
    h.take horder hdone ((hdone direction).subset hitem) hsettled lockon
  refine ⟨session', budget, ?_, h.taken htaken done rfl (by rw [htake])⟩
  rw [htry, htaken.content, h.follower, htake]

end

theorem Follows.stranger (h : conn.Follows session done observed) (horder : conn.InOrder all)
    (hdone : ∀ direction, done direction <+: all direction) {record : TlsRecord}
    (hrecord : Unopened crypto conn.schedule record) (src dst : IpAddr) (lockon : LockOn) :
    conn.Follows (session.tryDecryptWithSession crypto record src dst lockon).1 done observed := by
  have hshut : session.Shut crypto record := by
    intro direction n hn
    obtain ⟨place, hstream⟩ := exists_place horder (hdone direction)
    obtain ⟨epoch, hkeys, -⟩ := (conn.tracked_followed hstream).linked
    rw [TlsSession.openAt_eq_follower h.runs, h.follower]
    exact hrecord _ epoch _ hkeys n hn
  obtain ⟨budget, htry | ⟨hunseen, floor, htry⟩⟩ :=
    @TlsSession.tryDecryptWithSession_of_shut crypto session record src dst hshut lockon
  · rw [htry]
    exact h
  · rw [htry]
    refine ⟨⟨h.runs.version, h.runs.cipherSuite, h.runs.authenticated⟩, h.clientAddr, ?_, ?_⟩
    · intro direction
      rw [← h.follower direction]
      rfl
    · intro hobserved
      rw [(h.seen hobserved).handshakeSeen, Bool.or_true] at hunseen
      cases hunseen

/-! ## Past all sessions -/

/-- The sessions of others are shut to the connection's records. -/
def Others (conn : Connection crypto) (mine : TlsRecord → Prop)
    (entries : List (Bytes × TlsSession)) : Prop :=
  ∀ e ∈ entries, e.1 ≠ conn.clientRandom → Foreign crypto mine e.2

variable {mine : TlsRecord → Prop} {entries entries' : List (Bytes × TlsSession)}
  {content : Option Bytes} {record : TlsRecord} {src dst : IpAddr}

theorem Others.walk (h : conn.Others mine entries)
    (hwalk : Walk crypto record src dst entries entries' content) : conn.Others mine entries' := by
  intro e he hkey
  obtain ⟨session, hin, rfl | ⟨lockon, htried⟩⟩ := hwalk.exists_of_mem he
  · exact h _ hin hkey
  · rw [htried]
    exact (h _ hin hkey).touched (.tried session record src dst lockon)

theorem free_of_follows (h : conn.Follows session done observed) (horder : conn.InOrder all)
    (hitem : item ∈ all direction) :
    session.clientAddr.any (fun a => a ≠ item.src.1 && a ≠ item.dst.1) = false := by
  have hsockets := (horder direction).2 item hitem
  rcases h.clientAddr with hnone | hsome
  · rw [hnone]
    rfl
  · rw [hsome]
    have hsrc := congrArg (fun p => p.1.1) hsockets
    have hdst := congrArg (fun p => p.2.1) hsockets
    dsimp only at hsrc hdst
    rw [hsrc, hdst]
    cases direction <;> simp [sockets]

theorem Follows.walk (h : conn.Follows session done true) (horder : conn.InOrder all)
    (hitem : item ∈ all direction) {done' : Bool → List PendingRecord} {read : Option Bytes}
    (htry : ∀ lockon, ∃ session' budget, session.tryDecryptWithSession crypto item.record item.src.1
      item.dst.1 lockon = (session', budget, read) ∧ conn.Follows session' done' true)
    (hothers : conn.Others mine entries) (hmine : mine item.record)
    (hnodup : (entries.map Prod.fst).Nodup) (hmem : (conn.clientRandom, session) ∈ entries)
    (hwalk : Walk crypto item.record item.src.1 item.dst.1 entries entries' content) :
    content = read ∧ ∃ session', (conn.clientRandom, session') ∈ entries' ∧
      conn.Follows session' done' true := by
  obtain ⟨lockon, session', budget, hwalked, hin⟩ := hwalk.exists_try hnodup hmem
    (fun e he hkey => (hothers e he hkey).shut hmine) (free_of_follows h horder hitem)
  obtain ⟨session'', budget', htried, hfollows⟩ := htry lockon
  rw [htried] at hwalked
  obtain ⟨hsession, -, hcontent⟩ : session'' = session' ∧ budget' = budget ∧ read = content := by
    simpa using hwalked
  exact ⟨hcontent.symm, session', hin, hsession ▸ hfollows⟩

theorem walk_stranger (h : conn.Follows session done observed) (horder : conn.InOrder all)
    (hdone : ∀ direction, done direction <+: all direction)
    (hrecord : Unopened crypto conn.schedule record)
    (hnodup : (entries.map Prod.fst).Nodup) (hmem : (conn.clientRandom, session) ∈ entries)
    (hwalk : Walk crypto record src dst entries entries' content) :
    ∃ session', (conn.clientRandom, session') ∈ entries' ∧ conn.Follows session' done observed := by
  obtain ⟨e, he, hkey⟩ : ∃ e ∈ entries', e.1 = conn.clientRandom := by
    have hkeys : conn.clientRandom ∈ entries'.map Prod.fst := by
      rw [hwalk.keys_eq]
      exact List.mem_map_of_mem hmem
    exact List.mem_map.mp hkeys
  obtain ⟨key, session'⟩ := e
  obtain rfl : key = conn.clientRandom := hkey
  obtain ⟨session'', hin, hbecame⟩ := hwalk.exists_of_mem he
  have hsame : session'' = session := (Prod.mk.inj (List.inj_on_of_nodup_map hnodup hin hmem rfl)).2
  refine ⟨session', he, ?_⟩
  rcases hbecame with rfl | ⟨lockon, rfl⟩
  · rw [hsame]
    exact h
  · rw [hsame]
    exact h.stranger horder hdone hrecord src dst lockon

theorem walk_absent (hothers : conn.Others mine entries) (hmine : mine record)
    (habsent : ∀ e ∈ entries, e.1 ≠ conn.clientRandom)
    (hwalk : Walk crypto record src dst entries entries' content) : content = none :=
  hwalk.eq_none_of_shut (fun e he => (hothers e he (habsent e he)).shut hmine)

end Connection

end Sipnab.Tls
