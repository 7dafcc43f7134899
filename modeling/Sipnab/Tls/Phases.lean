import Sipnab.Tls.KeyLoading

/-!
# Before and after the keys

Until the secrets of a connection are loaded its records are held; from then on its session follows
them. What each event of a run does to a decryptor that waits, and to one that follows.
-/

namespace Sipnab.Tls

open TlsDecryptor List

namespace Connection

variable {crypto : CryptoBackend} (conn : Connection crypto) (mine : TlsRecord → Prop)
  (log : List KeyLogEntry)

def observedIn (d : TlsDecryptor) : Bool :=
  d.observedHandshakes.any (fun i => i.clientRandom = some conn.clientRandom)

structure Base (d : TlsDecryptor) : Prop where
  others : conn.Others mine d.sessions.entries
  processed : d.keylogProcessedCount ≤ d.keylogEntries.length
  logged : ∀ e ∈ d.keylogEntries, e ∈ log
  generation : d.lastRewindGeneration ≤ d.keylogGeneration
  keyed : ∀ sockets, ∀ item ∈ d.queued sockets, (item.src, item.dst) = sockets ∧
    ((∀ direction, sockets ≠ conn.sockets direction) → Unopened crypto conn.schedule item.record)

/-- The secrets are not loaded, and all records so far are held. -/
structure Waiting (d : TlsDecryptor) (done : Bool → List PendingRecord) : Prop where
  base : conn.Base mine log d
  arrive : d.keysMayStillArrive = true
  silent : conn.Silent d.keylogEntries
  absent : d.sessions.get? conn.clientRandom = none
  queued : ∀ direction, d.queued (conn.sockets direction) = done direction

/-- The session follows the records so far, and only such are held. -/
structure Ready (d : TlsDecryptor) (done : Bool → List PendingRecord) (session : TlsSession) :
    Prop where
  base : conn.Base mine log d
  loaded : conn.Loaded d.keylogEntries
  present : d.sessions.get? conn.clientRandom = some session
  follows : conn.Follows session done (conn.observedIn d)
  queued : ∀ direction, ∀ item ∈ d.queued (conn.sockets direction), item ∈ done direction

/-- The secrets are loaded and no session is built yet; all records so far are held. -/
structure Primed (d : TlsDecryptor) (done : Bool → List PendingRecord) : Prop where
  base : conn.Base mine log d
  loaded : conn.Loaded d.keylogEntries
  absent : d.sessions.get? conn.clientRandom = none
  unprocessed : d.keylogProcessedCount < d.keylogEntries.length
  queued : ∀ direction, d.queued (conn.sockets direction) = done direction

/-- The session follows the records so far, or there were none and it is not built yet. -/
def Following (d : TlsDecryptor) (done : Bool → List PendingRecord) : Prop :=
  (∃ session, conn.Ready mine log d done session) ∨
    (conn.Primed mine log d done ∧ ∀ direction, done direction = [])

variable {conn mine log} {d d' : TlsDecryptor} {done all : Bool → List PendingRecord}
  {session : TlsSession} {direction : Bool} {item : PendingRecord}

theorem sockets_ne (conn : Connection crypto) : conn.sockets true ≠ conn.sockets false :=
  fun h => conn.ends_ne (Prod.mk.inj h).1

theorem sockets_inj {direction direction' : Bool}
    (h : conn.sockets direction = conn.sockets direction') : direction = direction' := by
  cases direction <;> cases direction'
  · rfl
  · exact absurd h.symm conn.sockets_ne
  · exact absurd h conn.sockets_ne
  · rfl

/-! ## Building sessions -/

theorem observedIn_eq (h : Stays d d') : conn.observedIn d' = conn.observedIn d := by
  rw [observedIn, observedIn, h.observedHandshakes]

theorem stays_ensureSessionsPopulated (d : TlsDecryptor) :
    Stays d (d.ensureSessionsPopulated crypto) ∧
      (d.ensureSessionsPopulated crypto).rewindPending = d.rewindPending ∧
      (d.ensureSessionsPopulated crypto).rewindEvicted = d.rewindEvicted ∧
      (d.ensureSessionsPopulated crypto).newestSeen = d.newestSeen := by
  unfold ensureSessionsPopulated
  split_ifs
  · exact ⟨.refl d, rfl, rfl, rfl⟩
  · exact ⟨⟨rfl, rfl, rfl, rfl, rfl, rfl, rfl⟩, rfl, rfl, rfl⟩

theorem processed_ensureSessionsPopulated
    (h : d.keylogProcessedCount ≤ d.keylogEntries.length) :
    (d.ensureSessionsPopulated crypto).keylogProcessedCount ≤ d.keylogEntries.length := by
  unfold ensureSessionsPopulated
  split_ifs
  · exact h
  · exact le_rfl

theorem queued_eq_of_rewindPending (h : d'.rewindPending = d.rewindPending)
    (sockets : SocketAddr × SocketAddr) : d'.queued sockets = d.queued sockets := by
  rw [TlsDecryptor.queued, TlsDecryptor.queued, h]

theorem Base.ensure (h : conn.Base mine log d)
    (hothers : conn.Others mine (d.ensureSessionsPopulated crypto).sessions.entries) :
    conn.Base mine log (d.ensureSessionsPopulated crypto) := by
  obtain ⟨hstays, hpending, -, -⟩ := @stays_ensureSessionsPopulated crypto d
  refine ⟨hothers, ?_, ?_, ?_, ?_⟩
  · rw [hstays.keylogEntries]
    exact processed_ensureSessionsPopulated h.processed
  · rw [hstays.keylogEntries]
    exact h.logged
  · rw [hstays.keylogGeneration, hstays.lastRewindGeneration]
    exact h.generation
  · intro sockets item
    rw [queued_eq_of_rewindPending hpending]
    exact h.keyed sockets item

theorem Waiting.ensure (h : conn.Waiting mine log d done) (hapart : conn.Apart mine log) :
    conn.Waiting mine log (d.ensureSessionsPopulated crypto) done := by
  obtain ⟨hstays, hpending, -, -⟩ := @stays_ensureSessionsPopulated crypto d
  have hsessions : (d.ensureSessionsPopulated crypto).sessions.get? conn.clientRandom = none ∧
      conn.Others mine (d.ensureSessionsPopulated crypto).sessions.entries := by
    unfold ensureSessionsPopulated
    split_ifs
    · exact ⟨h.absent, h.base.others⟩
    · obtain ⟨hget, hothers⟩ := @foldl_populate_silent crypto conn d.keylogEntries mine log
        d.observedHandshakes d.sessions h.silent hapart h.base.logged
        (clientRandoms d.keylogEntries) h.base.others
      exact ⟨hget.trans h.absent, hothers⟩
  refine ⟨h.base.ensure hsessions.2, ?_, ?_, hsessions.1, ?_⟩
  · rw [hstays.keysMayStillArrive]
    exact h.arrive
  · rw [hstays.keylogEntries]
    exact h.silent
  · intro direction
    rw [queued_eq_of_rewindPending hpending]
    exact h.queued direction

theorem Primed.ensure (h : conn.Primed mine log d done) (hapart : conn.Apart mine log) :
    conn.Base mine log (d.ensureSessionsPopulated crypto) ∧
      conn.Loaded (d.ensureSessionsPopulated crypto).keylogEntries ∧
      (d.ensureSessionsPopulated crypto).sessions.get? conn.clientRandom =
        some (conn.fresh (conn.observedIn d)) := by
  obtain ⟨hstays, -, -, -⟩ := @stays_ensureSessionsPopulated crypto d
  have hunprocessed := h.unprocessed
  have hnew : ¬ (d.keylogEntries = [] ∨ d.keylogEntries.length = d.keylogProcessedCount) := by
    rintro (hnil | hlength)
    · rw [hnil] at hunprocessed
      simp at hunprocessed
    · omega
  have hsessions : (d.ensureSessionsPopulated crypto).sessions.get? conn.clientRandom =
        some (conn.fresh (conn.observedIn d)) ∧
      conn.Others mine (d.ensureSessionsPopulated crypto).sessions.entries := by
    unfold ensureSessionsPopulated
    rw [if_neg hnew]
    obtain ⟨hget, hothers⟩ := @foldl_populate_loaded crypto conn d.keylogEntries mine log
      d.observedHandshakes d.sessions h.loaded hapart h.base.logged
      (clientRandoms d.keylogEntries) (.inl h.loaded.mem_clientRandoms) h.base.others
    rw [h.absent] at hget
    exact ⟨hget, hothers⟩
  refine ⟨h.base.ensure hsessions.2, ?_, hsessions.1⟩
  rw [hstays.keylogEntries]
  exact h.loaded

theorem Ready.ensure (h : conn.Ready mine log d done session) (hapart : conn.Apart mine log) :
    conn.Ready mine log (d.ensureSessionsPopulated crypto) done session := by
  obtain ⟨hstays, hpending, -, -⟩ := @stays_ensureSessionsPopulated crypto d
  have hsessions : (d.ensureSessionsPopulated crypto).sessions.get? conn.clientRandom =
        some session ∧
      conn.Others mine (d.ensureSessionsPopulated crypto).sessions.entries := by
    unfold ensureSessionsPopulated
    split_ifs
    · exact ⟨h.present, h.base.others⟩
    · obtain ⟨hget, hothers⟩ := @foldl_populate_loaded crypto conn d.keylogEntries mine log
        d.observedHandshakes d.sessions h.loaded hapart h.base.logged
        (clientRandoms d.keylogEntries) (.inl h.loaded.mem_clientRandoms) h.base.others
      rw [h.present] at hget
      exact ⟨hget, hothers⟩
  refine ⟨h.base.ensure hsessions.2, ?_, hsessions.1, ?_, ?_⟩
  · rw [hstays.keylogEntries]
    exact h.loaded
  · rw [observedIn_eq hstays]
    exact h.follows
  · intro direction item
    rw [queued_eq_of_rewindPending hpending]
    exact h.queued direction item

theorem Following.ensure (h : conn.Following mine log d done) (hapart : conn.Apart mine log) :
    ∃ session, conn.Ready mine log (d.ensureSessionsPopulated crypto) done session := by
  obtain ⟨hstays, hpending, -, -⟩ := @stays_ensureSessionsPopulated crypto d
  rcases h with ⟨session, h⟩ | ⟨h, hdone⟩
  · exact ⟨session, h.ensure hapart⟩
  · obtain ⟨hbase, hloaded, hpresent⟩ := h.ensure hapart
    have hnil : done = fun _ => [] := funext hdone
    refine ⟨_, hbase, hloaded, hpresent, ?_, ?_⟩
    · rw [observedIn_eq hstays, hnil]
      exact conn.follows_fresh _
    · intro direction item
      rw [queued_eq_of_rewindPending hpending, h.queued]
      exact id

/-! ## Records -/

/-- A record on a decryptor: past all sessions, and held when nothing was handed on. -/
structure Offered (crypto : CryptoBackend) (d d' : TlsDecryptor) (item : PendingRecord)
    (content : Option Bytes) : Prop where
  walk : Walk crypto item.record item.src.1 item.dst.1 d.sessions.entries d'.sessions.entries content
  stays : Stays d d'
  processed : d'.keylogProcessedCount = d.keylogProcessedCount
  sublist : ∀ sockets, (d'.queued sockets).Sublist
    (d.queued sockets ++ if sockets = (item.src, item.dst) then [item] else [])
  le : d.rewindEvicted ≤ d'.rewindEvicted
  opened : content ≠ none → ∀ sockets, d'.queued sockets = d.queued sockets
  same : content = none → d.keysMayStillArrive = true → d'.rewindEvicted = d.rewindEvicted →
    ∀ sockets, d'.queued sockets =
      d.queued sockets ++ if sockets = (item.src, item.dst) then [item] else []

theorem offered_decryptInner (d : TlsDecryptor)
    (hdata : item.record.contentType = .applicationData) :
    Offered crypto (ensureSessionsPopulated crypto { d with appDataRecords := d.appDataRecords + 1 })
      (d.decryptInner crypto item.record item.src item.dst item.timestamp).1 item
      (d.decryptInner crypto item.record item.src item.dst item.timestamp).2 := by
  rw [decryptInner, if_neg (not_not.mpr hdata)]
  generalize ensureSessionsPopulated crypto { d with appDataRecords := d.appDataRecords + 1 } = d₁
  dsimp only
  have hwalk := @walk_trySessions crypto item.record item.src.1 item.dst.1 d₁.lockonWindow
    d₁.sessions.entries d₁.lockonBudget
  have hsessions : (d₁.offer crypto item.record item.src.1 item.dst.1).1.sessions.entries =
      (trySessions crypto item.record item.src.1 item.dst.1 d₁.lockonWindow d₁.sessions.entries
        d₁.lockonBudget).1 := rfl
  rw [← hsessions, ← offer_snd] at hwalk
  have hstays : Stays d₁ (d₁.offer crypto item.record item.src.1 item.dst.1).1 :=
    ⟨rfl, rfl, rfl, rfl, rfl, rfl, rfl⟩
  have hprocessed : (d₁.offer crypto item.record item.src.1 item.dst.1).1.keylogProcessedCount =
      d₁.keylogProcessedCount := rfl
  have hqueued : ∀ sockets, (d₁.offer crypto item.record item.src.1 item.dst.1).1.queued sockets =
      d₁.queued sockets := fun _ => rfl
  have hevicted : (d₁.offer crypto item.record item.src.1 item.dst.1).1.rewindEvicted =
      d₁.rewindEvicted := rfl
  generalize d₁.offer crypto item.record item.src.1 item.dst.1 = offered at *
  obtain ⟨d₂, content⟩ := offered
  dsimp only at hwalk hstays hprocessed hqueued hevicted
  cases content with
  | some plaintext =>
    dsimp only
    refine ⟨hwalk, hstays.trans ⟨rfl, rfl, rfl, rfl, rfl, rfl, rfl⟩, hprocessed, ?_, hevicted.ge,
      fun _ => hqueued, fun h => absurd h (Option.some_ne_none _)⟩
    intro sockets
    rw [← hqueued sockets]
    exact sublist_append_left _ _
  | none =>
    dsimp only
    have hholds := @holds_holdForRewind d₂ item.record item.src item.dst item.timestamp
    refine ⟨?_, hstays.trans hholds.stays, hholds.processed.trans hprocessed, ?_,
      hevicted.ge.trans hholds.le, fun h => absurd rfl h, ?_⟩
    · rw [hholds.sessions]
      exact hwalk
    · intro sockets
      rw [← hqueued sockets]
      exact hholds.sublist sockets
    · intro _ harrive hsame sockets
      rw [← hqueued sockets]
      exact hholds.same (hstays.keysMayStillArrive.trans harrive) (hsame.trans hevicted.symm) sockets

variable {content : Option Bytes}

theorem Base.offered (h : conn.Base mine log d) (hoffered : Offered crypto d d' item content)
    (hstranger : (∀ direction, (item.src, item.dst) ≠ conn.sockets direction) →
      Unopened crypto conn.schedule item.record) :
    conn.Base mine log d' where
  others := h.others.walk hoffered.walk
  processed := by
    rw [hoffered.processed, hoffered.stays.keylogEntries]
    exact h.processed
  logged := by
    rw [hoffered.stays.keylogEntries]
    exact h.logged
  generation := by
    rw [hoffered.stays.keylogGeneration, hoffered.stays.lastRewindGeneration]
    exact h.generation
  keyed := by
    intro sockets held hheld
    rcases mem_append.mp ((hoffered.sublist sockets).subset hheld) with hold | hnew
    · exact h.keyed sockets held hold
    · split_ifs at hnew with hsockets
      · rw [mem_singleton] at hnew
        rw [hnew, hsockets]
        exact ⟨rfl, hstranger⟩
      · exact absurd hnew not_mem_nil

theorem get?_none_iff {entries : IndexMap Bytes TlsSession} {key : Bytes} :
    entries.get? key = none ↔ ∀ e ∈ entries.entries, e.1 ≠ key := by
  rw [IndexMap.get?_eq_none_iff, IndexMap.keys, List.mem_map]
  constructor
  · exact fun h e he hkey => h ⟨e, he, hkey⟩
  · rintro h ⟨e, he, hkey⟩
    exact h e he hkey

theorem absent_of_walk {sessions sessions' : IndexMap Bytes TlsSession} {record : TlsRecord}
    {src dst : IpAddr} {key : Bytes}
    (hwalk : Walk crypto record src dst sessions.entries sessions'.entries content)
    (h : sessions.get? key = none) : sessions'.get? key = none := by
  rw [IndexMap.get?_eq_none_iff, IndexMap.keys] at h ⊢
  rw [hwalk.keys_eq]
  exact h

theorem Waiting.offered (h : conn.Waiting mine log d done)
    (hoffered : Offered crypto d d' item content) (hmine : mine item.record)
    (hitem : (item.src, item.dst) = conn.sockets direction)
    (hspared : d'.rewindEvicted = d.rewindEvicted) :
    content = none ∧ conn.Waiting mine log d' (extend done direction item) := by
  have hnone : content = none :=
    walk_absent h.base.others hmine (get?_none_iff.mp h.absent) hoffered.walk
  refine ⟨hnone, h.base.offered hoffered (fun hother => absurd hitem (hother direction)),
    hoffered.stays.keysMayStillArrive.trans h.arrive, ?_, absent_of_walk hoffered.walk h.absent, ?_⟩
  · rw [hoffered.stays.keylogEntries]
    exact h.silent
  · intro direction'
    rw [hoffered.same hnone h.arrive hspared, h.queued, hitem, extend]
    by_cases hdirection : direction' = direction
    · rw [hdirection, if_pos rfl, Function.update_self]
    · rw [if_neg (fun h => hdirection (sockets_inj h)), append_nil,
        Function.update_of_ne hdirection]

theorem Waiting.stranger (h : conn.Waiting mine log d done)
    (hoffered : Offered crypto d d' item content)
    (hother : ∀ direction, (item.src, item.dst) ≠ conn.sockets direction)
    (hunopened : Unopened crypto conn.schedule item.record)
    (hspared : d'.rewindEvicted = d.rewindEvicted) : conn.Waiting mine log d' done := by
  refine ⟨h.base.offered hoffered (fun _ => hunopened),
    hoffered.stays.keysMayStillArrive.trans h.arrive, ?_, absent_of_walk hoffered.walk h.absent, ?_⟩
  · rw [hoffered.stays.keylogEntries]
    exact h.silent
  · intro direction
    rw [← h.queued direction]
    by_cases hcontent : content = none
    · rw [hoffered.same hcontent h.arrive hspared, if_neg (fun heq => hother direction heq.symm),
        append_nil]
    · exact hoffered.opened hcontent _

theorem Ready.offered (h : conn.Ready mine log d done session) (horder : conn.InOrder all)
    (hdone : ∀ direction, done direction <+: all direction)
    (hnext : done direction ++ [item] <+: all direction) (hobserved : conn.observedIn d = true)
    (hmine : mine item.record) (hoffered : Offered crypto d d' item content) :
    content = ((conn.followed direction (done direction)).take crypto conn.suite item.record).2 ∧
      ∃ session', conn.Ready mine log d' (extend done direction item) session' := by
  have hitem : (item.src, item.dst) = conn.sockets direction :=
    (horder direction).2 item (hnext.subset (by simp))
  have hfollows := h.follows
  rw [hobserved] at hfollows
  obtain ⟨hcontent, session', hmem, hfollows'⟩ := hfollows.walk horder (hnext.subset (by simp))
    (hfollows.new horder hdone hnext) h.base.others hmine d.sessions.nodup
    (IndexMap.get?_eq_some_iff.mp h.present) hoffered.walk
  refine ⟨hcontent, session', h.base.offered hoffered (fun hother => absurd hitem (hother direction)),
    ?_, IndexMap.get?_eq_some_iff.mpr hmem, ?_, ?_⟩
  · rw [hoffered.stays.keylogEntries]
    exact h.loaded
  · rw [observedIn_eq hoffered.stays, hobserved]
    exact hfollows'
  · intro direction' held hheld
    rw [extend]
    by_cases hdirection : direction' = direction
    · rw [hdirection] at hheld ⊢
      rw [Function.update_self]
      rcases mem_append.mp ((hoffered.sublist _).subset hheld) with hold | hnew
      · exact mem_append_left _ (h.queued direction held hold)
      · rw [hitem, if_pos rfl] at hnew
        exact mem_append_right _ hnew
    · rw [Function.update_of_ne hdirection]
      rcases mem_append.mp ((hoffered.sublist _).subset hheld) with hold | hnew
      · exact h.queued direction' held hold
      · rw [hitem, if_neg (fun heq => hdirection (sockets_inj heq))] at hnew
        exact absurd hnew not_mem_nil

theorem Ready.stranger (h : conn.Ready mine log d done session) (horder : conn.InOrder all)
    (hdone : ∀ direction, done direction <+: all direction)
    (hother : ∀ direction, (item.src, item.dst) ≠ conn.sockets direction)
    (hunopened : Unopened crypto conn.schedule item.record)
    (hoffered : Offered crypto d d' item content) :
    ∃ session', conn.Ready mine log d' done session' := by
  obtain ⟨session', hmem, hfollows⟩ := walk_stranger h.follows horder hdone hunopened
    d.sessions.nodup (IndexMap.get?_eq_some_iff.mp h.present) hoffered.walk
  refine ⟨session', h.base.offered hoffered (fun _ => hunopened), ?_,
    IndexMap.get?_eq_some_iff.mpr hmem, ?_, ?_⟩
  · rw [hoffered.stays.keylogEntries]
    exact h.loaded
  · rw [observedIn_eq hoffered.stays]
    exact hfollows
  · intro direction held hheld
    rcases mem_append.mp ((hoffered.sublist _).subset hheld) with hold | hnew
    · exact h.queued direction held hold
    · rw [if_neg (fun heq => hother direction heq.symm)] at hnew
      exact absurd hnew not_mem_nil

end Connection

end Sipnab.Tls
