import Sipnab.Tls.Rewinding

/-!
# Runs of a decryptor

Handshakes, records and keys come in any order; after keys the held records are tried again, before
the next packet. What each event does to a connection that waits for its keys and to one that is
followed.
-/

namespace Sipnab.Tls

open TlsDecryptor List

/-- Entries from a key log that is watched, or from the capture itself. -/
def TlsDecryptor.loadKeys (d : TlsDecryptor) (watched : Bool) (entries : List KeyLogEntry) :
    TlsDecryptor :=
  if watched then d.pollKeylog entries else d.addKeylogEntries entries

inductive Event
  | handshake (record : TlsRecord) (src dst : SocketAddr)
  | record (item : PendingRecord)
  | keys (watched : Bool) (entries : List KeyLogEntry)
  | rewind
  | reorder (entries : List (Bytes × TlsSession))

section Running

variable (crypto : CryptoBackend)

def TlsDecryptor.apply (d : TlsDecryptor) : Event → TlsDecryptor × List RecoveredRecord
  | .handshake record src dst => (d.processRecord crypto record src dst, [])
  | .record item =>
    let (d, content) := d.decryptInner crypto item.record item.src item.dst item.timestamp
    (d, Follower.produced item content)
  | .keys watched entries => (d.loadKeys watched entries, [])
  | .rewind => d.rewindIfKeysChanged crypto
  | .reorder entries => (d.reorder entries, [])

def TlsDecryptor.run (d : TlsDecryptor) : List Event → TlsDecryptor × List RecoveredRecord
  | [] => (d, [])
  | event :: events =>
    let (d, outputs) := d.apply crypto event
    let (d, rest) := d.run events
    (d, outputs ++ rest)

variable {crypto} {d : TlsDecryptor}

theorem run_append (d : TlsDecryptor) (events later : List Event) :
    d.run crypto (events ++ later) =
      (((d.run crypto events).1.run crypto later).1,
        (d.run crypto events).2 ++ ((d.run crypto events).1.run crypto later).2) := by
  induction events generalizing d with
  | nil => rfl
  | cons event events ih =>
    rw [cons_append, TlsDecryptor.run, TlsDecryptor.run]
    dsimp only
    rw [ih, append_assoc]

theorem run_concat (d : TlsDecryptor) (events : List Event) (event : Event) :
    d.run crypto (events ++ [event]) =
      (((d.run crypto events).1.apply crypto event).1,
        (d.run crypto events).2 ++ ((d.run crypto events).1.apply crypto event).2) := by
  rw [run_append]
  simp [TlsDecryptor.run]

end Running

/-! ## Keys and other orders -/

variable {crypto : CryptoBackend} {d d' : TlsDecryptor} {watched : Bool}
  {entries : List KeyLogEntry}

/-- Keys are put behind the key log; of the sessions at most those of TLS 1.2 go. -/
structure LoadsKeys (d d' : TlsDecryptor) (entries : List KeyLogEntry) : Prop where
  keylogEntries : d'.keylogEntries = d.keylogEntries ++ entries
  processed : d'.keylogProcessedCount = d.keylogProcessedCount
  le : d.keylogGeneration ≤ d'.keylogGeneration
  lt : entries ≠ [] → d.keylogGeneration < d'.keylogGeneration
  lastRewindGeneration : d'.lastRewindGeneration = d.lastRewindGeneration
  agree : Agree d d'
  rewindPending : d'.rewindPending = d.rewindPending
  rewindEvicted : d'.rewindEvicted = d.rewindEvicted
  keysMayStillArrive : d'.keysMayStillArrive = d.keysMayStillArrive
  sublist : d'.sessions.entries.Sublist d.sessions.entries
  tls13 : ∀ e ∈ d.sessions.entries, e.2.version = .tls13 → e ∈ d'.sessions.entries

theorem loadsKeys_addKeylogEntries (d : TlsDecryptor) (entries : List KeyLogEntry) :
    LoadsKeys d (d.addKeylogEntries entries) entries := by
  refine ⟨rfl, rfl, ?_, ?_, rfl, ⟨rfl, rfl, rfl⟩, rfl, rfl, rfl, .refl _, fun e he _ => he⟩
  · rw [addKeylogEntries]
    split_ifs
    · exact le_rfl
    · exact Nat.le_succ _
  · intro hne
    rw [addKeylogEntries]
    rw [if_neg hne]
    exact Nat.lt_succ_self _

theorem loadsKeys_loadKeys (d : TlsDecryptor) (watched : Bool) (entries : List KeyLogEntry) :
    LoadsKeys d (d.loadKeys watched entries) entries := by
  have hadd := loadsKeys_addKeylogEntries d entries
  cases watched with
  | false => exact hadd
  | true =>
    change LoadsKeys d (d.pollKeylog entries) entries
    rw [pollKeylog]
    split_ifs with hnil
    · rw [hnil]
      exact ⟨(append_nil _).symm, rfl, le_rfl, fun h => absurd rfl h, rfl, ⟨rfl, rfl, rfl⟩, rfl,
        rfl, rfl, .refl _, fun e he _ => he⟩
    · refine ⟨rfl, rfl, hadd.le, hadd.lt, rfl, ⟨rfl, rfl, rfl⟩, rfl, rfl, rfl, filter_sublist, ?_⟩
      intro e he hversion
      refine mem_filter.mpr ⟨he, ?_⟩
      rw [decide_eq_true_eq, hversion]
      decide

namespace Connection

variable {conn : Connection crypto} {mine : TlsRecord → Prop} {log : List KeyLogEntry}
  {done all : Bool → List PendingRecord} {session : TlsSession}

theorem Base.loads (h : conn.Base mine log d) (hloads : LoadsKeys d d' entries)
    (hlog : ∀ e ∈ entries, e ∈ log) : conn.Base mine log d' where
  others e he := h.others e (hloads.sublist.subset he)
  processed := by
    rw [hloads.processed, hloads.keylogEntries, length_append]
    exact h.processed.trans (Nat.le_add_right _ _)
  logged := by
    rw [hloads.keylogEntries, forall_mem_append]
    exact ⟨h.logged, hlog⟩
  generation := by
    rw [hloads.lastRewindGeneration]
    exact h.generation.trans hloads.le
  keyed := by
    intro sockets item
    rw [queued_eq_of_rewindPending hloads.rewindPending]
    exact h.keyed sockets item

theorem absent_of_loads (h : d.sessions.get? conn.clientRandom = none)
    (hloads : LoadsKeys d d' entries) : d'.sessions.get? conn.clientRandom = none := by
  rw [get?_none_iff] at h ⊢
  exact fun e he => h e (hloads.sublist.subset he)

theorem Waiting.loads (h : conn.Waiting mine log d done) (hloads : LoadsKeys d d' entries)
    (hlog : ∀ e ∈ entries, e ∈ log) (hsilent : conn.Silent entries) :
    conn.Waiting mine log d' done := by
  refine ⟨h.base.loads hloads hlog, hloads.keysMayStillArrive.trans h.arrive, ?_,
    absent_of_loads h.absent hloads, ?_⟩
  · rw [hloads.keylogEntries]
    exact h.silent.append hsilent
  · intro direction
    rw [queued_eq_of_rewindPending hloads.rewindPending]
    exact h.queued direction

theorem Waiting.arrives (h : conn.Waiting mine log d done) (hloads : LoadsKeys d d' entries)
    (hlog : ∀ e ∈ entries, e ∈ log) (hloaded : conn.Loaded entries) :
    conn.Primed mine log d' done ∧ d'.lastRewindGeneration < d'.keylogGeneration := by
  have hne : entries ≠ [] := by
    obtain ⟨e, he, -⟩ := hloaded.client
    exact ne_nil_of_mem he
  refine ⟨⟨h.base.loads hloads hlog, ?_, absent_of_loads h.absent hloads, ?_, ?_⟩, ?_⟩
  · rw [hloads.keylogEntries]
    exact h.silent.append_loaded hloaded
  · rw [hloads.processed, hloads.keylogEntries, length_append]
    have hlength := length_pos_of_ne_nil hne
    have hprocessed := h.base.processed
    omega
  · intro direction
    rw [queued_eq_of_rewindPending hloads.rewindPending]
    exact h.queued direction
  · rw [hloads.lastRewindGeneration]
    exact h.base.generation.trans_lt (hloads.lt hne)

theorem Following.loads (h : conn.Following mine log d done) (hloads : LoadsKeys d d' entries)
    (hlog : ∀ e ∈ entries, e ∈ log) (hsilent : conn.Silent entries) :
    conn.Following mine log d' done := by
  rcases h with ⟨session, h⟩ | ⟨h, hdone⟩
  · refine .inl ⟨session, h.base.loads hloads hlog, ?_, ?_, ?_, ?_⟩
    · rw [hloads.keylogEntries]
      exact h.loaded.append hsilent
    · rw [IndexMap.get?_eq_some_iff]
      exact hloads.tls13 _ (IndexMap.get?_eq_some_iff.mp h.present) h.follows.runs.version
    · rw [observedIn, hloads.agree.observedHandshakes]
      exact h.follows
    · intro direction item
      rw [queued_eq_of_rewindPending hloads.rewindPending]
      exact h.queued direction item
  · refine .inr ⟨⟨h.base.loads hloads hlog, ?_, absent_of_loads h.absent hloads, ?_, ?_⟩, hdone⟩
    · rw [hloads.keylogEntries]
      exact h.loaded.append hsilent
    · have hunprocessed := h.unprocessed
      rw [hloads.processed, hloads.keylogEntries, length_append]
      omega
    · intro direction
      rw [queued_eq_of_rewindPending hloads.rewindPending]
      exact h.queued direction

structure Unmoved (d d' : TlsDecryptor) : Prop where
  keylogEntries : d'.keylogEntries = d.keylogEntries
  processed : d'.keylogProcessedCount = d.keylogProcessedCount
  agree : Agree d d'
  rewindPending : d'.rewindPending = d.rewindPending
  rewindEvicted : d'.rewindEvicted = d.rewindEvicted
  keysMayStillArrive : d'.keysMayStillArrive = d.keysMayStillArrive
  generation : d.lastRewindGeneration ≤ d.keylogGeneration →
    d'.lastRewindGeneration ≤ d'.keylogGeneration
  sessions : ∀ e, e ∈ d'.sessions.entries ↔ e ∈ d.sessions.entries

theorem unmoved_reorder (d : TlsDecryptor) (entries : List (Bytes × TlsSession)) :
    Unmoved d (d.reorder entries) := by
  unfold reorder
  split_ifs with hperm
  · exact ⟨rfl, rfl, ⟨rfl, rfl, rfl⟩, rfl, rfl, rfl, id, fun e => hperm.mem_iff⟩
  · exact ⟨rfl, rfl, ⟨rfl, rfl, rfl⟩, rfl, rfl, rfl, id, fun e => Iff.rfl⟩

theorem unmoved_lastRewindGeneration (d : TlsDecryptor) :
    Unmoved d { d with lastRewindGeneration := d.keylogGeneration } :=
  ⟨rfl, rfl, ⟨rfl, rfl, rfl⟩, rfl, rfl, rfl, fun _ => le_rfl, fun _ => Iff.rfl⟩

theorem Base.unmoved (h : conn.Base mine log d) (hunmoved : Unmoved d d') :
    conn.Base mine log d' where
  others e he := h.others e ((hunmoved.sessions e).mp he)
  processed := by
    rw [hunmoved.processed, hunmoved.keylogEntries]
    exact h.processed
  logged := by
    rw [hunmoved.keylogEntries]
    exact h.logged
  generation := hunmoved.generation h.generation
  keyed := by
    intro sockets item
    rw [queued_eq_of_rewindPending hunmoved.rewindPending]
    exact h.keyed sockets item

theorem absent_of_unmoved (h : d.sessions.get? conn.clientRandom = none)
    (hunmoved : Unmoved d d') : d'.sessions.get? conn.clientRandom = none := by
  rw [get?_none_iff] at h ⊢
  exact fun e he => h e ((hunmoved.sessions e).mp he)

theorem Waiting.unmoved (h : conn.Waiting mine log d done) (hunmoved : Unmoved d d') :
    conn.Waiting mine log d' done := by
  refine ⟨h.base.unmoved hunmoved, hunmoved.keysMayStillArrive.trans h.arrive, ?_,
    absent_of_unmoved h.absent hunmoved, ?_⟩
  · rw [hunmoved.keylogEntries]
    exact h.silent
  · intro direction
    rw [queued_eq_of_rewindPending hunmoved.rewindPending]
    exact h.queued direction

theorem Primed.unmoved (h : conn.Primed mine log d done) (hunmoved : Unmoved d d') :
    conn.Primed mine log d' done := by
  refine ⟨h.base.unmoved hunmoved, ?_, absent_of_unmoved h.absent hunmoved, ?_, ?_⟩
  · rw [hunmoved.keylogEntries]
    exact h.loaded
  · rw [hunmoved.processed, hunmoved.keylogEntries]
    exact h.unprocessed
  · intro direction
    rw [queued_eq_of_rewindPending hunmoved.rewindPending]
    exact h.queued direction

theorem Following.unmoved (h : conn.Following mine log d done) (hunmoved : Unmoved d d') :
    conn.Following mine log d' done := by
  rcases h with ⟨session, h⟩ | ⟨h, hdone⟩
  · refine .inl ⟨session, h.base.unmoved hunmoved, ?_, ?_, ?_, ?_⟩
    · rw [hunmoved.keylogEntries]
      exact h.loaded
    · rw [IndexMap.get?_eq_some_iff, hunmoved.sessions]
      exact IndexMap.get?_eq_some_iff.mp h.present
    · rw [observedIn, hunmoved.agree.observedHandshakes]
      exact h.follows
    · intro direction item
      rw [queued_eq_of_rewindPending hunmoved.rewindPending]
      exact h.queued direction item
  · exact .inr ⟨h.unmoved hunmoved, hdone⟩

/-! ## Each event -/

def ownRecords (conn : Connection crypto) (direction : Bool) (events : List Event) :
    List PendingRecord :=
  events.filterMap (fun event =>
    match event with
    | .record item =>
      if item.record.contentType = .applicationData ∧ (item.src, item.dst) = conn.sockets direction
      then some item else none
    | _ => none)

/-- What is expected of an event that does not bring the connection's keys. -/
def Fair (conn : Connection crypto) (mine : TlsRecord → Prop) (log : List KeyLogEntry)
    (d : TlsDecryptor) : Event → Prop
  | .handshake record _ _ => conn.Harmless mine d record
  | .record item => item.record.contentType = .applicationData →
    (∀ direction, (item.src, item.dst) = conn.sockets direction → mine item.record) ∧
      ((∀ direction, (item.src, item.dst) ≠ conn.sockets direction) →
        Unopened crypto conn.schedule item.record)
  | .keys _ entries => conn.Silent entries ∧ ∀ e ∈ entries, e ∈ log
  | .rewind => True
  | .reorder _ => True

def behind (conn : Connection crypto) (done : Bool → List PendingRecord) (event : Event) :
    Bool → List PendingRecord :=
  fun direction => done direction ++ conn.ownRecords direction [event]

theorem ownRecords_append (conn : Connection crypto) (direction : Bool) (events later : List Event) :
    conn.ownRecords direction (events ++ later) =
      conn.ownRecords direction events ++ conn.ownRecords direction later :=
  filterMap_append

theorem ownRecords_record (conn : Connection crypto) (direction : Bool) (item : PendingRecord) :
    conn.ownRecords direction [.record item] =
      if item.record.contentType = .applicationData ∧ (item.src, item.dst) = conn.sockets direction
      then [item] else [] := by
  rw [ownRecords, filterMap_cons]
  dsimp only
  split_ifs <;> rfl

variable {item : PendingRecord} {event : Event}

theorem behind_of_nil (h : ∀ direction, conn.ownRecords direction [event] = []) :
    conn.behind done event = done := by
  funext direction
  rw [behind, h, append_nil]

theorem behind_own {direction : Bool} (hdata : item.record.contentType = .applicationData)
    (hitem : (item.src, item.dst) = conn.sockets direction) :
    conn.behind done (.record item) = extend done direction item := by
  funext direction'
  rw [behind, ownRecords_record, extend]
  by_cases hsame : direction' = direction
  · rw [hsame, if_pos ⟨hdata, hitem⟩, Function.update_self]
  · rw [if_neg (fun h => hsame (sockets_inj (h.2.symm.trans hitem))), append_nil,
      Function.update_of_ne hsame]

theorem ownRecords_stranger (hother : ∀ direction, (item.src, item.dst) ≠ conn.sockets direction)
    (direction : Bool) : conn.ownRecords direction [.record item] = [] := by
  rw [ownRecords_record, if_neg (fun h => hother direction h.2)]

theorem ownRecords_other (hdata : item.record.contentType ≠ .applicationData) (direction : Bool) :
    conn.ownRecords direction [.record item] = [] := by
  rw [ownRecords_record, if_neg (fun h => hdata h.1)]

theorem decryptInner_other (hdata : item.record.contentType ≠ .applicationData) :
    d.decryptInner crypto item.record item.src item.dst item.timestamp = (d, none) := by
  rw [decryptInner, if_pos hdata]

theorem unmoved_appDataRecords (d : TlsDecryptor) :
    Unmoved d { d with appDataRecords := d.appDataRecords + 1 } :=
  ⟨rfl, rfl, ⟨rfl, rfl, rfl⟩, rfl, rfl, rfl, id, fun _ => Iff.rfl⟩

theorem Waiting.apply (h : conn.Waiting mine log d done) (hapart : conn.Apart mine log)
    (hmine : ∀ direction, ∀ item ∈ done direction, mine item.record)
    (hfair : conn.Fair mine log d event)
    (hspared : (d.apply crypto event).1.rewindEvicted = d.rewindEvicted) :
    conn.Waiting mine log (d.apply crypto event).1 (conn.behind done event) ∧
      ∀ direction, ofSockets (conn.sockets direction) (d.apply crypto event).2 = [] := by
  cases event with
  | handshake record src dst =>
    rw [behind_of_nil (fun _ => rfl)]
    exact ⟨h.processRecord hfair, fun _ => rfl⟩
  | keys watched entries =>
    rw [behind_of_nil (fun _ => rfl)]
    exact ⟨h.loads (loadsKeys_loadKeys d watched entries) hfair.2 hfair.1, fun _ => rfl⟩
  | reorder entries =>
    rw [behind_of_nil (fun _ => rfl)]
    exact ⟨h.unmoved (unmoved_reorder d entries), fun _ => rfl⟩
  | rewind =>
    rw [behind_of_nil (fun _ => rfl)]
    rw [TlsDecryptor.apply, rewindIfKeysChanged] at hspared ⊢
    split_ifs at hspared ⊢
    · exact ⟨h, fun _ => rfl⟩
    · exact (h.unmoved (unmoved_lastRewindGeneration d)).rewind hapart hmine hspared
  | record item =>
    rw [TlsDecryptor.apply] at hspared ⊢
    dsimp only at hspared ⊢
    by_cases hdata : item.record.contentType = .applicationData
    · obtain ⟨-, -, hevicted, -⟩ := @stays_ensureSessionsPopulated crypto
        { d with appDataRecords := d.appDataRecords + 1 }
      have hwaiting := (h.unmoved (unmoved_appDataRecords d)).ensure hapart
      have hoffered := @offered_decryptInner crypto item d hdata
      have hspared' := hspared.trans hevicted.symm
      by_cases hours : ∃ direction, (item.src, item.dst) = conn.sockets direction
      · obtain ⟨direction, hitem⟩ := hours
        obtain ⟨hnone, hafter⟩ := hwaiting.offered hoffered ((hfair hdata).1 direction hitem) hitem
          hspared'
        rw [behind_own hdata hitem, hnone]
        exact ⟨hafter, fun _ => rfl⟩
      · rw [not_exists] at hours
        rw [behind_of_nil (ownRecords_stranger hours)]
        refine ⟨hwaiting.stranger hoffered hours ((hfair hdata).2 hours) hspared', ?_⟩
        intro direction
        rw [ofSockets_produced, if_neg (hours direction)]
    · rw [decryptInner_other hdata, behind_of_nil (ownRecords_other hdata)]
      exact ⟨h, fun _ => rfl⟩

theorem Following.apply (h : conn.Following mine log d done) (hapart : conn.Apart mine log)
    (horder : conn.InOrder all) (hmine : ∀ direction, ∀ item ∈ all direction, mine item.record)
    (hfair : conn.Fair mine log d event)
    (hnext : ∀ direction, conn.behind done event direction <+: all direction)
    (hobserved : (∃ direction, conn.behind done event direction ≠ []) → conn.observedIn d = true) :
    conn.Following mine log (d.apply crypto event).1 (conn.behind done event) ∧
      ∀ direction, ofSockets (conn.sockets direction) (d.apply crypto event).2 =
        ((conn.followed direction (done direction)).takeAll crypto conn.suite
          (conn.ownRecords direction [event])).2 := by
  have hdone : ∀ direction, done direction <+: all direction :=
    fun direction => (prefix_append _ _).trans (hnext direction)
  cases event with
  | handshake record src dst =>
    rw [behind_of_nil (fun _ => rfl)]
    exact ⟨h.processRecord hfair, fun _ => rfl⟩
  | keys watched entries =>
    rw [behind_of_nil (fun _ => rfl)]
    exact ⟨h.loads (loadsKeys_loadKeys d watched entries) hfair.2 hfair.1, fun _ => rfl⟩
  | reorder entries =>
    rw [behind_of_nil (fun _ => rfl)]
    exact ⟨h.unmoved (unmoved_reorder d entries), fun _ => rfl⟩
  | rewind =>
    rw [behind_of_nil (fun _ => rfl)] at hobserved ⊢
    rw [TlsDecryptor.apply, rewindIfKeysChanged]
    split_ifs
    · exact ⟨h, fun _ => rfl⟩
    · exact (h.unmoved (unmoved_lastRewindGeneration d)).rewind hapart horder hdone
        (fun direction item hitem => hmine direction item ((hdone direction).subset hitem)) hobserved
  | record item =>
    rw [TlsDecryptor.apply]
    by_cases hdata : item.record.contentType = .applicationData
    · obtain ⟨hstays, -, -, -⟩ := @stays_ensureSessionsPopulated crypto
        { d with appDataRecords := d.appDataRecords + 1 }
      obtain ⟨session, hready⟩ := (h.unmoved (unmoved_appDataRecords d)).ensure hapart
      have hoffered := @offered_decryptInner crypto item d hdata
      by_cases hours : ∃ direction, (item.src, item.dst) = conn.sockets direction
      · obtain ⟨direction, hitem⟩ := hours
        rw [behind_own hdata hitem] at hobserved hnext ⊢
        have hitems : extend done direction item direction = done direction ++ [item] :=
          Function.update_self ..
        have hseen : conn.observedIn d = true := by
          refine hobserved ⟨direction, ?_⟩
          rw [hitems]
          exact append_ne_nil_of_right_ne_nil _ (cons_ne_nil _ _)
        have hlast := hnext direction
        rw [hitems] at hlast
        obtain ⟨hcontent, session', hafter⟩ := hready.offered horder hdone hlast
          ((observedIn_eq hstays).trans hseen) ((hfair hdata).1 direction hitem) hoffered
        refine ⟨.inl ⟨session', hafter⟩, ?_⟩
        intro direction'
        rw [ofSockets_produced, ownRecords_record]
        by_cases hsame : (item.src, item.dst) = conn.sockets direction'
        · obtain rfl : direction = direction' := sockets_inj (hitem.symm.trans hsame)
          rw [if_pos hsame, if_pos ⟨hdata, hsame⟩, hcontent]
          simp [Follower.takeAll]
        · rw [if_neg hsame, if_neg (fun h => hsame h.2)]
          rfl
      · rw [not_exists] at hours
        rw [behind_of_nil (ownRecords_stranger hours)]
        refine ⟨.inl (hready.stranger horder hdone hours ((hfair hdata).2 hours) hoffered), ?_⟩
        intro direction
        rw [ofSockets_produced, if_neg (hours direction), ownRecords_stranger hours]
        rfl
    · rw [decryptInner_other hdata, behind_of_nil (ownRecords_other hdata)]
      refine ⟨h, ?_⟩
      intro direction
      rw [ownRecords_other hdata]
      rfl

/-! ## Handshakes and evictions in a run -/

theorem stays_rewind (d : TlsDecryptor) :
    Stays d (d.rewind crypto).1 ∧ d.rewindEvicted ≤ (d.rewind crypto).1.rewindEvicted := by
  by_cases hpending : d.rewindPending.entries = []
  · rw [TlsDecryptor.rewind, if_pos hpending]
    exact ⟨.refl d, le_rfl⟩
  · obtain ⟨hstays, -, hevicted, -⟩ := @stays_ensureSessionsPopulated crypto d
    rw [rewind_of_pending hpending]
    generalize d.ensureSessionsPopulated crypto = d₁ at hstays hevicted ⊢
    have hsweep := @Sweep.foldl_step_induction crypto d₁.cutoff d₁.sweepStart d₁.heldRecords
      (fun _ sweep => Stays d₁ sweep.decryptor ∧ d₁.rewindEvicted ≤ sweep.decryptor.rewindEvicted)
      ⟨⟨rfl, rfl, rfl, rfl, rfl, rfl, rfl⟩, le_rfl⟩
      (fun _ _ _ _ _ _ hsweep hsteps _ =>
        ⟨hsweep.1.trans hsteps.stays, hsweep.2.trans hsteps.le⟩)
    obtain ⟨hswept, hle⟩ := hsweep
    exact ⟨(hstays.trans hswept).trans ⟨rfl, rfl, rfl, rfl, rfl, rfl, rfl⟩, hevicted.ge.trans hle⟩

/-- Only a handshake changes what handshakes are read into, and no event takes an eviction back. -/
theorem apply_spec (d : TlsDecryptor) (event : Event) :
    ((∀ record src dst, event ≠ .handshake record src dst) → Agree d (d.apply crypto event).1) ∧
      d.rewindEvicted ≤ (d.apply crypto event).1.rewindEvicted := by
  cases event with
  | handshake record src dst =>
    obtain ⟨hobserves, -⟩ := @processRecord_cases crypto d record src dst
    exact ⟨fun h => absurd rfl (h record src dst), hobserves.rewindEvicted.ge⟩
  | keys watched entries =>
    have hloads := loadsKeys_loadKeys d watched entries
    exact ⟨fun _ => hloads.agree, hloads.rewindEvicted.ge⟩
  | reorder entries =>
    have hunmoved := unmoved_reorder d entries
    exact ⟨fun _ => hunmoved.agree, hunmoved.rewindEvicted.ge⟩
  | rewind =>
    rw [TlsDecryptor.apply, rewindIfKeysChanged]
    split_ifs
    · exact ⟨fun _ => (Stays.refl d).agree, le_rfl⟩
    · obtain ⟨hstays, hle⟩ := @stays_rewind crypto
        { d with lastRewindGeneration := d.keylogGeneration }
      exact ⟨fun _ => (unmoved_lastRewindGeneration d).agree.trans hstays.agree, hle⟩
  | record item =>
    rw [TlsDecryptor.apply]
    by_cases hdata : item.record.contentType = .applicationData
    · obtain ⟨hstays, -, hevicted, -⟩ := @stays_ensureSessionsPopulated crypto
        { d with appDataRecords := d.appDataRecords + 1 }
      have hoffered := @offered_decryptInner crypto item d hdata
      exact ⟨fun _ => (unmoved_appDataRecords d).agree.trans (hstays.trans hoffered.stays).agree,
        hevicted.ge.trans hoffered.le⟩
    · rw [decryptInner_other hdata]
      exact ⟨fun _ => (Stays.refl d).agree, le_rfl⟩

theorem agree_apply (h : Agree d d') (event : Event) :
    Agree (d.apply crypto event).1 (d'.apply crypto event).1 := by
  by_cases hhandshake : ∃ record src dst, event = .handshake record src dst
  · obtain ⟨record, src, dst, rfl⟩ := hhandshake
    exact h.processRecord
  · simp only [not_exists] at hhandshake
    exact ((apply_spec d event).1 hhandshake).symm.trans
      (h.trans ((apply_spec d' event).1 hhandshake))

theorem rewindEvicted_le_run (d : TlsDecryptor) (events : List Event) :
    d.rewindEvicted ≤ (d.run crypto events).1.rewindEvicted := by
  induction events generalizing d with
  | nil => exact le_rfl
  | cons event events ih =>
    rw [TlsDecryptor.run]
    exact (apply_spec d event).2.trans (ih _)

theorem Fair.agree (h : conn.Fair mine log d event) (hagree : Agree d d') :
    conn.Fair mine log d' event := by
  cases event with
  | handshake record src dst =>
    intro clientRandom session hderived
    rw [hagree.deriveRsaSession] at hderived
    exact h clientRandom session hderived
  | _ => exact h

theorem observedIn_of_agree (h : Agree d d') : conn.observedIn d' = conn.observedIn d := by
  rw [observedIn, observedIn, h.observedHandshakes]

end Connection

end Sipnab.Tls
