import Sipnab.Tls.Observing

/-!
# Held records again

A sweep goes through all records held. What it does to a connection without a session, to one whose
session was built for the sweep, and to one that has followed those records already.
-/

namespace Sipnab.Tls

open TlsDecryptor List

variable {crypto : CryptoBackend}

def ofSockets (sockets : SocketAddr × SocketAddr) (outputs : List RecoveredRecord) :
    List RecoveredRecord :=
  outputs.filter (fun r => (r.src, r.dst) = sockets)

variable (sockets : SocketAddr × SocketAddr)

theorem ofSockets_append (outputs more : List RecoveredRecord) :
    ofSockets sockets (outputs ++ more) = ofSockets sockets outputs ++ ofSockets sockets more :=
  filter_append _ _

theorem ofSockets_produced (item : PendingRecord) (content : Option Bytes) :
    ofSockets sockets (Follower.produced item content) =
      if (item.src, item.dst) = sockets then Follower.produced item content else [] := by
  cases content with
  | none =>
    split_ifs <;> rfl
  | some plaintext =>
    rw [ofSockets, Follower.produced, Option.map_some, Option.toList_some]
    split_ifs with hsockets
    · exact filter_eq_self.mpr (by simpa using hsockets)
    · exact filter_eq_nil_iff.mpr (by simpa using hsockets)

def heldOf (sockets : SocketAddr × SocketAddr)
    (held : List ((SocketAddr × SocketAddr) × PendingRecord)) : List PendingRecord :=
  (held.filter (fun h => h.1 = sockets)).map Prod.snd

theorem heldOf_append (held more : List ((SocketAddr × SocketAddr) × PendingRecord)) :
    heldOf sockets (held ++ more) = heldOf sockets held ++ heldOf sockets more := by
  rw [heldOf, filter_append, map_append]
  rfl

theorem heldOf_singleton (held : (SocketAddr × SocketAddr) × PendingRecord) :
    heldOf sockets [held] = if sockets = held.1 then [held.2] else [] := by
  rw [heldOf, filter_singleton]
  by_cases hsockets : held.1 = sockets
  · rw [if_pos hsockets.symm, decide_eq_true hsockets]
    rfl
  · rw [if_neg (fun h => hsockets h.symm), decide_eq_false hsockets]
    rfl

theorem heldOf_heldRecords (d : TlsDecryptor) (sockets : SocketAddr × SocketAddr) :
    heldOf sockets d.heldRecords = d.queued sockets := by
  have hqueue : ∀ entries : List ((SocketAddr × SocketAddr) × List PendingRecord),
      heldOf sockets (entries.flatMap (fun e => e.2.map (fun item => (e.1, item)))) =
        (entries.filter (fun e => e.1 = sockets)).flatMap Prod.snd := by
    intro entries
    induction entries with
    | nil => rfl
    | cons e entries ih =>
      rw [flatMap_cons, heldOf_append, ih, heldOf, List.filter_map]
      by_cases hsockets : e.1 = sockets
      · simp [hsockets, Function.comp_def]
      · simp [hsockets, Function.comp_def]
  rw [heldRecords, hqueue, IndexMap.entries_filter_key, TlsDecryptor.queued]
  cases d.rewindPending.get? sockets with
  | none => rfl
  | some queue => simp

theorem mem_heldRecords {d : TlsDecryptor} {held : (SocketAddr × SocketAddr) × PendingRecord}
    (h : held ∈ d.heldRecords) : held.2 ∈ d.queued held.1 := by
  rw [← heldOf_heldRecords, heldOf]
  exact List.mem_map.mpr ⟨held, mem_filter.mpr ⟨h, decide_eq_true rfl⟩, rfl⟩

/-! ## One held record -/

namespace TlsDecryptor.Sweep

def kept (sweep : Sweep) (sockets : SocketAddr × SocketAddr) : List PendingRecord :=
  (sweep.still.get? sockets).getD []

theorem kept_keep (sweep : Sweep) (direction sockets : SocketAddr × SocketAddr)
    (item : PendingRecord) :
    (sweep.keep direction item).kept sockets =
      sweep.kept sockets ++ if sockets = direction then [item] else [] := by
  rw [kept, kept, keep, IndexMap.get?_alter]
  split_ifs with hsockets
  · rw [hsockets]
    rfl
  · rw [append_nil]

/-- A held record on a sweep. It goes past all sessions, unless it is too old or the sweep has tried
enough; what is not recovered is held again, or lost and counted. -/
structure Steps (crypto : CryptoBackend) (sweep sweep' : Sweep)
    (held : (SocketAddr × SocketAddr) × PendingRecord) (content : Option Bytes) : Prop where
  stays : Stays sweep.decryptor sweep'.decryptor
  processed : sweep'.decryptor.keylogProcessedCount = sweep.decryptor.keylogProcessedCount
  recovered : sweep'.recovered = sweep.recovered ++ Follower.produced held.2 content
  sublist : ∀ sockets, (sweep'.kept sockets).Sublist
    (sweep.kept sockets ++ if sockets = held.1 then [held.2] else [])
  le : sweep.decryptor.rewindEvicted ≤ sweep'.decryptor.rewindEvicted
  opened : content ≠ none → ∀ sockets, sweep'.kept sockets = sweep.kept sockets
  same : content = none → sweep'.decryptor.rewindEvicted = sweep.decryptor.rewindEvicted →
    ∀ sockets, sweep'.kept sockets =
      sweep.kept sockets ++ if sockets = held.1 then [held.2] else []
  walk : Walk crypto held.2.record held.2.src.1 held.2.dst.1 sweep.decryptor.sessions.entries
      sweep'.decryptor.sessions.entries content ∨
    (content = none ∧ sweep'.decryptor.sessions = sweep.decryptor.sessions ∧
      (rewindTrialsPerSweep ≤ sweep.trials ∨
        sweep.decryptor.rewindEvicted < sweep'.decryptor.rewindEvicted))

theorem steps_step (cutoff : Option DateTime) (sweep : Sweep)
    (held : (SocketAddr × SocketAddr) × PendingRecord) :
    ∃ content, Steps crypto sweep (step crypto cutoff sweep held) held content := by
  unfold step
  dsimp only
  split_ifs with hold htried
  · refine ⟨none, ⟨rfl, rfl, rfl, rfl, rfl, rfl, rfl⟩, rfl, ?_, ?_, Nat.le_succ _,
      fun h => absurd rfl h, ?_, .inr ⟨rfl, rfl, .inr (Nat.lt_succ_self _)⟩⟩
    · simp [Follower.produced]
    · intro sockets
      exact sublist_append_left _ _
    · exact fun _ hsame => absurd hsame (Nat.succ_ne_self _)
  · refine ⟨none, .refl _, rfl, ?_, ?_, le_rfl, fun h => absurd rfl h, ?_,
      .inr ⟨rfl, rfl, .inl htried⟩⟩
    · simp [Follower.produced, keep]
    · intro sockets
      rw [kept_keep]
    · exact fun _ _ sockets => kept_keep _ _ _ _
  · have hwalk := @walk_replaySessions crypto held.2.record held.2.src.1 held.2.dst.1
      sweep.decryptor.lockonWindow sweep.decryptor.sessions.entries sweep.decryptor.lockonBudget
    have hoffered : Stays sweep.decryptor
        (sweep.decryptor.offerAgain crypto held.2.record held.2.src.1 held.2.dst.1).1 :=
      ⟨rfl, rfl, rfl, rfl, rfl, rfl, rfl⟩
    have hprocessed :
        (sweep.decryptor.offerAgain crypto held.2.record held.2.src.1
          held.2.dst.1).1.keylogProcessedCount = sweep.decryptor.keylogProcessedCount := rfl
    have hevicted :
        (sweep.decryptor.offerAgain crypto held.2.record held.2.src.1
          held.2.dst.1).1.rewindEvicted = sweep.decryptor.rewindEvicted := rfl
    change Walk crypto _ _ _ _
      (sweep.decryptor.offerAgain crypto held.2.record held.2.src.1 held.2.dst.1).1.sessions.entries
      (sweep.decryptor.offerAgain crypto held.2.record held.2.src.1 held.2.dst.1).2.2 at hwalk
    generalize sweep.decryptor.offerAgain crypto held.2.record held.2.src.1 held.2.dst.1 =
      offered at *
    obtain ⟨d, trials, content⟩ := offered
    dsimp only at hwalk hoffered hprocessed hevicted
    cases content with
    | some plaintext =>
      refine ⟨some plaintext, hoffered.trans ⟨rfl, rfl, rfl, rfl, rfl, rfl, rfl⟩, hprocessed, rfl, ?_,
        hevicted.ge, fun _ _ => rfl, fun h => absurd h (Option.some_ne_none _), .inl hwalk⟩
      intro sockets
      exact sublist_append_left _ _
    | none =>
      refine ⟨none, hoffered, hprocessed, ?_, ?_, hevicted.ge, fun h => absurd rfl h, ?_, .inl hwalk⟩
      · simp [Follower.produced, keep]
      · intro sockets
        rw [kept_keep]
        rfl
      · exact fun _ _ sockets => kept_keep _ _ _ _

theorem Steps.walk_of_lt {sweep sweep' : Sweep}
    {held : (SocketAddr × SocketAddr) × PendingRecord} {content : Option Bytes}
    (h : Steps crypto sweep sweep' held content) (htrials : sweep.trials < rewindTrialsPerSweep)
    (hsame : sweep'.decryptor.rewindEvicted = sweep.decryptor.rewindEvicted) :
    Walk crypto held.2.record held.2.src.1 held.2.dst.1 sweep.decryptor.sessions.entries
      sweep'.decryptor.sessions.entries content := by
  rcases h.walk with hwalk | ⟨-, -, hskipped | hevicted⟩
  · exact hwalk
  · exact absurd htrials hskipped.not_gt
  · exact absurd hsame hevicted.ne'

theorem foldl_step_induction {cutoff : Option DateTime} {start : Sweep}
    {records : List ((SocketAddr × SocketAddr) × PendingRecord)}
    (invariant : List ((SocketAddr × SocketAddr) × PendingRecord) → Sweep → Prop)
    (hstart : invariant [] start)
    (hstep : ∀ gone held rest content sweep', records = gone ++ held :: rest →
      invariant gone (gone.foldl (step crypto cutoff) start) →
      Steps crypto (gone.foldl (step crypto cutoff) start) sweep' held content →
      ((records.foldl (step crypto cutoff) start).decryptor.rewindEvicted =
          start.decryptor.rewindEvicted →
        sweep'.decryptor.rewindEvicted =
          (gone.foldl (step crypto cutoff) start).decryptor.rewindEvicted) →
      invariant (gone ++ [held]) sweep') :
    invariant records (records.foldl (step crypto cutoff) start) := by
  have hle : ∀ (items : List ((SocketAddr × SocketAddr) × PendingRecord)) (sweep : Sweep),
      sweep.decryptor.rewindEvicted ≤
        (items.foldl (step crypto cutoff) sweep).decryptor.rewindEvicted := by
    intro items
    induction items with
    | nil => exact fun sweep => le_rfl
    | cons held items ih =>
      intro sweep
      obtain ⟨content, hsteps⟩ := @steps_step crypto cutoff sweep held
      exact hsteps.le.trans (ih _)
  have hgone : ∀ gone rest, records = gone ++ rest →
      invariant gone (gone.foldl (step crypto cutoff) start) := by
    intro gone
    induction gone using List.reverseRecOn with
    | nil => exact fun rest _ => hstart
    | append_singleton gone held ih =>
      intro rest hrecords
      rw [append_assoc, singleton_append] at hrecords
      obtain ⟨content, hsteps⟩ := @steps_step crypto cutoff
        (gone.foldl (step crypto cutoff) start) held
      rw [foldl_append]
      refine hstep gone held rest content _ hrecords (ih _ hrecords) hsteps ?_
      -- The count only grows, so between two equal counts it does not change.
      intro hsame
      have hbefore := hle gone start
      have hafter := hle rest (step crypto cutoff (gone.foldl (step crypto cutoff) start) held)
      have hfold : records.foldl (step crypto cutoff) start =
          rest.foldl (step crypto cutoff)
            (step crypto cutoff (gone.foldl (step crypto cutoff) start) held) := by
        rw [hrecords, foldl_append, foldl_cons]
      rw [hfold] at hsame
      have hhere := hsteps.le
      dsimp only [foldl_cons, foldl_nil]
      omega
  exact hgone records [] (append_nil records).symm

end TlsDecryptor.Sweep

def TlsDecryptor.sweepStart (d : TlsDecryptor) : Sweep :=
  ⟨{ d with rewindPending := .empty }, 0, .empty, 0, []⟩

def TlsDecryptor.cutoff (d : TlsDecryptor) : Option DateTime :=
  d.newestSeen.map (fun t => t - rewindMaxAge)

/-- A sweep tries every record: it has not tried enough before any. -/
def TlsDecryptor.WithinTrials (crypto : CryptoBackend) (d : TlsDecryptor) : Prop :=
  ∀ (gone : List ((SocketAddr × SocketAddr) × PendingRecord)) held rest,
    d.heldRecords = gone ++ held :: rest →
    (gone.foldl (Sweep.step crypto d.cutoff) d.sweepStart).trials < rewindTrialsPerSweep

/-! ## A connection in a sweep -/

namespace Connection

variable {conn : Connection crypto} {mine : TlsRecord → Prop} {log : List KeyLogEntry}
  {d d' : TlsDecryptor} {done all : Bool → List PendingRecord} {session : TlsSession}
  {sweep sweep' : Sweep} {gone rest : List ((SocketAddr × SocketAddr) × PendingRecord)}
  {held : (SocketAddr × SocketAddr) × PendingRecord} {content : Option Bytes}

structure Swept (conn : Connection crypto) (mine : TlsRecord → Prop) (d : TlsDecryptor)
    (gone : List ((SocketAddr × SocketAddr) × PendingRecord)) (sweep : Sweep) : Prop where
  stays : Stays d sweep.decryptor
  processed : sweep.decryptor.keylogProcessedCount = d.keylogProcessedCount
  others : conn.Others mine sweep.decryptor.sessions.entries
  kept : ∀ sockets, ∀ item ∈ sweep.kept sockets, (sockets, item) ∈ gone

theorem Swept.start (h : conn.Others mine d.sessions.entries) : conn.Swept mine d [] d.sweepStart :=
  ⟨⟨rfl, rfl, rfl, rfl, rfl, rfl, rfl⟩, rfl, h, fun _ _ hitem => absurd hitem not_mem_nil⟩

theorem Others.steps (h : conn.Others mine sweep.decryptor.sessions.entries)
    (hsteps : Sweep.Steps crypto sweep sweep' held content) :
    conn.Others mine sweep'.decryptor.sessions.entries := by
  rcases hsteps.walk with hwalk | ⟨-, hsame, -⟩
  · exact h.walk hwalk
  · rw [hsame]
    exact h

theorem Swept.step (h : conn.Swept mine d gone sweep)
    (hsteps : Sweep.Steps crypto sweep sweep' held content) :
    conn.Swept mine d (gone ++ [held]) sweep' where
  stays := h.stays.trans hsteps.stays
  processed := hsteps.processed.trans h.processed
  others := h.others.steps hsteps
  kept := by
    intro sockets item hitem
    rcases mem_append.mp ((hsteps.sublist sockets).subset hitem) with hold | hnew
    · exact mem_append_left _ (h.kept sockets item hold)
    · split_ifs at hnew with hsockets
      · rw [mem_singleton] at hnew
        rw [hnew, hsockets]
        exact mem_append_right _ (mem_singleton.mpr rfl)
      · exact absurd hnew not_mem_nil

theorem Base.swept (h : conn.Base mine log d) {pending : IndexMap _ (List PendingRecord)}
    (hswept : conn.Swept mine d d.heldRecords sweep) (hpending : pending = sweep.still) (bytes : ℕ) :
    conn.Base mine log { sweep.decryptor with rewindPending := pending, rewindBytes := bytes } where
  others := hswept.others
  processed := by
    have hprocessed := h.processed
    rw [← hswept.processed, ← hswept.stays.keylogEntries] at hprocessed
    exact hprocessed
  logged := by
    have hlogged := h.logged
    rw [← hswept.stays.keylogEntries] at hlogged
    exact hlogged
  generation := by
    have hgeneration := h.generation
    rw [← hswept.stays.keylogGeneration, ← hswept.stays.lastRewindGeneration] at hgeneration
    exact hgeneration
  keyed := by
    intro sockets item hitem
    rw [TlsDecryptor.queued, hpending] at hitem
    exact h.keyed sockets item (mem_heldRecords (hswept.kept sockets item hitem))

theorem Base.of_mem_heldRecords (h : conn.Base mine log d) (hheld : held ∈ d.heldRecords) :
    (held.2.src, held.2.dst) = held.1 ∧ ((∀ direction, held.1 ≠ conn.sockets direction) →
      Unopened crypto conn.schedule held.2.record) :=
  h.keyed held.1 held.2 (mem_heldRecords hheld)

theorem absent_of_steps (h : sweep.decryptor.sessions.get? conn.clientRandom = none)
    (hsteps : Sweep.Steps crypto sweep sweep' held content) :
    sweep'.decryptor.sessions.get? conn.clientRandom = none := by
  rcases hsteps.walk with hwalk | ⟨-, hsame, -⟩
  · exact absent_of_walk hwalk h
  · rw [hsame]
    exact h

theorem stranger_of_steps {observed : Bool} (hfollows : conn.Follows session done observed)
    (hpresent : sweep.decryptor.sessions.get? conn.clientRandom = some session)
    (horder : conn.InOrder all) (hdone : ∀ direction, done direction <+: all direction)
    (hunopened : Unopened crypto conn.schedule held.2.record)
    (hsteps : Sweep.Steps crypto sweep sweep' held content) :
    ∃ session', sweep'.decryptor.sessions.get? conn.clientRandom = some session' ∧
      conn.Follows session' done observed := by
  rcases hsteps.walk with hwalk | ⟨-, hsame, -⟩
  · obtain ⟨session', hmem, hfollows'⟩ := walk_stranger hfollows horder hdone hunopened
      sweep.decryptor.sessions.nodup (IndexMap.get?_eq_some_iff.mp hpresent) hwalk
    exact ⟨session', IndexMap.get?_eq_some_iff.mpr hmem, hfollows'⟩
  · rw [hsame]
    exact ⟨session, hpresent, hfollows⟩

theorem recovered_of_stranger (hsteps : Sweep.Steps crypto sweep sweep' held content)
    (hsockets : (held.2.src, held.2.dst) = held.1) {direction : Bool}
    (hother : held.1 ≠ conn.sockets direction) :
    ofSockets (conn.sockets direction) sweep'.recovered =
      ofSockets (conn.sockets direction) sweep.recovered := by
  rw [hsteps.recovered, ofSockets_append, ofSockets_produced, hsockets, if_neg hother, append_nil]

theorem recovered_of_none (hsteps : Sweep.Steps crypto sweep sweep' held none) :
    sweep'.recovered = sweep.recovered := by
  rw [hsteps.recovered]
  exact append_nil _

theorem Waiting.swept (h : conn.Waiting mine log d done)
    (hmine : ∀ direction, ∀ item ∈ done direction, mine item.record)
    (hspared : (d.sweep crypto).decryptor.rewindEvicted = d.rewindEvicted) :
    conn.Swept mine d d.heldRecords (d.sweep crypto) ∧
      (d.sweep crypto).decryptor.sessions.get? conn.clientRandom = none ∧
      ∀ direction, (d.sweep crypto).kept (conn.sockets direction) = done direction ∧
        ofSockets (conn.sockets direction) (d.sweep crypto).recovered = [] := by
  have hsweep := @Sweep.foldl_step_induction crypto d.cutoff d.sweepStart d.heldRecords
    (fun gone sweep => conn.Swept mine d gone sweep ∧
      sweep.decryptor.sessions.get? conn.clientRandom = none ∧
      ∀ direction, sweep.kept (conn.sockets direction) = heldOf (conn.sockets direction) gone ∧
        ofSockets (conn.sockets direction) sweep.recovered = [])
    ⟨.start h.base.others, h.absent, fun direction => ⟨rfl, rfl⟩⟩ ?_
  · obtain ⟨hswept, habsent, hours⟩ := hsweep
    refine ⟨hswept, habsent, ?_⟩
    intro direction
    obtain ⟨hkept, hrecovered⟩ := hours direction
    rw [heldOf_heldRecords, h.queued] at hkept
    exact ⟨hkept, hrecovered⟩
  · rintro gone held rest content sweep' hrecords ⟨hswept, habsent, hours⟩ hsteps hsame
    have hheld : held ∈ d.heldRecords := by
      rw [hrecords]
      exact mem_append_right _ mem_cons_self
    obtain ⟨hsockets, hunopened⟩ := h.base.of_mem_heldRecords hheld
    have hcontent : ∀ direction, held.1 = conn.sockets direction → content = none := by
      intro direction hdirection
      have hitem : held.2 ∈ done direction := by
        rw [← h.queued, ← hdirection]
        exact mem_heldRecords hheld
      rcases hsteps.walk with hwalk | ⟨hnone, -, -⟩
      · exact walk_absent hswept.others (hmine direction _ hitem) (get?_none_iff.mp habsent) hwalk
      · exact hnone
    refine ⟨hswept.step hsteps, absent_of_steps habsent hsteps, ?_⟩
    intro direction
    obtain ⟨hkept, hrecovered⟩ := hours direction
    rw [heldOf_append, heldOf_singleton, ← hkept]
    constructor
    · by_cases hnone : content = none
      · exact hsteps.same hnone (hsame hspared) _
      · rw [hsteps.opened hnone, if_neg (fun heq => hnone (hcontent direction heq.symm)),
          append_nil]
    · by_cases hdirection : held.1 = conn.sockets direction
      · rw [hcontent direction hdirection] at hsteps
        rw [recovered_of_none hsteps]
        exact hrecovered
      · rw [recovered_of_stranger hsteps hsockets hdirection]
        exact hrecovered

theorem extend_heldOf {direction : Bool} (hdirection : held.1 = conn.sockets direction) :
    extend (fun direction => heldOf (conn.sockets direction) gone) direction held.2 =
      fun direction => heldOf (conn.sockets direction) (gone ++ [held]) := by
  funext direction'
  rw [extend, heldOf_append, heldOf_singleton, hdirection]
  by_cases hsame : direction' = direction
  · rw [hsame, Function.update_self, if_pos rfl]
  · rw [Function.update_of_ne hsame, if_neg (fun h => hsame (sockets_inj h)), append_nil]

/-- A session built for the sweep follows the held records of its connection from the first on. -/
theorem recovers_sweep (hbase : conn.Base mine log d)
    (hpresent : d.sessions.get? conn.clientRandom = some (conn.fresh true))
    (hqueued : ∀ direction, d.queued (conn.sockets direction) = done direction)
    (horder : conn.InOrder all) (hdone : ∀ direction, done direction <+: all direction)
    (hmine : ∀ direction, ∀ item ∈ done direction, mine item.record)
    (hspared : (d.sweep crypto).decryptor.rewindEvicted = d.rewindEvicted)
    (htrials : d.WithinTrials crypto) :
    conn.Swept mine d d.heldRecords (d.sweep crypto) ∧
      (∃ session, (d.sweep crypto).decryptor.sessions.get? conn.clientRandom = some session ∧
        conn.Follows session done true) ∧
      ∀ direction, ofSockets (conn.sockets direction) (d.sweep crypto).recovered =
        ((conn.start direction).takeAll crypto conn.suite (done direction)).2 := by
  have hsweep := @Sweep.foldl_step_induction crypto d.cutoff d.sweepStart d.heldRecords
    (fun gone sweep => conn.Swept mine d gone sweep ∧
      (∃ session, sweep.decryptor.sessions.get? conn.clientRandom = some session ∧
        conn.Follows session (fun direction => heldOf (conn.sockets direction) gone) true) ∧
      ∀ direction, ofSockets (conn.sockets direction) sweep.recovered =
        ((conn.start direction).takeAll crypto conn.suite (heldOf (conn.sockets direction) gone)).2)
    ⟨.start hbase.others, ⟨_, hpresent, conn.follows_fresh true⟩, fun direction => rfl⟩ ?_
  · obtain ⟨hswept, ⟨session, hpresent', hfollows⟩, hrecovered⟩ := hsweep
    have hall : (fun direction => heldOf (conn.sockets direction) d.heldRecords) = done := by
      funext direction
      rw [heldOf_heldRecords, hqueued]
    refine ⟨hswept, ⟨session, hpresent', hall ▸ hfollows⟩, ?_⟩
    intro direction
    have hours := hrecovered direction
    rw [heldOf_heldRecords, hqueued] at hours
    exact hours
  · rintro gone held rest content sweep' hrecords ⟨hswept, ⟨session, hthere, hfollows⟩, hrecovered⟩
      hsteps hsame
    have hheld : held ∈ d.heldRecords := by
      rw [hrecords]
      exact mem_append_right _ mem_cons_self
    obtain ⟨hsockets, hunopened⟩ := hbase.of_mem_heldRecords hheld
    have hisPrefix : ∀ direction, heldOf (conn.sockets direction) (gone ++ [held]) <+:
        all direction := by
      intro direction
      have hsplit : d.heldRecords = (gone ++ [held]) ++ rest := by simp [hrecords]
      refine List.IsPrefix.trans ?_ (hdone direction)
      rw [← hqueued, ← heldOf_heldRecords, hsplit, heldOf_append _ (gone ++ [held])]
      exact prefix_append _ _
    have hgone : ∀ direction, heldOf (conn.sockets direction) gone <+: all direction := by
      intro direction
      refine List.IsPrefix.trans ?_ (hisPrefix direction)
      rw [heldOf_append]
      exact prefix_append _ _
    by_cases hours : ∃ direction, held.1 = conn.sockets direction
    · obtain ⟨direction, hdirection⟩ := hours
      have hitem : held.2 ∈ done direction := by
        rw [← hqueued, ← hdirection]
        exact mem_heldRecords hheld
      have hwalk := hsteps.walk_of_lt (htrials gone held rest hrecords) (hsame hspared)
      have hnext := hisPrefix direction
      rw [heldOf_append, heldOf_singleton, if_pos hdirection.symm] at hnext
      obtain ⟨hcontent, session', hmem, hfollows'⟩ := hfollows.walk horder
        (hnext.subset (by simp)) (hfollows.new horder hgone hnext) hswept.others
        (hmine direction _ hitem) (IndexMap.nodup _) (IndexMap.get?_eq_some_iff.mp hthere) hwalk
      rw [extend_heldOf hdirection] at hfollows'
      refine ⟨hswept.step hsteps, ⟨session', IndexMap.get?_eq_some_iff.mpr hmem, hfollows'⟩, ?_⟩
      intro direction'
      rw [hsteps.recovered, ofSockets_append, hrecovered, ofSockets_produced, hsockets,
        heldOf_append, heldOf_singleton]
      by_cases hsame : held.1 = conn.sockets direction'
      · obtain rfl : direction = direction' := sockets_inj (hdirection.symm.trans hsame)
        rw [if_pos hsame, if_pos hsame.symm, Follower.takeAll_concat, hcontent]
        rfl
      · rw [if_neg hsame, if_neg (fun h => hsame h.symm), append_nil, append_nil]
    · rw [not_exists] at hours
      have hnothing : ∀ direction, heldOf (conn.sockets direction) (gone ++ [held]) =
          heldOf (conn.sockets direction) gone := by
        intro direction
        rw [heldOf_append, heldOf_singleton, if_neg (fun h => hours direction h.symm), append_nil]
      obtain ⟨session', hthere', hfollows'⟩ := stranger_of_steps hfollows hthere horder hgone
        (hunopened hours) hsteps
      refine ⟨hswept.step hsteps, ⟨session', hthere', ?_⟩, ?_⟩
      · simp only [hnothing]
        exact hfollows'
      · intro direction
        rw [recovered_of_stranger hsteps hsockets (hours direction), hnothing]
        exact hrecovered direction

theorem Ready.swept (h : conn.Ready mine log d done session) (horder : conn.InOrder all)
    (hdone : ∀ direction, done direction <+: all direction)
    (hmine : ∀ direction, ∀ item ∈ done direction, mine item.record)
    (hobserved : (∃ direction, done direction ≠ []) → conn.observedIn d = true) :
    conn.Swept mine d d.heldRecords (d.sweep crypto) ∧
      (∃ session', (d.sweep crypto).decryptor.sessions.get? conn.clientRandom = some session' ∧
        conn.Follows session' done (conn.observedIn d)) ∧
      ∀ direction, ofSockets (conn.sockets direction) (d.sweep crypto).recovered = [] := by
  apply @Sweep.foldl_step_induction crypto d.cutoff d.sweepStart d.heldRecords
    (fun gone sweep => conn.Swept mine d gone sweep ∧
      (∃ session, sweep.decryptor.sessions.get? conn.clientRandom = some session ∧
        conn.Follows session done (conn.observedIn d)) ∧
      ∀ direction, ofSockets (conn.sockets direction) sweep.recovered = [])
  · exact ⟨.start h.base.others, ⟨session, h.present, h.follows⟩, fun direction => rfl⟩
  · rintro gone held rest content sweep' hrecords ⟨hswept, ⟨session, hthere, hfollows⟩, hrecovered⟩
      hsteps -
    have hheld : held ∈ d.heldRecords := by
      rw [hrecords]
      exact mem_append_right _ mem_cons_self
    obtain ⟨hsockets, hunopened⟩ := h.base.of_mem_heldRecords hheld
    refine ⟨hswept.step hsteps, ?_⟩
    by_cases hours : ∃ direction, held.1 = conn.sockets direction
    · obtain ⟨direction, hdirection⟩ := hours
      have hitem : held.2 ∈ done direction :=
        h.queued direction held.2 (hdirection ▸ mem_heldRecords hheld)
      have hseen := hobserved ⟨direction, ne_nil_of_mem hitem⟩
      have hagain : content = none ∧ ∃ session',
          sweep'.decryptor.sessions.get? conn.clientRandom = some session' ∧
            conn.Follows session' done (conn.observedIn d) := by
        rcases hsteps.walk with hwalk | ⟨hnone, hsessions, -⟩
        · rw [hseen] at hfollows ⊢
          obtain ⟨hnone, session', hmem, hfollows'⟩ := hfollows.walk horder
            ((hdone direction).subset hitem) (hfollows.again horder hdone hitem) hswept.others
            (hmine direction _ hitem) (IndexMap.nodup _) (IndexMap.get?_eq_some_iff.mp hthere) hwalk
          exact ⟨hnone, session', IndexMap.get?_eq_some_iff.mpr hmem, hfollows'⟩
        · rw [hsessions]
          exact ⟨hnone, session, hthere, hfollows⟩
      obtain ⟨hnone, hsession⟩ := hagain
      rw [hnone] at hsteps
      refine ⟨hsession, ?_⟩
      rw [recovered_of_none hsteps]
      exact hrecovered
    · rw [not_exists] at hours
      refine ⟨stranger_of_steps hfollows hthere horder hdone (hunopened hours) hsteps, ?_⟩
      intro direction
      rw [recovered_of_stranger hsteps hsockets (hours direction)]
      exact hrecovered direction

/-! ## The whole rewind -/

theorem ofSockets_mergeSort (sockets : SocketAddr × SocketAddr) (outputs : List RecoveredRecord) :
    (ofSockets sockets (outputs.mergeSort (fun a b => a.timestamp ≤ b.timestamp))).Perm
        (ofSockets sockets outputs) ∧
      ((ofSockets sockets outputs).Pairwise (fun a b => a.timestamp ≤ b.timestamp) →
        ofSockets sockets (outputs.mergeSort (fun a b => a.timestamp ≤ b.timestamp)) =
          ofSockets sockets outputs) := by
  have hperm : (ofSockets sockets (outputs.mergeSort (fun a b => a.timestamp ≤ b.timestamp))).Perm
      (ofSockets sockets outputs) := (mergeSort_perm _ _).filter _
  refine ⟨hperm, ?_⟩
  intro hsorted
  have htrans : ∀ a b c : RecoveredRecord, decide (a.timestamp ≤ b.timestamp) = true →
      decide (b.timestamp ≤ c.timestamp) = true → decide (a.timestamp ≤ c.timestamp) = true := by
    intro a b c hab hbc
    simp only [decide_eq_true_eq] at hab hbc ⊢
    exact hab.trans hbc
  have htotal : ∀ a b : RecoveredRecord,
      (decide (a.timestamp ≤ b.timestamp) || decide (b.timestamp ≤ a.timestamp)) = true := by
    intro a b
    simp only [Bool.or_eq_true, decide_eq_true_eq]
    exact le_total _ _
  have hsub : (ofSockets sockets outputs).Sublist
      (outputs.mergeSort (fun a b => a.timestamp ≤ b.timestamp)) :=
    sublist_mergeSort htrans htotal (hsorted.imp (fun h => decide_eq_true h)) filter_sublist
  have hfiltered := hsub.filter (fun r => decide ((r.src, r.dst) = sockets))
  rw [ofSockets, List.filter_filter] at hfiltered
  simp only [Bool.and_self] at hfiltered
  exact (hfiltered.eq_of_length hperm.length_eq.symm).symm

theorem rewind_of_pending (h : d.rewindPending.entries ≠ []) :
    d.rewind crypto =
      ({ ((d.ensureSessionsPopulated crypto).sweep crypto).decryptor with
          rewindPending := ((d.ensureSessionsPopulated crypto).sweep crypto).still
          rewindBytes := ((d.ensureSessionsPopulated crypto).sweep crypto).heldBytes },
        ((d.ensureSessionsPopulated crypto).sweep crypto).recovered.mergeSort
          (fun a b => a.timestamp ≤ b.timestamp)) := by
  rw [rewind, if_neg h]

theorem Waiting.rewind (h : conn.Waiting mine log d done) (hapart : conn.Apart mine log)
    (hmine : ∀ direction, ∀ item ∈ done direction, mine item.record)
    (hspared : (d.rewind crypto).1.rewindEvicted = d.rewindEvicted) :
    conn.Waiting mine log (d.rewind crypto).1 done ∧
      ∀ direction, ofSockets (conn.sockets direction) (d.rewind crypto).2 = [] := by
  by_cases hpending : d.rewindPending.entries = []
  · rw [TlsDecryptor.rewind, if_pos hpending]
    exact ⟨h, fun direction => rfl⟩
  · obtain ⟨-, -, hevicted, -⟩ := @stays_ensureSessionsPopulated crypto d
    have hready := h.ensure hapart
    rw [rewind_of_pending hpending] at hspared ⊢
    obtain ⟨hswept, habsent, hours⟩ := hready.swept hmine (hspared.trans hevicted.symm)
    refine ⟨⟨hready.base.swept hswept rfl _, hswept.stays.keysMayStillArrive.trans hready.arrive,
      ?_, habsent, fun direction => (hours direction).1⟩, ?_⟩
    · have hsilent := hready.silent
      rw [← hswept.stays.keylogEntries] at hsilent
      exact hsilent
    · intro direction
      have hperm := (ofSockets_mergeSort (conn.sockets direction)
        ((d.ensureSessionsPopulated crypto).sweep crypto).recovered).1
      rw [(hours direction).2] at hperm
      exact hperm.eq_nil

theorem Following.rewind (h : conn.Following mine log d done) (hapart : conn.Apart mine log)
    (horder : conn.InOrder all) (hdone : ∀ direction, done direction <+: all direction)
    (hmine : ∀ direction, ∀ item ∈ done direction, mine item.record)
    (hobserved : (∃ direction, done direction ≠ []) → conn.observedIn d = true) :
    conn.Following mine log (d.rewind crypto).1 done ∧
      ∀ direction, ofSockets (conn.sockets direction) (d.rewind crypto).2 = [] := by
  by_cases hpending : d.rewindPending.entries = []
  · rw [TlsDecryptor.rewind, if_pos hpending]
    exact ⟨h, fun direction => rfl⟩
  · obtain ⟨hstays, -, -, -⟩ := @stays_ensureSessionsPopulated crypto d
    obtain ⟨session, hready⟩ := h.ensure hapart
    rw [← @observedIn_eq crypto conn _ _ hstays] at hobserved
    rw [rewind_of_pending hpending]
    obtain ⟨hswept, ⟨session', hpresent, hfollows⟩, hnothing⟩ :=
      hready.swept horder hdone hmine hobserved
    refine ⟨.inl ⟨session', hready.base.swept hswept rfl _, ?_, hpresent, ?_, ?_⟩, ?_⟩
    · have hloaded := hready.loaded
      rw [← hswept.stays.keylogEntries] at hloaded
      exact hloaded
    · rw [← observedIn_eq hswept.stays] at hfollows
      exact hfollows
    · intro direction item hitem
      exact hready.queued direction item
        (mem_heldRecords (hswept.kept (conn.sockets direction) item hitem))
    · intro direction
      have hperm := (ofSockets_mergeSort (conn.sockets direction)
        ((d.ensureSessionsPopulated crypto).sweep crypto).recovered).1
      rw [hnothing direction] at hperm
      exact hperm.eq_nil

/-- With the keys there, a rewind brings the session to where it would be, and hands on what it
would have. -/
theorem Primed.rewind (h : conn.Primed mine log d done) (hapart : conn.Apart mine log)
    (horder : conn.InOrder all) (hdone : ∀ direction, done direction <+: all direction)
    (hmine : ∀ direction, ∀ item ∈ done direction, mine item.record)
    (hsafe : (∃ direction, done direction ≠ []) → conn.observedIn d = true ∧
      (d.rewind crypto).1.rewindEvicted = d.rewindEvicted ∧
      (d.ensureSessionsPopulated crypto).WithinTrials crypto) :
    conn.Following mine log (d.rewind crypto).1 done ∧
      ∀ direction, (ofSockets (conn.sockets direction) (d.rewind crypto).2).Perm
          ((conn.start direction).takeAll crypto conn.suite (done direction)).2 ∧
        (((conn.start direction).takeAll crypto conn.suite (done direction)).2.Pairwise
            (fun a b => a.timestamp ≤ b.timestamp) →
          ofSockets (conn.sockets direction) (d.rewind crypto).2 =
            ((conn.start direction).takeAll crypto conn.suite (done direction)).2) := by
  by_cases hsome : ∃ direction, done direction ≠ []
  · obtain ⟨hobserved, hspared, htrials⟩ := hsafe hsome
    have hpending : d.rewindPending.entries ≠ [] := by
      intro hnil
      obtain ⟨direction, hne⟩ := hsome
      rw [← h.queued, TlsDecryptor.queued, IndexMap.get?, hnil] at hne
      exact hne rfl
    obtain ⟨hstays, hsame, hevicted, -⟩ := @stays_ensureSessionsPopulated crypto d
    obtain ⟨hbase, hloaded, hpresent⟩ := h.ensure hapart
    rw [hobserved] at hpresent
    rw [rewind_of_pending hpending] at hspared ⊢
    have hqueued : ∀ direction, (d.ensureSessionsPopulated crypto).queued (conn.sockets direction) =
        done direction := by
      intro direction
      rw [queued_eq_of_rewindPending hsame]
      exact h.queued direction
    obtain ⟨hswept, ⟨session, hthere, hfollows⟩, hrecovered⟩ := recovers_sweep hbase hpresent hqueued
      horder hdone hmine (hspared.trans hevicted.symm) htrials
    refine ⟨.inl ⟨session, hbase.swept hswept rfl _, ?_, hthere, ?_, ?_⟩, ?_⟩
    · rw [← hswept.stays.keylogEntries] at hloaded
      exact hloaded
    · have hseen := (observedIn_eq hswept.stays).trans ((observedIn_eq hstays).trans hobserved)
      rw [← hseen] at hfollows
      exact hfollows
    · intro direction item hitem
      have hheld := mem_heldRecords (hswept.kept (conn.sockets direction) item hitem)
      rw [hqueued] at hheld
      exact hheld
    · intro direction
      rw [← hrecovered direction]
      exact ofSockets_mergeSort _ _
  · have hnil : ∀ direction, done direction = [] := by
      intro direction
      by_contra hne
      exact hsome ⟨direction, hne⟩
    have hfollowing : conn.Following mine log d done := .inr ⟨h, hnil⟩
    obtain ⟨hafter, hnothing⟩ := hfollowing.rewind hapart horder hdone hmine
      (fun hne => absurd hne hsome)
    refine ⟨hafter, ?_⟩
    intro direction
    rw [hnothing, hnil]
    exact ⟨.refl _, fun _ => rfl⟩

end Connection

end Sipnab.Tls
