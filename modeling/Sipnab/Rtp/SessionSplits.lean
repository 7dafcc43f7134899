import Sipnab.Rtp.ShardedStores

/-!
# When a stream is split

A packet starts a new session of its flow when a socket of the live stream went to another call
since the stream began. The new stream takes its call from the source socket first, whichever socket
went to the other call. A socket that two calls name in turn goes from one to the other with every
re-offer.
-/

namespace Sipnab

open List Option IndexMap

namespace StreamStore

def liveStream (store : StreamStore) (flow : StreamKey) : Option RtpStream :=
  store.streams.get? (store.liveKey flow)

/-- Another call took over a socket of the live stream `s`: the packet starts a new session. -/
def Splits (store : StreamStore) (p : RtpPacket) (s : RtpStream) : Prop :=
  store.liveStream p.flow = some s ∧ store.callChanged s (store.liveKey p.flow) = true

end StreamStore

/-- A stream begins with `opening` and is the flow's live one until `during` is over. -/
structure Lives (settings : StreamSettings) (maxStreams : ℕ) (before : List MediaEvent)
    (opening : RtpPacket) (during : List MediaEvent) : Prop where
  starts : (StreamStore.after settings maxStreams before).StartsStream opening
  kept : ∀ earlier q later, during = earlier ++ MediaEvent.rtp q :: later → q.flow = opening.flow →
    ¬ (StreamStore.after settings maxStreams
      (before ++ MediaEvent.rtp opening :: earlier)).StartsStream q

def SdpLink.Repeats (link : SdpLink) (links : List SdpLink) : Prop :=
  ∃ l ∈ links, l.socket = link.socket ∧ l.callId = link.callId

/-- A new session has a call of its own, and a flow whose sockets are only named by the calls that
named them before its stream has none. -/
structure SplitLaws (settings : StreamSettings) (maxStreams : ℕ) (events : List MediaEvent) :
    Prop where
  newCall : ∀ before p later s, events = before ++ MediaEvent.rtp p :: later →
    (StreamStore.after settings maxStreams before).Splits p s →
    ∃ t call, (StreamStore.after settings maxStreams
        (before ++ [MediaEvent.rtp p])).liveStream p.flow = some t ∧
      t.associatedDialog = some call ∧ s.associatedDialog ≠ some call
  forwarded : ∀ before opening during p later s,
    events = before ++ MediaEvent.rtp opening :: (during ++ MediaEvent.rtp p :: later) →
    p.flow = opening.flow →
    Lives settings maxStreams before opening during →
    (∀ l ∈ linksOf during, l.On opening.flow → l.Repeats (linksOf before)) →
    ¬ (StreamStore.after settings maxStreams
      (before ++ MediaEvent.rtp opening :: during)).Splits p s

/-- The source socket is not with the stream's own call, and one of the sockets is with another
call, as far as the records are not too old. -/
def StreamStore.SplitsAway (store : StreamStore) (p : RtpPacket) (s : RtpStream) : Prop :=
  (∀ e ∈ store.sdpEndpoints.get? p.src,
    sdpEndpointExpired e p.timestamp = false → s.associatedDialog ≠ some e.callId) ∧
  ∃ e ∈ store.recordsOf p,
    sdpEndpointExpired e p.timestamp = false ∧ s.associatedDialog ≠ some e.callId

/-- A packet that leaves its live stream finds its sockets with another call, and no socket went
since the stream began to another call that had named it before. -/
structure CleanSplits (settings : StreamSettings) (maxStreams : ℕ) (events : List MediaEvent) :
    Prop where
  away : ∀ before p later s, events = before ++ MediaEvent.rtp p :: later →
    (StreamStore.after settings maxStreams before).Splits p s →
    (StreamStore.after settings maxStreams before).SplitsAway p s
  newcomers : ∀ before opening during p later s,
    events = before ++ MediaEvent.rtp opening :: (during ++ MediaEvent.rtp p :: later) →
    p.flow = opening.flow →
    Lives settings maxStreams before opening during →
    StreamStore.liveStream (.after settings maxStreams
      (before ++ MediaEvent.rtp opening :: during)) p.flow = some s →
    ∀ socket, socket = p.src ∨ socket = p.dst → ∀ e,
      (StreamStore.after settings maxStreams
        (before ++ MediaEvent.rtp opening :: during)).sdpEndpoints.get? socket = some e →
      s.bindingSeqAtStart < e.boundSeq → s.associatedDialog ≠ some e.callId →
      ¬ ∃ l ∈ linksOf before, l.socket = socket ∧ l.callId = e.callId

/-! ## Sessions in order -/

/-- The streams of a flow stand in the order of their sessions, up to the live one. Nothing is bound
after the counter. -/
structure StreamStore.InOrder (store : StreamStore) : Prop where
  ordered : store.streams.keys.Pairwise (fun a b => a.flow = b.flow → a.session < b.session)
  le_live : ∀ key ∈ store.streams.keys, key.session ≤ (store.liveKey key).session
  bound_le : ∀ socket e, store.sdpEndpoints.get? socket = some e → e.boundSeq ≤ store.bindingSeq

section Keys

variable {a b : StreamKey}

theorem eq_of_flow_eq (hflow : a.flow = b.flow) (hsession : a.session = b.session) : a = b := by
  cases a
  cases b
  simp only [StreamKey.flow, StreamKey.mk.injEq] at *
  exact ⟨hflow.1, hflow.2.1, hflow.2.2.1, hsession⟩

variable (store : StreamStore)

theorem flow_liveKey (key : StreamKey) : (store.liveKey key).flow = key.flow := by
  rw [StreamStore.liveKey]
  split <;> rfl

theorem liveKey_congr (h : a.flow = b.flow) : store.liveKey a = store.liveKey b := by
  rw [StreamStore.liveKey, StreamStore.liveKey, h]

theorem liveKey_of_sessions {store' : StreamStore}
    (h : store'.liveSessions.get? a.flow = store.liveSessions.get? a.flow) :
    store'.liveKey a = store.liveKey a := by
  rw [StreamStore.liveKey, StreamStore.liveKey, h]

theorem liveKey_of_some {store : StreamStore} {session : ℕ}
    (h : store.liveSessions.get? a.flow = some session) :
    (store.liveKey a).session = session := by
  rw [StreamStore.liveKey, h]

end Keys

/-! ### Eviction -/

theorem get?_forgetSession (sessions : IndexMap StreamKey ℕ) (key flow : StreamKey) :
    (StreamStore.forgetSession sessions key).get? flow =
      if key.flow = flow ∧ sessions.get? flow = some key.session then none
      else sessions.get? flow := by
  by_cases hlive : sessions.get? key.flow = some key.session
  · rw [StreamStore.forgetSession, if_pos hlive,
      get?_filter_key sessions (fun k => decide (k ≠ key.flow))]
    by_cases hflow : key.flow = flow
    · subst hflow
      rw [if_neg (by simp), if_pos ⟨rfl, hlive⟩]
    · rw [if_pos (by simpa using Ne.symm hflow), if_neg (fun h => hflow h.1)]
  · rw [StreamStore.forgetSession, if_neg hlive, if_neg]
    rintro ⟨rfl, h⟩
    exact hlive h

theorem get?_foldl_forgetSession (keys : List StreamKey) (sessions : IndexMap StreamKey ℕ)
    (flow : StreamKey) :
    (keys.foldl StreamStore.forgetSession sessions).get? flow = sessions.get? flow ∨
      (keys.foldl StreamStore.forgetSession sessions).get? flow = none ∧
        ∃ key ∈ keys, key.flow = flow ∧ sessions.get? flow = some key.session := by
  induction keys generalizing sessions with
  | nil => exact Or.inl rfl
  | cons key keys ih =>
    rw [foldl_cons]
    have hfirst := get?_forgetSession sessions key flow
    rcases ih (StreamStore.forgetSession sessions key) with hsame | ⟨hnone, k, hk, hflow, hlive⟩
    · rw [hsame, hfirst]
      split_ifs with hforget
      · exact Or.inr ⟨rfl, key, mem_cons_self, hforget⟩
      · exact Or.inl rfl
    · refine Or.inr ⟨hnone, k, mem_cons_of_mem _ hk, hflow, ?_⟩
      rw [hfirst] at hlive
      split_ifs at hlive
      exact hlive

section Store

variable {store : StreamStore}

theorem bindingSeq_ensureCapacity : store.ensureCapacity.bindingSeq = store.bindingSeq := by
  rw [StreamStore.ensureCapacity]
  split_ifs <;> rfl

theorem exists_keys_ensureCapacity (store : StreamStore) : ∃ evicted,
    store.streams.keys = evicted ++ store.ensureCapacity.streams.keys ∧
      store.ensureCapacity.liveSessions = evicted.foldl StreamStore.forgetSession
        store.liveSessions := by
  rw [StreamStore.ensureCapacity]
  split_ifs
  · refine ⟨store.streams.keys.take _, ?_, rfl⟩
    have hdrop : (store.streams.dropFirst
        (StreamStore.evictionBatch store.maxStreams store.streams.length)).keys =
          store.streams.keys.drop
            (StreamStore.evictionBatch store.maxStreams store.streams.length) := map_drop
    rw [hdrop, take_append_drop]
  · exact ⟨[], rfl, rfl⟩

theorem StreamStore.InOrder.live_ensureCapacity (h : store.InOrder) (flow : StreamKey) :
    store.ensureCapacity.liveKey flow = store.liveKey flow ∨
      (∀ key ∈ store.ensureCapacity.streams.keys, key.flow ≠ flow.flow) ∧
        ∃ key ∈ store.streams.keys, key.flow = flow.flow ∧
          key.session = (store.liveKey flow).session := by
  obtain ⟨evicted, hkeys, hsessions⟩ := exists_keys_ensureCapacity store
  rcases get?_foldl_forgetSession evicted store.liveSessions flow.flow with
    hsame | ⟨-, k, hk, hflow, hlive⟩
  · left
    apply liveKey_of_sessions
    rw [hsessions, hsame]
  · right
    have hmem : k ∈ store.streams.keys := hkeys ▸ mem_append_left _ hk
    refine ⟨?_, k, hmem, hflow, (liveKey_of_some hlive).symm⟩
    -- a stream of the flow that is left would stand behind the live one
    intro key hkey hkeyFlow
    have hordered := h.ordered
    rw [hkeys, pairwise_append] at hordered
    have hlt := hordered.2.2 k hk key hkey (hflow.trans hkeyFlow.symm)
    have hle := h.le_live key (hkeys ▸ mem_append_right _ hkey)
    rw [liveKey_congr store hkeyFlow, liveKey_of_some hlive] at hle
    omega

theorem StreamStore.InOrder.ensureCapacity (h : store.InOrder) : store.ensureCapacity.InOrder := by
  obtain ⟨evicted, hkeys, -⟩ := exists_keys_ensureCapacity store
  refine ⟨?_, ?_, ?_⟩
  · have hordered := h.ordered
    rw [hkeys, pairwise_append] at hordered
    exact hordered.2.1
  · intro key hkey
    rcases h.live_ensureCapacity key with hsame | ⟨hgone, -⟩
    · rw [hsame]
      exact h.le_live key (hkeys ▸ mem_append_right _ hkey)
    · exact absurd rfl (hgone key hkey)
  · rw [sdpEndpoints_ensureCapacity, bindingSeq_ensureCapacity]
    exact h.bound_le

/-! ### One step -/

theorem recordUnder_of_get?_none {settings : StreamSettings} {key : StreamKey} {p : RtpPacket}
    (h : store.streams.get? key = none) :
    store.recordUnder settings key p = store.ensureCapacity.withStream settings key p := by
  rw [StreamStore.recordUnder, h]
  rfl

variable (settings : StreamSettings) (key : StreamKey) (p : RtpPacket)

theorem liveKey_withStream (flow : StreamKey) (p : RtpPacket) :
    (store.withStream settings key p).liveKey flow = store.liveKey flow :=
  rfl

theorem get?_withStream (k : StreamKey) (p : RtpPacket) :
    (store.withStream settings key p).streams.get? k =
      if k = key then some (store.startStream settings key p) else store.streams.get? k :=
  get?_insert _ _ _ _

theorem keys_linkEndpointFrom (link : SdpLink) :
    (store.linkEndpointFrom link).streams.keys = store.streams.keys := by
  rw [StreamStore.linkEndpointFrom]
  split
  · rw [streams_rememberSdpEndpoint]
  · dsimp only
    rw [streams_rememberSdpEndpoint, IndexMap.keys, IndexMap.mapValues, List.map_map]
    rfl

theorem record_of_linkEndpointFrom {link : SdpLink} {socket : SocketAddr} {e : SdpEndpoint}
    (he : (store.linkEndpointFrom link).sdpEndpoints.get? socket = some e) :
    socket = link.socket ∧ e.callId = link.callId ∧ e.boundSeq = store.bindingSeq + 1 ∧
        (store.linkEndpointFrom link).bindingSeq = store.bindingSeq + 1 ∨
      ∃ old, store.sdpEndpoints.get? socket = some old ∧ old.callId = e.callId ∧
        old.boundSeq = e.boundSeq := by
  rw [sdpEndpoints_linkEndpointFrom] at he
  by_cases hsocket : socket = link.socket
  · subst hsocket
    rw [get?_rememberSdpEndpoint_self] at he
    obtain rfl := some.inj he
    rw [boundSeq_refresh, bindingSeq_linkEndpointFrom]
    have hcall : (link.refresh store.bindingSeq (store.sdpEndpoints.get? link.socket)).callId =
        link.callId := by
      cases store.sdpEndpoints.get? link.socket <;> rfl
    by_cases hsame : (store.sdpEndpoints.get? link.socket).map SdpEndpoint.callId = some link.callId
    · right
      obtain ⟨old, hold, holdCall⟩ := map_eq_some_iff.mp hsame
      refine ⟨old, hold, holdCall.trans hcall.symm, ?_⟩
      rw [if_pos hsame, hold]
      rfl
    · left
      rw [if_neg hsame, if_neg hsame]
      exact ⟨rfl, hcall, rfl, rfl⟩
  · exact Or.inr ⟨e, get?_of_get?_rememberSdpEndpoint hsocket he, rfl, rfl⟩

theorem StreamStore.InOrder.linkEndpointFrom (h : store.InOrder) (link : SdpLink) :
    (store.linkEndpointFrom link).InOrder := by
  refine ⟨?_, ?_, ?_⟩
  · rw [keys_linkEndpointFrom]
    exact h.ordered
  · intro key hkey
    rw [keys_linkEndpointFrom] at hkey
    rw [liveKey_of_sessions store (by rw [liveSessions_linkEndpointFrom])]
    exact h.le_live key hkey
  · intro socket e he
    rcases record_of_linkEndpointFrom he with ⟨-, -, hbound, hseq⟩ | ⟨old, hold, -, hbound⟩
    · rw [hbound, hseq]
    · rw [← hbound, bindingSeq_linkEndpointFrom]
      have hle := h.bound_le socket old hold
      split_ifs <;> omega

theorem StreamStore.InOrder.recordUnder (h : store.InOrder) (settings : StreamSettings)
    {key : StreamKey} (hlive : store.liveKey key = key) (p : RtpPacket) :
    (store.recordUnder settings key p).InOrder := by
  cases hstream : store.streams.get? key with
  | some s =>
    have hmem : key ∈ store.streams.keys :=
      mem_keys_of_mem_entries (IndexMap.get?_eq_some_iff.mp hstream)
    rw [recordUnder_of_some hstream]
    refine ⟨?_, ?_, h.bound_le⟩
    · dsimp only
      rw [IndexMap.insert, keys_alter_of_mem hmem]
      exact h.ordered
    · intro k hk
      rw [IndexMap.insert, keys_alter_of_mem hmem] at hk
      exact h.le_live k hk
  | none =>
    have hcap := h.ensureCapacity
    have hnot : key ∉ store.streams.keys := IndexMap.get?_eq_none_iff.mp hstream
    have hnot' : key ∉ store.ensureCapacity.streams.keys := by
      obtain ⟨evicted, hkeys, -⟩ := exists_keys_ensureCapacity store
      exact fun hkey => hnot (hkeys ▸ mem_append_right _ hkey)
    have hlive' : store.ensureCapacity.liveKey key = key := by
      rcases h.live_ensureCapacity key with hsame | ⟨-, k, hk, hflow, hsession⟩
      · rw [hsame, hlive]
      · rw [hlive] at hsession
        exact absurd (eq_of_flow_eq hflow hsession ▸ hk) hnot
    rw [recordUnder_of_get?_none hstream]
    have hkeys : (store.ensureCapacity.withStream settings key p).streams.keys =
        store.ensureCapacity.streams.keys ++ [key] := keys_alter_of_not_mem hnot' _
    refine ⟨?_, ?_, hcap.bound_le⟩
    · rw [hkeys, pairwise_append]
      refine ⟨hcap.ordered, pairwise_singleton _ _, ?_⟩
      intro a ha b hb hflow
      rw [mem_singleton.mp hb] at hflow ⊢
      have hle := hcap.le_live a ha
      rw [liveKey_congr _ hflow, hlive'] at hle
      have hne : a.session ≠ key.session := fun heq => hnot' (eq_of_flow_eq hflow heq ▸ ha)
      omega
    · intro k hk
      rw [hkeys, mem_append, mem_singleton] at hk
      rw [liveKey_withStream]
      rcases hk with hk | rfl
      · exact hcap.le_live k hk
      · rw [hlive']

/-! ### Packets -/

/-- The store in front of a packet that is recorded: a flow whose live stream is left gets its next
session. -/
def StreamStore.turned (store : StreamStore) (p : RtpPacket) : StreamStore :=
  if (store.liveStream p.flow).any (fun s => store.callChanged s (store.liveKey p.flow)) then
    { store with
      liveSessions := store.liveSessions.insert p.flow ((store.liveKey p.flow).session + 1) }
  else store

theorem streams_turned : (store.turned p).streams = store.streams := by
  rw [StreamStore.turned]
  split_ifs <;> rfl

theorem sdpEndpoints_turned : (store.turned p).sdpEndpoints = store.sdpEndpoints := by
  rw [StreamStore.turned]
  split_ifs <;> rfl

theorem bindingSeq_turned : (store.turned p).bindingSeq = store.bindingSeq := by
  rw [StreamStore.turned]
  split_ifs <;> rfl

theorem liveKey_liveKey (store : StreamStore) (key : StreamKey) :
    store.liveKey (store.liveKey key) = store.liveKey key :=
  liveKey_congr store (flow_liveKey store key)

theorem liveKey_insert_self (store : StreamStore) (p : RtpPacket) (session : ℕ) :
    ({ store with liveSessions := store.liveSessions.insert p.flow session }).liveKey p.flow =
      { p.flow with session } := by
  have hget : (store.liveSessions.insert p.flow session).get? p.flow.flow = some session := by
    rw [get?_insert]
    exact if_pos rfl
  rw [StreamStore.liveKey]
  rw [hget]
  rfl

theorem liveKey_turned_of_ne {p : RtpPacket} {key : StreamKey} (hne : key.flow ≠ p.flow) :
    (store.turned p).liveKey key = store.liveKey key := by
  apply liveKey_of_sessions
  rw [StreamStore.turned]
  split_ifs
  · dsimp only
    rw [get?_insert, if_neg hne]
  · rfl

theorem recordRtp_eq_turned (store : StreamStore) (p : RtpPacket) :
    store.recordRtp settings p =
      (store.turned p).recordUnder settings ((store.turned p).liveKey p.flow) p := by
  have hkey : ({ ssrc := p.header.ssrc, src := p.src, dst := p.dst } : StreamKey) = p.flow := rfl
  rw [StreamStore.recordRtp, hkey, StreamStore.turned, StreamStore.liveStream]
  dsimp only
  cases hstream : store.streams.get? (store.liveKey p.flow) with
  | none => rfl
  | some s =>
    rw [any_some]
    dsimp only
    by_cases hchanged : store.callChanged s (store.liveKey p.flow) = true
    · have hflow : ({ store.liveKey p.flow with session := (store.liveKey p.flow).session + 1 } :
          StreamKey) = { p.flow with session := (store.liveKey p.flow).session + 1 } := by
        rw [liveKey_flow]
        rfl
      rw [if_pos hchanged, if_pos hchanged, liveKey_insert_self, hflow]
      rfl
    · rw [if_neg hchanged, if_neg hchanged]

section

variable (h : store.InOrder)
include h

theorem StreamStore.InOrder.turned (p : RtpPacket) : (store.turned p).InOrder := by
  refine ⟨?_, ?_, ?_⟩
  · rw [streams_turned]
    exact h.ordered
  · intro key hkey
    rw [streams_turned] at hkey
    by_cases hflow : key.flow = p.flow
    · refine (h.le_live key hkey).trans ?_
      rw [liveKey_congr store (b := p.flow) hflow, liveKey_congr _ (b := p.flow) hflow,
        StreamStore.turned]
      split_ifs
      · rw [liveKey_insert_self]
        exact Nat.le_succ _
      · exact le_refl _
    · rw [liveKey_turned_of_ne hflow]
      exact h.le_live key hkey
  · rw [sdpEndpoints_turned, bindingSeq_turned]
    exact h.bound_le

theorem StreamStore.InOrder.recordRtp (settings : StreamSettings) (p : RtpPacket) :
    (store.recordRtp settings p).InOrder := by
  rw [recordRtp_eq_turned]
  exact (h.turned p).recordUnder settings (liveKey_liveKey _ _) p

theorem StreamStore.InOrder.liveStream_turned {p : RtpPacket} (hstarts : store.StartsStream p) :
    (store.turned p).liveStream p.flow = none := by
  cases hstream : store.liveStream p.flow with
  | none =>
    rw [StreamStore.turned, hstream]
    exact hstream
  | some s =>
    have hturned : store.turned p = { store with
        liveSessions := store.liveSessions.insert p.flow ((store.liveKey p.flow).session + 1) } := by
      rw [StreamStore.turned, hstream]
      exact if_pos (hstarts s hstream)
    rw [hturned, StreamStore.liveStream, liveKey_insert_self]
    apply IndexMap.get?_eq_none_iff.mpr
    intro hkey
    have hle := h.le_live _ hkey
    rw [liveKey_congr store (b := p.flow) rfl] at hle
    exact absurd hle (Nat.not_succ_le_self _)

theorem StreamStore.InOrder.liveStream_of_starts (settings : StreamSettings) {p : RtpPacket}
    (hstarts : store.StartsStream p) :
    ∃ t, (store.recordRtp settings p).liveStream p.flow = some t ∧
      t.associatedDialog = ((store.recordsOf p).find?
        (fun e => !sdpEndpointExpired e p.timestamp)).map SdpEndpoint.callId ∧
      t.bindingSeqAtStart = store.bindingSeq := by
  have hnone := h.liveStream_turned hstarts
  have hturned := h.turned p
  rw [recordRtp_eq_turned]
  generalize hstore : store.turned p = turned at *
  generalize hkey : turned.liveKey p.flow = key at *
  have hkept : turned.ensureCapacity.liveKey p.flow = key := by
    rcases hturned.live_ensureCapacity p.flow with hsame | ⟨-, k, hk, hflow, hsession⟩
    · rw [hsame, hkey]
    · rw [hkey] at hsession
      rw [StreamStore.liveStream, hkey] at hnone
      have heq : k = key := eq_of_flow_eq (hflow.trans (hkey ▸ (flow_liveKey _ _).symm)) hsession
      exact absurd (heq ▸ hk) (IndexMap.get?_eq_none_iff.mp hnone)
  refine ⟨turned.ensureCapacity.startStream settings key p, ?_, ?_, ?_⟩
  · rw [StreamStore.liveStream, hkey] at hnone
    rw [recordUnder_of_get?_none hnone, StreamStore.liveStream, liveKey_withStream, hkept,
      get?_withStream, if_pos rfl]
  · have hsockets : [key.src, key.dst] = [p.src, p.dst] := by
      have hflow : key.flow = p.flow := hkey ▸ flow_liveKey _ _
      have hsrc : key.src = p.src := congrArg StreamKey.src hflow
      have hdst : key.dst = p.dst := congrArg StreamKey.dst hflow
      rw [hsrc, hdst]
    rw [(startStream_spec settings key p).1, sdpEndpoints_ensureCapacity, hsockets, ← hstore,
      sdpEndpoints_turned]
    rfl
  · rw [(startStream_spec settings key p).2, bindingSeq_ensureCapacity, ← hstore, bindingSeq_turned]

theorem StreamStore.InOrder.liveStream_of_ne (settings : StreamSettings) {p : RtpPacket}
    {flow : StreamKey} (hne : flow.flow ≠ p.flow) :
    (store.recordRtp settings p).liveStream flow = store.liveStream flow ∨
      (store.recordRtp settings p).liveStream flow = none := by
  have hturned := h.turned p
  have hlive : (store.turned p).liveKey flow = store.liveKey flow := liveKey_turned_of_ne hne
  have hstream : (store.turned p).liveStream flow = store.liveStream flow := by
    rw [StreamStore.liveStream, hlive, streams_turned]
    rfl
  rw [recordRtp_eq_turned, ← hstream]
  generalize store.turned p = turned at *
  generalize hkey : turned.liveKey p.flow = key
  have hkeyNe : ∀ (store' : StreamStore), store'.liveKey flow ≠ key := by
    intro store' heq
    apply hne
    rw [← flow_liveKey store' flow, heq, ← hkey, flow_liveKey]
    rfl
  cases hget : turned.streams.get? key with
  | some s =>
    left
    rw [recordUnder_of_some hget, StreamStore.liveStream, StreamStore.liveStream]
    rw [get?_insert, if_neg (hkeyNe _)]
    rfl
  | none =>
    rw [recordUnder_of_get?_none hget, StreamStore.liveStream, liveKey_withStream, get?_withStream,
      if_neg (hkeyNe _)]
    rcases hturned.live_ensureCapacity flow with hsame | ⟨hgone, -⟩
    · rw [StreamStore.liveStream, hsame]
      cases hevicted : turned.ensureCapacity.streams.get? (turned.liveKey flow) with
      | none => exact Or.inr rfl
      | some s => exact Or.inl (get?_of_get?_ensureCapacity hevicted).symm
    · right
      rw [get?_eq_none_iff]
      exact fun hmem => hgone _ hmem (flow_liveKey _ _)

end

theorem liveStream_of_not_starts {p : RtpPacket} (hkept : ¬ store.StartsStream p) :
    ∃ s, store.liveStream p.flow = some s ∧ (store.recordRtp settings p).liveStream p.flow =
      some (s.update p.header p.timestamp p.payloadLen) := by
  obtain ⟨s, hs, hsame⟩ : ∃ s, store.liveStream p.flow = some s ∧
      store.callChanged s (store.liveKey p.flow) = false := by
    simpa [StreamStore.StartsStream, StreamStore.liveStream] using hkept
  have hturned : store.turned p = store := by
    rw [StreamStore.turned, hs, any_some, hsame]
    rfl
  refine ⟨s, hs, ?_⟩
  have hget : store.streams.get? (store.liveKey p.flow) = some s := hs
  rw [recordRtp_eq_turned, hturned, recordUnder_of_some hget, StreamStore.liveStream]
  exact (get?_insert _ _ _ _).trans (if_pos rfl)

theorem sdpEndpoints_recordUnder :
    (store.recordUnder settings key p).sdpEndpoints = store.sdpEndpoints := by
  cases hget : store.streams.get? key with
  | some s => rw [recordUnder_of_some hget]
  | none =>
    rw [recordUnder_of_get?_none hget]
    exact sdpEndpoints_ensureCapacity

theorem sdpEndpoints_recordRtp :
    (store.recordRtp settings p).sdpEndpoints = store.sdpEndpoints := by
  rw [recordRtp_eq_turned, sdpEndpoints_recordUnder, sdpEndpoints_turned]

end Store

/-! ## Runs -/

/-- The live stream of the flow began when the counter stood at `began`. A socket that went to a
call since then was named for the call by one of the links. -/
structure SinceStart (flow : StreamKey) (began : ℕ) (links : List SdpLink) (store : StreamStore) :
    Prop where
  inOrder : store.InOrder
  live : ∀ s, store.liveStream flow = some s → s.bindingSeqAtStart = began
  records : ∀ socket e, store.sdpEndpoints.get? socket = some e →
    e.boundSeq ≤ began ∨ ∃ l ∈ links, l.socket = socket ∧ l.callId = e.callId

section SinceStart

variable {settings : StreamSettings} {flow : StreamKey} {began : ℕ} {links : List SdpLink}
  {store : StreamStore}

theorem StreamStore.InOrder.sinceStart (h : store.InOrder) {p : RtpPacket}
    (hstarts : store.StartsStream p) :
    SinceStart p.flow store.bindingSeq [] (store.recordRtp settings p) := by
  obtain ⟨t, ht, -, hbegan⟩ := h.liveStream_of_starts settings hstarts
  refine ⟨h.recordRtp settings p, ?_, ?_⟩
  · intro s hs
    rw [ht] at hs
    obtain rfl := some.inj hs
    exact hbegan
  · intro socket e he
    rw [sdpEndpoints_recordRtp] at he
    exact Or.inl (h.bound_le socket e he)

theorem SinceStart.link (h : SinceStart flow began links store) (link : SdpLink) :
    SinceStart flow began (links ++ [link]) (store.linkEndpointFrom link) := by
  refine ⟨h.inOrder.linkEndpointFrom link, ?_, ?_⟩
  · intro s hs
    rw [StreamStore.liveStream, liveKey_of_sessions store (by rw [liveSessions_linkEndpointFrom]),
      get?_linkEndpointFrom, map_eq_some_iff] at hs
    obtain ⟨old, hold, rfl⟩ := hs
    rw [apply_ite RtpStream.bindingSeqAtStart, began_linkFrom, ite_self]
    exact h.live old hold
  · intro socket e he
    rcases record_of_linkEndpointFrom he with ⟨hsocket, hcall, -⟩ | ⟨old, hold, hcall, hbound⟩
    · exact Or.inr ⟨link, mem_append_right _ mem_cons_self, hsocket.symm, hcall.symm⟩
    · rw [← hbound, ← hcall]
      refine (h.records socket old hold).imp_right ?_
      rintro ⟨l, hl, hlink⟩
      exact ⟨l, mem_append_left _ hl, hlink⟩

theorem SinceStart.packet (h : SinceStart flow began links store) {p : RtpPacket}
    (hkept : p.flow = flow → ¬ store.StartsStream p) (hflow : flow.flow = flow) :
    SinceStart flow began links (store.recordRtp settings p) := by
  refine ⟨h.inOrder.recordRtp settings p, ?_, ?_⟩
  · intro s hs
    by_cases hsame : p.flow = flow
    · subst hsame
      obtain ⟨old, hold, hupdated⟩ := liveStream_of_not_starts settings (hkept rfl)
      rw [hupdated] at hs
      obtain rfl := some.inj hs
      rw [(update_sameBinding old _ _ _).began]
      exact h.live old hold
    · have hne : flow.flow ≠ p.flow := fun heq => hsame (hflow ▸ heq.symm)
      rcases h.inOrder.liveStream_of_ne settings hne with hleft | hgone
      · rw [hleft] at hs
        exact h.live s hs
      · rw [hgone] at hs
        cases hs
  · rw [sdpEndpoints_recordRtp]
    exact h.records

end SinceStart

section Runs

variable {settings : StreamSettings} {maxStreams : ℕ} {events : List MediaEvent}

theorem inOrder_after (settings : StreamSettings) (maxStreams : ℕ) (events : List MediaEvent) :
    (StreamStore.after settings maxStreams events).InOrder := by
  induction events using List.reverseRecOn with
  | nil =>
    refine ⟨List.Pairwise.nil, ?_, ?_⟩
    · exact fun key hkey => by cases hkey
    · exact fun socket e he => by cases he
  | append_singleton events event ih =>
    rw [after_concat]
    cases event with
    | link link => exact ih.linkEndpointFrom link
    | rtp p => exact ih.recordRtp settings p

theorem Lives.sinceStart {before during : List MediaEvent} {opening : RtpPacket}
    (h : Lives settings maxStreams before opening during) :
    SinceStart opening.flow (StreamStore.after settings maxStreams before).bindingSeq
      (linksOf during) (.after settings maxStreams (before ++ .rtp opening :: during)) := by
  induction during using List.reverseRecOn with
  | nil =>
    rw [after_concat]
    exact (inOrder_after settings maxStreams before).sinceStart h.starts
  | append_singleton during event ih =>
    have hbefore : Lives settings maxStreams before opening during := by
      refine ⟨h.starts, ?_⟩
      intro earlier q later hsplit
      apply h.kept earlier q (later ++ [event])
      rw [hsplit, append_assoc, cons_append]
    rw [← cons_append, ← append_assoc, after_concat, linksOf_append]
    cases event with
    | link link => exact (ih hbefore).link link
    | rtp p =>
      have hnone : linksOf [.rtp p] = [] := rfl
      rw [hnone, append_nil]
      exact (ih hbefore).packet (h.kept during p [] rfl) rfl

theorem exists_record_of_callChanged {store : StreamStore} {s : RtpStream} {key : StreamKey}
    (h : store.callChanged s key = true) :
    ∃ socket ∈ [key.src, key.dst], ∃ e, store.sdpEndpoints.get? socket = some e ∧
      s.bindingSeqAtStart < e.boundSeq ∧ s.associatedDialog ≠ some e.callId := by
  rw [StreamStore.callChanged] at h
  cases hmine : s.associatedDialog with
  | none =>
    rw [hmine] at h
    cases h
  | some mine =>
    rw [hmine, renegotiatedByAnotherCall, List.any_eq_true] at h
    obtain ⟨x, hx, hmoved⟩ := h
    obtain ⟨e, he, rfl⟩ := List.mem_map.mp hx
    obtain ⟨socket, hsocket, hget⟩ := mem_filterMap.mp he
    obtain ⟨hlater, hcall⟩ := of_decide_eq_true hmoved
    exact ⟨socket, hsocket, e, hget, hlater, fun heq => hcall (some.inj heq).symm⟩

/-- The call of a new session is not the one of the session before exactly if the source socket is
away from that call and a socket is with another one. -/
theorem StreamStore.splitsAway_iff {store : StreamStore} {p : RtpPacket} {s : RtpStream} :
    store.SplitsAway p s ↔ ∃ call, ((store.recordsOf p).find?
      (fun e => !sdpEndpointExpired e p.timestamp)).map SdpEndpoint.callId = some call ∧
        s.associatedDialog ≠ some call := by
  rw [StreamStore.SplitsAway, StreamStore.recordsOf]
  cases hsrc : store.sdpEndpoints.get? p.src with
  | none =>
    cases hdst : store.sdpEndpoints.get? p.dst with
    | none => simp [hsrc, hdst]
    | some e => cases hexpired : sdpEndpointExpired e p.timestamp <;> simp [hsrc, hdst, hexpired]
  | some e =>
    cases hexpired : sdpEndpointExpired e p.timestamp with
    | false =>
      simp only [filterMap_cons, hsrc, hexpired, List.find?_cons_of_pos, Bool.not_false,
        mem_def, Option.some.injEq, forall_eq', true_implies, mem_cons,
        map_some, exists_eq_left', and_iff_left_iff_imp]
      exact fun hcall => ⟨e, Or.inl rfl, hexpired, hcall⟩
    | true =>
      cases hdst : store.sdpEndpoints.get? p.dst with
      | none => simp [hsrc, hdst, hexpired]
      | some e' =>
        cases hexpired' : sdpEndpointExpired e' p.timestamp <;>
          simp [hsrc, hdst, hexpired, hexpired']

/-- In a run whose packets all meet the condition, both laws hold at every packet. -/
theorem split_laws_of_cleanSplits (h : CleanSplits settings maxStreams events) :
    SplitLaws settings maxStreams events := by
  refine ⟨?_, ?_⟩
  · intro before p later s hevents hsplits
    have hstarts : (StreamStore.after settings maxStreams before).StartsStream p := by
      intro t ht
      obtain rfl : s = t := some.inj (hsplits.1.symm.trans ht)
      exact hsplits.2
    obtain ⟨t, ht, hcall, -⟩ :=
      (inOrder_after settings maxStreams before).liveStream_of_starts settings hstarts
    obtain ⟨call, hresolved, hne⟩ :=
      StreamStore.splitsAway_iff.mp (h.away before p later s hevents hsplits)
    rw [after_concat]
    exact ⟨t, call, ht, hcall.trans hresolved, hne⟩
  · intro before opening during p later s hevents hflow hlives hrepeats hsplits
    obtain ⟨hlive, hchanged⟩ := hsplits
    have hsince := hlives.sinceStart
    obtain ⟨socket, hsocket, e, he, hlater, hcall⟩ := exists_record_of_callChanged hchanged
    have hkey : (StreamStore.liveKey
        (.after settings maxStreams (before ++ .rtp opening :: during)) p.flow).flow = p.flow :=
      flow_liveKey _ _
    have hon : socket = p.src ∨ socket = p.dst := by
      have hsrc := congrArg StreamKey.src hkey
      have hdst := congrArg StreamKey.dst hkey
      rw [mem_cons, mem_singleton] at hsocket
      exact hsocket.imp (fun heq => heq.trans hsrc) (fun heq => heq.trans hdst)
    have hbegan := hsince.live s (hflow ▸ hlive)
    rcases hsince.records socket e he with hle | ⟨l, hl, hlsocket, hlcall⟩
    · omega
    · have hlon : l.On opening.flow := by
        rw [SdpLink.On, hlsocket, ← hflow]
        exact hon
      obtain ⟨first, hfirst, hfirstSocket, hfirstCall⟩ := hrepeats l hl hlon
      apply h.newcomers before opening during p later s hevents hflow hlives hlive socket hon e he
        hlater hcall
      exact ⟨first, hfirst, hfirstSocket.trans hlsocket, hfirstCall.trans hlcall⟩

end Runs

/-! ### Two calls on one flow -/

def names (socket : SocketAddr) (callId : String) (time : ℤ) : MediaEvent :=
  .link { socket, callId, provenance := .observed .wire (seconds time) }

def sourceTaken : List MediaEvent :=
  [names mediaSocket "call-a" 0, .rtp (mediaPacket (seconds 1)), names mediaSocket "call-b" 2,
    .rtp (mediaPacket (seconds 3))]

theorem split_laws_of_source_taken :
    CleanSplits {} 100 sourceTaken ∧ SplitLaws {} 100 sourceTaken := by
  have hcalled : ∀ s, StreamStore.liveStream (.after {} 100 (sourceTaken.take 3)) mediaKey =
      some s → s.associatedDialog = some "call-a" := by
    intro s hs
    have hdialog : (StreamStore.liveStream (.after {} 100 (sourceTaken.take 3)) mediaKey).map
        RtpStream.associatedDialog = some (some "call-a") := by decide +kernel
    rw [hs] at hdialog
    exact some.inj hdialog
  have hclean : CleanSplits {} 100 sourceTaken := by
    refine ⟨?_, ?_⟩
    · intro before p later s hevents hsplits
      rcases before with _ | ⟨a, _ | ⟨b, _ | ⟨c, _ | ⟨d, before⟩⟩⟩⟩
      · cases hevents
      · cases hevents
        cases hsplits.1
      · cases hevents
      · cases hevents
        rw [StreamStore.SplitsAway, hcalled s hsplits.1]
        decide +kernel
      · cases before <;> cases hevents
    · intro before opening during p later s hevents _ _ hlive socket _ e _ _ hcall
      rintro ⟨l, hl, -, hlcall⟩
      rcases before with _ | ⟨a, _ | ⟨b, _ | ⟨c, _ | ⟨d, before⟩⟩⟩⟩
      · cases hevents
      · rcases during with _ | ⟨x, _ | ⟨y, during⟩⟩
        · cases hevents
        · cases hevents
          rw [hcalled s hlive] at hcall
          obtain rfl := mem_singleton.mp hl
          exact hcall (congrArg some hlcall)
        · cases during <;> cases hevents
      · cases hevents
      · cases during <;> cases hevents
      · cases before <;> cases hevents
  exact ⟨hclean, split_laws_of_cleanSplits hclean⟩

/-- The other end's socket goes to another call, the media's stays with its own. -/
def destinationTaken : List MediaEvent :=
  [names mediaSocket "call-a" 0, .rtp (mediaPacket (seconds 1)), names farSocket "call-b" 2]

def namedTwice : List MediaEvent :=
  [names mediaSocket "call-a" 0, names mediaSocket "call-b" 1]

/-- The new session is bound to the call it was to leave, and a re-offer of a call that had named
the socket already starts a session. -/
theorem split_keeps_call_and_forwarding_splits :
    (∃ s t, (StreamStore.after {} 100 destinationTaken).Splits (mediaPacket (seconds 3)) s ∧
      StreamStore.liveStream (.after {} 100
        (destinationTaken ++ [MediaEvent.rtp (mediaPacket (seconds 3))])) mediaKey = some t ∧
      s.associatedDialog = some "call-a" ∧ t.associatedDialog = some "call-a") ∧
    (∃ s, Lives {} 100 namedTwice (mediaPacket (seconds 2)) [names mediaSocket "call-a" 3] ∧
      StreamStore.Splits (.after {} 100 (namedTwice ++
        MediaEvent.rtp (mediaPacket (seconds 2)) :: [names mediaSocket "call-a" 3]))
        (mediaPacket (seconds 4)) s) ∧
    ¬ SplitLaws {} 100 (destinationTaken ++ [MediaEvent.rtp (mediaPacket (seconds 3))]) ∧
    ¬ SplitLaws {} 100 (namedTwice ++ MediaEvent.rtp (mediaPacket (seconds 2)) ::
      ([names mediaSocket "call-a" 3] ++ [MediaEvent.rtp (mediaPacket (seconds 4))])) := by
  have hkept : ∃ s t, (StreamStore.after {} 100 destinationTaken).Splits (mediaPacket (seconds 3)) s ∧
      StreamStore.liveStream (.after {} 100
        (destinationTaken ++ [MediaEvent.rtp (mediaPacket (seconds 3))])) mediaKey = some t ∧
      s.associatedDialog = some "call-a" ∧ t.associatedDialog = some "call-a" := by
    refine ⟨_, _, ⟨rfl, ?_⟩, rfl, ?_, ?_⟩ <;> decide +kernel
  have hforwarded : ∃ s,
      Lives {} 100 namedTwice (mediaPacket (seconds 2)) [names mediaSocket "call-a" 3] ∧
      StreamStore.Splits (.after {} 100 (namedTwice ++
        MediaEvent.rtp (mediaPacket (seconds 2)) :: [names mediaSocket "call-a" 3]))
        (mediaPacket (seconds 4)) s := by
    refine ⟨_, ⟨?_, ?_⟩, rfl, ?_⟩
    · exact fun s hs => by cases hs
    · intro earlier q later hduring
      rcases earlier with _ | ⟨x, earlier⟩
      · cases hduring
      · cases earlier <;> cases hduring
    · decide +kernel
  refine ⟨hkept, hforwarded, ?_, ?_⟩
  · intro hlaws
    obtain ⟨s, t, hsplits, ht, hs, htcall⟩ := hkept
    obtain ⟨u, call, hu, hucall, hne⟩ := hlaws.newCall destinationTaken _ [] s rfl hsplits
    obtain rfl : t = u := some.inj (ht.symm.trans hu)
    exact hne (hs.trans (htcall.symm.trans hucall))
  · intro hlaws
    obtain ⟨s, hlives, hsplits⟩ := hforwarded
    apply hlaws.forwarded namedTwice _ _ _ [] s rfl rfl hlives _ hsplits
    intro l hl _
    obtain rfl := mem_singleton.mp hl
    exact ⟨_, mem_cons_self, rfl, rfl⟩

end Sipnab
