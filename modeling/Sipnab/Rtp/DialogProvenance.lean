import Sipnab.Lib.Cuts
import Sipnab.Rtp.StreamStore

/-!
# Where a stream's call comes from

A stream that is bound to a call says over which source the call was named and who named it. That
is what one link said as long as no link mixes the record of its socket: the record is refreshed
field by field, who made the claim never, and also where the socket goes over to another call.
-/

namespace Sipnab

open List Option IndexMap

def SdpLink.On (link : SdpLink) (key : StreamKey) : Prop :=
  link.socket = key.src ∨ link.socket = key.dst

instance (link : SdpLink) (key : StreamKey) : Decidable (link.On key) :=
  inferInstanceAs (Decidable (_ ∨ _))

def linksOf (events : List MediaEvent) : List SdpLink :=
  events.filterMap (fun
    | .link link => some link
    | .rtp _ => none)

/-! ## The claims -/

/-- The stream has no call, or its call, the source and the claimant of one of the links. -/
def BoundBy (links : List SdpLink) (key : StreamKey) (s : RtpStream) : Prop :=
  ∀ callId, s.associatedDialog = some callId → ∃ link ∈ links, link.callId = callId ∧ link.On key ∧
    s.dialogOrigin = link.provenance.origin ∧ s.dialogAssertion = some link.provenance.assertedBy

/-- A record says of its call what links of this call on its socket said: one the source and the
claimant, one the time. -/
structure RecordedBy (links : List SdpLink) (socket : SocketAddr) (e : SdpEndpoint) : Prop where
  claim : ∃ link ∈ links, link.callId = e.callId ∧ link.socket = socket ∧
    e.provenance.origin = link.provenance.origin ∧
    e.provenance.assertedBy = link.provenance.assertedBy
  time : ∃ link ∈ links, link.callId = e.callId ∧ link.socket = socket ∧
    e.provenance.observedAt = link.provenance.observedAt

/-- No stream and no record lends one call what was said of another. -/
structure Attributed (links : List SdpLink) (store : StreamStore) : Prop where
  streams : ∀ key s, store.streams.get? key = some s → BoundBy links key s
  endpoints : ∀ socket e, store.sdpEndpoints.get? socket = some e → RecordedBy links socket e

def IndexedOnSockets (index : IndexMap SocketAddr (List StreamKey)) : Prop :=
  ∀ socket keys, index.get? socket = some keys → ∀ key ∈ keys, socket = key.src ∨ socket = key.dst

/-- The link does not mix the record of its socket. Either the record comes to say what the link
says, or the call is the same and the record keeps what it says. -/
def KeepsApart (store : StreamStore) (link : SdpLink) : Prop :=
  ∀ e ∈ store.sdpEndpoints.get? link.socket,
    ((e.provenance.assertedBy = link.provenance.assertedBy ∧
        (link.provenance.origin.isSome ∨ e.provenance.origin = none)) ∨
      (e.callId = link.callId ∧
        (link.provenance.origin = none ∨ link.provenance.origin = e.provenance.origin))) ∧
    (e.callId = link.callId ∨ link.provenance.observedAt.isSome ∨ e.provenance.observedAt = none)

instance (store : StreamStore) (link : SdpLink) : Decidable (KeepsApart store link) :=
  inferInstanceAs (Decidable (∀ e ∈ store.sdpEndpoints.get? link.socket, _))

/-! ## One stream -/

section OneStream

variable {links : List SdpLink} {key : StreamKey} {s t : RtpStream}

structure SameBinding (s t : RtpStream) : Prop where
  dialog : s.associatedDialog = t.associatedDialog
  origin : s.dialogOrigin = t.dialogOrigin
  assertion : s.dialogAssertion = t.dialogAssertion
  firstSeen : s.firstSeen = t.firstSeen
  began : s.bindingSeqAtStart = t.bindingSeqAtStart

theorem BoundBy.congr (h : BoundBy links key s) (hsame : SameBinding t s) :
    BoundBy links key t := by
  intro callId hdialog
  rw [hsame.dialog] at hdialog
  rw [hsame.origin, hsame.assertion]
  exact h callId hdialog

theorem BoundBy.mono {links' : List SdpLink} (h : BoundBy links key s) (hsub : links ⊆ links') :
    BoundBy links' key s := by
  intro callId hdialog
  obtain ⟨link, hlink, hsaid⟩ := h callId hdialog
  exact ⟨link, hsub hlink, hsaid⟩

theorem noteSequence_sameBinding (s : RtpStream) (sequence : BitVec 16) :
    SameBinding (s.noteSequence sequence) s := by
  unfold RtpStream.noteSequence
  dsimp only
  split_ifs <;> exact ⟨rfl, rfl, rfl, rfl, rfl⟩

theorem update_sameBinding (s : RtpStream) (header : RtpHeader) (timestamp : DateTime)
    (payloadLen : ℕ) : SameBinding (s.update header timestamp payloadLen) s := by
  have hkeeps := RtpStream.update_keeps (fun s => (s.associatedDialog, s.dialogOrigin,
      s.dialogAssertion, s.firstSeen, s.bindingSeqAtStart))
    (fun s header => rfl) (fun s jitter prevArrival prevRtpTs lastTimestamp intervalPackets => rfl)
    (fun s timestamp => rfl) s header timestamp payloadLen
  simp only [Prod.mk.injEq] at hkeeps
  obtain ⟨hdialog, horigin, hassertion, hfirst, hbegan⟩ := hkeeps
  have hnote := noteSequence_sameBinding { s with
    packetCount := s.packetCount + 1
    octetCount := s.octetCount + payloadLen
    lastSeen := timestamp } header.sequence
  exact ⟨hdialog.trans hnote.dialog, horigin.trans hnote.origin,
    hassertion.trans hnote.assertion, hfirst.trans hnote.firstSeen, hbegan.trans hnote.began⟩

theorem fillPtime_sameBinding (s : RtpStream) (ptime : Option ℕ) :
    SameBinding (s.fillPtime ptime) s := by
  rw [RtpStream.fillPtime]
  split_ifs <;> exact ⟨rfl, rfl, rfl, rfl, rfl⟩

theorem linkFrom_sameBinding (s : RtpStream) (callId : String) (rtpmap : List RtpmapEntry)
    (ptime : Option ℕ) (provenance : SdpProvenance) :
    SameBinding (s.linkFrom callId rtpmap ptime provenance) (s.bindDialog callId provenance) := by
  obtain ⟨hdialog, horigin, hassertion, hfirst, hbegan⟩ :=
    fillPtime_sameBinding (s.bindDialog callId provenance) ptime
  unfold RtpStream.linkFrom
  dsimp only
  split <;> exact ⟨hdialog, horigin, hassertion, hfirst, hbegan⟩

variable {e : SdpEndpoint}

theorem resolveFrom_sameBinding (h : sdpEndpointExpired e s.firstSeen = false) :
    SameBinding (s.resolveFrom e) (s.bindDialog e.callId e.provenance) := by
  obtain ⟨hdialog, horigin, hassertion, hfirst, hbegan⟩ :=
    fillPtime_sameBinding (s.bindDialog e.callId e.provenance) e.ptime
  unfold RtpStream.resolveFrom
  rw [if_neg (by simp [h])]
  dsimp only
  split <;> exact ⟨hdialog, horigin, hassertion, hfirst, hbegan⟩

theorem BoundBy.bindDialog (h : BoundBy links key s) {callId : String} {provenance : SdpProvenance}
    (hsaid : ∃ link ∈ links, link.callId = callId ∧ link.On key ∧
      provenance.origin = link.provenance.origin ∧
      provenance.assertedBy = link.provenance.assertedBy) :
    BoundBy links key (s.bindDialog callId provenance) := by
  rw [RtpStream.bindDialog]
  split_ifs with hnone
  · obtain ⟨link, hlink, hcall, hon, horigin, hassertion⟩ := hsaid
    intro c hc
    obtain rfl := some.inj hc
    exact ⟨link, hlink, hcall, hon, horigin, congrArg some hassertion⟩
  · exact h

theorem BoundBy.resolveFrom (h : BoundBy links key s) {socket : SocketAddr}
    (he : RecordedBy links socket e) (hsocket : socket = key.src ∨ socket = key.dst) :
    BoundBy links key (s.resolveFrom e) := by
  by_cases hexpired : sdpEndpointExpired e s.firstSeen = true
  · rw [RtpStream.resolveFrom, if_pos hexpired]
    exact h
  · obtain ⟨link, hlink, hcall, rfl, hclaim⟩ := he.claim
    exact (h.bindDialog ⟨link, hlink, hcall, hsocket, hclaim⟩).congr
      (resolveFrom_sameBinding (Bool.eq_false_iff.mpr hexpired))

end OneStream

/-! ## The index -/

section Index

variable {index : IndexMap SocketAddr (List StreamKey)} {key : StreamKey} {socket : SocketAddr}

section

variable (h : IndexedOnSockets index)
include h

theorem IndexedOnSockets.pushKey (hsocket : socket = key.src ∨ socket = key.dst) :
    IndexedOnSockets (StreamStore.pushKey index socket key) := by
  intro socket' keys hkeys k hk
  rw [StreamStore.pushKey, get?_alter] at hkeys
  split_ifs at hkeys with hsame
  · obtain rfl := some.inj hkeys
    subst hsame
    rcases mem_append.mp hk with hold | hnew
    · cases hbucket : index.get? socket' with
      | none =>
        rw [hbucket] at hold
        cases hold
      | some bucket =>
        rw [hbucket] at hold
        exact h socket' bucket hbucket k hold
    · obtain rfl := mem_singleton.mp hnew
      exact hsocket
  · exact h socket' keys hkeys k hk

theorem IndexedOnSockets.indexEndpoints (key : StreamKey) :
    IndexedOnSockets (StreamStore.indexEndpoints index key) := by
  rw [StreamStore.indexEndpoints]
  have hsrc := h.pushKey (Or.inl rfl : key.src = key.src ∨ key.src = key.dst)
  split_ifs
  · exact hsrc.pushKey (Or.inr rfl)
  · exact hsrc

theorem IndexedOnSockets.removeKey (socket : SocketAddr) (key : StreamKey) :
    IndexedOnSockets (StreamStore.removeKey index socket key) := by
  rw [StreamStore.removeKey]
  cases hbucket : index.get? socket with
  | none => exact h
  | some bucket =>
    dsimp only
    split_ifs
    · intro socket' keys hkeys
      exact h socket' keys (get?_of_get?_filter hkeys)
    · intro socket' keys hkeys k hk
      rw [get?_insert] at hkeys
      split_ifs at hkeys with hsame
      · obtain rfl := some.inj hkeys
        subst hsame
        exact h socket' bucket hbucket k (mem_filter.mp hk).1
      · exact h socket' keys hkeys k hk

theorem IndexedOnSockets.unindexEndpoints (key : StreamKey) :
    IndexedOnSockets (StreamStore.unindexEndpoints index key) := by
  rw [StreamStore.unindexEndpoints]
  split_ifs
  · exact (h.removeKey key.src key).removeKey key.dst key
  · exact h.removeKey key.src key

theorem IndexedOnSockets.foldl_unindexEndpoints (keys : List StreamKey) :
    IndexedOnSockets (keys.foldl StreamStore.unindexEndpoints index) := by
  induction keys generalizing index with
  | nil => exact h
  | cons key keys ih => exact ih (h.unindexEndpoints key)

end

end Index

/-! ## One step -/

section OneStep

variable {links : List SdpLink} {store : StreamStore} {link : SdpLink}

def SdpLink.refresh (link : SdpLink) (bindingSeq : ℕ) : Option SdpEndpoint → SdpEndpoint
  | some e =>
    { callId := link.callId
      rtpmap := if link.rtpmap.isEmpty then e.rtpmap else link.rtpmap
      ptime := link.ptime.or e.ptime
      provenance :=
        { e.provenance with
          origin := link.provenance.origin.or e.provenance.origin
          observedAt := link.provenance.observedAt.or e.provenance.observedAt }
      boundSeq := if e.callId ≠ link.callId then bindingSeq + 1 else e.boundSeq }
  | none =>
    { callId := link.callId
      rtpmap := link.rtpmap
      ptime := link.ptime
      provenance := link.provenance
      boundSeq := bindingSeq + 1 }

theorem get?_rememberSdpEndpoint_self :
    (store.rememberSdpEndpoint link).sdpEndpoints.get? link.socket =
      some (link.refresh store.bindingSeq (store.sdpEndpoints.get? link.socket)) := by
  rw [StreamStore.rememberSdpEndpoint]
  cases store.sdpEndpoints.get? link.socket with
  | none =>
    rw [get?_insert, if_pos rfl]
    rfl
  | some e =>
    rw [get?_insert, if_pos rfl, SdpLink.refresh]
    split_ifs <;> rfl

variable {socket : SocketAddr} {e : SdpEndpoint} (settings : StreamSettings) (key : StreamKey)

theorem get?_of_get?_rememberSdpEndpoint (hne : socket ≠ link.socket)
    (h : (store.rememberSdpEndpoint link).sdpEndpoints.get? socket = some e) :
    store.sdpEndpoints.get? socket = some e := by
  rw [StreamStore.rememberSdpEndpoint] at h
  cases hold : store.sdpEndpoints.get? link.socket with
  | none =>
    rw [hold] at h
    rw [get?_insert, if_neg hne] at h
    split_ifs at h
    · exact get?_of_get?_dropFirst h
    · exact h
  | some old =>
    rw [hold] at h
    rwa [get?_insert, if_neg hne] at h

theorem streams_rememberSdpEndpoint : (store.rememberSdpEndpoint link).streams = store.streams := by
  rw [StreamStore.rememberSdpEndpoint]
  split <;> rfl

theorem endpointIndex_rememberSdpEndpoint :
    (store.rememberSdpEndpoint link).endpointIndex = store.endpointIndex := by
  rw [StreamStore.rememberSdpEndpoint]
  split <;> rfl

theorem endpointIndex_linkEndpointFrom :
    (store.linkEndpointFrom link).endpointIndex = store.endpointIndex := by
  rw [StreamStore.linkEndpointFrom]
  split <;> exact endpointIndex_rememberSdpEndpoint

theorem sdpEndpoints_linkEndpointFrom :
    (store.linkEndpointFrom link).sdpEndpoints = (store.rememberSdpEndpoint link).sdpEndpoints := by
  rw [StreamStore.linkEndpointFrom]
  split <;> rfl

theorem get?_linkEndpointFrom :
    (store.linkEndpointFrom link).streams.get? key = (store.streams.get? key).map (fun s =>
      if key ∈ (store.endpointIndex.get? link.socket).getD [] then
        s.linkFrom link.callId link.rtpmap link.ptime link.provenance
      else s) := by
  rw [StreamStore.linkEndpointFrom, endpointIndex_rememberSdpEndpoint]
  cases store.endpointIndex.get? link.socket with
  | none =>
    rw [streams_rememberSdpEndpoint]
    simp
  | some keys =>
    rw [get?_mapValues, streams_rememberSdpEndpoint]
    rfl

theorem recordedBy_refresh (h : Attributed links store) (hkeeps : KeepsApart store link) :
    RecordedBy (links ++ [link]) link.socket
      (link.refresh store.bindingSeq (store.sdpEndpoints.get? link.socket)) := by
  have hself : link ∈ links ++ [link] := mem_append_right _ mem_cons_self
  cases hold : store.sdpEndpoints.get? link.socket with
  | none => exact ⟨⟨link, hself, rfl, rfl, rfl, rfl⟩, ⟨link, hself, rfl, rfl, rfl⟩⟩
  | some e =>
    obtain ⟨hclaim, htime⟩ := hkeeps e hold
    obtain ⟨⟨l, hl, hlcall, hlsocket, hlorigin, hlassertion⟩, ⟨m, hm, hmcall, hmsocket, hmtime⟩⟩ :=
      h.endpoints link.socket e hold
    constructor
    · rcases hclaim with ⟨hassertion, horigin⟩ | ⟨hcall, horigin⟩
      · refine ⟨link, hself, rfl, rfl, ?_, hassertion⟩
        rcases horigin with hsome | hnone
        · obtain ⟨origin, horigin⟩ := isSome_iff_exists.mp hsome
          simp [SdpLink.refresh, horigin]
        · simp [SdpLink.refresh, hnone]
      · refine ⟨l, mem_append_left _ hl, hlcall.trans hcall, hlsocket, ?_, hlassertion⟩
        rw [← hlorigin]
        rcases horigin with hnone | hsame
        · simp [SdpLink.refresh, hnone]
        · simp [SdpLink.refresh, hsame]
    · cases hobserved : link.provenance.observedAt with
      | some t =>
        refine ⟨link, hself, rfl, rfl, ?_⟩
        simp [SdpLink.refresh, hobserved]
      | none =>
        rcases htime with hcall | hsome | hnone
        · refine ⟨m, mem_append_left _ hm, hmcall.trans hcall, hmsocket, ?_⟩
          rw [← hmtime]
          simp [SdpLink.refresh, hobserved]
        · rw [hobserved] at hsome
          cases hsome
        · refine ⟨link, hself, rfl, rfl, ?_⟩
          simp [SdpLink.refresh, hobserved, hnone]

theorem RecordedBy.mono {links' : List SdpLink} (h : RecordedBy links socket e)
    (hsub : links ⊆ links') : RecordedBy links' socket e := by
  obtain ⟨⟨l, hl, hclaim⟩, ⟨m, hm, htime⟩⟩ := h
  exact ⟨⟨l, hsub hl, hclaim⟩, ⟨m, hsub hm, htime⟩⟩

theorem Attributed.linkEndpointFrom (h : Attributed links store)
    (hindex : IndexedOnSockets store.endpointIndex) (hkeeps : KeepsApart store link) :
    Attributed (links ++ [link]) (store.linkEndpointFrom link) := by
  have hsub : links ⊆ links ++ [link] := subset_append_left _ _
  constructor
  · intro key s hs
    rw [get?_linkEndpointFrom, map_eq_some_iff] at hs
    obtain ⟨s, hold, rfl⟩ := hs
    have hbound := (h.streams key s hold).mono hsub
    split_ifs with hmem
    · cases hbucket : store.endpointIndex.get? link.socket with
      | none =>
        rw [hbucket] at hmem
        cases hmem
      | some keys =>
        rw [hbucket] at hmem
        have hon := hindex link.socket keys hbucket key hmem
        have hself : link ∈ links ++ [link] := mem_append_right _ mem_cons_self
        exact (hbound.bindDialog ⟨link, hself, rfl, hon, rfl, rfl⟩).congr
          (linkFrom_sameBinding _ _ _ _ _)
    · exact hbound
  · intro socket e he
    rw [sdpEndpoints_linkEndpointFrom] at he
    by_cases hsocket : socket = link.socket
    · subst hsocket
      rw [get?_rememberSdpEndpoint_self] at he
      obtain rfl := some.inj he
      exact recordedBy_refresh h hkeeps
    · exact (h.endpoints socket e (get?_of_get?_rememberSdpEndpoint hsocket he)).mono hsub

theorem get?_of_get?_ensureCapacity {key : StreamKey} {s : RtpStream}
    (h : store.ensureCapacity.streams.get? key = some s) : store.streams.get? key = some s := by
  rw [StreamStore.ensureCapacity] at h
  split_ifs at h
  · exact get?_of_get?_dropFirst h
  · exact h

theorem sdpEndpoints_ensureCapacity : store.ensureCapacity.sdpEndpoints = store.sdpEndpoints := by
  rw [StreamStore.ensureCapacity]
  split_ifs <;> rfl

theorem IndexedOnSockets.ensureCapacity (h : IndexedOnSockets store.endpointIndex) :
    IndexedOnSockets store.ensureCapacity.endpointIndex := by
  rw [StreamStore.ensureCapacity]
  split_ifs
  · exact h.foldl_unindexEndpoints _
  · exact h

theorem boundBy_startStream (packet : RtpPacket)
    (h : ∀ socket e, store.sdpEndpoints.get? socket = some e → RecordedBy links socket e) :
    BoundBy links key (store.startStream settings key packet) := by
  have hfold : ∀ (endpoints : List SdpEndpoint) (s : RtpStream),
      (∀ e ∈ endpoints, ∃ socket, (socket = key.src ∨ socket = key.dst) ∧
        RecordedBy links socket e) →
      BoundBy links key s → BoundBy links key (endpoints.foldl RtpStream.resolveFrom s) := by
    intro endpoints
    induction endpoints with
    | nil => exact fun s _ hs => hs
    | cons e endpoints ih =>
      intro s hrecorded hs
      obtain ⟨socket, hsocket, he⟩ := hrecorded e mem_cons_self
      exact ih _ (fun e' he' => hrecorded e' (mem_cons_of_mem _ he')) (hs.resolveFrom he hsocket)
  rw [StreamStore.startStream, StreamStore.resolveFromSdp]
  apply hfold
  · intro e he
    obtain ⟨socket, hsocket, hget⟩ := mem_filterMap.mp he
    have hmem : socket ∈ [key.src, key.dst] := hsocket
    rw [mem_cons, mem_singleton] at hmem
    exact ⟨socket, hmem, h socket e hget⟩
  · intro callId hdialog
    cases hdialog

theorem Attributed.recordUnder (h : Attributed links store) (settings : StreamSettings)
    (key : StreamKey) (packet : RtpPacket) :
    Attributed links (store.recordUnder settings key packet) := by
  rw [StreamStore.recordUnder]
  cases hstream : store.streams.get? key with
  | some stream =>
    refine ⟨?_, h.endpoints⟩
    intro key' s hs
    rw [get?_insert] at hs
    split_ifs at hs with hkey
    · obtain rfl := some.inj hs
      subst hkey
      exact (h.streams key' stream hstream).congr (update_sameBinding _ _ _ _)
    · exact h.streams key' s hs
  | none =>
    have hendpoints : ∀ socket e, store.ensureCapacity.sdpEndpoints.get? socket = some e →
        RecordedBy links socket e := by
      rw [sdpEndpoints_ensureCapacity]
      exact h.endpoints
    refine ⟨?_, hendpoints⟩
    intro key' s hs
    rw [get?_insert] at hs
    split_ifs at hs with hkey
    · obtain rfl := some.inj hs
      subst hkey
      exact boundBy_startStream settings key' packet hendpoints
    · exact h.streams key' s (get?_of_get?_ensureCapacity hs)

theorem IndexedOnSockets.recordUnder (h : IndexedOnSockets store.endpointIndex)
    (settings : StreamSettings) (key : StreamKey) (packet : RtpPacket) :
    IndexedOnSockets (store.recordUnder settings key packet).endpointIndex := by
  rw [StreamStore.recordUnder]
  split
  · exact h
  · exact h.ensureCapacity.indexEndpoints key

theorem recordRtp_eq (store : StreamStore) (packet : RtpPacket) :
    ∃ sessions key, store.recordRtp settings packet =
      ({ store with liveSessions := sessions }).recordUnder settings key packet := by
  rw [StreamStore.recordRtp]
  split
  · split_ifs
    · exact ⟨_, _, rfl⟩
    · exact ⟨store.liveSessions, _, rfl⟩
  · exact ⟨store.liveSessions, _, rfl⟩

end OneStep

/-! ## Runs -/

section Runs

variable {settings : StreamSettings} {maxStreams : ℕ} {events : List MediaEvent}

def NeverMixed (settings : StreamSettings) (maxStreams : ℕ) (events : List MediaEvent) : Prop :=
  Stepwise (fun before event =>
    ∀ link ∈ linksOf [event], KeepsApart (.after settings maxStreams before) link) events

instance : Decidable (NeverMixed settings maxStreams events) :=
  inferInstanceAs (Decidable (Stepwise _ events))

theorem after_concat (event : MediaEvent) :
    StreamStore.after settings maxStreams (events ++ [event]) =
      (StreamStore.after settings maxStreams events).step settings event := by
  rw [StreamStore.after, foldl_append]
  rfl

theorem linksOf_append (events' : List MediaEvent) :
    linksOf (events ++ events') = linksOf events ++ linksOf events' :=
  filterMap_append

theorem attributed_after (h : NeverMixed settings maxStreams events) :
    Attributed (linksOf events) (.after settings maxStreams events) ∧
      IndexedOnSockets (StreamStore.after settings maxStreams events).endpointIndex := by
  induction events using List.reverseRecOn with
  | nil =>
    refine ⟨⟨?_, ?_⟩, ?_⟩
    · exact fun key s hs => by cases hs
    · exact fun socket e he => by cases he
    · exact fun socket keys hkeys => by cases hkeys
  | append_singleton events event ih =>
    obtain ⟨hbefore, hlast⟩ := stepwise_concat.mp h
    obtain ⟨hattributed, hindex⟩ := ih hbefore
    rw [after_concat, linksOf_append]
    cases event with
    | link link =>
      refine ⟨hattributed.linkEndpointFrom hindex (hlast link mem_cons_self), ?_⟩
      rw [StreamStore.step, endpointIndex_linkEndpointFrom]
      exact hindex
    | rtp packet =>
      obtain ⟨sessions, key, hrecord⟩ :=
        recordRtp_eq settings (.after settings maxStreams events) packet
      rw [StreamStore.step, hrecord]
      have hnone : linksOf [.rtp packet] = [] := rfl
      rw [hnone, append_nil]
      have hsame : Attributed (linksOf events)
          { StreamStore.after settings maxStreams events with liveSessions := sessions } :=
        ⟨hattributed.streams, hattributed.endpoints⟩
      refine ⟨hsame.recordUnder settings key packet, ?_⟩
      exact @IndexedOnSockets.recordUnder
        { StreamStore.after settings maxStreams events with liveSessions := sessions } hindex
        settings key packet

/-- While no link mixes a record, every bound stream has the source and the claimant of one link
that named its call on one of its sockets, and every record is of one call. -/
theorem dialog_provenance_attributed (h : NeverMixed settings maxStreams events) :
    ∀ seen, seen <+: events → Attributed (linksOf seen) (.after settings maxStreams seen) := by
  rintro seen ⟨rest, rfl⟩
  exact (attributed_after (Stepwise.of_append h)).1

end Runs

/-! ### A socket that goes from one call to another -/

def mediaSocket : SocketAddr := (.v4 0x0a000001, 20000)

def farSocket : SocketAddr := (.v4 0x0a000002, 30000)

def seconds (n : ℤ) : DateTime := n * 1000000000

def mediaPacket (timestamp : DateTime) : RtpPacket where
  src := mediaSocket
  dst := farSocket
  inputOrigin := .wire
  header := { payloadType := 0, sequence := 1, timestamp := 0, ssrc := 0xABCD }
  payloadLen := 160
  timestamp

def mediaKey : StreamKey := { ssrc := 0xABCD, src := mediaSocket, dst := farSocket }

/-- The socket is named by a call, then by another one, and then media comes from it. -/
def reboundSocket (second : SdpProvenance) : List MediaEvent :=
  [.link { socket := mediaSocket, callId := "call-a", provenance := .observed .wire 0 },
    .link { socket := mediaSocket, callId := "call-b", provenance := second },
    .rtp (mediaPacket (seconds 2))]

/-- Both calls name the socket in their signaling. -/
theorem dialog_provenance_attributed_rebound :
    let events := reboundSocket (.observed .hep (seconds 1))
    NeverMixed {} 100 events ∧ Attributed (linksOf events) (.after {} 100 events) ∧
      ((StreamStore.after {} 100 events).streams.get? mediaKey).map (fun s =>
        (s.associatedDialog, s.dialogOrigin, s.dialogAssertion)) =
          some (some "call-b", some .hep, some .signaled) := by
  intro events
  have hnever : NeverMixed {} 100 events := by decide +kernel
  exact ⟨hnever, dialog_provenance_attributed hnever events (prefix_refl _),
    by decide +kernel⟩

/-- A relay names the socket for the second call: the stream has the source and the claimant of the
first. -/
theorem rebound_socket_lends_claim :
    let events := reboundSocket (.relayQueried .rtpengine (seconds 1))
    ((StreamStore.after {} 100 events).streams.get? mediaKey).map (fun s =>
      (s.associatedDialog, s.dialogOrigin, s.dialogAssertion)) =
        some (some "call-b", some .wire, some .signaled) ∧
    ¬ Attributed (linksOf events) (.after {} 100 events) := by
  intro events
  have hstream : ((StreamStore.after {} 100 events).streams.get? mediaKey).map (fun s =>
      (s.associatedDialog, s.dialogOrigin, s.dialogAssertion)) =
        some (some "call-b", some .wire, some .signaled) := by decide +kernel
  refine ⟨hstream, fun h => ?_⟩
  obtain ⟨s, hget, hfields⟩ := map_eq_some_iff.mp hstream
  simp only [Prod.mk.injEq] at hfields
  obtain ⟨hdialog, horigin, -⟩ := hfields
  obtain ⟨link, hlink, hcall, -, hsaid, -⟩ := h.streams mediaKey s hget "call-b" hdialog
  rw [horigin] at hsaid
  have hnone : ∀ link ∈ linksOf events, link.callId = "call-b" →
      link.provenance.origin ≠ some .wire := by decide +kernel
  exact hnone link hlink hcall hsaid.symm

end Sipnab
