import Sipnab.Rtp.DialogProvenance

/-!
# One flow in the store

What the store makes of the packets of one SSRC and socket pair depends on them and on the links of
the two sockets alone. A flow's view is what it comes to: the calls its sockets are named for, and
the calls its streams are bound to, session by session. While nothing is evicted, the store shows
the view of every flow.
-/

namespace Sipnab

open List IndexMap

/-! ## The view -/

namespace StreamKey

def inSession (flow : StreamKey) (session : ℕ) : StreamKey := { flow with session }

end StreamKey

def RtpPacket.flow (p : RtpPacket) : StreamKey :=
  { ssrc := p.header.ssrc, src := p.src, dst := p.dst }

def expiredAt (observedAt : Option DateTime) (now : DateTime) : Bool :=
  match observedAt with
  | none => false
  | some learned => decide (sdpEndpointTtlSecs < (now - learned).tdiv 1000000000)

/-- The call a socket is named for with the time of the naming, whether that is newer than the last
stream, and the calls of the streams. -/
structure FlowView where
  record : SocketAddr → Option (String × Option DateTime) := fun _ => none
  newer : SocketAddr → Bool := fun _ => false
  sessions : List (Option String) := []

namespace FlowView

/-- A link of a socket of the flow gives its call to the streams that have none. -/
def link (flow : StreamKey) (v : FlowView) (l : SdpLink) : FlowView :=
  if l.On flow then
    { record := Function.update v.record l.socket (some (l.callId,
        l.provenance.observedAt.or ((v.record l.socket).bind Prod.snd)))
      newer := Function.update v.newer l.socket (v.newer l.socket ||
        decide ((v.record l.socket).map Prod.fst ≠ some l.callId))
      sessions := v.sessions.map (fun call => call.or (some l.callId)) }
  else v

def records (flow : StreamKey) (v : FlowView) : List (String × Option DateTime) :=
  [flow.src, flow.dst].filterMap v.record

def resolve (flow : StreamKey) (v : FlowView) (now : DateTime) : Option String :=
  ((v.records flow).find? (fun r => !expiredAt r.2 now)).map Prod.fst

def renegotiated (flow : StreamKey) (v : FlowView) (mine : String) : Prop :=
  ∃ socket ∈ [flow.src, flow.dst], ∃ r ∈ v.record socket, v.newer socket = true ∧ r.1 ≠ mine

instance (flow : StreamKey) (v : FlowView) (mine : String) : Decidable (v.renegotiated flow mine) :=
  inferInstanceAs (Decidable (∃ socket ∈ [flow.src, flow.dst], ∃ r ∈ v.record socket, _))

/-- A packet starts a stream where there is none, or where the last one is bound to a call that a
socket is no longer named for. -/
def starts (flow : StreamKey) (v : FlowView) : Prop :=
  ∀ call ∈ v.sessions.getLast?, ∃ mine ∈ call, v.renegotiated flow mine

instance (flow : StreamKey) (v : FlowView) : Decidable (v.starts flow) :=
  inferInstanceAs (Decidable (∀ call ∈ v.sessions.getLast?, ∃ mine ∈ call, _))

def packet (flow : StreamKey) (v : FlowView) (now : DateTime) : FlowView :=
  if v.starts flow then
    { v with newer := fun _ => false, sessions := v.sessions ++ [v.resolve flow now] }
  else v

def step (flow : StreamKey) (v : FlowView) : MediaEvent → FlowView
  | .link l => v.link flow l
  | .rtp p => if p.flow = flow then v.packet flow p.timestamp else v

def after (flow : StreamKey) (events : List MediaEvent) : FlowView := events.foldl (step flow) {}

end FlowView

/-! ## Streams -/

variable (s : RtpStream) (callId : String) (provenance : SdpProvenance)

theorem associatedDialog_bindDialog :
    (s.bindDialog callId provenance).associatedDialog = s.associatedDialog.or (some callId) := by
  rw [RtpStream.bindDialog]
  cases hdialog : s.associatedDialog with
  | none => rfl
  | some mine =>
    rw [if_neg (by simp)]
    exact hdialog

theorem firstSeen_bindDialog : (s.bindDialog callId provenance).firstSeen = s.firstSeen := by
  rw [RtpStream.bindDialog]
  split_ifs <;> rfl

theorem began_bindDialog :
    (s.bindDialog callId provenance).bindingSeqAtStart = s.bindingSeqAtStart := by
  rw [RtpStream.bindDialog]
  split_ifs <;> rfl

variable (rtpmap : List RtpmapEntry) (ptime : Option ℕ)

theorem associatedDialog_linkFrom (provenance : SdpProvenance) :
    (s.linkFrom callId rtpmap ptime provenance).associatedDialog =
      s.associatedDialog.or (some callId) := by
  rw [(linkFrom_sameBinding s callId rtpmap ptime provenance).dialog, associatedDialog_bindDialog]

theorem began_linkFrom (provenance : SdpProvenance) :
    (s.linkFrom callId rtpmap ptime provenance).bindingSeqAtStart = s.bindingSeqAtStart := by
  rw [(linkFrom_sameBinding s callId rtpmap ptime provenance).began, began_bindDialog]

theorem foldl_resolveFrom (endpoints : List SdpEndpoint) (s : RtpStream) :
    (endpoints.foldl RtpStream.resolveFrom s).associatedDialog = s.associatedDialog.or
      ((endpoints.find? (fun e => !sdpEndpointExpired e s.firstSeen)).map SdpEndpoint.callId) ∧
    (endpoints.foldl RtpStream.resolveFrom s).bindingSeqAtStart = s.bindingSeqAtStart := by
  induction endpoints generalizing s with
  | nil => exact ⟨(Option.or_none).symm, rfl⟩
  | cons e endpoints ih =>
    obtain ⟨hdialog, hbegan⟩ := ih (s.resolveFrom e)
    rw [foldl_cons, hdialog, hbegan]
    by_cases hexpired : sdpEndpointExpired e s.firstSeen = true
    · have hsame : s.resolveFrom e = s := by rw [RtpStream.resolveFrom, if_pos hexpired]
      rw [hsame, List.find?_cons_of_neg (by simp [hexpired])]
      exact ⟨rfl, rfl⟩
    · have hbound := resolveFrom_sameBinding (Bool.eq_false_iff.mpr hexpired)
      rw [hbound.dialog, hbound.firstSeen, hbound.began, associatedDialog_bindDialog,
        firstSeen_bindDialog, began_bindDialog, List.find?_cons_of_pos (by simp [hexpired])]
      refine ⟨?_, rfl⟩
      cases s.associatedDialog <;> rfl

/-! ## The store while nothing is evicted -/

def StreamStore.Roomy (store : StreamStore) : Prop :=
  store.streams.length < store.maxStreams ∧ store.sdpEndpoints.length < store.maxStreams

instance (store : StreamStore) : Decidable store.Roomy := inferInstanceAs (Decidable (_ ∧ _))

/-- The index has every stream under its two sockets, and nothing else. -/
def StreamStore.Indexed (store : StreamStore) : Prop :=
  ∀ socket key, key ∈ (store.endpointIndex.get? socket).getD [] ↔
    (store.streams.get? key).isSome ∧ (socket = key.src ∨ socket = key.dst)

/-- The index is right, and nothing was bound or began after the counter. -/
structure StreamStore.Sane (store : StreamStore) : Prop where
  indexed : store.Indexed
  bound_le : ∀ socket e, store.sdpEndpoints.get? socket = some e → e.boundSeq ≤ store.bindingSeq
  began_le : ∀ key s, store.streams.get? key = some s → s.bindingSeqAtStart ≤ store.bindingSeq

section Store

variable {store : StreamStore} {link : SdpLink}

theorem ensureCapacity_of_roomy (hroom : store.Roomy) : store.ensureCapacity = store := by
  have hlt := hroom.1
  rw [StreamStore.ensureCapacity, if_neg (by omega)]

theorem get?_rememberSdpEndpoint (hroom : store.Roomy) (socket : SocketAddr) :
    (store.rememberSdpEndpoint link).sdpEndpoints.get? socket =
      if socket = link.socket then
        some (link.refresh store.bindingSeq (store.sdpEndpoints.get? link.socket))
      else store.sdpEndpoints.get? socket := by
  have hlt := hroom.2
  split_ifs with hsocket
  · rw [hsocket]
    exact get?_rememberSdpEndpoint_self
  · rw [StreamStore.rememberSdpEndpoint]
    cases store.sdpEndpoints.get? link.socket with
    | some e =>
      rw [get?_insert, if_neg hsocket]
    | none =>
      rw [get?_insert, if_neg hsocket, if_neg (by omega)]

theorem bindingSeq_linkEndpointFrom :
    (store.linkEndpointFrom link).bindingSeq =
      if (store.sdpEndpoints.get? link.socket).map SdpEndpoint.callId = some link.callId then
        store.bindingSeq
      else store.bindingSeq + 1 := by
  have hremember : (store.linkEndpointFrom link).bindingSeq =
      (store.rememberSdpEndpoint link).bindingSeq := by
    rw [StreamStore.linkEndpointFrom]
    split <;> rfl
  rw [hremember, StreamStore.rememberSdpEndpoint]
  cases store.sdpEndpoints.get? link.socket with
  | none => rfl
  | some e =>
    dsimp only
    rw [Option.map_some]
    by_cases hcall : e.callId = link.callId
    · rw [if_neg (not_not.mpr hcall), if_pos (congrArg some hcall)]
    · rw [if_pos hcall, if_neg (fun h => hcall (Option.some.inj h))]

theorem boundSeq_refresh (bindingSeq : ℕ) (old : Option SdpEndpoint) :
    (link.refresh bindingSeq old).boundSeq =
      if old.map SdpEndpoint.callId = some link.callId then
        (old.map SdpEndpoint.boundSeq).getD 0
      else bindingSeq + 1 := by
  cases old with
  | none => rfl
  | some e =>
    rw [SdpLink.refresh, Option.map_some]
    by_cases hcall : e.callId = link.callId
    · rw [if_pos (congrArg some hcall)]
      exact if_neg (not_not.mpr hcall)
    · rw [if_neg (fun h => hcall (Option.some.inj h))]
      exact if_pos hcall

theorem liveSessions_linkEndpointFrom :
    (store.linkEndpointFrom link).liveSessions = store.liveSessions := by
  have hremember : (store.rememberSdpEndpoint link).liveSessions = store.liveSessions := by
    rw [StreamStore.rememberSdpEndpoint]
    split <;> rfl
  rw [StreamStore.linkEndpointFrom]
  split <;> exact hremember

variable {key : StreamKey}

theorem StreamStore.Indexed.mem_bucket_iff (h : store.Indexed) {s : RtpStream}
    (hstream : store.streams.get? key = some s) :
    key ∈ (store.endpointIndex.get? link.socket).getD [] ↔ link.On key := by
  rw [h, hstream]
  simp [SdpLink.On]

theorem get?_linkEndpointFrom_of_on (h : store.Indexed) (hon : link.On key) :
    (store.linkEndpointFrom link).streams.get? key = (store.streams.get? key).map (fun s =>
      s.linkFrom link.callId link.rtpmap link.ptime link.provenance) := by
  rw [get?_linkEndpointFrom]
  cases hstream : store.streams.get? key with
  | none => rfl
  | some s => rw [Option.map_some, Option.map_some, if_pos ((h.mem_bucket_iff hstream).mpr hon)]

theorem get?_linkEndpointFrom_of_not_on (h : store.Indexed) (hon : ¬ link.On key) :
    (store.linkEndpointFrom link).streams.get? key = store.streams.get? key := by
  rw [get?_linkEndpointFrom]
  cases hstream : store.streams.get? key with
  | none => rfl
  | some s =>
    rw [Option.map_some, if_neg (fun hmem => hon ((h.mem_bucket_iff hstream).mp hmem))]

theorem StreamStore.Indexed.linkEndpointFrom (h : store.Indexed) :
    (store.linkEndpointFrom link).Indexed := by
  intro socket key
  rw [endpointIndex_linkEndpointFrom, h socket key, get?_linkEndpointFrom, Option.isSome_map]

theorem StreamStore.Sane.linkEndpointFrom (h : store.Sane) (hroom : store.Roomy) :
    (store.linkEndpointFrom link).Sane := by
  have hle : store.bindingSeq ≤ (store.linkEndpointFrom link).bindingSeq := by
    rw [bindingSeq_linkEndpointFrom]
    split_ifs <;> omega
  refine ⟨h.indexed.linkEndpointFrom, ?_, ?_⟩
  · intro socket e he
    rw [sdpEndpoints_linkEndpointFrom, get?_rememberSdpEndpoint hroom] at he
    split_ifs at he with hsocket
    · obtain rfl := Option.some.inj he
      rw [boundSeq_refresh, bindingSeq_linkEndpointFrom]
      split_ifs with hcall
      · cases hold : store.sdpEndpoints.get? link.socket with
        | none => exact Nat.zero_le _
        | some old => exact h.bound_le link.socket old hold
      · exact le_refl _
    · exact (h.bound_le socket e he).trans hle
  · intro key s hs
    refine le_trans ?_ hle
    by_cases hon : link.On key
    · rw [get?_linkEndpointFrom_of_on h.indexed hon, Option.map_eq_some_iff] at hs
      obtain ⟨s, hold, rfl⟩ := hs
      rw [began_linkFrom]
      exact h.began_le key s hold
    · rw [get?_linkEndpointFrom_of_not_on h.indexed hon] at hs
      exact h.began_le key s hs

/-! ### Packets -/

variable {socket : SocketAddr} {index : IndexMap SocketAddr (List StreamKey)} {k : StreamKey}

theorem mem_pushKey {socket' : SocketAddr} :
    k ∈ ((StreamStore.pushKey index socket key).get? socket').getD [] ↔
      k ∈ (index.get? socket').getD [] ∨ (k = key ∧ socket' = socket) := by
  rw [StreamStore.pushKey, get?_alter]
  split_ifs with hsocket
  · subst hsocket
    simp
  · simp [hsocket]

theorem mem_indexEndpoints :
    k ∈ ((StreamStore.indexEndpoints index key).get? socket).getD [] ↔
      k ∈ (index.get? socket).getD [] ∨ (k = key ∧ (socket = key.src ∨ socket = key.dst)) := by
  rw [StreamStore.indexEndpoints]
  split_ifs with hsame
  · rw [mem_pushKey, mem_pushKey]
    tauto
  · rw [not_not] at hsame
    rw [mem_pushKey, hsame, or_self]

def StreamStore.withStream (settings : StreamSettings) (store : StreamStore) (key : StreamKey)
    (packet : RtpPacket) : StreamStore :=
  { store with
    streams := store.streams.insert key (store.startStream settings key packet)
    endpointIndex := indexEndpoints store.endpointIndex key }

theorem recordUnder_of_none {settings : StreamSettings} {key : StreamKey} {packet : RtpPacket}
    (hroom : store.Roomy) (hnone : store.streams.get? key = none) :
    store.recordUnder settings key packet = store.withStream settings key packet := by
  rw [StreamStore.recordUnder, hnone]
  rw [ensureCapacity_of_roomy hroom]
  rfl

theorem recordUnder_of_some {settings : StreamSettings} {packet : RtpPacket} {s : RtpStream}
    (hstream : store.streams.get? key = some s) :
    store.recordUnder settings key packet =
      { store with
        streams := store.streams.insert key
          (s.update packet.header packet.timestamp packet.payloadLen) } := by
  rw [StreamStore.recordUnder, hstream]

theorem startStream_spec (settings : StreamSettings) (key : StreamKey) (packet : RtpPacket) :
    (store.startStream settings key packet).associatedDialog =
      (([key.src, key.dst].filterMap store.sdpEndpoints.get?).find?
        (fun e => !sdpEndpointExpired e packet.timestamp)).map SdpEndpoint.callId ∧
    (store.startStream settings key packet).bindingSeqAtStart = store.bindingSeq := by
  rw [StreamStore.startStream]
  exact foldl_resolveFrom _ _

theorem StreamStore.Indexed.withStream (h : store.Indexed) (settings : StreamSettings)
    (key : StreamKey) (packet : RtpPacket) : (store.withStream settings key packet).Indexed := by
  intro socket k
  rw [StreamStore.withStream]
  rw [mem_indexEndpoints, h socket k, get?_insert]
  by_cases hk : k = key
  · subst hk
    simp only [if_pos, Option.isSome_some, true_and]
    tauto
  · simp [hk]

theorem StreamStore.Sane.withStream (h : store.Sane) (settings : StreamSettings)
    (key : StreamKey) (packet : RtpPacket) : (store.withStream settings key packet).Sane := by
  refine ⟨h.indexed.withStream settings key packet, h.bound_le, ?_⟩
  intro k s hs
  rw [StreamStore.withStream] at hs
  rw [get?_insert] at hs
  split_ifs at hs
  · obtain rfl := Option.some.inj hs
    exact (startStream_spec settings key packet).2.le
  · exact h.began_le k s hs

theorem StreamStore.Sane.recordUnder (h : store.Sane) (hroom : store.Roomy)
    (settings : StreamSettings) (key : StreamKey) (packet : RtpPacket) :
    (store.recordUnder settings key packet).Sane := by
  cases hstream : store.streams.get? key with
  | none =>
    rw [recordUnder_of_none hroom hstream]
    exact h.withStream settings key packet
  | some s =>
    rw [recordUnder_of_some hstream]
    refine ⟨?_, h.bound_le, ?_⟩
    · intro socket k
      rw [h.indexed socket k, get?_insert]
      by_cases hk : k = key
      · subst hk
        rw [if_pos rfl, hstream]
        rfl
      · rw [if_neg hk]
    · intro k t ht
      rw [get?_insert] at ht
      split_ifs at ht
      · obtain rfl := Option.some.inj ht
        rw [(update_sameBinding _ _ _ _).began]
        exact h.began_le key s hstream
      · exact h.began_le k t ht

theorem StreamStore.Sane.step (h : store.Sane) (hroom : store.Roomy) (settings : StreamSettings)
    (event : MediaEvent) : (store.step settings event).Sane := by
  cases event with
  | link link => exact h.linkEndpointFrom hroom
  | rtp packet =>
    obtain ⟨sessions, key, hrecord⟩ := recordRtp_eq settings store packet
    have hsame : ({ store with liveSessions := sessions } : StreamStore).Sane :=
      ⟨h.indexed, h.bound_le, h.began_le⟩
    rw [StreamStore.step, hrecord]
    exact hsame.recordUnder hroom settings key packet

end Store

/-! ## The store shows the view -/

def SdpEndpoint.naming (e : SdpEndpoint) : String × Option DateTime :=
  (e.callId, e.provenance.observedAt)

@[simp] theorem expiredAt_naming (e : SdpEndpoint) (now : DateTime) :
    expiredAt e.naming.2 now = sdpEndpointExpired e now := rfl

/-- The store has the calls of the view on the flow's sockets and in its sessions. -/
structure Views (flow : StreamKey) (store : StreamStore) (v : FlowView) : Prop where
  record : ∀ socket, socket = flow.src ∨ socket = flow.dst →
    (store.sdpEndpoints.get? socket).map SdpEndpoint.naming = v.record socket
  session : ∀ k, (store.streams.get? (flow.inSession k)).map RtpStream.associatedDialog =
    v.sessions[k]?
  live : store.liveSessions.get? flow =
    if v.sessions.length ≤ 1 then none else some (v.sessions.length - 1)
  newer : ∀ socket e s, socket = flow.src ∨ socket = flow.dst →
    store.sdpEndpoints.get? socket = some e →
    store.streams.get? (flow.inSession (v.sessions.length - 1)) = some s →
    v.newer socket = decide (s.bindingSeqAtStart < e.boundSeq)

section Views

variable {flow : StreamKey} {store : StreamStore} {v : FlowView} {link : SdpLink}

theorem naming_refresh (bindingSeq : ℕ) (old : Option SdpEndpoint) :
    (link.refresh bindingSeq old).naming = (link.callId,
      link.provenance.observedAt.or ((old.map SdpEndpoint.naming).bind Prod.snd)) := by
  cases old with
  | none => simp [SdpLink.refresh, SdpEndpoint.naming]
  | some e => rfl

theorem map_fst_naming (e : Option SdpEndpoint) :
    (e.map SdpEndpoint.naming).map Prod.fst = e.map SdpEndpoint.callId := by
  rw [Option.map_map]
  rfl

theorem Views.link_of_on (h : Views flow store v) (hsane : store.Sane) (hroom : store.Roomy)
    (hon : link.On flow) :
    Views flow (store.linkEndpointFrom link) (v.link flow link) := by
  have hstream : ∀ k, (store.linkEndpointFrom link).streams.get? (flow.inSession k) =
      (store.streams.get? (flow.inSession k)).map (fun s =>
        s.linkFrom link.callId link.rtpmap link.ptime link.provenance) :=
    fun k => get?_linkEndpointFrom_of_on hsane.indexed hon
  rw [FlowView.link, if_pos hon]
  constructor
  · intro socket hsocket
    rw [sdpEndpoints_linkEndpointFrom, get?_rememberSdpEndpoint hroom]
    dsimp only
    split_ifs with hsame
    · subst hsame
      rw [Function.update_self, Option.map_some, naming_refresh, h.record _ hsocket]
    · rw [Function.update_of_ne hsame, h.record socket hsocket]
  · intro k
    rw [hstream, Option.map_map, List.getElem?_map, ← h.session k, Option.map_map]
    congr 1
    funext s
    exact associatedDialog_linkFrom _ _ _ _ _
  · rw [liveSessions_linkEndpointFrom, h.live, length_map]
  · intro socket e s hsocket he hs
    rw [length_map, hstream, Option.map_eq_some_iff] at hs
    obtain ⟨s, hs, rfl⟩ := hs
    rw [began_linkFrom]
    rw [sdpEndpoints_linkEndpointFrom, get?_rememberSdpEndpoint hroom] at he
    dsimp only
    split_ifs at he with hsame
    · subst hsame
      obtain rfl := Option.some.inj he
      rw [Function.update_self, boundSeq_refresh, ← h.record _ hsocket, map_fst_naming]
      by_cases hcall : (store.sdpEndpoints.get? link.socket).map SdpEndpoint.callId =
          some link.callId
      · obtain ⟨e, he, -⟩ := Option.map_eq_some_iff.mp hcall
        rw [if_pos hcall, decide_eq_false (not_not.mpr hcall), Bool.or_false,
          h.newer _ e s hsocket he hs, he]
        rfl
      · have hbegan := hsane.began_le _ s hs
        rw [if_neg hcall, decide_eq_true hcall, Bool.or_true, decide_eq_true (by omega)]
    · rw [Function.update_of_ne hsame]
      exact h.newer socket e s hsocket he hs

theorem Views.link_of_not_on (h : Views flow store v) (hsane : store.Sane) (hroom : store.Roomy)
    (hon : ¬ link.On flow) :
    Views flow (store.linkEndpointFrom link) (v.link flow link) := by
  have hget : ∀ socket, socket = flow.src ∨ socket = flow.dst →
      (store.linkEndpointFrom link).sdpEndpoints.get? socket = store.sdpEndpoints.get? socket := by
    intro socket hsocket
    have hne : socket ≠ link.socket := by
      rintro rfl
      exact hon hsocket
    rw [sdpEndpoints_linkEndpointFrom, get?_rememberSdpEndpoint hroom, if_neg hne]
  have hstream : ∀ k, (store.linkEndpointFrom link).streams.get? (flow.inSession k) =
      store.streams.get? (flow.inSession k) :=
    fun k => get?_linkEndpointFrom_of_not_on hsane.indexed hon
  rw [FlowView.link, if_neg hon]
  constructor
  · intro socket hsocket
    rw [hget socket hsocket]
    exact h.record socket hsocket
  · intro k
    rw [hstream]
    exact h.session k
  · rw [liveSessions_linkEndpointFrom]
    exact h.live
  · intro socket e s hsocket he hs
    rw [hget socket hsocket] at he
    rw [hstream] at hs
    exact h.newer socket e s hsocket he hs

/-! ### Packets -/

def StreamStore.liveSession (store : StreamStore) (flow : StreamKey) : ℕ :=
  (store.liveSessions.get? flow).getD 0

theorem liveKey_flow (store : StreamStore) (p : RtpPacket) :
    store.liveKey p.flow = p.flow.inSession (store.liveSession p.flow) := by
  have hflow : p.flow.flow = p.flow := rfl
  rw [StreamStore.liveKey, StreamStore.liveSession, hflow]
  cases store.liveSessions.get? p.flow <;> rfl

theorem recordRtp_eq_inSession (settings : StreamSettings) (store : StreamStore) (p : RtpPacket) :
    store.recordRtp settings p =
      match store.streams.get? (p.flow.inSession (store.liveSession p.flow)) with
      | some s =>
        if store.callChanged s (p.flow.inSession (store.liveSession p.flow)) then
          StreamStore.recordUnder settings
            { store with
              liveSessions := store.liveSessions.insert p.flow (store.liveSession p.flow + 1) }
            (p.flow.inSession (store.liveSession p.flow + 1)) p
        else store.recordUnder settings (p.flow.inSession (store.liveSession p.flow)) p
      | none => store.recordUnder settings (p.flow.inSession (store.liveSession p.flow)) p := by
  have hlive : store.liveKey { ssrc := p.header.ssrc, src := p.src, dst := p.dst } =
      p.flow.inSession (store.liveSession p.flow) := liveKey_flow store p
  rw [StreamStore.recordRtp, hlive]
  rfl

theorem Views.liveSession (h : Views flow store v) :
    store.liveSession flow = v.sessions.length - 1 := by
  rw [StreamStore.liveSession, h.live]
  split_ifs with hfew
  · simp only [Option.getD_none]
    omega
  · rfl

variable {k : ℕ}

theorem inSession_inj {m : ℕ} (h : flow.inSession k = flow.inSession m) : k = m :=
  congrArg StreamKey.session h

section

variable (h : Views flow store v)
include h

theorem Views.records :
    v.records flow =
      ([flow.src, flow.dst].filterMap store.sdpEndpoints.get?).map SdpEndpoint.naming := by
  rw [FlowView.records, map_filterMap]
  apply filterMap_congr
  intro socket hsocket
  rw [mem_cons, mem_singleton] at hsocket
  exact (h.record socket hsocket).symm

theorem Views.resolve (settings : StreamSettings) (k : ℕ) (p : RtpPacket) :
    (store.startStream settings (flow.inSession k) p).associatedDialog =
      v.resolve flow p.timestamp := by
  rw [(startStream_spec settings _ p).1, FlowView.resolve, h.records, List.find?_map, Option.map_map]
  rfl

theorem Views.withStream (hsane : store.Sane) (settings : StreamSettings) (p : RtpPacket)
    {sessions : IndexMap StreamKey ℕ}
    (hlive : sessions.get? flow = if v.sessions.length = 0 then none else some v.sessions.length) :
    Views flow (({ store with liveSessions := sessions } : StreamStore).withStream settings
      (flow.inSession v.sessions.length) p)
      { v with newer := fun _ => false, sessions := v.sessions ++ [v.resolve flow p.timestamp] } := by
  have hresolve : (StreamStore.startStream settings { store with liveSessions := sessions }
      (flow.inSession v.sessions.length) p).associatedDialog = v.resolve flow p.timestamp :=
    h.resolve settings v.sessions.length p
  constructor
  · exact h.record
  · intro k
    rw [StreamStore.withStream]
    rw [get?_insert]
    by_cases hk : k = v.sessions.length
    · subst hk
      rw [if_pos rfl, Option.map_some, hresolve, List.getElem?_concat_length]
    · rw [if_neg (fun heq => hk (inSession_inj heq)), h.session k, List.getElem?_append]
      split_ifs with hlt
      · rfl
      · rw [List.getElem?_eq_none (by omega), List.getElem?_eq_none (by simp; omega)]
  · rw [length_append, length_singleton]
    refine hlive.trans ?_
    split_ifs <;> first | rfl | omega
  · intro socket e s hsocket he hs
    rw [length_append, length_singleton, Nat.add_sub_cancel, StreamStore.withStream] at hs
    rw [get?_insert, if_pos rfl] at hs
    obtain rfl := Option.some.inj hs
    have hbound : e.boundSeq ≤ store.bindingSeq := hsane.bound_le socket e he
    rw [(startStream_spec settings _ p).2]
    exact (decide_eq_false (not_lt.mpr hbound)).symm

theorem Views.callChanged_iff {s : RtpStream}
    (hs : store.streams.get? (flow.inSession (v.sessions.length - 1)) = some s) :
    store.callChanged s (flow.inSession (v.sessions.length - 1)) = true ↔ v.starts flow := by
  have hlast : v.sessions.getLast? = some s.associatedDialog := by
    rw [List.getLast?_eq_getElem?, ← h.session, hs]
    rfl
  rw [StreamStore.callChanged, FlowView.starts, hlast]
  simp only [Option.mem_some_iff, forall_eq']
  cases s.associatedDialog with
  | none => simp [renegotiatedByAnotherCall]
  | some mine =>
    simp only [renegotiatedByAnotherCall, Option.mem_some_iff, exists_eq_left', List.any_eq_true,
      List.mem_map, mem_filterMap, decide_eq_true_eq]
    constructor
    · rintro ⟨-, ⟨e, ⟨socket, hmem, he⟩, rfl⟩, hnewer, hcall⟩
      have hsocket : socket = flow.src ∨ socket = flow.dst := by
        rw [← mem_pair]
        exact hmem
      refine ⟨socket, hmem, e.naming, ?_, ?_, hcall⟩
      · rw [← h.record socket hsocket, he]
        rfl
      · rw [h.newer socket e s hsocket he hs]
        exact decide_eq_true hnewer
    · rintro ⟨socket, hmem, r, hr, hnewer, hcall⟩
      have hsocket : socket = flow.src ∨ socket = flow.dst := mem_pair.mp hmem
      rw [← h.record socket hsocket] at hr
      obtain ⟨e, he, rfl⟩ := Option.map_eq_some_iff.mp hr
      rw [h.newer socket e s hsocket he hs, decide_eq_true_eq] at hnewer
      exact ⟨_, ⟨e, ⟨socket, hmem, he⟩, rfl⟩, hnewer, hcall⟩

theorem Views.update {s : RtpStream} (hs : store.streams.get? (flow.inSession k) = some s)
    (header : RtpHeader) (timestamp : DateTime) (payloadLen : ℕ) :
    Views flow { store with
      streams := store.streams.insert (flow.inSession k) (s.update header timestamp payloadLen) }
      v := by
  have hsame := update_sameBinding s header timestamp payloadLen
  refine ⟨h.record, ?_, h.live, ?_⟩
  · intro m
    rw [get?_insert]
    by_cases hm : m = k
    · subst hm
      rw [if_pos rfl, Option.map_some, hsame.dialog, ← h.session, hs]
      rfl
    · rw [if_neg (fun heq => hm (inSession_inj heq))]
      exact h.session m
  · intro socket e t hsocket he ht
    rw [get?_insert] at ht
    split_ifs at ht with hk
    · obtain rfl := Option.some.inj ht
      rw [hsame.began]
      exact h.newer socket e s hsocket he (hk ▸ hs)
    · exact h.newer socket e t hsocket he ht

end

theorem Views.packet {p : RtpPacket} (h : Views p.flow store v) (hsane : store.Sane)
    (hroom : store.Roomy) (settings : StreamSettings) :
    Views p.flow (store.recordRtp settings p) (v.packet p.flow p.timestamp) := by
  rw [recordRtp_eq_inSession, h.liveSession, FlowView.packet]
  by_cases hzero : v.sessions.length = 0
  · -- the first packet of the flow
    have hnil : v.sessions = [] := length_eq_zero_iff.mp hzero
    have hnone : store.streams.get? (p.flow.inSession v.sessions.length) = none := by
      rw [← Option.map_eq_none_iff, h.session]
      exact List.getElem?_eq_none (le_refl _)
    have hkey : v.sessions.length - 1 = v.sessions.length := by omega
    have hstarts : v.starts p.flow := by
      rw [FlowView.starts, hnil]
      exact fun call hcall => by cases hcall
    have hlive : store.liveSessions.get? p.flow =
        if v.sessions.length = 0 then none else some v.sessions.length := by
      rw [h.live, if_pos (by omega), if_pos hzero]
    rw [hkey, hnone, if_pos hstarts]
    dsimp only
    rw [recordUnder_of_none hroom hnone]
    exact h.withStream hsane settings p hlive
  · obtain ⟨s, hs⟩ : ∃ s, store.streams.get? (p.flow.inSession (v.sessions.length - 1)) = some s := by
      rw [← Option.isSome_iff_exists, ← Option.isSome_map (f := RtpStream.associatedDialog),
        h.session, List.getElem?_eq_getElem (by omega)]
      rfl
    rw [hs]
    dsimp only
    by_cases hstarts : v.starts p.flow
    · have hnext : v.sessions.length - 1 + 1 = v.sessions.length := by omega
      have hnone : store.streams.get? (p.flow.inSession v.sessions.length) = none := by
        rw [← Option.map_eq_none_iff, h.session]
        exact List.getElem?_eq_none (le_refl _)
      have hlive : (store.liveSessions.insert p.flow v.sessions.length).get? p.flow =
          if v.sessions.length = 0 then none else some v.sessions.length := by
        rw [get?_insert, if_pos rfl, if_neg hzero]
      rw [if_pos ((h.callChanged_iff hs).mpr hstarts), if_pos hstarts, hnext,
        @recordUnder_of_none { store with
          liveSessions := store.liveSessions.insert p.flow v.sessions.length } settings _ p hroom
          hnone]
      exact h.withStream hsane settings p hlive
    · rw [if_neg (fun hchanged => hstarts ((h.callChanged_iff hs).mp hchanged)), if_neg hstarts,
        recordUnder_of_some hs]
      exact h.update hs _ _ _

theorem Views.congr (h : Views flow store v) {store' : StreamStore}
    (hstreams : ∀ k, store'.streams.get? (flow.inSession k) = store.streams.get? (flow.inSession k))
    (hendpoints : store'.sdpEndpoints = store.sdpEndpoints)
    (hlive : store'.liveSessions.get? flow = store.liveSessions.get? flow) :
    Views flow store' v := by
  constructor
  · rw [hendpoints]
    exact h.record
  · intro k
    rw [hstreams]
    exact h.session k
  · rw [hlive]
    exact h.live
  · rw [hstreams, hendpoints]
    exact h.newer

theorem recordUnder_frame (hroom : store.Roomy) (settings : StreamSettings) (key : StreamKey)
    (p : RtpPacket) :
    (∀ k ≠ key, (store.recordUnder settings key p).streams.get? k = store.streams.get? k) ∧
    (store.recordUnder settings key p).sdpEndpoints = store.sdpEndpoints ∧
    (store.recordUnder settings key p).liveSessions = store.liveSessions := by
  cases hstream : store.streams.get? key with
  | none =>
    rw [recordUnder_of_none hroom hstream]
    refine ⟨?_, rfl, rfl⟩
    intro k hk
    rw [StreamStore.withStream]
    rw [get?_insert, if_neg hk]
  | some s =>
    rw [recordUnder_of_some hstream]
    refine ⟨?_, rfl, rfl⟩
    intro k hk
    rw [get?_insert, if_neg hk]

theorem Views.other (h : Views flow store v) (hzero : flow.session = 0) {p : RtpPacket}
    (hother : p.flow ≠ flow) (hroom : store.Roomy) (settings : StreamSettings) :
    Views flow (store.recordRtp settings p) v := by
  have hkeys : ∀ k m, flow.inSession k ≠ p.flow.inSession m := by
    intro k m heq
    apply hother
    have hflow : (p.flow.inSession m).flow = (flow.inSession k).flow :=
      congrArg StreamKey.flow heq.symm
    obtain ⟨ssrc, src, dst, session⟩ := flow
    dsimp only at hzero
    rw [hzero]
    exact hflow
  have hunder : ∀ (store' : StreamStore) (m : ℕ), store'.Roomy → Views flow store' v →
      Views flow (store'.recordUnder settings (p.flow.inSession m) p) v := by
    intro store' m hroom' h'
    obtain ⟨hstreams, hendpoints, hlive⟩ := recordUnder_frame hroom' settings (p.flow.inSession m) p
    exact h'.congr (fun k => hstreams _ (hkeys k m)) hendpoints (by rw [hlive])
  rw [recordRtp_eq_inSession]
  split
  · split_ifs
    · refine hunder _ _ hroom (h.congr (fun k => rfl) rfl ?_)
      rw [get?_insert, if_neg (fun heq => hother heq.symm)]
    · exact hunder _ _ hroom h
  · exact hunder _ _ hroom h

theorem Views.step (h : Views flow store v) (hzero : flow.session = 0) (hsane : store.Sane)
    (hroom : store.Roomy) (settings : StreamSettings) (event : MediaEvent) :
    Views flow (store.step settings event) (v.step flow event) := by
  cases event with
  | link link =>
    by_cases hon : link.On flow
    · exact h.link_of_on hsane hroom hon
    · exact h.link_of_not_on hsane hroom hon
  | rtp p =>
    rw [StreamStore.step, FlowView.step]
    split_ifs with hflow
    · subst hflow
      exact h.packet hsane hroom settings
    · exact h.other hzero hflow hroom settings

end Views

/-! ## Runs -/

section Runs

variable {settings : StreamSettings} {maxStreams : ℕ} {events : List MediaEvent} {flow : StreamKey}

def NeverFull (settings : StreamSettings) (maxStreams : ℕ) (events : List MediaEvent) : Prop :=
  ∀ seen, seen <+: events → (StreamStore.after settings maxStreams seen).Roomy

instance : Decidable (NeverFull settings maxStreams events) :=
  decidable_of_iff (∀ seen ∈ events.inits, (StreamStore.after settings maxStreams seen).Roomy)
    (forall_congr' (fun seen => by rw [mem_inits]))

theorem NeverFull.of_append {events' : List MediaEvent}
    (h : NeverFull settings maxStreams (events ++ events')) :
    NeverFull settings maxStreams events :=
  fun seen hseen => h seen (hseen.trans (prefix_append _ _))

theorem sane_after (h : NeverFull settings maxStreams events) :
    (StreamStore.after settings maxStreams events).Sane := by
  induction events using List.reverseRecOn with
  | nil =>
    refine ⟨?_, (fun socket e he => by cases he), (fun key s hs => by cases hs)⟩
    intro socket key
    exact iff_of_false (fun hmem => by cases hmem) (fun hstream => by cases hstream.1)
  | append_singleton events event ih =>
    rw [after_concat]
    exact (ih h.of_append).step (h events (prefix_append _ _)) settings event

theorem FlowView.after_concat (flow : StreamKey) (events : List MediaEvent) (event : MediaEvent) :
    FlowView.after flow (events ++ [event]) = (FlowView.after flow events).step flow event := by
  rw [FlowView.after, foldl_append]
  rfl

theorem views_after (hzero : flow.session = 0) (h : NeverFull settings maxStreams events) :
    Views flow (.after settings maxStreams events) (.after flow events) := by
  induction events using List.reverseRecOn with
  | nil => exact ⟨fun socket _ => rfl, fun k => rfl, rfl, fun socket e s _ he => by cases he⟩
  | append_singleton events event ih =>
    rw [after_concat, FlowView.after_concat]
    exact (ih h.of_append).step hzero (sane_after h.of_append) (h events (prefix_append _ _))
      settings event

end Runs

/-! ## What a view comes to -/

namespace FlowView

section Runs

variable {flow : StreamKey} {events : List MediaEvent} {v : FlowView}

def Concerns (flow : StreamKey) : MediaEvent → Prop
  | .link link => link.On flow
  | .rtp p => p.flow = flow

instance (flow : StreamKey) : (event : MediaEvent) → Decidable (Concerns flow event)
  | .link link => inferInstanceAs (Decidable (link.On flow))
  | .rtp p => inferInstanceAs (Decidable (p.flow = flow))

variable {event : MediaEvent} {l : SdpLink}

theorem step_of_not_concerns (h : ¬ Concerns flow event) : v.step flow event = v := by
  cases event with
  | link link => exact if_neg h
  | rtp p => exact if_neg h

theorem after_filter_concerns :
    after flow (events.filter (fun event => Concerns flow event)) = after flow events := by
  induction events using List.reverseRecOn with
  | nil => rfl
  | append_singleton events event ih =>
    rw [filter_append, after_concat]
    by_cases hconcerns : Concerns flow event
    · rw [filter_cons_of_pos (by simpa using hconcerns), filter_nil, after_concat, ih]
    · rw [filter_cons_of_neg (by simpa using hconcerns), filter_nil, append_nil, ih,
        step_of_not_concerns hconcerns]

/-- Everything in the view was said by a link, and only the last stream can lack a call. -/
structure Drawn (flow : StreamKey) (links : List SdpLink) (v : FlowView) : Prop where
  recorded : ∀ l ∈ links, l.On flow → (v.record l.socket).isSome
  record : ∀ socket, ∀ r ∈ v.record socket,
    ∃ l ∈ links, l.On flow ∧ l.socket = socket ∧ l.callId = r.1
  session : ∀ callId, some callId ∈ v.sessions → ∃ l ∈ links, l.On flow ∧ l.callId = callId
  earlier : ∀ call ∈ v.sessions.dropLast, call.isSome

variable {links : List SdpLink}

theorem Drawn.link (h : Drawn flow links v) (hon : l.On flow) :
    Drawn flow (links ++ [l]) (v.link flow l) := by
  have hself : l ∈ links ++ [l] := mem_append_right _ mem_cons_self
  rw [FlowView.link, if_pos hon]
  constructor
  · intro m hm hmon
    dsimp only
    by_cases hsocket : m.socket = l.socket
    · rw [hsocket, Function.update_self]
      rfl
    · rw [Function.update_of_ne hsocket]
      rcases mem_append.mp hm with hm | hm
      · exact h.recorded m hm hmon
      · exact absurd (congrArg SdpLink.socket (mem_singleton.mp hm)) hsocket
  · intro socket r hr
    dsimp only at hr
    by_cases hsocket : socket = l.socket
    · subst hsocket
      rw [Function.update_self] at hr
      obtain rfl := Option.some.inj hr
      exact ⟨l, hself, hon, rfl, rfl⟩
    · rw [Function.update_of_ne hsocket] at hr
      obtain ⟨m, hm, hsaid⟩ := h.record socket r hr
      exact ⟨m, mem_append_left _ hm, hsaid⟩
  · intro callId hcall
    obtain ⟨call, hmem, hor⟩ := List.mem_map.mp hcall
    cases call with
    | none => exact ⟨l, hself, hon, Option.some.inj hor⟩
    | some c =>
      obtain ⟨m, hm, hsaid⟩ := h.session c hmem
      exact ⟨m, mem_append_left _ hm, hsaid.1, hsaid.2.trans (Option.some.inj hor)⟩
  · intro call hcall
    dsimp only at hcall
    rw [← map_dropLast] at hcall
    obtain ⟨old, -, rfl⟩ := List.mem_map.mp hcall
    cases old <;> rfl

theorem Drawn.isSome_of_starts (h : Drawn flow links v) (hstarts : v.starts flow)
    {call : Option String} (hcall : call ∈ v.sessions) : call.isSome := by
  have hne : v.sessions ≠ [] := ne_nil_of_mem hcall
  rw [← dropLast_append_getLast hne] at hcall
  rcases mem_append.mp hcall with hearlier | hlast
  · exact h.earlier call hearlier
  · obtain rfl := mem_singleton.mp hlast
    obtain ⟨mine, hmine, -⟩ := hstarts _ (List.getLast?_eq_some_getLast hne)
    exact Option.isSome_iff_exists.mpr ⟨mine, hmine⟩

theorem Drawn.packet (h : Drawn flow links v) (now : DateTime) :
    Drawn flow links (v.packet flow now) := by
  rw [FlowView.packet]
  split_ifs with hstarts
  · refine ⟨h.recorded, h.record, ?_, ?_⟩
    · intro callId hcall
      rcases mem_append.mp hcall with hold | hnew
      · exact h.session callId hold
      · have hresolve := (mem_singleton.mp hnew).symm
        obtain ⟨r, hr, rfl⟩ := Option.map_eq_some_iff.mp hresolve
        obtain ⟨socket, -, hrecord⟩ := mem_filterMap.mp (mem_of_find?_eq_some hr)
        obtain ⟨l, hl, hon, -, hsaid⟩ := h.record socket r hrecord
        exact ⟨l, hl, hon, hsaid⟩
    · intro call hcall
      rw [dropLast_concat] at hcall
      exact h.isSome_of_starts hstarts hcall
  · exact h

theorem drawn_after : Drawn flow (linksOf events) (after flow events) := by
  induction events using List.reverseRecOn with
  | nil =>
    constructor
    · exact fun l hl => by cases hl
    · exact fun socket r hr => by cases hr
    · exact fun callId hcall => by cases hcall
    · exact fun call hcall => by cases hcall
  | append_singleton events event ih =>
    rw [after_concat, linksOf_append]
    cases event with
    | link l =>
      by_cases hon : l.On flow
      · exact ih.link hon
      · have hstep : (after flow events).step flow (.link l) = after flow events := if_neg hon
        rw [hstep]
        refine ⟨?_, ?_, ?_, ih.earlier⟩
        · intro m hm hmon
          rcases mem_append.mp hm with hm | hm
          · exact ih.recorded m hm hmon
          · exact absurd (mem_singleton.mp hm ▸ hmon) hon
        · intro socket r hr
          obtain ⟨m, hm, hsaid⟩ := ih.record socket r hr
          exact ⟨m, mem_append_left _ hm, hsaid⟩
        · intro callId hcall
          obtain ⟨m, hm, hsaid⟩ := ih.session callId hcall
          exact ⟨m, mem_append_left _ hm, hsaid⟩
    | rtp p =>
      have hnone : linksOf [.rtp p] = [] := rfl
      rw [hnone, append_nil, step]
      split_ifs
      · exact ih.packet p.timestamp
      · exact ih

theorem records_eq_nil_iff :
    (after flow events).records flow = [] ↔ ∀ l ∈ linksOf events, ¬ l.On flow := by
  rw [records, filterMap_eq_nil_iff]
  constructor
  · intro h l hl hon
    have hsome := drawn_after.recorded l hl hon
    rw [h l.socket (mem_pair.mpr hon)] at hsome
    cases hsome
  · intro h socket _
    rw [Option.eq_none_iff_forall_not_mem]
    intro r hr
    obtain ⟨l, hl, hon, -⟩ := drawn_after.record socket r hr
    exact h l hl hon

theorem sessions_eq_nil_iff :
    (after flow events).sessions = [] ↔ ∀ p, .rtp p ∈ events → p.flow ≠ flow := by
  induction events using List.reverseRecOn with
  | nil => exact iff_of_true rfl (fun p hp => by cases hp)
  | append_singleton events event ih =>
    rw [after_concat]
    cases event with
    | link l =>
      have hsessions : ((after flow events).link flow l).sessions = [] ↔
          (after flow events).sessions = [] := by
        rw [FlowView.link]
        split_ifs
        · exact map_eq_nil_iff
        · exact Iff.rfl
      rw [step, hsessions, ih]
      simp
    | rtp p =>
      rw [step]
      split_ifs with hflow
      · refine iff_of_false ?_ (fun h => h p (by simp) hflow)
        rw [packet]
        split_ifs with hstarts
        · simp
        · intro hnil
          apply hstarts
          rw [starts, hnil]
          exact fun call hcall => by cases hcall
      · rw [ih]
        constructor
        · intro h q hq
          rcases mem_append.mp hq with hq | hq
          · exact h q hq
          · cases mem_singleton.mp hq
            exact hflow
        · exact fun h q hq => h q (mem_append_left _ hq)

theorem length_sessions_le {callId : String}
    (h : ∀ l ∈ linksOf events, l.On flow → l.callId = callId) :
    (after flow events).sessions.length ≤ 1 := by
  induction events using List.reverseRecOn with
  | nil => exact Nat.zero_le 1
  | append_singleton events event ih =>
    have hbefore : ∀ l ∈ linksOf events, l.On flow → l.callId = callId := by
      intro l hl
      apply h l
      rw [linksOf_append]
      exact mem_append_left _ hl
    rw [after_concat]
    cases event with
    | link l =>
      rw [step, FlowView.link]
      split_ifs
      · rw [length_map]
        exact ih hbefore
      · exact ih hbefore
    | rtp p =>
      rw [step, packet]
      split_ifs with hflow hstarts
      · -- no stream gives way to another: the calls are the same
        have hnil : (after flow events).sessions = [] := by
          by_contra hne
          obtain ⟨mine, hmine, socket, -, r, hr, -, hother⟩ :=
            hstarts _ (List.getLast?_eq_some_getLast hne)
          have hmem : some mine ∈ (after flow events).sessions := hmine ▸ getLast_mem hne
          obtain ⟨l, hl, hlon, hlcall⟩ := drawn_after.session mine hmem
          obtain ⟨m, hm, hmon, -, hmcall⟩ := drawn_after.record socket r hr
          apply hother
          rw [← hlcall, ← hmcall, hbefore l hl hlon, hbefore m hm hmon]
        rw [hnil]
        exact le_refl 1
      · exact ih hbefore
      · exact ih hbefore

/-! ### Streams that are left without a call -/

/-- A stream has no call although a socket is named for one. -/
def Stranded (flow : StreamKey) (v : FlowView) : Prop := none ∈ v.sessions ∧ v.records flow ≠ []

/-- The packet finds a record that is not too old if it starts a stream and there are records, or a
socket of the flow is linked later. -/
def PacketExplained (flow : StreamKey) (v : FlowView) (p : RtpPacket) (later : List MediaEvent) :
    Prop :=
  p.flow = flow → v.starts flow →
    v.records flow = [] ∨ (v.resolve flow p.timestamp).isSome ∨ ∃ l ∈ linksOf later, l.On flow

def Explained (flow : StreamKey) (events : List MediaEvent) : Prop :=
  ∀ before p later, events = before ++ .rtp p :: later →
    PacketExplained flow (after flow before) p later

theorem packetExplained_concat {p : RtpPacket} {later : List MediaEvent}
    (h : ∀ l ∈ linksOf [event], ¬ l.On flow) :
    PacketExplained flow v p (later ++ [event]) ↔ PacketExplained flow v p later := by
  have hlinks : (∃ l ∈ linksOf (later ++ [event]), l.On flow) ↔
      ∃ l ∈ linksOf later, l.On flow := by
    rw [linksOf_append]
    constructor
    · rintro ⟨l, hl, hon⟩
      rcases mem_append.mp hl with hl | hl
      · exact ⟨l, hl, hon⟩
      · exact absurd hon (h l hl)
    · rintro ⟨l, hl, hon⟩
      exact ⟨l, mem_append_left _ hl, hon⟩
  rw [PacketExplained, PacketExplained, hlinks]

theorem explained_concat (h : ∀ l ∈ linksOf [event], ¬ l.On flow) :
    Explained flow (events ++ [event]) ↔
      Explained flow events ∧
        ∀ p, event = .rtp p → PacketExplained flow (after flow events) p [] := by
  constructor
  · intro hall
    constructor
    · intro before p later hsplit
      rw [← packetExplained_concat h]
      apply hall before p (later ++ [event])
      rw [hsplit, append_assoc, cons_append]
    · rintro p rfl
      exact hall events p [] rfl
  · rintro ⟨hbefore, hlast⟩ before p later hsplit
    rcases concat_eq_append_cons_iff.mp hsplit with ⟨rest, rfl, hrest⟩ | ⟨rfl, rfl, hevent⟩
    · rw [packetExplained_concat h]
      exact hbefore before p rest hrest
    · exact hlast p hevent

theorem explained_concat_link (hon : l.On flow) :
    Explained flow (events ++ [MediaEvent.link l]) := by
  intro before p later hsplit _ _
  rcases concat_eq_append_cons_iff.mp hsplit with ⟨rest, rfl, -⟩ | ⟨-, -, hevent⟩
  · refine Or.inr (Or.inr ⟨l, ?_, hon⟩)
    rw [linksOf_append]
    exact mem_append_right _ mem_cons_self
  · cases hevent

theorem not_stranded_link (hon : l.On flow) : ¬ Stranded flow (v.link flow l) := by
  rintro ⟨hnone, -⟩
  rw [FlowView.link, if_pos hon] at hnone
  obtain ⟨call, -, hcall⟩ := List.mem_map.mp hnone
  cases call <;> cases hcall

theorem Drawn.none_not_mem (h : Drawn flow links v) (hstarts : v.starts flow) :
    none ∉ v.sessions := by
  intro hnone
  have hsome := h.isSome_of_starts hstarts hnone
  cases hsome

theorem Drawn.stranded_packet_iff (h : Drawn flow links v) (hstarts : v.starts flow)
    (now : DateTime) :
    Stranded flow (v.packet flow now) ↔ v.resolve flow now = none ∧ v.records flow ≠ [] := by
  rw [Stranded, FlowView.packet, if_pos hstarts, mem_append, mem_singleton, eq_comm]
  exact and_congr_left' (or_iff_right (h.none_not_mem hstarts))

theorem explained_iff : Explained flow events ↔ ¬ Stranded flow (after flow events) := by
  induction events using List.reverseRecOn with
  | nil =>
    refine iff_of_true ?_ (fun h => by cases h.1)
    intro before p later hsplit
    simp at hsplit
  | append_singleton events event ih =>
    rw [after_concat]
    cases event with
    | link l =>
      by_cases hon : l.On flow
      · exact iff_of_true (explained_concat_link hon) (not_stranded_link hon)
      · have hnot : ∀ m ∈ linksOf [.link l], ¬ m.On flow := by
          intro m hm
          rw [mem_singleton.mp hm]
          exact hon
        have hstep : (after flow events).step flow (.link l) = after flow events := if_neg hon
        rw [explained_concat hnot, hstep, ih]
        exact and_iff_left (fun p hp => by cases hp)
    | rtp q =>
      have hnot : ∀ m ∈ linksOf [.rtp q], ¬ m.On flow := fun m hm => by cases hm
      have hlast : (∀ p, MediaEvent.rtp q = .rtp p →
          PacketExplained flow (after flow events) p []) ↔
          PacketExplained flow (after flow events) q [] := by
        simp
      rw [explained_concat hnot, ih, hlast]
      by_cases hstarts : q.flow = flow ∧ (after flow events).starts flow
      · -- a stream starts: the ones before it have their calls
        have hstep : (after flow events).step flow (.rtp q) =
            (after flow events).packet flow q.timestamp := if_pos hstarts.1
        have hbefore : ¬ Stranded flow (after flow events) := fun hstranded =>
          drawn_after.none_not_mem hstarts.2 hstranded.1
        rw [hstep, drawn_after.stranded_packet_iff hstarts.2, PacketExplained,
          and_iff_right hbefore, forall_prop_of_true hstarts.1,
          forall_prop_of_true hstarts.2, not_and, not_not, Option.isSome_iff_ne_none]
        constructor
        · rintro (hnil | hsome | ⟨l, hl, -⟩) hresolve
          · exact hnil
          · exact absurd hresolve hsome
          · cases hl
        · intro himp
          by_cases hresolve : (after flow events).resolve flow q.timestamp = none
          · exact Or.inl (himp hresolve)
          · exact Or.inr (Or.inl hresolve)
      · have hstep : (after flow events).step flow (.rtp q) = after flow events := by
          rw [step]
          split_ifs with hflow
          · rw [packet, if_neg (fun h => hstarts ⟨hflow, h⟩)]
          · rfl
        rw [hstep]
        exact and_iff_left (fun hflow hpstarts => absurd ⟨hflow, hpstarts⟩ hstarts)

end Runs

end FlowView

end Sipnab
