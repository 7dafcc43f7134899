import Sipnab.Rtp.FlowView

/-!
# Stores of several workers

Each worker keeps a store of the packets and the links it reads: the packets of its host pairs, and
of the links those of its host pairs or a copy of every one. The stores are merged, and every
remembered socket is linked once more. That gives a flow the calls one store gives it where its
sockets are named by one call, or the links of its sockets all reach its worker; but the second
linking does not ask how old a record is.
-/

namespace Sipnab

open List Option IndexMap

/-! ## Merging -/

section Merge

variable {a b store : StreamStore}

theorem get?_merge_streams (key : StreamKey) :
    (a.merge b).streams.get? key = (a.streams.get? key).or (b.streams.get? key) := by
  rw [StreamStore.merge]
  dsimp only
  have hfold := get?_foldl_alter Prod.fst (fun _ e => e.2)
    (b.streams.entries.filter (fun e => (a.streams.get? e.1).isNone)) a.streams key
  refine hfold.trans ?_
  rw [List.filter_filter, filter_congr (q := fun e : StreamKey × RtpStream =>
    (a.streams.get? key).isNone && decide (e.1 = key)) (by
      intro e _
      by_cases he : e.1 = key <;> simp [he])]
  cases hold : a.streams.get? key with
  | none =>
    simp only [isNone_none, Bool.true_and, entries_filter_key]
    cases b.streams.get? key <;> rfl
  | some s => simp

theorem get?_merge_sdpEndpoints (socket : SocketAddr) :
    (a.merge b).sdpEndpoints.get? socket =
      (a.sdpEndpoints.get? socket).or (b.sdpEndpoints.get? socket) := by
  rw [StreamStore.merge]
  dsimp only
  have hfold := get?_foldl_alter Prod.fst (fun kept e => kept.getD e.2)
    b.sdpEndpoints.entries a.sdpEndpoints socket
  refine hfold.trans ?_
  rw [entries_filter_key]
  cases a.sdpEndpoints.get? socket <;> cases b.sdpEndpoints.get? socket <;> rfl

theorem mem_foldl_indexEndpoints (index : IndexMap SocketAddr (List StreamKey))
    (added : List (StreamKey × RtpStream)) (socket : SocketAddr) (key : StreamKey) :
    key ∈ ((added.foldl (fun index e => StreamStore.indexEndpoints index e.1) index).get?
        socket).getD [] ↔
      key ∈ (index.get? socket).getD [] ∨
        (key ∈ added.map Prod.fst ∧ (socket = key.src ∨ socket = key.dst)) := by
  induction added generalizing index with
  | nil => simp
  | cons e added ih =>
    rw [foldl_cons, ih, mem_indexEndpoints, map_cons, mem_cons]
    constructor
    · rintro ((hold | ⟨rfl, hsocket⟩) | ⟨hmem, hsocket⟩)
      · exact Or.inl hold
      · exact Or.inr ⟨Or.inl rfl, hsocket⟩
      · exact Or.inr ⟨Or.inr hmem, hsocket⟩
    · rintro (hold | ⟨rfl | hmem, hsocket⟩)
      · exact Or.inl (Or.inl hold)
      · exact Or.inl (Or.inr ⟨rfl, hsocket⟩)
      · exact Or.inr ⟨hmem, hsocket⟩

theorem StreamStore.Indexed.merge (h : a.Indexed) : (a.merge b).Indexed := by
  intro socket key
  rw [get?_merge_streams]
  have hadded : key ∈ (b.streams.entries.filter (fun e => (a.streams.get? e.1).isNone)).map
      Prod.fst ↔ (a.streams.get? key).isNone ∧ (b.streams.get? key).isSome := by
    rw [List.mem_map]
    constructor
    · rintro ⟨⟨k, s⟩, he, rfl⟩
      obtain ⟨he, hnone⟩ := mem_filter.mp he
      rw [IndexMap.get?_eq_some_iff.mpr he]
      exact ⟨hnone, rfl⟩
    · rintro ⟨hnone, hsome⟩
      obtain ⟨s, hs⟩ := isSome_iff_exists.mp hsome
      exact ⟨(key, s), mem_filter.mpr ⟨IndexMap.get?_eq_some_iff.mp hs, hnone⟩, rfl⟩
  have hmem := mem_foldl_indexEndpoints a.endpointIndex
    (b.streams.entries.filter (fun e => (a.streams.get? e.1).isNone)) socket key
  rw [hadded, h socket key] at hmem
  refine hmem.trans ?_
  cases a.streams.get? key <;> cases b.streams.get? key <;> simp

theorem get?_foldl_merge_streams (stores : List StreamStore) (key : StreamKey) :
    (stores.foldl StreamStore.merge store).streams.get? key =
      (store.streams.get? key).or (stores.findSome? (fun s => s.streams.get? key)) := by
  induction stores generalizing store with
  | nil => exact (or_none).symm
  | cons s stores ih =>
    rw [foldl_cons, ih, get?_merge_streams, Option.or_assoc, List.findSome?_cons]
    cases s.streams.get? key <;> simp

theorem get?_foldl_merge_sdpEndpoints (stores : List StreamStore) (socket : SocketAddr) :
    (stores.foldl StreamStore.merge store).sdpEndpoints.get? socket =
      (store.sdpEndpoints.get? socket).or
        (stores.findSome? (fun s => s.sdpEndpoints.get? socket)) := by
  induction stores generalizing store with
  | nil => exact (or_none).symm
  | cons s stores ih =>
    rw [foldl_cons, ih, get?_merge_sdpEndpoints, Option.or_assoc, List.findSome?_cons]
    cases s.sdpEndpoints.get? socket <;> simp

theorem StreamStore.Indexed.foldl_merge (h : store.Indexed) (stores : List StreamStore) :
    (stores.foldl StreamStore.merge store).Indexed := by
  induction stores generalizing store with
  | nil => exact h
  | cons s stores ih => exact ih h.merge

/-! ### Linking once more -/

theorem get?_foldl_linkEndpointFrom (h : store.Indexed) (links : List SdpLink) (key : StreamKey) :
    ((links.foldl StreamStore.linkEndpointFrom store).streams.get? key).map
        RtpStream.associatedDialog =
      (store.streams.get? key).map (fun s => s.associatedDialog.or
        ((links.find? (fun l => l.On key)).map SdpLink.callId)) := by
  induction links generalizing store with
  | nil => simp
  | cons link links ih =>
    rw [foldl_cons, ih h.linkEndpointFrom]
    by_cases hon : link.On key
    · rw [get?_linkEndpointFrom_of_on h hon, List.find?_cons_of_pos (by simpa using hon),
        Option.map_map]
      congr 1
      funext s
      rw [Function.comp_apply, associatedDialog_linkFrom, Option.or_assoc]
      rfl
    · rw [get?_linkEndpointFrom_of_not_on h hon, List.find?_cons_of_neg (by simpa using hon)]

def StreamStore.firstCall (store : StreamStore) (key : StreamKey) : Option String :=
  (store.sdpEndpoints.entries.find? (fun e => e.1 = key.src ∨ e.1 = key.dst)).map
    (fun e => e.2.callId)

theorem get?_reassociateAll (h : store.Indexed) (key : StreamKey) :
    (store.reassociateAll.streams.get? key).map RtpStream.associatedDialog =
      (store.streams.get? key).map (fun s => s.associatedDialog.or (store.firstCall key)) := by
  rw [StreamStore.reassociateAll, get?_foldl_linkEndpointFrom h, List.find?_map, Option.map_map]
  rfl

theorem firstCall_eq_none_iff {key : StreamKey} :
    store.firstCall key = none ↔
      ∀ socket, socket = key.src ∨ socket = key.dst → store.sdpEndpoints.get? socket = none := by
  rw [StreamStore.firstCall, map_eq_none_iff, List.find?_eq_none]
  constructor
  · intro h socket hsocket
    rw [eq_none_iff_forall_not_mem]
    intro e he
    exact h (socket, e) (IndexMap.get?_eq_some_iff.mp he) (by simpa using hsocket)
  · intro h e he hsocket
    have hget := h e.1 (by simpa using hsocket)
    rw [IndexMap.get?_eq_some_iff.mpr he] at hget
    cases hget

theorem exists_of_firstCall {key : StreamKey} {callId : String}
    (h : store.firstCall key = some callId) :
    ∃ socket e, (socket = key.src ∨ socket = key.dst) ∧
      store.sdpEndpoints.get? socket = some e ∧ e.callId = callId := by
  obtain ⟨e, he, rfl⟩ := map_eq_some_iff.mp h
  have hsocket := List.find?_some he
  exact ⟨e.1, e.2, by simpa using hsocket,
    IndexMap.get?_eq_some_iff.mpr (mem_of_find?_eq_some he), rfl⟩

end Merge

/-! ## Sharding -/

structure Sharding where
  workers : ℕ
  shardFor : IpAddr → IpAddr → ℕ
  shardFor_comm : ∀ a b, shardFor a b = shardFor b a
  shardFor_lt : ∀ a b, shardFor a b < workers

/-- A link or a packet with the host pair of its frame. A link may be copied to every worker. -/
structure CapturedEvent where
  event : MediaEvent
  hosts : IpAddr × IpAddr
  copied : Bool := false
  rtp_hosts : ∀ p, event = .rtp p → hosts = (p.src.1, p.dst.1) ∧ copied = false

namespace Sharding

variable (sharding : Sharding)

def Reaches (e : CapturedEvent) (worker : ℕ) : Prop :=
  e.copied = true ∨ sharding.shardFor e.hosts.1 e.hosts.2 = worker

instance (e : CapturedEvent) (worker : ℕ) : Decidable (sharding.Reaches e worker) :=
  inferInstanceAs (Decidable (_ ∨ _))

def share (worker : ℕ) (captured : List CapturedEvent) : List MediaEvent :=
  (captured.filter (fun e => sharding.Reaches e worker)).map CapturedEvent.event

def workerOf (flow : StreamKey) : ℕ := sharding.shardFor flow.src.1 flow.dst.1

theorem workerOf_lt (flow : StreamKey) : sharding.workerOf flow < sharding.workers :=
  sharding.shardFor_lt _ _

def gathered (settings : StreamSettings) (maxStreams : ℕ) (captured : List CapturedEvent) :
    StreamStore :=
  ((List.range sharding.workers).map (fun worker =>
    .after settings maxStreams (sharding.share worker captured))).foldl StreamStore.merge
      (.new maxStreams)

def merged (settings : StreamSettings) (maxStreams : ℕ) (captured : List CapturedEvent) :
    StreamStore :=
  (sharding.gathered settings maxStreams captured).reassociateAll

end Sharding

def serial (settings : StreamSettings) (maxStreams : ℕ) (captured : List CapturedEvent) :
    StreamStore :=
  .after settings maxStreams (captured.map CapturedEvent.event)

structure SpareRoom (settings : StreamSettings) (maxStreams : ℕ) (sharding : Sharding)
    (captured : List CapturedEvent) : Prop where
  serial : NeverFull settings maxStreams (captured.map CapturedEvent.event)
  share : ∀ worker < sharding.workers,
    NeverFull settings maxStreams (sharding.share worker captured)

/-- The streams of the flow have the same calls in both results. -/
def SameCalls (settings : StreamSettings) (maxStreams : ℕ) (sharding : Sharding)
    (captured : List CapturedEvent) (flow : StreamKey) : Prop :=
  ∀ session,
    ((sharding.merged settings maxStreams captured).streams.get? (flow.inSession session)).map
        RtpStream.associatedDialog =
      ((serial settings maxStreams captured).streams.get? (flow.inSession session)).map
        RtpStream.associatedDialog

def OneCall (captured : List CapturedEvent) (flow : StreamKey) : Prop :=
  ∃ callId, ∀ l ∈ linksOf (captured.map CapturedEvent.event), l.On flow → l.callId = callId

/-- All links of the flow's sockets reach the worker of the flow. -/
def LinksArrive (sharding : Sharding) (captured : List CapturedEvent) (flow : StreamKey) : Prop :=
  ∀ e ∈ captured, ∀ l, e.event = .link l → l.On flow → sharding.Reaches e (sharding.workerOf flow)

theorem findSome?_of_only {α β : Type*} {f : α → Option β} {xs : List α} {x : α} (hmem : x ∈ xs)
    (honly : ∀ y ∈ xs, y ≠ x → f y = none) : xs.findSome? f = f x := by
  cases hfound : xs.findSome? f with
  | none => exact (List.findSome?_eq_none_iff.mp hfound x hmem).symm
  | some b =>
    obtain ⟨y, hy, hfy⟩ := exists_of_findSome?_eq_some hfound
    by_cases hyx : y = x
    · rw [← hyx, hfy]
    · rw [honly y hy hyx] at hfy
      cases hfy

/-! ### Streams that start -/

def StreamStore.recordsOf (store : StreamStore) (p : RtpPacket) : List SdpEndpoint :=
  [p.src, p.dst].filterMap store.sdpEndpoints.get?

/-- The packet starts a stream: there is none, or another call took over a socket of the live one. -/
def StreamStore.StartsStream (store : StreamStore) (p : RtpPacket) : Prop :=
  ∀ s ∈ store.streams.get? (store.liveKey p.flow), store.callChanged s (store.liveKey p.flow) = true

/-- Every packet of the flow that starts a stream while its sockets are remembered finds a record
that is not too old, or a socket of the flow is linked later. -/
def FlowExplained (settings : StreamSettings) (maxStreams : ℕ) (flow : StreamKey)
    (events : List MediaEvent) : Prop :=
  ∀ before p later, events = before ++ .rtp p :: later → p.flow = flow →
    (StreamStore.after settings maxStreams before).StartsStream p →
    (StreamStore.after settings maxStreams before).recordsOf p = [] ∨
    (∃ e ∈ (StreamStore.after settings maxStreams before).recordsOf p,
      sdpEndpointExpired e p.timestamp = false) ∨
    ∃ l ∈ linksOf later, l.On flow

theorem Views.startsStream_iff {store : StreamStore} {v : FlowView} {p : RtpPacket}
    (h : Views p.flow store v) : store.StartsStream p ↔ v.starts p.flow := by
  rw [StreamStore.StartsStream, liveKey_flow, h.liveSession]
  cases hs : store.streams.get? (p.flow.inSession (v.sessions.length - 1)) with
  | none =>
    refine iff_of_true (fun s hs => by cases hs) ?_
    have hlast : v.sessions.getLast? = none := by
      rw [List.getLast?_eq_getElem?, ← h.session, hs]
      rfl
    rw [FlowView.starts, hlast]
    exact fun call hcall => by cases hcall
  | some s =>
    rw [← h.callChanged_iff hs]
    simp

theorem Views.explained_iff {store : StreamStore} {v : FlowView} {p : RtpPacket}
    (h : Views p.flow store v) :
    (store.recordsOf p = [] ↔ v.records p.flow = []) ∧
    ((∃ e ∈ store.recordsOf p, sdpEndpointExpired e p.timestamp = false) ↔
      (v.resolve p.flow p.timestamp).isSome) := by
  rw [FlowView.resolve, h.records, isSome_map, List.find?_isSome, map_eq_nil_iff]
  refine ⟨Iff.rfl, ?_⟩
  constructor
  · rintro ⟨e, he, hfresh⟩
    exact ⟨e.naming, List.mem_map_of_mem he, by simpa using hfresh⟩
  · rintro ⟨r, hr, hfresh⟩
    obtain ⟨e, he, rfl⟩ := List.mem_map.mp hr
    exact ⟨e, he, by simpa using hfresh⟩

theorem flowExplained_iff {settings : StreamSettings} {maxStreams : ℕ} {flow : StreamKey}
    {events : List MediaEvent} (hzero : flow.session = 0)
    (hroom : NeverFull settings maxStreams events) :
    FlowExplained settings maxStreams flow events ↔ FlowView.Explained flow events := by
  have hstep : ∀ before p later, events = before ++ MediaEvent.rtp p :: later → p.flow = flow →
      Views p.flow (.after settings maxStreams before) (.after flow before) := by
    rintro before p later rfl rfl
    exact views_after rfl hroom.of_append
  constructor
  · intro h before p later hsplit hflow hstarts
    have hview := hstep before p later hsplit hflow
    subst hflow
    rw [← hview.explained_iff.1, ← hview.explained_iff.2]
    exact h before p later hsplit rfl (hview.startsStream_iff.mpr hstarts)
  · intro h before p later hsplit hflow hstarts
    have hview := hstep before p later hsplit hflow
    subst hflow
    rw [hview.explained_iff.1, hview.explained_iff.2]
    exact h before p later hsplit rfl (hview.startsStream_iff.mp hstarts)

/-! ### What the workers know of a flow -/

section Workers

variable {settings : StreamSettings} {maxStreams : ℕ} {sharding : Sharding}
  {captured : List CapturedEvent} {flow : StreamKey} {worker : ℕ}

theorem mem_share {event : MediaEvent} :
    event ∈ sharding.share worker captured ↔
      ∃ e ∈ captured, sharding.Reaches e worker ∧ e.event = event := by
  simp [Sharding.share, and_assoc]

theorem linksOf_share_subset :
    linksOf (sharding.share worker captured) ⊆ linksOf (captured.map CapturedEvent.event) := by
  have hsub : (sharding.share worker captured).Sublist (captured.map CapturedEvent.event) :=
    filter_sublist.map _
  exact (hsub.filterMap _).subset

theorem mem_linksOf {events : List MediaEvent} {l : SdpLink} :
    l ∈ linksOf events ↔ .link l ∈ events := by
  rw [linksOf, mem_filterMap]
  constructor
  · rintro ⟨event, hevent, hl⟩
    cases event with
    | link link =>
      cases hl
      exact hevent
    | rtp p => cases hl
  · intro h
    exact ⟨.link l, h, rfl⟩

theorem exists_share_of_link (sharding : Sharding) {l : SdpLink}
    (h : l ∈ linksOf (captured.map CapturedEvent.event)) :
    ∃ worker < sharding.workers, l ∈ linksOf (sharding.share worker captured) := by
  obtain ⟨e, he, hevent⟩ := List.mem_map.mp (mem_linksOf.mp h)
  refine ⟨_, sharding.shardFor_lt e.hosts.1 e.hosts.2, ?_⟩
  exact mem_linksOf.mpr (mem_share.mpr ⟨e, he, Or.inr rfl, hevent⟩)

theorem rtp_mem_share {p : RtpPacket} :
    .rtp p ∈ sharding.share worker captured ↔
      .rtp p ∈ captured.map CapturedEvent.event ∧ worker = sharding.workerOf p.flow := by
  rw [mem_share, List.mem_map]
  constructor
  · rintro ⟨e, he, hreaches, hevent⟩
    obtain ⟨hhosts, hcopied⟩ := e.rtp_hosts p hevent
    refine ⟨⟨e, he, hevent⟩, ?_⟩
    rcases hreaches with hcopy | hshard
    · rw [hcopied] at hcopy
      cases hcopy
    · rw [hhosts] at hshard
      exact hshard.symm
  · rintro ⟨⟨e, he, hevent⟩, rfl⟩
    obtain ⟨hhosts, -⟩ := e.rtp_hosts p hevent
    refine ⟨e, he, Or.inr ?_, hevent⟩
    rw [hhosts]
    rfl

theorem sessions_share_eq_nil (h : worker ≠ sharding.workerOf flow) :
    (FlowView.after flow (sharding.share worker captured)).sessions = [] := by
  rw [FlowView.sessions_eq_nil_iff]
  rintro p hp rfl
  exact h (rtp_mem_share.mp hp).2

theorem sessions_eq_nil_iff_of_workerOf :
    (FlowView.after flow (sharding.share (sharding.workerOf flow) captured)).sessions = [] ↔
      (FlowView.after flow (captured.map CapturedEvent.event)).sessions = [] := by
  rw [FlowView.sessions_eq_nil_iff, FlowView.sessions_eq_nil_iff]
  constructor
  · rintro h p hp rfl
    exact h p (rtp_mem_share.mpr ⟨hp, rfl⟩) rfl
  · intro h p hp
    exact h p (rtp_mem_share.mp hp).1

theorem after_share_of_linksArrive (h : LinksArrive sharding captured flow) :
    FlowView.after flow (sharding.share (sharding.workerOf flow) captured) =
      FlowView.after flow (captured.map CapturedEvent.event) := by
  rw [← FlowView.after_filter_concerns, ← @FlowView.after_filter_concerns flow (captured.map _)]
  congr 1
  rw [Sharding.share, List.filter_map, List.filter_map, List.filter_filter]
  congr 1
  apply filter_congr
  intro e he
  rw [Bool.and_eq_left_iff_imp]
  intro hconcerns
  have hconcerns : FlowView.Concerns flow e.event := of_decide_eq_true hconcerns
  apply decide_eq_true
  cases hevent : e.event with
  | link l =>
    rw [hevent] at hconcerns
    exact h e he l hevent hconcerns
  | rtp p =>
    rw [hevent] at hconcerns
    obtain ⟨hhosts, -⟩ := e.rtp_hosts p hevent
    obtain rfl : p.flow = flow := hconcerns
    right
    rw [hhosts]
    rfl

/-! ### What the workers know together -/

variable (hzero : flow.session = 0) (hroom : SpareRoom settings maxStreams sharding captured)

include hzero hroom

theorem views_share (hworker : worker < sharding.workers) :
    Views flow (.after settings maxStreams (sharding.share worker captured))
      (.after flow (sharding.share worker captured)) :=
  views_after hzero (hroom.share worker hworker)

theorem get?_gathered_streams (session : ℕ) :
    (sharding.gathered settings maxStreams captured).streams.get? (flow.inSession session) =
      (StreamStore.after settings maxStreams
        (sharding.share (sharding.workerOf flow) captured)).streams.get?
          (flow.inSession session) := by
  have hother : ∀ worker < sharding.workers, worker ≠ sharding.workerOf flow →
      (StreamStore.after settings maxStreams (sharding.share worker captured)).streams.get?
        (flow.inSession session) = none := by
    intro worker hworker hne
    rw [← map_eq_none_iff, (views_share hzero hroom hworker).session session,
      sessions_share_eq_nil hne]
    rfl
  rw [Sharding.gathered, get?_foldl_merge_streams]
  refine (none_or).trans ?_
  rw [List.findSome?_map]
  exact findSome?_of_only (mem_range.mpr (sharding.workerOf_lt flow))
    (fun worker hworker hne => hother worker (mem_range.mp hworker) hne)

theorem firstCall_gathered_eq_none_iff :
    (sharding.gathered settings maxStreams captured).firstCall flow = none ↔
      (FlowView.after flow (captured.map CapturedEvent.event)).records flow = [] := by
  rw [firstCall_eq_none_iff, FlowView.records_eq_nil_iff]
  constructor
  · intro h l hl hon
    obtain ⟨worker, hworker, hshare⟩ := exists_share_of_link sharding hl
    have hsome := FlowView.drawn_after.recorded l hshare hon
    rw [← (views_share hzero hroom hworker).record l.socket hon, isSome_map] at hsome
    have hnone := h l.socket hon
    rw [Sharding.gathered, get?_foldl_merge_sdpEndpoints, List.findSome?_map] at hnone
    have hfound := List.findSome?_eq_none_iff.mp ((none_or).symm.trans hnone) worker
      (mem_range.mpr hworker)
    rw [show (StreamStore.after settings maxStreams
      (sharding.share worker captured)).sdpEndpoints.get? l.socket = none from hfound] at hsome
    cases hsome
  · intro h socket hsocket
    rw [Sharding.gathered, get?_foldl_merge_sdpEndpoints]
    refine (none_or).trans ?_
    rw [List.findSome?_map, List.findSome?_eq_none_iff]
    intro worker hworker
    rw [Function.comp_apply, ← map_eq_none_iff (f := SdpEndpoint.naming),
      (views_share hzero hroom (mem_range.mp hworker)).record socket hsocket,
      eq_none_iff_forall_not_mem]
    intro r hr
    obtain ⟨l, hl, hon, -⟩ := FlowView.drawn_after.record socket r hr
    exact h l (linksOf_share_subset hl) hon

theorem link_of_firstCall_gathered {callId : String}
    (h : (sharding.gathered settings maxStreams captured).firstCall flow = some callId) :
    ∃ l ∈ linksOf (captured.map CapturedEvent.event), l.On flow ∧ l.callId = callId := by
  obtain ⟨socket, e, hsocket, hget, rfl⟩ := exists_of_firstCall h
  rw [Sharding.gathered, get?_foldl_merge_sdpEndpoints] at hget
  have hfound := (none_or).symm.trans hget
  rw [List.findSome?_map] at hfound
  obtain ⟨worker, hworker, hrecord⟩ := exists_of_findSome?_eq_some hfound
  have hview := (views_share hzero hroom (mem_range.mp hworker)).record socket hsocket
  rw [show (StreamStore.after settings maxStreams
    (sharding.share worker captured)).sdpEndpoints.get? socket = some e from hrecord] at hview
  obtain ⟨l, hl, hon, -, hsaid⟩ := FlowView.drawn_after.record socket e.naming hview.symm
  exact ⟨l, linksOf_share_subset hl, hon, hsaid⟩

theorem get?_merged (session : ℕ) :
    ((sharding.merged settings maxStreams captured).streams.get? (flow.inSession session)).map
        RtpStream.associatedDialog =
      ((FlowView.after flow (sharding.share (sharding.workerOf flow) captured)).sessions.map
        (fun call => call.or
          ((sharding.gathered settings maxStreams captured).firstCall flow)))[session]? := by
  have hindexed : (sharding.gathered settings maxStreams captured).Indexed := by
    apply StreamStore.Indexed.foldl_merge
    intro socket key
    exact iff_of_false (fun hmem => by cases hmem) (fun hstream => by cases hstream.1)
  rw [Sharding.merged, get?_reassociateAll hindexed, get?_gathered_streams hzero hroom,
    List.getElem?_map, ← (views_share hzero hroom (sharding.workerOf_lt flow)).session session,
    Option.map_map]
  rfl

theorem sameCalls_iff :
    SameCalls settings maxStreams sharding captured flow ↔
      (FlowView.after flow (sharding.share (sharding.workerOf flow) captured)).sessions.map
        (fun call => call.or
          ((sharding.gathered settings maxStreams captured).firstCall flow)) =
        (FlowView.after flow (captured.map CapturedEvent.event)).sessions := by
  have hserial : ∀ session, ((serial settings maxStreams captured).streams.get?
      (flow.inSession session)).map RtpStream.associatedDialog =
        (FlowView.after flow (captured.map CapturedEvent.event)).sessions[session]? :=
    (views_after hzero hroom.serial).session
  constructor
  · intro h
    apply ext_getElem?
    intro session
    rw [← get?_merged hzero hroom, ← hserial]
    exact h session
  · intro h session
    rw [get?_merged hzero hroom, hserial, h]

theorem sameCalls_iff_of_linksArrive (h : LinksArrive sharding captured flow) :
    SameCalls settings maxStreams sharding captured flow ↔
      ¬ FlowView.Stranded flow (.after flow (captured.map CapturedEvent.event)) := by
  rw [sameCalls_iff hzero hroom, after_share_of_linksArrive h, FlowView.Stranded, ne_eq,
    ← firstCall_gathered_eq_none_iff hzero hroom]
  constructor
  · rintro hsame ⟨hnone, hfirst⟩
    rw [← hsame] at hnone
    obtain ⟨call, -, hcall⟩ := List.mem_map.mp hnone
    exact hfirst (or_eq_none_iff.mp hcall).2
  · intro hnot
    refine (map_congr_left ?_).trans (List.map_id _)
    intro call hcall
    cases call with
    | none =>
      have hfirst := not_not.mp (fun hne => hnot ⟨hcall, hne⟩)
      rw [hfirst]
      rfl
    | some callId => rfl

omit hzero hroom in
theorem map_or_eq_iff {xs ys : List (Option String)} {first : Option String} {callId : String}
    (hxs : xs.length ≤ 1) (hys : ys.length ≤ 1) (hnil : xs = [] ↔ ys = [])
    (hx : ∀ c, some c ∈ xs → c = callId ∧ first ≠ none)
    (hy : ∀ c, some c ∈ ys → c = callId ∧ first ≠ none)
    (hfirst : ∀ c, first = some c → c = callId) :
    xs.map (fun call => call.or first) = ys ↔ ¬ (none ∈ ys ∧ ¬ first = none) := by
  rcases ys with _ | ⟨b, _ | ⟨_, _⟩⟩
  · rw [hnil.mpr rfl]
    simp
  · obtain ⟨a, rfl⟩ : ∃ a, xs = [a] := by
      rcases xs with _ | ⟨a, _ | ⟨_, _⟩⟩
      · cases hnil.mp rfl
      · exact ⟨a, rfl⟩
      · simp at hxs
    cases hcase : first with
    | none =>
      have ha : a = none := by
        rw [eq_none_iff_forall_not_mem]
        rintro c rfl
        exact (hx c mem_cons_self).2 hcase
      have hb : b = none := by
        rw [eq_none_iff_forall_not_mem]
        rintro c rfl
        exact (hy c mem_cons_self).2 hcase
      simp [ha, hb]
    | some c =>
      obtain rfl := hfirst c hcase
      have hor : a.or (some c) = some c := by
        cases a with
        | none => rfl
        | some d => rw [(hx d mem_cons_self).1, some_or]
      rw [map_cons, map_nil, hor]
      cases b with
      | none => simp
      | some d => simp [(hy d mem_cons_self).1]
  · simp at hys

theorem sameCalls_iff_of_oneCall (h : OneCall captured flow) :
    SameCalls settings maxStreams sharding captured flow ↔
      ¬ FlowView.Stranded flow (.after flow (captured.map CapturedEvent.event)) := by
  obtain ⟨callId, honly⟩ := h
  have hshare : ∀ l ∈ linksOf (sharding.share (sharding.workerOf flow) captured), l.On flow →
      l.callId = callId := fun l hl => honly l (linksOf_share_subset hl)
  -- a call comes from a link, and then some worker remembers a socket
  have hfirst : ∀ l ∈ linksOf (captured.map CapturedEvent.event), l.On flow →
      (sharding.gathered settings maxStreams captured).firstCall flow ≠ none := by
    intro l hl hon hnone
    rw [firstCall_gathered_eq_none_iff hzero hroom, FlowView.records_eq_nil_iff] at hnone
    exact hnone l hl hon
  have hcall : ∀ c, some c ∈ (FlowView.after flow (captured.map CapturedEvent.event)).sessions →
      c = callId ∧ (sharding.gathered settings maxStreams captured).firstCall flow ≠ none := by
    intro c hc
    obtain ⟨l, hl, hon, rfl⟩ := FlowView.drawn_after.session c hc
    exact ⟨honly l hl hon, hfirst l hl hon⟩
  have hworker : ∀ c, some c ∈ (FlowView.after flow
        (sharding.share (sharding.workerOf flow) captured)).sessions →
      c = callId ∧ (sharding.gathered settings maxStreams captured).firstCall flow ≠ none := by
    intro c hc
    obtain ⟨l, hl, hon, rfl⟩ := FlowView.drawn_after.session c hc
    exact ⟨hshare l hl hon, hfirst l (linksOf_share_subset hl) hon⟩
  have hgathered : ∀ c, (sharding.gathered settings maxStreams captured).firstCall flow = some c →
      c = callId := by
    intro c hc
    obtain ⟨l, hl, hon, rfl⟩ := link_of_firstCall_gathered hzero hroom hc
    exact honly l hl hon
  rw [sameCalls_iff hzero hroom, FlowView.Stranded, ne_eq,
    ← firstCall_gathered_eq_none_iff hzero hroom]
  exact map_or_eq_iff (FlowView.length_sessions_le hshare) (FlowView.length_sessions_le honly)
    sessions_eq_nil_iff_of_workerOf hworker hcall hgathered

/-- Where one call names the sockets of a flow, or all their links reach its worker, the results
agree exactly if every stream of the flow that starts while its sockets are remembered finds a
record that is not too old, or is linked later. -/
theorem same_calls_iff_explained (h : OneCall captured flow ∨ LinksArrive sharding captured flow) :
    SameCalls settings maxStreams sharding captured flow ↔
      FlowExplained settings maxStreams flow (captured.map CapturedEvent.event) := by
  rw [flowExplained_iff hzero hroom.serial, FlowView.explained_iff]
  rcases h with hone | harrive
  · exact sameCalls_iff_of_oneCall hzero hroom hone
  · exact sameCalls_iff_of_linksArrive hzero hroom harrive

end Workers

/-! ### Signaling and media on two workers -/

/-- The media's host goes to one worker, everything else to the other. -/
def twoWorkers : Sharding where
  workers := 2
  shardFor := fun a b => if a = mediaSocket.1 ∨ b = mediaSocket.1 then 1 else 0
  shardFor_comm := by
    intro a b
    simp only [or_comm]
  shardFor_lt := by
    intro a b
    split_ifs <;> decide

/-- A call names the socket, and its media starts some seconds later. -/
def signaledThenMedia (delay : ℤ) : List CapturedEvent :=
  [{ event := .link { socket := mediaSocket, callId := "call-a", provenance := .observed .wire 0 }
     hosts := (.v4 0xC0000201, .v4 0xC0000202)
     rtp_hosts := fun p h => (by cases h) },
    { event := .rtp (mediaPacket (seconds delay))
      hosts := (mediaSocket.1, farSocket.1)
      rtp_hosts := by
        intro p h
        cases h
        exact ⟨rfl, rfl⟩ }]

theorem same_calls_iff_explained_in_time :
    mediaKey.session = 0 ∧ SpareRoom {} 100 twoWorkers (signaledThenMedia 2) ∧
    OneCall (signaledThenMedia 2) mediaKey ∧
    SameCalls {} 100 twoWorkers (signaledThenMedia 2) mediaKey := by
  have hroom : SpareRoom {} 100 twoWorkers (signaledThenMedia 2) :=
    ⟨by decide +kernel, by decide +kernel⟩
  have hone : OneCall (signaledThenMedia 2) mediaKey := ⟨"call-a", by decide +kernel⟩
  refine ⟨rfl, hroom, hone, (same_calls_iff_explained rfl hroom (Or.inl hone)).mpr ?_⟩
  intro before p later hsplit _ _
  rcases before with _ | ⟨x, _ | ⟨y, before⟩⟩
  · cases hsplit
  · -- the one packet: the record is two seconds old
    cases hsplit
    exact Or.inr (Or.inl (by decide +kernel))
  · cases before <;> cases hsplit

/-- A stream that starts too late for one store is bound by the second linking. -/
theorem reassociated_after_expiry :
    SpareRoom {} 100 twoWorkers (signaledThenMedia 400) ∧
    ((serial {} 100 (signaledThenMedia 400)).streams.get? mediaKey).map
      RtpStream.associatedDialog = some none ∧
    ((twoWorkers.merged {} 100 (signaledThenMedia 400)).streams.get? mediaKey).map
      RtpStream.associatedDialog = some (some "call-a") ∧
    ¬ SameCalls {} 100 twoWorkers (signaledThenMedia 400) mediaKey := by
  have hserial : ((serial {} 100 (signaledThenMedia 400)).streams.get? mediaKey).map
      RtpStream.associatedDialog = some none := by decide +kernel
  have hmerged : ((twoWorkers.merged {} 100 (signaledThenMedia 400)).streams.get? mediaKey).map
      RtpStream.associatedDialog = some (some "call-a") := by decide +kernel
  refine ⟨⟨by decide +kernel, by decide +kernel⟩, hserial, hmerged, ?_⟩
  intro hsame
  have hzero := hmerged.symm.trans ((hsame 0).trans hserial)
  cases hzero

end Sipnab
