import Sipnab.Lib.IndexMap
import Sipnab.Rtp.Stream

/-!
# The stream store

Streams are kept by SSRC and socket pair, in the order of their first packets. An SDP names a socket
for a call: the store remembers the socket, and binds the streams on it to the call, those that are
there and those that come later, unless the socket was remembered too long ago. A later call that
names a socket of a bound stream starts a stream of its own. Stores of several workers are merged
and their streams linked once more.
-/

namespace Sipnab

/-! ## What an SDP says of a socket -/

/-- Where and when the message came in that named a socket, and who made the claim. -/
structure SdpProvenance where
  origin : Option InputOrigin := none
  observedAt : Option DateTime := none
  assertedBy : EndpointAssertion := .signaled
  deriving DecidableEq

namespace SdpProvenance

def observed (origin : InputOrigin) (observedAt : DateTime) : SdpProvenance where
  origin := some origin
  observedAt := some observedAt
  assertedBy := .signaled

def relayQueried (implementation : RelayImplementation) (observedAt : DateTime) :
    SdpProvenance where
  origin := none
  observedAt := some observedAt
  assertedBy := .mediaRelay implementation .encapsulated

end SdpProvenance

/-- A line that gives a payload type its encoding and its clock rate. -/
structure RtpmapEntry where
  payloadType : ℕ
  encoding : String
  clockRate : ℕ
  deriving DecidableEq

structure SdpEndpoint where
  callId : String
  rtpmap : List RtpmapEntry
  ptime : Option ℕ
  provenance : SdpProvenance
  boundSeq : ℕ
  deriving DecidableEq

def sdpEndpointTtlSecs : ℤ := 300

/-- Too old, in whole seconds, to name the call of a stream that starts now. -/
def sdpEndpointExpired (endpoint : SdpEndpoint) (now : DateTime) : Bool :=
  match endpoint.provenance.observedAt with
  | none => false
  | some learned => decide (sdpEndpointTtlSecs < (now - learned).tdiv 1000000000)

def rfc3551ClockRate : ℕ → Option ℕ
  | 0 | 3 | 4 | 5 => some 8000
  | 6 => some 16000
  | 7 | 8 | 9 => some 8000
  | 10 | 11 => some 44100
  | 12 | 13 => some 8000
  | 14 => some 90000
  | 15 => some 8000
  | 16 => some 11025
  | 17 => some 22050
  | 18 => some 8000
  | 25 | 26 | 28 | 31 | 32 | 33 | 34 => some 90000
  | _ => none

/-- One of the endpoints was bound to another call after the stream began. -/
def renegotiatedByAnotherCall (streamCall : Option String) (beganAt : ℕ)
    (endpoints : List (String × ℕ)) : Bool :=
  match streamCall with
  | none => false
  | some mine => endpoints.any (fun e => decide (beganAt < e.2 ∧ e.1 ≠ mine))

namespace RtpStream

/-- The call of a stream that has none, with where the call comes from. -/
def bindDialog (s : RtpStream) (callId : String) (provenance : SdpProvenance) : RtpStream :=
  if s.associatedDialog.isNone then
    { s with
      associatedDialog := some callId
      dialogOrigin := provenance.origin
      dialogAssertion := some provenance.assertedBy }
  else s

def fillPtime (s : RtpStream) (ptime : Option ℕ) : RtpStream :=
  if s.sdpPtimeMs.isNone then { s with sdpPtimeMs := ptime } else s

/-- What a link does to a stream on its socket. A clock rate that was wrong so far restarts the
jitter. -/
def linkFrom (s : RtpStream) (callId : String) (rtpmap : List RtpmapEntry) (ptime : Option ℕ)
    (provenance : SdpProvenance) : RtpStream :=
  let s := (s.bindDialog callId provenance).fillPtime ptime
  match if s.codec.isNone then rtpmap.find? (fun m => m.payloadType = s.payloadType) else none with
  | none => s
  | some m =>
    { s with
      codec := some m.encoding
      clockRate := m.clockRate
      jitter := if s.clockRate ≠ m.clockRate ∧ 1 < s.packetCount then 0 else s.jitter }

/-- What a remembered socket does to a stream that starts. -/
def resolveFrom (s : RtpStream) (endpoint : SdpEndpoint) : RtpStream :=
  if sdpEndpointExpired endpoint s.firstSeen then s
  else
    let s := (s.bindDialog endpoint.callId endpoint.provenance).fillPtime endpoint.ptime
    match if s.codec.isNone then endpoint.rtpmap.find? (fun m => m.payloadType = s.payloadType)
        else none with
    | none => s
    | some m => { s with codec := some m.encoding, clockRate := m.clockRate }

end RtpStream

/-! ## The store -/

structure StreamStore where
  streams : IndexMap StreamKey RtpStream := .empty
  maxStreams : ℕ
  sdpEndpoints : IndexMap SocketAddr SdpEndpoint := .empty
  endpointIndex : IndexMap SocketAddr (List StreamKey) := .empty
  liveSessions : IndexMap StreamKey ℕ := .empty
  bindingSeq : ℕ := 0

structure SdpLink where
  socket : SocketAddr
  callId : String
  rtpmap : List RtpmapEntry := []
  ptime : Option ℕ := none
  provenance : SdpProvenance
  deriving DecidableEq

structure MediaDescription where
  rtpmap : List RtpmapEntry
  ptime : Option ℕ
  deriving DecidableEq

def SdpLink.ofMedia (socket : SocketAddr) (callId : String) (media : MediaDescription)
    (provenance : SdpProvenance) : SdpLink where
  socket
  callId
  rtpmap := media.rtpmap
  ptime := media.ptime
  provenance

structure RtpPacket where
  src : SocketAddr
  dst : SocketAddr
  inputOrigin : InputOrigin
  header : RtpHeader
  payloadLen : ℕ
  timestamp : DateTime
  deriving DecidableEq

namespace StreamStore

def new (maxStreams : ℕ) : StreamStore := { maxStreams }

def liveKey (store : StreamStore) (key : StreamKey) : StreamKey :=
  match store.liveSessions.get? key.flow with
  | some session => { key.flow with session }
  | none => key.flow

def callChanged (store : StreamStore) (stream : RtpStream) (key : StreamKey) : Bool :=
  renegotiatedByAnotherCall stream.associatedDialog stream.bindingSeqAtStart
    (([key.src, key.dst].filterMap store.sdpEndpoints.get?).map (fun e => (e.callId, e.boundSeq)))

/-- A batch of the oldest entries makes room where a map is full. -/
def evictionBatch (maxStreams length : ℕ) : ℕ := min (max (maxStreams / 10) 1) length

/-- Remember a socket. One that is there is refreshed field by field: what the link does not say
stays. -/
def rememberSdpEndpoint (store : StreamStore) (link : SdpLink) : StreamStore :=
  match store.sdpEndpoints.get? link.socket with
  | some existing =>
    let bindingSeq := if existing.callId ≠ link.callId then store.bindingSeq + 1
      else store.bindingSeq
    let endpoint : SdpEndpoint :=
      { callId := link.callId
        rtpmap := if link.rtpmap.isEmpty then existing.rtpmap else link.rtpmap
        ptime := link.ptime.or existing.ptime
        provenance :=
          { existing.provenance with
            origin := link.provenance.origin.or existing.provenance.origin
            observedAt := link.provenance.observedAt.or existing.provenance.observedAt }
        boundSeq := if existing.callId ≠ link.callId then bindingSeq else existing.boundSeq }
    { store with sdpEndpoints := store.sdpEndpoints.insert link.socket endpoint, bindingSeq }
  | none =>
    let endpoints := if 0 < store.maxStreams ∧ store.maxStreams ≤ store.sdpEndpoints.length then
        store.sdpEndpoints.dropFirst (evictionBatch store.maxStreams store.sdpEndpoints.length)
      else store.sdpEndpoints
    let endpoint : SdpEndpoint :=
      { callId := link.callId
        rtpmap := link.rtpmap
        ptime := link.ptime
        provenance := link.provenance
        boundSeq := store.bindingSeq + 1 }
    { store with
      sdpEndpoints := endpoints.insert link.socket endpoint
      bindingSeq := store.bindingSeq + 1 }

/-- Remember the socket, and link the streams that the index has on it. A key stands in a bucket
once, so the order of the visits does not matter. -/
def linkEndpointFrom (store : StreamStore) (link : SdpLink) : StreamStore :=
  let store := store.rememberSdpEndpoint link
  match store.endpointIndex.get? link.socket with
  | none => store
  | some keys =>
    { store with
      streams := store.streams.mapValues (fun key s =>
        if key ∈ keys then s.linkFrom link.callId link.rtpmap link.ptime link.provenance else s) }

/-- The call and the codec of a stream that starts, from its source socket, then its destination. -/
def resolveFromSdp (store : StreamStore) (stream : RtpStream) : RtpStream :=
  ([stream.key.src, stream.key.dst].filterMap store.sdpEndpoints.get?).foldl RtpStream.resolveFrom
    stream

def pushKey (index : IndexMap SocketAddr (List StreamKey)) (socket : SocketAddr) (key : StreamKey) :
    IndexMap SocketAddr (List StreamKey) :=
  index.alter socket (fun keys => keys.getD [] ++ [key])

def indexEndpoints (index : IndexMap SocketAddr (List StreamKey)) (key : StreamKey) :
    IndexMap SocketAddr (List StreamKey) :=
  let index := pushKey index key.src key
  if key.dst ≠ key.src then pushKey index key.dst key else index

def removeKey (index : IndexMap SocketAddr (List StreamKey)) (socket : SocketAddr)
    (key : StreamKey) : IndexMap SocketAddr (List StreamKey) :=
  match index.get? socket with
  | none => index
  | some keys =>
    let keys := keys.filter (fun k => k ≠ key)
    if keys.isEmpty then index.filter (fun e => e.1 ≠ socket) else index.insert socket keys

def unindexEndpoints (index : IndexMap SocketAddr (List StreamKey)) (key : StreamKey) :
    IndexMap SocketAddr (List StreamKey) :=
  let index := removeKey index key.src key
  if key.dst ≠ key.src then removeKey index key.dst key else index

def forgetSession (sessions : IndexMap StreamKey ℕ) (key : StreamKey) : IndexMap StreamKey ℕ :=
  if sessions.get? key.flow = some key.session then sessions.filter (fun e => e.1 ≠ key.flow)
  else sessions

def ensureCapacity (store : StreamStore) : StreamStore :=
  if store.maxStreams ≤ store.streams.length ∧ store.streams.length ≠ 0 then
    let batch := evictionBatch store.maxStreams store.streams.length
    let evicted := store.streams.keys.take batch
    { store with
      streams := store.streams.dropFirst batch
      endpointIndex := evicted.foldl unindexEndpoints store.endpointIndex
      liveSessions := evicted.foldl forgetSession store.liveSessions }
  else store

def startStream (settings : StreamSettings) (store : StreamStore) (key : StreamKey)
    (packet : RtpPacket) : RtpStream :=
  let stream := RtpStream.new settings key packet.header packet.timestamp
  store.resolveFromSdp
    { stream with
      octetCount := packet.payloadLen
      bindingSeqAtStart := store.bindingSeq
      inputOrigin := some packet.inputOrigin
      clockRate := (rfc3551ClockRate packet.header.payloadType).getD stream.clockRate }

def recordUnder (settings : StreamSettings) (store : StreamStore) (key : StreamKey)
    (packet : RtpPacket) : StreamStore :=
  match store.streams.get? key with
  | some stream =>
    { store with
      streams := store.streams.insert key
        (stream.update packet.header packet.timestamp packet.payloadLen) }
  | none =>
    let store := store.ensureCapacity
    { store with
      streams := store.streams.insert key (store.startStream settings key packet)
      endpointIndex := indexEndpoints store.endpointIndex key }

/-- One packet. Where another call took over a socket of the live stream, a new session starts. -/
def recordRtp (settings : StreamSettings) (store : StreamStore) (packet : RtpPacket) :
    StreamStore :=
  let key := store.liveKey { ssrc := packet.header.ssrc, src := packet.src, dst := packet.dst }
  match store.streams.get? key with
  | some stream =>
    if store.callChanged stream key then
      let key := { key with session := key.session + 1 }
      recordUnder settings
        { store with liveSessions := store.liveSessions.insert key.flow key.session } key packet
    else recordUnder settings store key packet
  | none => recordUnder settings store key packet

/-! ### Several workers -/

/-- The streams and sockets of another store that are not here. -/
def merge (store other : StreamStore) : StreamStore :=
  let added := other.streams.entries.filter (fun e => (store.streams.get? e.1).isNone)
  { store with
    streams := added.foldl (fun streams e => streams.insert e.1 e.2) store.streams
    endpointIndex := added.foldl (fun index e => indexEndpoints index e.1) store.endpointIndex
    sdpEndpoints := other.sdpEndpoints.entries.foldl
      (fun endpoints e => endpoints.alter e.1 (fun kept => kept.getD e.2)) store.sdpEndpoints
    liveSessions := other.liveSessions.entries.foldl
      (fun sessions e => sessions.alter e.1 (fun live => max (live.getD e.2) e.2))
      store.liveSessions }

def relink (e : SocketAddr × SdpEndpoint) : SdpLink where
  socket := e.1
  callId := e.2.callId
  rtpmap := e.2.rtpmap
  ptime := e.2.ptime
  provenance := e.2.provenance

def reassociateAll (store : StreamStore) : StreamStore :=
  (store.sdpEndpoints.entries.map relink).foldl linkEndpointFrom store

end StreamStore

/-! ## Runs -/

inductive MediaEvent
  | link (link : SdpLink)
  | rtp (packet : RtpPacket)
  deriving DecidableEq

namespace StreamStore

def step (settings : StreamSettings) (store : StreamStore) : MediaEvent → StreamStore
  | .link link => store.linkEndpointFrom link
  | .rtp packet => store.recordRtp settings packet

def after (settings : StreamSettings) (maxStreams : ℕ) (events : List MediaEvent) : StreamStore :=
  events.foldl (step settings) (new maxStreams)

end StreamStore

end Sipnab
