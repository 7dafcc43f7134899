import Sipnab.Sip.Message

/-!
# The SDP timeline of a dialog

Each message with a session description appends one exchange: whether it offers or answers, the
media it names, and the event its comparison with the previous exchange shows. A REFER appends a
transfer mark. The body parsers are not modeled here: `BodyReaders` gives what the session
description and the recording metadata of a message read as, and every result holds for all
readers.
-/

namespace Sipnab

open Text

inductive SdpDirection
  | sendRecv | sendOnly | recvOnly | inactive
  deriving DecidableEq

structure RtpMap where
  payloadType : ℕ
  encoding : String
  deriving DecidableEq

structure SdpMedia where
  mediaType : String
  port : ℕ
  formats : List String
  connection : Option String
  direction : SdpDirection
  rtpmap : List RtpMap
  deriving DecidableEq

structure SdpSession where
  origin : Option String
  connection : Option String
  media : List SdpMedia
  deriving DecidableEq

structure SirecParticipant where
  participantId : Option String
  aor : Option String
  name : Option String
  deriving DecidableEq

structure SirecStream where
  streamId : Option String
  label : Option String
  participantId : Option String
  deriving DecidableEq

structure SirecMetadata where
  sessionId : Option String
  participants : List SirecParticipant
  streams : List SirecStream
  mode : Option String
  deriving DecidableEq

structure BodyReaders where
  sdp : SipMessage → Option SdpSession
  metadataOf : SipMessage → Option SirecMetadata

inductive OfferAnswer
  | offer | answer
  deriving DecidableEq

inductive SdpEvent
  | hold | resume | codecChange | t38Switch | mediaAnchorChange
  | transfer (target : Option String)
  deriving DecidableEq

structure SdpExchange where
  timestamp : DateTime
  direction : OfferAnswer
  fromRequest : Bool
  codecs : List String
  mediaAddr : Option String
  mediaPort : Option ℕ
  mode : String
  isT38 : Bool
  event : Option SdpEvent
  deriving DecidableEq

def staticPayloadName : ℕ → Option String
  | 0 => some "PCMU"
  | 3 => some "GSM"
  | 4 => some "G723"
  | 5 | 6 | 16 | 17 => some "DVI4"
  | 7 => some "LPC"
  | 8 => some "PCMA"
  | 9 => some "G722"
  | 10 | 11 => some "L16"
  | 12 => some "QCELP"
  | 13 => some "CN"
  | 14 => some "MPA"
  | 15 => some "G728"
  | 18 => some "G729"
  | 25 => some "CelB"
  | 26 => some "JPEG"
  | 28 => some "nv"
  | 31 => some "H261"
  | 32 => some "MPV"
  | 33 => some "MP2T"
  | 34 => some "H263"
  | 1 | 2 => some "reserved"
  | _ => none

def effectiveAddress (media : SdpMedia) (session : SdpSession) : Option String :=
  media.connection.or session.connection

def SdpDirection.asStr : SdpDirection → String
  | .sendRecv => "sendrecv"
  | .sendOnly => "sendonly"
  | .recvOnly => "recvonly"
  | .inactive => "inactive"

def addCodec (codecs : List String) (name : String) : List String :=
  if name ∈ codecs then codecs else codecs ++ [name]

/-- The codecs of one media description after `codecs`: the formats in the order of the media
line, then any mapping the line does not name. -/
def mediaCodecs (codecs : List String) (media : SdpMedia) : List String :=
  let named := media.formats.foldl (fun acc fmt =>
    match parseU8 fmt.toList with
    | none => acc
    | some pt =>
      match ((media.rtpmap.find? (·.payloadType == pt)).map RtpMap.encoding).or
          (staticPayloadName pt) with
      | some name => addCodec acc name
      | none => acc) codecs
  media.rtpmap.foldl (fun acc r => addCodec acc r.encoding) named

structure MediaInfo where
  codecs : List String
  mediaAddr : Option String
  mediaPort : Option ℕ
  mode : String
  isT38 : Bool

def extractMediaInfo (sdp : SdpSession) : MediaInfo :=
  match sdp.media with
  | [] => ⟨[], none, none, SdpDirection.sendRecv.asStr, false⟩
  | first :: _ =>
    ⟨sdp.media.foldl mediaCodecs [], effectiveAddress first sdp, some first.port,
      first.direction.asStr, first.mediaType == "image"⟩

def determineOfferAnswer (timeline : List SdpExchange) (m : SipMessage) : OfferAnswer :=
  if m.isRequest then
    if m.method = some .ack then .answer else .offer
  else if timeline.any (·.direction == .offer) then .answer
  else .offer

def detectEvent (timeline : List SdpExchange) (info : MediaInfo) : Option SdpEvent :=
  timeline.getLast?.bind (fun prev =>
    if info.isT38 && !prev.isT38 then some .t38Switch
    else if prev.mode = "sendrecv" ∧ (info.mode = "sendonly" ∨ info.mode = "inactive") then
      some .hold
    else if (prev.mode = "sendonly" ∨ prev.mode = "inactive") ∧ info.mode = "sendrecv" then
      some .resume
    else if info.mediaAddr ≠ prev.mediaAddr ∨ info.mediaPort ≠ prev.mediaPort then
      some .mediaAnchorChange
    else if info.codecs ≠ prev.codecs then some .codecChange
    else none)

def trackSdp (rd : BodyReaders) (timeline : List SdpExchange) (m : SipMessage) : List SdpExchange :=
  match rd.sdp m with
  | none => timeline
  | some sdp =>
    let info := extractMediaInfo sdp
    timeline ++ [{
      timestamp := m.timestamp
      direction := determineOfferAnswer timeline m
      fromRequest := m.isRequest
      codecs := info.codecs
      mediaAddr := info.mediaAddr
      mediaPort := info.mediaPort
      mode := info.mode
      isT38 := info.isT38
      event := detectEvent timeline info }]

def trackTransfer (timeline : List SdpExchange) (m : SipMessage) : List SdpExchange :=
  if m.isRequest = false ∨ m.method ≠ some .refer then timeline
  else timeline ++ [{
    timestamp := m.timestamp
    direction := .offer
    fromRequest := true
    codecs := []
    mediaAddr := none
    mediaPort := none
    mode := "transfer"
    isT38 := false
    event := some (.transfer (m.header "Refer-To")) }]

end Sipnab
