import Sipnab.Lib.BigEndian
import Sipnab.Lib.Utf8
import Sipnab.Sip.Message

/-!
# HEP packets

A HEP v3 packet is a row of chunks, each with a type and a length that counts its own header, behind
a header with the length of it all. Every length has sixteen bits. A packet of the older versions
has a fixed header and nothing to authenticate it with.
-/

namespace Sipnab

inductive TransportProto
  | udp | tcp | sctp | tls | ws | wss
  deriving DecidableEq

def TransportProto.ipProtoNumber : TransportProto → UInt8
  | .udp => 17
  | .tcp | .tls | .ws | .wss => 6
  | .sctp => 132

inductive HepProtocol
  | sip
  | rtcp
  | rtp
  | unknown (byte : UInt8)
  deriving DecidableEq

namespace HepProtocol

def fromByte (b : UInt8) : HepProtocol :=
  if b = 1 then sip else if b = 5 then rtcp else if b = 32 then rtp else unknown b

def toByte : HepProtocol → UInt8
  | sip => 1
  | rtcp => 5
  | rtp => 32
  | unknown b => b

theorem toByte_fromByte (b : UInt8) : (fromByte b).toByte = b := by
  rw [fromByte]
  split_ifs with hsip hrtcp hrtp
  · exact hsip.symm
  · exact hrtcp.symm
  · exact hrtp.symm
  · rfl

end HepProtocol

structure HepEndpoint where
  srcAddr : IpAddr
  dstAddr : IpAddr
  srcPort : BitVec 16
  dstPort : BitVec 16
  transport : TransportProto
  deriving DecidableEq

def HepEndpoint.ipProtocol (endpoint : HepEndpoint) : UInt8 := endpoint.transport.ipProtoNumber

structure HepPacket where
  version : UInt8
  srcAddr : IpAddr
  dstAddr : IpAddr
  srcPort : BitVec 16
  dstPort : BitVec 16
  timestamp : Option DateTime
  protocol : HepProtocol
  ipProtocol : UInt8
  payload : List UInt8
  correlationId : Option (List Char)
  captureId : Option (BitVec 32)
  authKey : Option (List UInt8)
  /-- Where the data of the auth chunk is in the datagram. -/
  authSpan : Option (ℕ × ℕ)
  deriving DecidableEq

/-! ## Chunks -/

inductive HepChunk
  | ipFamily
  | ipProto
  | srcIpv4
  | dstIpv4
  | srcIpv6
  | dstIpv6
  | srcPort
  | dstPort
  | tsSec
  | tsUsec
  | protoType
  | captureId
  | authKey
  | payload
  | correlationId
  deriving DecidableEq

namespace HepChunk

def code : HepChunk → ℕ
  | ipFamily => 0x0001
  | ipProto => 0x0002
  | srcIpv4 => 0x0003
  | dstIpv4 => 0x0004
  | srcIpv6 => 0x0005
  | dstIpv6 => 0x0006
  | srcPort => 0x0007
  | dstPort => 0x0008
  | tsSec => 0x0009
  | tsUsec => 0x000a
  | protoType => 0x000b
  | captureId => 0x000c
  | authKey => 0x000e
  | payload => 0x000f
  | correlationId => 0x0011

def ofCode : ℕ → Option HepChunk
  | 0x0001 => some ipFamily
  | 0x0002 => some ipProto
  | 0x0003 => some srcIpv4
  | 0x0004 => some dstIpv4
  | 0x0005 => some srcIpv6
  | 0x0006 => some dstIpv6
  | 0x0007 => some srcPort
  | 0x0008 => some dstPort
  | 0x0009 => some tsSec
  | 0x000a => some tsUsec
  | 0x000b => some protoType
  | 0x000c => some captureId
  | 0x000e => some authKey
  | 0x000f => some payload
  | 0x0011 => some correlationId
  | _ => none

def index : HepChunk → ℕ
  | ipFamily => 0
  | ipProto => 1
  | srcIpv4 => 2
  | dstIpv4 => 3
  | srcIpv6 => 4
  | dstIpv6 => 5
  | srcPort => 6
  | dstPort => 7
  | tsSec => 8
  | tsUsec => 9
  | protoType => 10
  | captureId => 11
  | authKey => 12
  | payload => 13
  | correlationId => 14

/-- `known_chunk_bit`: a chunk that is not read has none, and may come any number of times. -/
def knownBit (chunk : HepChunk) : BitVec 32 := 1#32 <<< chunk.index

theorem ofCode_code (chunk : HepChunk) : ofCode chunk.code = some chunk := by
  cases chunk <;> rfl

theorem code_lt (chunk : HepChunk) : chunk.code < 65536 := by
  cases chunk <;> decide

end HepChunk

def hep3Magic : List UInt8 := [0x48, 0x45, 0x50, 0x33]
def hep3HeaderLen : ℕ := 6
def chunkHeaderLen : ℕ := 6

inductive HepError
  | notHep
  | tooShort (length : ℕ)
  | totalExceeds (total length : ℕ)
  | totalBelowHeader (total : ℕ)
  | noChunks
  | chunkBelowHeader (chunkLen : ℕ)
  | chunkOverflows (offset chunkLen : ℕ)
  | repeatedChunk (chunk : HepChunk)
  | shortChunk (chunk : HepChunk)
  | secondSource
  | secondDestination
  | noSource
  | noDestination
  | badFamily (family : UInt8)
  | truncated (length needed : ℕ)
  deriving DecidableEq

structure HepWalk where
  srcAddr : Option IpAddr := none
  dstAddr : Option IpAddr := none
  srcPort : BitVec 16 := 0
  dstPort : BitVec 16 := 0
  tsSec : Option (BitVec 32) := none
  tsUsec : BitVec 32 := 0
  protocol : HepProtocol := .unknown 0
  ipProtocol : UInt8 := 17
  payload : List UInt8 := []
  correlationId : Option (List Char) := none
  captureId : Option (BitVec 32) := none
  authKey : Option (List UInt8) := none
  authSpan : Option (ℕ × ℕ) := none
  seenTypes : BitVec 32 := 0
  seenSrcAddr : Bool := false
  seenDstAddr : Bool := false
  deriving DecidableEq

def ipv4Of (data : List UInt8) : IpAddr := .v4 (BitVec.ofNat 32 (ofBeBytes (data.take 4)))

def ipv6Of (data : List UInt8) : IpAddr := .v6 (BitVec.ofNat 128 (ofBeBytes (data.take 16)))

def be16Of (data : List UInt8) : BitVec 16 := BitVec.ofNat 16 (ofBeBytes (data.take 2))

def be32Of (data : List UInt8) : BitVec 32 := BitVec.ofNat 32 (ofBeBytes (data.take 4))

def trimEndNul (s : List Char) : List Char := (s.reverse.dropWhile (· = '\x00')).reverse

namespace HepWalk

def readSrcAddr (w : HepWalk) (chunk : HepChunk) (length : ℕ) (addr : List UInt8 → IpAddr)
    (data : List UInt8) : Except HepError HepWalk :=
  if data.length < length then .error (.shortChunk chunk)
  else if w.seenSrcAddr then .error .secondSource
  else .ok { w with seenSrcAddr := true, srcAddr := some (addr data) }

def readDstAddr (w : HepWalk) (chunk : HepChunk) (length : ℕ) (addr : List UInt8 → IpAddr)
    (data : List UInt8) : Except HepError HepWalk :=
  if data.length < length then .error (.shortChunk chunk)
  else if w.seenDstAddr then .error .secondDestination
  else .ok { w with seenDstAddr := true, dstAddr := some (addr data) }

def readValue (w : HepWalk) (offset : ℕ) (chunk : HepChunk) (data : List UInt8) :
    Except HepError HepWalk :=
  match chunk with
  | .ipFamily => .ok w
  | .ipProto =>
    match data with
    | [] => .error (.shortChunk chunk)
    | b :: _ => .ok { w with ipProtocol := b }
  | .srcIpv4 => w.readSrcAddr chunk 4 ipv4Of data
  | .dstIpv4 => w.readDstAddr chunk 4 ipv4Of data
  | .srcIpv6 => w.readSrcAddr chunk 16 ipv6Of data
  | .dstIpv6 => w.readDstAddr chunk 16 ipv6Of data
  | .srcPort =>
    if data.length < 2 then .error (.shortChunk chunk) else .ok { w with srcPort := be16Of data }
  | .dstPort =>
    if data.length < 2 then .error (.shortChunk chunk) else .ok { w with dstPort := be16Of data }
  | .tsSec =>
    if data.length < 4 then .error (.shortChunk chunk)
    else .ok { w with tsSec := some (be32Of data) }
  | .tsUsec =>
    if data.length < 4 then .error (.shortChunk chunk) else .ok { w with tsUsec := be32Of data }
  | .protoType =>
    match data with
    | [] => .error (.shortChunk chunk)
    | b :: _ => .ok { w with protocol := .fromByte b }
  | .captureId =>
    if data.length < 4 then .error (.shortChunk chunk)
    else .ok { w with captureId := some (be32Of data) }
  | .authKey =>
    .ok { w with
      authKey := some data
      authSpan := some (offset + chunkHeaderLen, offset + chunkHeaderLen + data.length) }
  | .payload => .ok { w with payload := data }
  | .correlationId =>
    .ok { w with correlationId := some (trimEndNul (Utf8.fromUtf8Lossy data)) }

/-- A chunk that is read may come once, another one is skipped. -/
def readChunk (w : HepWalk) (offset chunkType : ℕ) (data : List UInt8) : Except HepError HepWalk :=
  match HepChunk.ofCode chunkType with
  | none => .ok w
  | some chunk =>
    if w.seenTypes &&& chunk.knownBit = 0 then
      { w with seenTypes := w.seenTypes ||| chunk.knownBit }.readValue offset chunk data
    else .error (.repeatedChunk chunk)

/-- Read the chunks of the bytes that begin at an offset. Every chunk takes at least its header, so
the bytes are fuel enough. -/
def walkChunks : ℕ → ℕ → List UInt8 → HepWalk → Except HepError HepWalk
  | 0, _, _, w => .ok w
  | fuel + 1, offset, rest, w =>
    if rest.length < chunkHeaderLen then .ok w
    else
      let chunkType := ofBeBytes ((rest.drop 2).take 2)
      let chunkLen := ofBeBytes ((rest.drop 4).take 2)
      if chunkLen < chunkHeaderLen then .error (.chunkBelowHeader chunkLen)
      else if rest.length < chunkLen then .error (.chunkOverflows offset chunkLen)
      else match w.readChunk offset chunkType ((rest.take chunkLen).drop chunkHeaderLen) with
        | .error e => .error e
        | .ok w => walkChunks fuel (offset + chunkLen) (rest.drop chunkLen) w

end HepWalk

def hepCarriedTime (sec usec : BitVec 32) : Option DateTime :=
  some (sec.toNat * 1000000000 + min (usec.toNat * 1000) 999999999 : ℕ)

def HepWalk.packet (w : HepWalk) : Except HepError HepPacket :=
  match w.srcAddr, w.dstAddr with
  | none, _ => .error .noSource
  | some _, none => .error .noDestination
  | some srcAddr, some dstAddr =>
    .ok
      { version := 3
        srcAddr
        dstAddr
        srcPort := w.srcPort
        dstPort := w.dstPort
        timestamp := w.tsSec.bind (fun sec => hepCarriedTime sec w.tsUsec)
        protocol := w.protocol
        ipProtocol := w.ipProtocol
        payload := w.payload
        correlationId := w.correlationId
        captureId := w.captureId
        authKey := w.authKey
        authSpan := w.authSpan }

def parseHepV3 (data : List UInt8) : Except HepError HepPacket :=
  if data.length < hep3HeaderLen then .error (.tooShort data.length)
  else
    let total := ofBeBytes ((data.drop 4).take 2)
    if data.length < total then .error (.totalExceeds total data.length)
    else if total < hep3HeaderLen then .error (.totalBelowHeader total)
    else if total = hep3HeaderLen then .error .noChunks
    else
      let rest := (data.take total).drop hep3HeaderLen
      match HepWalk.walkChunks rest.length hep3HeaderLen rest {} with
      | .error e => .error e
      | .ok w => w.packet

/-! ### Versions 1 and 2 -/

def hep1Version : UInt8 := 1
def hep2Version : UInt8 := 2
def hep12FixedHeader : ℕ := 8
def hep12FamilyIpv4 : UInt8 := 2
def hep12FamilyIpv6 : UInt8 := 10
def hep12Ipv4Block : ℕ := 8
def hep12Ipv6Block : ℕ := 32
def hep2TimeHeader : ℕ := 12

/-- What follows the addresses: where the payload starts, the time and the capture agent. -/
def hep12Time (version : UInt8) (headerLen : ℕ) (data : List UInt8) :
    Except HepError (ℕ × Option DateTime × Option (BitVec 32)) :=
  if version = hep2Version then
    let timeEnd := headerLen + hep2TimeHeader
    if data.length < timeEnd then .error (.truncated data.length timeEnd)
    else
      let t := data.drop headerLen
      .ok (timeEnd,
        hepCarriedTime (BitVec.ofNat 32 (ofLeBytes (t.take 4)))
          (BitVec.ofNat 32 (ofLeBytes ((t.drop 4).take 4))),
        some (BitVec.ofNat 32 (ofLeBytes ((t.drop 8).take 2))))
  else .ok (headerLen, none, none)

def parseHepV12 (data : List UInt8) : Except HepError HepPacket :=
  let version := data.headD 0
  if data.length < hep12FixedHeader then .error (.tooShort data.length)
  else
    let family := data.getD 2 0
    if family ≠ hep12FamilyIpv4 ∧ family ≠ hep12FamilyIpv6 then .error (.badFamily family)
    else
      let blockLen := if family = hep12FamilyIpv4 then hep12Ipv4Block else hep12Ipv6Block
      let headerLen := hep12FixedHeader + blockLen
      if data.length < headerLen then .error (.truncated data.length headerLen)
      else
        let block := data.drop hep12FixedHeader
        match hep12Time version headerLen data with
        | .error e => .error e
        | .ok (payloadStart, timestamp, captureId) =>
          .ok
            { version
              srcAddr := if family = hep12FamilyIpv4 then ipv4Of block else ipv6Of block
              dstAddr := if family = hep12FamilyIpv4 then ipv4Of (block.drop 4)
                else ipv6Of (block.drop 16)
              srcPort := be16Of (data.drop 4)
              dstPort := be16Of (data.drop 6)
              timestamp
              protocol := .sip
              ipProtocol := data.getD 3 0
              payload := data.drop payloadStart
              correlationId := none
              captureId
              authKey := none
              authSpan := none }

def parseHep (data : List UInt8) : Except HepError HepPacket :=
  if hep3Magic <+: data then parseHepV3 data
  else if data.head? = some hep1Version ∨ data.head? = some hep2Version then parseHepV12 data
  else .error .notHep

/-! ## Building -/

def IpAddr.octets : IpAddr → List UInt8
  | .v4 bits => toBeBytes 4 bits.toNat
  | .v6 bits => toBeBytes 16 bits.toNat

def IpAddr.hepFamily : IpAddr → UInt8
  | .v4 _ => 2
  | .v6 _ => 10

def IpAddr.srcChunk : IpAddr → HepChunk
  | .v4 _ => .srcIpv4
  | .v6 _ => .srcIpv6

def IpAddr.dstChunk : IpAddr → HepChunk
  | .v4 _ => .dstIpv4
  | .v6 _ => .dstIpv6

def appendChunk (buf : List UInt8) (vendor : ℕ) (chunk : HepChunk) (data : List UInt8) :
    List UInt8 :=
  buf ++ toBeBytes 2 vendor ++ toBeBytes 2 chunk.code ++
    toBeBytes 2 (chunkHeaderLen + data.length) ++ data

def u16Max : ℕ := 65535

def leadingChunks (endpoint : HepEndpoint) (timestamp : DateTime) (protocol : HepProtocol)
    (captureId : BitVec 32) (authKey : Option (List UInt8)) : List UInt8 :=
  let chunks := appendChunk [] 0 .ipFamily [endpoint.srcAddr.hepFamily]
  let chunks := appendChunk chunks 0 .ipProto [endpoint.ipProtocol]
  let chunks := appendChunk chunks 0 endpoint.srcAddr.srcChunk endpoint.srcAddr.octets
  let chunks := appendChunk chunks 0 endpoint.dstAddr.dstChunk endpoint.dstAddr.octets
  let chunks := appendChunk chunks 0 .srcPort (toBeBytes 2 endpoint.srcPort.toNat)
  let chunks := appendChunk chunks 0 .dstPort (toBeBytes 2 endpoint.dstPort.toNat)
  -- a time that does not fit in 32 bits of seconds is clamped
  let tsSec := (max 0 (min (timestamp / 1000000000) 4294967295)).toNat
  let tsUsec := (timestamp % 1000000000 / 1000).toNat
  let chunks := appendChunk chunks 0 .tsSec (toBeBytes 4 tsSec)
  let chunks := appendChunk chunks 0 .tsUsec (toBeBytes 4 tsUsec)
  let chunks := appendChunk chunks 0 .protoType [protocol.toByte]
  let chunks := appendChunk chunks 0 .captureId (toBeBytes 4 captureId.toNat)
  match authKey with
  | some key => appendChunk chunks 0 .authKey key
  | none => chunks

/-- The chunks in front of the payload. A correlation ID that is empty, or that does not fit beside
an empty payload, is left out. -/
def chunksBeforePayload (endpoint : HepEndpoint) (timestamp : DateTime) (protocol : HepProtocol)
    (captureId : BitVec 32) (authKey correlationId : Option (List UInt8)) : List UInt8 :=
  let chunks := leadingChunks endpoint timestamp protocol captureId authKey
  match correlationId with
  | some cid =>
    if cid ≠ [] ∧ hep3HeaderLen + chunks.length + 2 * chunkHeaderLen + cid.length ≤ u16Max then
      appendChunk chunks 0 .correlationId cid
    else chunks
  | none => chunks

def buildHepV3Correlated (endpoint : HepEndpoint) (timestamp : DateTime) (protocol : HepProtocol)
    (captureId : BitVec 32) (authKey correlationId : Option (List UInt8)) (payload : List UInt8) :
    List UInt8 :=
  let chunks := chunksBeforePayload endpoint timestamp protocol captureId authKey correlationId
  let fixed := hep3HeaderLen + chunks.length + chunkHeaderLen
  let maxPayload := u16Max - fixed
  let chunks := appendChunk chunks 0 .payload (payload.take maxPayload)
  hep3Magic ++ toBeBytes 2 (hep3HeaderLen + chunks.length) ++ chunks

/-! ## A packet in a stream -/

inductive StreamFrameError
  | badMagic (got : List UInt8)
  | totalBelowHeader (total : ℕ)
  deriving DecidableEq

/-- Where the first packet of a stream ends, if it is there whole. -/
def hepStreamFrame (buf : List UInt8) : Except StreamFrameError (Option ℕ) :=
  if buf.length < hep3HeaderLen then .ok none
  else if buf.take 4 ≠ hep3Magic then .error (.badMagic (buf.take 4))
  else
    let total := ofBeBytes ((buf.drop 4).take 2)
    if total < hep3HeaderLen then .error (.totalBelowHeader total)
    else if buf.length < total then .ok none
    else .ok (some total)

end Sipnab
