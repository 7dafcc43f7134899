import Sipnab.Sip.Message

/-!
# RTP streams

What is measured of one stream, packet by packet: loss from the gaps in the sequence numbers,
silence from the comfort noise, jitter from arrival times and media times, and a snapshot of them at
regular intervals. Sequence numbers are 16 bits wide and wrap around.
-/

namespace Sipnab

abbrev SocketAddr := IpAddr × ℕ

structure StreamKey where
  ssrc : BitVec 32
  src : SocketAddr
  dst : SocketAddr
  session : ℕ := 0
  deriving DecidableEq

namespace StreamKey

def flow (key : StreamKey) : StreamKey := { key with session := 0 }

end StreamKey

structure RtpHeader where
  payloadType : ℕ
  sequence : BitVec 16
  timestamp : BitVec 32
  ssrc : BitVec 32
  deriving DecidableEq

inductive RelayImplementation
  | rtpengine | rtpproxy
  deriving DecidableEq

inductive ControlDelivery
  | encapsulated | bareDatagram
  deriving DecidableEq

inductive EndpointAssertion
  | signaled
  | mediaRelay (implementation : RelayImplementation) (delivery : ControlDelivery)
  deriving DecidableEq

structure SilencePeriod where
  startSeq : BitVec 16
  endSeq : BitVec 16
  durationMs : ℕ
  deriving DecidableEq

structure QualityInterval where
  timestamp : DateTime
  jitterMs : Float
  lossPct : Float
  packets : ℕ

structure RtpStream where
  key : StreamKey
  codec : Option String
  clockRate : ℕ
  payloadType : ℕ
  inputOrigin : Option InputOrigin := none
  dialogOrigin : Option InputOrigin := none
  dialogAssertion : Option EndpointAssertion := none
  firstSeen : DateTime
  lastSeen : DateTime
  packetCount : ℕ
  octetCount : ℕ
  lastSeq : BitVec 16
  lastTimestamp : BitVec 32
  jitter : Float := 0
  lostPackets : ℕ := 0
  associatedDialog : Option String := none
  qualityIntervals : List QualityInterval := []
  lostSequences : List (BitVec 16) := []
  cnFrames : ℕ := 0
  silencePeriods : List SilencePeriod := []
  sdpPtimeMs : Option ℕ := none
  bindingSeqAtStart : ℕ := 0
  lostSeqCap : ℕ
  qualityIntervalSecs : ℤ
  qualityIntervalCap : ℕ
  prevArrival : Option DateTime
  prevRtpTs : Option (BitVec 32)
  intervalStart : DateTime
  intervalPackets : ℕ
  intervalLost : ℕ := 0

structure StreamSettings where
  lostSeqLogCap : ℕ := 1000
  qualityIntervalSecs : ℤ := 5

def qualityIntervalCap (secs : ℤ) : ℕ :=
  let secs := if 0 < secs then secs else 5
  ((3600 + (secs - 1)) / secs).toNat

def codecFromPt : ℕ → Option String
  | 0 => some "PCMU"
  | 3 => some "GSM"
  | 4 => some "G723"
  | 8 => some "PCMA"
  | 9 => some "G722"
  | 13 => some "CN"
  | 18 => some "G729"
  | 34 => some "H263"
  | _ => none

def clockRateFromPt : ℕ → Option ℕ
  | 0 | 3 | 4 | 8 | 9 | 13 | 18 => some 8000
  | 34 => some 90000
  | _ => none

def nominalCnFrameMs : ℕ := 20

/-- How far apart two comfort noise packets are, in milliseconds; never negative. -/
def cnGapMs (prevRtpTs rtpTs : BitVec 32) (clockRate : ℕ) : ℕ :=
  if clockRate = 0 then 0
  else
    let ms := (Float.ofInt (rtpTs - prevRtpTs).toInt * 1000 / Float.ofNat clockRate).round
    (if ms < 0 then 0 else ms).toUInt32.toNat

namespace RtpStream

def new (settings : StreamSettings) (key : StreamKey) (header : RtpHeader) (timestamp : DateTime) :
    RtpStream where
  key
  codec := codecFromPt header.payloadType
  clockRate := (clockRateFromPt header.payloadType).getD 8000
  payloadType := header.payloadType
  firstSeen := timestamp
  lastSeen := timestamp
  packetCount := 1
  octetCount := 0
  lastSeq := header.sequence
  lastTimestamp := header.timestamp
  lostSeqCap := settings.lostSeqLogCap
  qualityIntervalSecs := settings.qualityIntervalSecs
  qualityIntervalCap := Sipnab.qualityIntervalCap settings.qualityIntervalSecs
  prevArrival := some timestamp
  prevRtpTs := some header.timestamp
  intervalStart := timestamp
  intervalPackets := 1

/-- A lost number at the end of the log, the oldest one dropped where the log is full. -/
def pushLost (cap : ℕ) (log : List (BitVec 16)) (sequence : BitVec 16) : List (BitVec 16) :=
  (if cap ≤ log.length then log.drop 1 else log) ++ [sequence]

/-- Loss from the gap to the next expected number. A number far ahead is one that comes late: if it
was logged as lost, it is taken back. -/
def noteSequence (s : RtpStream) (sequence : BitVec 16) : RtpStream :=
  let expected := s.lastSeq + 1
  if sequence = expected then { s with lastSeq := sequence }
  else
    let gap := (sequence - expected).toNat
    if gap < 32768 then
      { s with
        lostPackets := s.lostPackets + gap
        intervalLost := s.intervalLost + gap
        lostSequences := (List.range (min gap s.lostSeqCap)).foldl
          (fun log offset => pushLost s.lostSeqCap log (expected + BitVec.ofNat 16 offset))
          s.lostSequences
        lastSeq := sequence }
    else if sequence ∈ s.lostSequences then
      { s with
        lostSequences := s.lostSequences.erase sequence
        lostPackets := s.lostPackets - 1
        intervalLost := s.intervalLost - 1 }
    else s

/-- Comfort noise continues the last silence or starts a new one. -/
def noteComfortNoise (s : RtpStream) (header : RtpHeader) : RtpStream :=
  let started : SilencePeriod := ⟨header.sequence, header.sequence, nominalCnFrameMs⟩
  let silencePeriods := match s.silencePeriods.getLast? with
    | none => [started]
    | some last =>
      if header.sequence = last.endSeq + 1 then
        s.silencePeriods.dropLast ++ [{ last with
          endSeq := header.sequence
          durationMs := last.durationMs + cnGapMs s.lastTimestamp header.timestamp s.clockRate }]
      else if s.silencePeriods.length < 100 then s.silencePeriods ++ [started]
      else s.silencePeriods
  { s with cnFrames := s.cnFrames + 1, silencePeriods }

/-- The jitter after a packet: a sixteenth of the way to how far its spacing is off. -/
def jitterAfter (s : RtpStream) (header : RtpHeader) (timestamp : DateTime) : Float :=
  match s.prevArrival, s.prevRtpTs with
  | some prevArrival, some prevRtpTs =>
    let arrivalDiff := Float.ofInt ((timestamp - prevArrival).tdiv 1000) / 1000
    let rtpDiff := Float.ofInt (header.timestamp - prevRtpTs).toInt
    let rtpDiffMs := rtpDiff / (Float.ofNat s.clockRate / 1000)
    let d := (arrivalDiff - rtpDiffMs).abs
    s.jitter + (d - s.jitter) / 16
  | _, _ => s.jitter

/-- A snapshot at the end of a history of bounded length, and a new interval. -/
def recordQualityInterval (s : RtpStream) (timestamp : DateTime) : RtpStream :=
  let total := s.intervalPackets + s.intervalLost
  let lossPct := if 0 < total then Float.ofNat s.intervalLost / Float.ofNat total * 100 else 0
  let history := if s.qualityIntervalCap ≤ s.qualityIntervals.length then s.qualityIntervals.drop 1
    else s.qualityIntervals
  { s with
    qualityIntervals := history ++ [⟨timestamp, s.jitter, lossPct, s.intervalPackets⟩]
    intervalStart := timestamp
    intervalPackets := 0
    intervalLost := 0 }

def update (s : RtpStream) (header : RtpHeader) (timestamp : DateTime) (payloadLen : ℕ) :
    RtpStream :=
  let s := { s with
    packetCount := s.packetCount + 1
    octetCount := s.octetCount + payloadLen
    lastSeen := timestamp }
  let s := s.noteSequence header.sequence
  let s := if header.payloadType = 13 then s.noteComfortNoise header else s
  let s := { s with
    jitter := s.jitterAfter header timestamp
    prevArrival := some timestamp
    prevRtpTs := some header.timestamp
    lastTimestamp := header.timestamp
    intervalPackets := s.intervalPackets + 1 }
  if s.qualityIntervalSecs * 1000000000 ≤ timestamp - s.intervalStart then
    s.recordQualityInterval timestamp
  else s

/-- Behind the sequence number, an update touches silence, timing and the interval alone: what they
keep, it keeps. -/
theorem update_keeps {α : Type*} (f : RtpStream → α)
    (hnoise : ∀ (s : RtpStream) header, f (s.noteComfortNoise header) = f s)
    (htiming : ∀ (s : RtpStream) jitter prevArrival prevRtpTs lastTimestamp intervalPackets,
      f { s with jitter, prevArrival, prevRtpTs, lastTimestamp, intervalPackets } = f s)
    (hinterval : ∀ (s : RtpStream) timestamp, f (s.recordQualityInterval timestamp) = f s)
    (s : RtpStream) (header : RtpHeader) (timestamp : DateTime) (payloadLen : ℕ) :
    f (s.update header timestamp payloadLen) = f (noteSequence { s with
      packetCount := s.packetCount + 1
      octetCount := s.octetCount + payloadLen
      lastSeen := timestamp } header.sequence) := by
  unfold update
  dsimp only
  split_ifs
  · rw [hinterval, htiming, hnoise]
  · rw [htiming, hnoise]
  · rw [hinterval, htiming]
  · rw [htiming]

end RtpStream

end Sipnab
