import Sipnab.Lib.IndexMap
import Sipnab.Lib.OrderedMap
import Sipnab.Lib.SerialNumber
import Sipnab.Sip.Message

/-!
# TCP reassembly

Each direction of a connection is a stream of segments. A segment is buffered under its sequence
number and delivered once everything before it has been, on a push, a close or a full buffer. A
reassembler told how messages start may resume a stream behind a hole.

Sequence numbers wrap around, so the buffer's own order is not the order of the stream: segments
are picked by looking up the next expected number.
-/

namespace Sipnab

abbrev Instant := ℕ

structure TcpFlags where
  syn : Bool := false
  ack : Bool := false
  fin : Bool := false
  rst : Bool := false
  psh : Bool := false
  deriving DecidableEq

structure ParsedPacket where
  timestamp : DateTime
  srcAddr : IpAddr
  dstAddr : IpAddr
  srcPort : ℕ
  dstPort : ℕ
  payload : List UInt8
  tcpSeq : Option (BitVec 32)
  tcpFlags : Option TcpFlags
  deriving DecidableEq

structure TcpStreamKey where
  src : IpAddr × ℕ
  dst : IpAddr × ℕ
  deriving DecidableEq

def ParsedPacket.streamKey (p : ParsedPacket) : TcpStreamKey :=
  ⟨(p.srcAddr, p.srcPort), (p.dstAddr, p.dstPort)⟩

/-- `a` precedes `b` in a window narrower than half the sequence space. -/
def seqLt (a b : BitVec 32) : Bool := serialLt a b

structure TcpStream where
  expectedSeq : BitVec 32
  buffer : OrderedMap (BitVec 32) (List UInt8) := .empty
  lastSeen : Instant
  lastPacketAt : DateTime
  bufferedBytes : ℕ := 0
  initialized : Bool := false
  synSeen : Bool := false
  delivered : Bool := false
  pendingFlush : Bool := false
  resynced : Bool
  blockedTemplate : Option ParsedPacket := none

/-! ## One stream -/

namespace TcpStream

/-- A SYN takes one sequence number; the data starts behind it. -/
def restartAtSyn (st : TcpStream) (seq : BitVec 32) : TcpStream :=
  { st with
    expectedSeq := seq + 1
    initialized := true
    synSeen := true
    buffer := .empty
    bufferedBytes := 0 }

/-- Where a stream without a SYN starts: at its first segment, or at an earlier one while nothing
has been delivered. -/
def anchor (st : TcpStream) (seq : BitVec 32) (hasPayload : Bool) : TcpStream :=
  let st := if st.initialized then st else { st with expectedSeq := seq, initialized := true }
  if hasPayload && seqLt seq st.expectedSeq && !st.synSeen && !st.delivered then
    { st with expectedSeq := seq }
  else st

/-- Record a segment. False for a SYN without payload, after which nothing is left to do. -/
def takeSegment (now : Instant) (st : TcpStream) (flags : TcpFlags) (seq : BitVec 32)
    (p : ParsedPacket) : TcpStream × Bool :=
  let st := { st with lastSeen := now, lastPacketAt := max st.lastPacketAt p.timestamp }
  let st := if flags.syn then st.restartAtSyn seq else st
  if flags.syn && p.payload.isEmpty then (st, false)
  else
    let st := st.anchor seq (!p.payload.isEmpty)
    let st :=
      if p.payload.isEmpty then st
      else { st with
        bufferedBytes := st.bufferedBytes + p.payload.length
        buffer := st.buffer.insert seq p.payload }
    (if flags.psh then { st with pendingFlush := true } else st, true)

def dropSegment (st : TcpStream) (seq : BitVec 32) : TcpStream :=
  match st.buffer.get? seq with
  | some data =>
    { st with
      buffer := st.buffer.erase seq
      bufferedBytes := st.bufferedBytes - data.length }
  | none => st

def before (st : TcpStream) (seq : BitVec 32) : List (BitVec 32) :=
  st.buffer.keys.filter (fun s => seqLt s seq)

/-- Deliver the expected segment and advance, or drop what precedes it, until there is nothing to
do; each round takes at least one segment out of the buffer. -/
def drainLoop : ℕ → TcpStream → TcpStream × List UInt8
  | 0, st => (st, [])
  | n + 1, st =>
    match st.buffer.get? st.expectedSeq with
    | some data =>
      let (st, rest) := drainLoop n { st with
        buffer := st.buffer.erase st.expectedSeq
        expectedSeq := st.expectedSeq + BitVec.ofNat 32 data.length
        bufferedBytes := st.bufferedBytes - data.length
        delivered := true }
      (st, data ++ rest)
    | none =>
      let stale := st.before st.expectedSeq
      if stale.isEmpty then (st, []) else drainLoop n (stale.foldl dropSegment st)

def drainInOrder (st : TcpStream) : TcpStream × List UInt8 := drainLoop st.buffer.length st

def drainAsResults (st : TcpStream) : TcpStream × List (List UInt8) :=
  let (st, flushed) := st.drainInOrder
  (st, if flushed.isEmpty then [] else [flushed])

/-- Flush when a push is pending, now or since an earlier segment that met a gap. -/
def flushPendingPush (st : TcpStream) : TcpStream × List (List UInt8) :=
  if st.pendingFlush then
    let (st, results) := st.drainAsResults
    (if st.buffer.isEmpty then { st with pendingFlush := false } else st, results)
  else (st, [])

def rememberBlocked (st : TcpStream) (p : ParsedPacket) : TcpStream :=
  let blocked := !st.buffer.isEmpty && (st.buffer.get? st.expectedSeq).isNone
  if blocked then
    if p.payload.isEmpty then st else { st with blockedTemplate := some { p with payload := [] } }
  else { st with blockedTemplate := none }

/-- Resume at the first buffered segment behind the hole that starts a message and did not just
arrive, and tell how much sequence space that skips. -/
def resyncPastHole (startsMessage : List UInt8 → Bool) (justArrived : Option (BitVec 32))
    (st : TcpStream) : Option (TcpStream × ℕ) :=
  if (st.buffer.get? st.expectedSeq).isSome then none
  else
    let ahead := (st.buffer.keys.filter (fun s => seqLt st.expectedSeq s)).insertionSort
      (fun a b => a = b ∨ seqLt a b)
    (ahead.find? (fun s =>
      some s ≠ justArrived ∧ (st.buffer.get? s).any startsMessage)).map (fun target =>
        ({ (st.before target).foldl dropSegment st with
            expectedSeq := target
            pendingFlush := true
            resynced := true },
          (target - st.expectedSeq).toNat))

/-- Hand over what a segment recorded on the stream releases. Past the ceiling everything in order
is flushed. -/
def release (ceiling : ℕ) (st : TcpStream) (p : ParsedPacket) : TcpStream × List (List UInt8) :=
  if ceiling < st.bufferedBytes then st.drainAsResults
  else
    let (st, results) := st.flushPendingPush
    (st.rememberBlocked p, results)

end TcpStream

/-! ## All streams -/

/-- What reassemblers share: the ceiling on a stream's buffer, and how streams are put in order of
age. Streams of one age come in any order. -/
structure ReassemblyEnv where
  maxTcpBuffer : ℕ
  byAge : List (Instant × TcpStreamKey) → List (Instant × TcpStreamKey)
  byAge_perm : ∀ xs, (byAge xs).Perm xs
  byAge_sorted : ∀ xs, (byAge xs).Pairwise (fun a b => a.1 ≤ b.1)

/-- A ceiling of 64 KiB, streams of one age in the order they are listed in. -/
def ReassemblyEnv.plain : ReassemblyEnv where
  maxTcpBuffer := 65536
  byAge := fun xs => xs.insertionSort (fun a b => a.1 ≤ b.1)
  byAge_perm := fun xs => List.perm_insertionSort _ xs
  byAge_sorted := by
    intro xs
    have htotal : Std.Total (fun a b : Instant × TcpStreamKey => a.1 ≤ b.1) :=
      ⟨fun a b => Nat.le_total a.1 b.1⟩
    have htrans : IsTrans (Instant × TcpStreamKey) (fun a b => a.1 ≤ b.1) :=
      ⟨fun _ _ _ => Nat.le_trans⟩
    exact List.pairwise_insertionSort _ xs

structure TcpReassembler where
  streams : IndexMap TcpStreamKey TcpStream := .empty
  maxEntries : ℕ
  ttl : ℕ
  resync : Option (List UInt8 → Bool) := none
  gapsSkipped : ℕ := 0
  gapBytes : ℕ := 0

/-- Silent for the time to live or longer; a clock that runs backward is not silence. -/
def silentPast (last now : DateTime) (ttl : ℕ) : Bool := 0 ≤ now - last && (ttl : ℤ) ≤ now - last

namespace TcpReassembler

def put (r : TcpReassembler) (key : TcpStreamKey) (st : TcpStream) : TcpReassembler :=
  { r with streams := r.streams.insert key st }

def remove (r : TcpReassembler) (key : TcpStreamKey) : TcpReassembler :=
  { r with streams := r.streams.filter (fun e => e.1 ≠ key) }

/-- Whether the stream was silent for too long, in which case it is dropped. -/
def restartIfSilent (r : TcpReassembler) (key : TcpStreamKey) (timestamp : DateTime) :
    TcpReassembler × Bool :=
  if (r.streams.get? key).any (fun st => silentPast st.lastPacketAt timestamp r.ttl) then
    (r.remove key, true)
  else (r, false)

def evictOldest (env : ReassemblyEnv) (r : TcpReassembler) : TcpReassembler :=
  let batch := min (max (r.maxEntries / 100) 1) r.streams.length
  let byAge := env.byAge (r.streams.entries.map (fun e => (e.2.lastSeen, e.1)))
  (byAge.take batch).foldl (fun r e => r.remove e.2) r

def makeRoom (env : ReassemblyEnv) (r : TcpReassembler) (key : TcpStreamKey) : TcpReassembler :=
  if (r.streams.get? key).isNone ∧ r.maxEntries ≤ r.streams.length then r.evictOldest env else r

def opened (now : Instant) (seq : BitVec 32) (p : ParsedPacket) (restarted : Bool) : TcpStream where
  expectedSeq := seq
  lastSeen := now
  lastPacketAt := p.timestamp
  resynced := restarted

/-- Skip a hole where the reassembler knows how messages start. -/
def resyncStream (r : TcpReassembler) (seq : BitVec 32) (p : ParsedPacket) (st : TcpStream) :
    TcpReassembler × TcpStream :=
  let justArrived := if p.payload.isEmpty then none else some seq
  match r.resync.bind (fun startsMessage => st.resyncPastHole startsMessage justArrived) with
  | some (st, spanned) =>
    ({ r with gapsSkipped := r.gapsSkipped + 1, gapBytes := r.gapBytes + spanned }, st)
  | none => (r, st)

def insert (env : ReassemblyEnv) (now : Instant) (r : TcpReassembler) (p : ParsedPacket) :
    TcpReassembler × List (List UInt8) :=
  match p.tcpFlags, p.tcpSeq with
  | some flags, some seq =>
    let key := p.streamKey
    if flags.rst then (r.remove key, [])
    else
      let (r, restarted) := r.restartIfSilent key p.timestamp
      let r := r.makeRoom env key
      let st := (r.streams.get? key).getD (opened now seq p restarted)
      let (st, more) := st.takeSegment now flags seq p
      if more = false then (r.put key st, [])
      else
        let (r, st) := r.resyncStream seq p st
        if flags.fin then (r.remove key, st.drainAsResults.2)
        else
          let (st, results) := st.release env.maxTcpBuffer p
          (r.put key st, results)
  | _, _ => (r, [])

def contains (r : TcpReassembler) (key : TcpStreamKey) : Bool := (r.streams.get? key).isSome

/-- Whether the stream has skipped a hole or started afresh since this was last asked. -/
def takeResync (r : TcpReassembler) (key : TcpStreamKey) : TcpReassembler × Bool :=
  match r.streams.get? key with
  | some st => (r.put key { st with resynced := false }, st.resynced)
  | none => (r, false)

def sweep (now : Instant) (r : TcpReassembler) : TcpReassembler :=
  { r with streams := r.streams.filter (fun e => now - e.2.lastSeen < r.ttl) }

/-- Skip the hole a stream is held behind and hand over what follows, with the last packet that
waited there. -/
def finishStream (startsMessage : List UInt8 → Bool)
    (acc : TcpReassembler × List (ParsedPacket × List UInt8)) (key : TcpStreamKey) :
    TcpReassembler × List (ParsedPacket × List UInt8) :=
  match acc.1.streams.get? key with
  | none => acc
  | some st =>
    let (r, st) :=
      match st.resyncPastHole startsMessage none with
      | some (st, spanned) =>
        ({ acc.1 with
            gapsSkipped := acc.1.gapsSkipped + 1
            gapBytes := acc.1.gapBytes + spanned }, st)
      | none => (acc.1, st)
    let (st, data) := st.drainInOrder
    let released := st.blockedTemplate.filter (fun _ => !data.isEmpty)
    (r.put key { st with blockedTemplate := none },
      acc.2 ++ (released.map (fun template => (template, data))).toList)

/-- The end of the input, the streams held behind a hole taken in the order `walk` lists them
in. -/
def finish (walk : List TcpStreamKey → List TcpStreamKey) (r : TcpReassembler) :
    TcpReassembler × List (ParsedPacket × List UInt8) :=
  match r.resync with
  | none => (r, [])
  | some startsMessage =>
    let blocked := r.streams.entries.filter (fun e => e.2.blockedTemplate.isSome)
    (walk (blocked.map Prod.fst)).foldl (finishStream startsMessage) (r, [])

end TcpReassembler

end Sipnab
