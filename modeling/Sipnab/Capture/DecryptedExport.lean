import Sipnab.Capture.ExportFrames
import Sipnab.Lib.IndexMap
import Sipnab.Lib.OrderedMap

/-!
# The decrypted export

Every captured packet waits in a reorder buffer, under its capture time and its arrival. What was
decrypted comes out rebuilt: an SRTP packet in its own place, a SIP message as a frame of its own in
place of the captured segments of its connection. Everything else is to come out as captured.
-/

namespace Sipnab

inductive Source
  | tls | wss | srtp
  deriving DecidableEq

structure ExportFrame where
  packet : CapturedPacket
  source : Option Source
  deriving DecidableEq

structure ExportCounts where
  sipFromTls : ℕ := 0
  sipFromWss : ℕ := 0
  rtpFromSrtp : ℕ := 0
  tlsCopied : ℕ := 0
  segmentsReplaced : ℕ := 0
  srtcpCopied : ℕ := 0
  notRebuildable : ℕ := 0
  outOfOrder : ℕ := 0
  discardedAtStop : ℕ := 0
  deriving DecidableEq

/-- The order of the standard library: an IPv4 address first, then by address and port. -/
def SocketAddr.le : SocketAddr → SocketAddr → Bool
  | (.v4 a, p), (.v4 b, q) => a < b ∨ a = b ∧ p ≤ q
  | (.v4 _, _), (.v6 _, _) => true
  | (.v6 _, _), (.v4 _, _) => false
  | (.v6 a, p), (.v6 b, q) => a < b ∨ a = b ∧ p ≤ q

abbrev ConnKey := SocketAddr × SocketAddr

def connKey (a b : SocketAddr) : ConnKey := if SocketAddr.le a b then (a, b) else (b, a)

def isTls (d : List UInt8) : Bool :=
  5 ≤ d.length ∧ 20 ≤ numberAt d 0 1 ∧ numberAt d 0 1 ≤ 23 ∧ 0x0300 ≤ numberAt d 1 2 ∧
    numberAt d 1 2 ≤ 0x0304 ∧ numberAt d 3 2 ≤ 18432

abbrev FrameKey := DateTime ×ₗ ℕ

structure ExportEntry where
  frame : ExportFrame
  conn : Option ConnKey
  tls : Bool

structure ExportDirection where
  template : CapturedPacket
  ip : IpView
  nextSeq : Option (BitVec 32)

structure DecryptedExport where
  window : ℤ
  byteCap : ℕ
  held : OrderedMap FrameKey ExportEntry
  heldBytes : ℕ
  arrivals : ℕ
  current : Option FrameKey
  newest : Option DateTime
  lastWritten : Option DateTime
  directions : IndexMap (SocketAddr × SocketAddr) ExportDirection
  decrypted : List ConnKey
  srtpSources : List SocketAddr
  counts : ExportCounts

namespace DecryptedExport

def new (window : ℤ) (byteCap : ℕ) : DecryptedExport :=
  ⟨window, byteCap, .empty, 0, 0, none, none, none, .empty, [], [], {}⟩

def nextKey (x : DecryptedExport) (frame : ExportFrame) : FrameKey :=
  toLex (frame.packet.timestamp, x.arrivals)

def hold (x : DecryptedExport) (entry : ExportEntry) : DecryptedExport :=
  { x with
    arrivals := x.arrivals + 1
    heldBytes := x.heldBytes + entry.frame.packet.data.length
    held := x.held.insert (x.nextKey entry.frame) entry }

def segmentConn (packet : CapturedPacket) : Option ConnKey :=
  (TcpView.of packet).map (fun v => connKey v.src v.dst)

/-- A direction gets its template and its first sequence number from the first packet. -/
def noteDirection (x : DecryptedExport) (packet : CapturedPacket) : DecryptedExport :=
  match TcpView.of packet with
  | none => x
  | some v =>
    { x with
      directions := x.directions.alter (v.src, v.dst) (fun old =>
        let dir := old.getD ⟨packet, v.ip, none⟩
        { dir with
          nextSeq := some (dir.nextSeq.getD (if v.syn then v.seq + 1 else v.seq)) }) }

def captured (x : DecryptedExport) (packet : CapturedPacket) : DecryptedExport :=
  let ts := packet.timestamp
  let x := if x.newest.all (· < ts) then { x with newest := some ts } else x
  let x := x.noteDirection packet
  let tls := (TcpView.of packet).any (fun v => isTls (packet.data.drop v.dataAt))
  let entry : ExportEntry := ⟨⟨packet, none⟩, segmentConn packet, tls⟩
  { x.hold entry with current := some (x.nextKey entry.frame) }

def rebuiltPacket (template : CapturedPacket) (frame : List UInt8) : CapturedPacket :=
  { template with
    data := frame
    caplen := frame.length
    origlen := frame.length
    origin := none }

def udpSource (packet : CapturedPacket) : Option SocketAddr :=
  (IpView.of packet).bind (fun ip =>
    if packet.data.length < ip.off + ip.len + 2 then none
    else sock (ip.addrs packet.data).1 (numberAt packet.data (ip.off + ip.len) 2))

def notRebuildable (x : DecryptedExport) : DecryptedExport :=
  { x with counts.notRebuildable := x.counts.notRebuildable + 1 }

def srtpRebuild (x : DecryptedExport) (rtp : List UInt8) :
    Option (FrameKey × ExportEntry × List UInt8) :=
  x.current.bind (fun key =>
    (x.held.get? key).bind (fun entry =>
      (rebuildUdp entry.frame.packet rtp).map (fun frame => (key, entry, frame))))

def srtpDecrypted (x : DecryptedExport) (rtp : List UInt8) : DecryptedExport :=
  match x.srtpRebuild rtp with
  | none => x.notRebuildable
  | some (key, entry, frame) =>
    { x with
      srtpSources := (udpSource entry.frame.packet).toList ++ x.srtpSources
      heldBytes := x.heldBytes + frame.length - entry.frame.packet.data.length
      held := x.held.insert key ⟨⟨rebuiltPacket entry.frame.packet frame, some .srtp⟩, none, false⟩
      counts.rtpFromSrtp := x.counts.rtpFromSrtp + 1 }

def rtcpSeen (x : DecryptedExport) (src : SocketAddr) : DecryptedExport :=
  if src ∈ x.srtpSources ∨ 1 ≤ src.2 ∧ (src.1, src.2 - 1) ∈ x.srtpSources then
    { x with counts.srtcpCopied := x.counts.srtcpCopied + 1 }
  else x

def messageFrame (x : DecryptedExport) (dir : ExportDirection) (src dst : SocketAddr)
    (timestamp : DateTime) (message : List UInt8) (source : Source) : ExportFrame :=
  let ack := ((x.directions.get? (dst, src)).bind (·.nextSeq)).getD 0
  let frame := buildTcp dir.template dir.ip (src.2, dst.2) (dir.nextSeq.getD 0) ack message
  ⟨rebuiltPacket { dir.template with timestamp := timestamp } frame, some source⟩

def sipDecrypted (x : DecryptedExport) (src dst : SocketAddr) (timestamp : DateTime)
    (message : List UInt8) (source : Source) : DecryptedExport :=
  match x.directions.get? (src, dst) with
  | none => x.notRebuildable
  | some dir =>
    let frame := x.messageFrame dir src dst timestamp message source
    let counts := match source with
      | .wss => { x.counts with sipFromWss := x.counts.sipFromWss + 1 }
      | .tls | .srtp => { x.counts with sipFromTls := x.counts.sipFromTls + 1 }
    let x := { x with
      directions := x.directions.insert (src, dst)
        { dir with nextSeq := some (dir.nextSeq.getD 0 + BitVec.ofNat 32 message.length) }
      decrypted := connKey src dst :: x.decrypted
      counts := counts }
    x.hold ⟨frame, none, false⟩

/-- Whether an entry is a captured segment of a connection that decrypted. -/
def replaced (x : DecryptedExport) (entry : ExportEntry) : Bool :=
  entry.frame.source = none ∧ entry.conn.any (· ∈ x.decrypted)

/-- Take the entry `key` out of the buffer, and write it or not. -/
def release (x : DecryptedExport) (key : FrameKey) (entry : ExportEntry) :
    Option ExportFrame × DecryptedExport :=
  let x := { x with
    held := x.held.erase key
    heldBytes := x.heldBytes - entry.frame.packet.data.length
    current := if x.current = some key then none else x.current }
  if x.replaced entry then
    (none, { x with counts.segmentsReplaced := x.counts.segmentsReplaced + 1 })
  else
    let x := if entry.tls then { x with counts.tlsCopied := x.counts.tlsCopied + 1 } else x
    let ts := (ofLex key).1
    let x := if x.lastWritten.any (ts < ·) then
        { x with counts.outOfOrder := x.counts.outOfOrder + 1 }
      else { x with lastWritten := some ts }
    (some entry.frame, x)

/-- Release the oldest entries while they are due; every turn takes one of at most `fuel`. -/
def releaseWhile (due : DecryptedExport → FrameKey → Bool) :
    ℕ → DecryptedExport → List (FrameKey × ExportFrame) × DecryptedExport
  | 0, x => ([], x)
  | fuel + 1, x =>
    match x.held.entries with
    | [] => ([], x)
    | (key, entry) :: _ =>
      if due x key then
        let (frame, x) := x.release key entry
        let (out, x) := releaseWhile due fuel x
        ((frame.map (key, ·)).toList ++ out, x)
      else ([], x)

/-- Older than the window behind the newest capture, or pushed out by the cap. -/
def due (newest : Option DateTime) (x : DecryptedExport) (key : FrameKey) : Bool :=
  newest.any (fun n => (ofLex key).1 ≤ n - x.window) ∨ x.byteCap < x.heldBytes

def ready (x : DecryptedExport) : List (FrameKey × ExportFrame) × DecryptedExport :=
  releaseWhile (due x.newest) x.held.length x

def finish (x : DecryptedExport) : List (FrameKey × ExportFrame) × DecryptedExport :=
  releaseWhile (fun _ _ => true) x.held.length x

def discard (x : DecryptedExport) : DecryptedExport :=
  { x with
    counts.discardedAtStop := x.counts.discardedAtStop + x.held.length
    held := .empty
    heldBytes := 0
    current := none }

/-! ## What a step does to the buffer -/

structure Holds (x x' : DecryptedExport) (entry : ExportEntry) : Prop where
  held : x'.held = x.held.insert (x.nextKey entry.frame) entry
  arrivals : x'.arrivals = x.arrivals + 1
  lastWritten : x'.lastWritten = x.lastWritten
  discardedAtStop : x'.counts.discardedAtStop = x.counts.discardedAtStop
  outOfOrder : x'.counts.outOfOrder = x.counts.outOfOrder

structure Idle (x x' : DecryptedExport) : Prop where
  held : x'.held = x.held
  arrivals : x'.arrivals = x.arrivals
  lastWritten : x'.lastWritten = x.lastWritten
  discardedAtStop : x'.counts.discardedAtStop = x.counts.discardedAtStop
  outOfOrder : x'.counts.outOfOrder = x.counts.outOfOrder

theorem Idle.holds {x x' x'' : DecryptedExport} {entry : ExportEntry} (h : Idle x x')
    (h' : Holds x' x'' entry) : Holds x x'' entry where
  held := by
    rw [h'.held, h.held, nextKey, h.arrivals]
    rfl
  arrivals := by rw [h'.arrivals, h.arrivals]
  lastWritten := by rw [h'.lastWritten, h.lastWritten]
  discardedAtStop := by rw [h'.discardedAtStop, h.discardedAtStop]
  outOfOrder := by rw [h'.outOfOrder, h.outOfOrder]

theorem Idle.trans {x x' x'' : DecryptedExport} (h : Idle x x') (h' : Idle x' x'') :
    Idle x x'' where
  held := h'.held.trans h.held
  arrivals := h'.arrivals.trans h.arrivals
  lastWritten := h'.lastWritten.trans h.lastWritten
  discardedAtStop := h'.discardedAtStop.trans h.discardedAtStop
  outOfOrder := h'.outOfOrder.trans h.outOfOrder

theorem srtpRebuild_eq_some {x : DecryptedExport} {rtp frame : List UInt8} {key : FrameKey}
    {entry : ExportEntry} (h : x.srtpRebuild rtp = some (key, entry, frame)) :
    x.held.get? key = some entry ∧ rebuildUdp entry.frame.packet rtp = some frame := by
  unfold srtpRebuild at h
  obtain ⟨k, -, h⟩ := Option.bind_eq_some_iff.mp h
  obtain ⟨old, hold, h⟩ := Option.bind_eq_some_iff.mp h
  obtain ⟨_, hrebuild, hfound⟩ := Option.map_eq_some_iff.mp h
  cases hfound
  exact ⟨hold, hrebuild⟩

variable (x : DecryptedExport)

theorem idle_noteDirection (packet : CapturedPacket) : Idle x (x.noteDirection packet) := by
  unfold noteDirection
  split
  · exact ⟨rfl, rfl, rfl, rfl, rfl⟩
  · exact ⟨rfl, rfl, rfl, rfl, rfl⟩

def noteTime (ts : DateTime) : DecryptedExport :=
  if x.newest.all (· < ts) then { x with newest := some ts } else x

theorem idle_noteTime (ts : DateTime) : Idle x (x.noteTime ts) := by
  unfold noteTime
  split_ifs
  · exact ⟨rfl, rfl, rfl, rfl, rfl⟩
  · exact ⟨rfl, rfl, rfl, rfl, rfl⟩

def capturedEntry (packet : CapturedPacket) : ExportEntry :=
  ⟨⟨packet, none⟩, segmentConn packet,
    (TcpView.of packet).any (fun v => isTls (packet.data.drop v.dataAt))⟩

theorem captured_holds (packet : CapturedPacket) :
    Holds x (x.captured packet) (capturedEntry packet) :=
  ((x.idle_noteTime packet.timestamp).trans (idle_noteDirection _ packet)).holds
    ⟨rfl, rfl, rfl, rfl, rfl⟩

theorem sipDecrypted_holds {src dst : SocketAddr} {dir : ExportDirection}
    (hdir : x.directions.get? (src, dst) = some dir) (timestamp : DateTime) (message : List UInt8)
    (source : Source) :
    Holds x (x.sipDecrypted src dst timestamp message source)
      ⟨x.messageFrame dir src dst timestamp message source, none, false⟩ := by
  unfold sipDecrypted
  rw [hdir]
  cases source with
  | tls => exact ⟨rfl, rfl, rfl, rfl, rfl⟩
  | wss => exact ⟨rfl, rfl, rfl, rfl, rfl⟩
  | srtp => exact ⟨rfl, rfl, rfl, rfl, rfl⟩

theorem sipDecrypted_idle {src dst : SocketAddr} (hdir : x.directions.get? (src, dst) = none)
    (timestamp : DateTime) (message : List UInt8) (source : Source) :
    Idle x (x.sipDecrypted src dst timestamp message source) := by
  unfold sipDecrypted
  rw [hdir]
  exact ⟨rfl, rfl, rfl, rfl, rfl⟩

theorem rtcpSeen_idle (src : SocketAddr) : Idle x (x.rtcpSeen src) := by
  unfold rtcpSeen
  split_ifs
  · exact ⟨rfl, rfl, rfl, rfl, rfl⟩
  · exact ⟨rfl, rfl, rfl, rfl, rfl⟩

end DecryptedExport

end Sipnab
