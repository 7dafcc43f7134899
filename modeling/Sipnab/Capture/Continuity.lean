import Sipnab.Capture.PacketProcessor
import Sipnab.Capture.TcpAccounting

/-!
# Messages of one connection

A held partial is put in front of what its direction delivers next, so it has to end where that
starts. The reassembler marks a stream that starts afresh after a silence or skips a hole, and the
partial is dropped then. A SYN, an eviction and a close behind a hole break the stream without such
a mark. In a run without these, every payload is a stretch of one connection.
-/

namespace Sipnab

open List Option OrderedMap

/-! ## Bytes of one connection -/

def ParsedPacket.isSyn (p : ParsedPacket) : Bool := p.tcpFlags.any (fun flags => flags.syn)

/-- A RST or FIN ends a connection; on a SYN, a FIN counts for nothing. -/
def ParsedPacket.endsConnection (p : ParsedPacket) : Bool :=
  p.tcpFlags.any (fun flags => flags.rst || flags.fin && !flags.syn)

/-- One of the packets carries the byte under the sequence number. -/
def CarriedAt (packets : List ParsedPacket) (seq : BitVec 32) (b : UInt8) : Prop :=
  ∃ p ∈ packets, ∃ start j, p.tcpSeq = some start ∧ p.payload[j]? = some b ∧ seq = atOffset start j

/-- The packets carry the bytes under consecutive sequence numbers, `seq` first. -/
def Spans (packets : List ParsedPacket) (seq : BitVec 32) (data : List UInt8) : Prop :=
  ∀ i b, data[i]? = some b → CarriedAt packets (atOffset seq i) b

/-- Packets of one direction in a row, behind `earlier` ones, that belong to one connection: only
the first may open it, only the last may end it, and none comes after the direction has been silent
for the time to live. -/
def OneConnection (ttl : ℕ) (earlier conn : List ParsedPacket) : Prop :=
  Stepwise (fun before p => before ≠ [] → p.isSyn = false ∧
    (∀ q ∈ before, q.endsConnection = false) ∧
    ∃ q ∈ earlier ++ before, silentPast q.timestamp p.timestamp ttl = false) conn

instance (ttl : ℕ) (earlier conn : List ParsedPacket) : Decidable (OneConnection ttl earlier conn) :=
  inferInstanceAs (Decidable (Stepwise _ conn))

/-- The bytes were consecutive in one connection of the direction. -/
def FromOneConnection (ttl : ℕ) (direction : List ParsedPacket) (data : List UInt8) : Prop :=
  ∃ earlier conn later seq, direction = earlier ++ conn ++ later ∧
    OneConnection ttl earlier conn ∧ Spans conn seq data

variable {ttl : ℕ} {direction earlier conn : List ParsedPacket} {seq : BitVec 32}
  {data data' : List UInt8} {p : ParsedPacket}

theorem CarriedAt.mono {packets packets' : List ParsedPacket} {b : UInt8}
    (h : CarriedAt packets seq b) (hsub : ∀ p ∈ packets, p ∈ packets') :
    CarriedAt packets' seq b := by
  obtain ⟨p, hp, hcarried⟩ := h
  exact ⟨p, hsub p hp, hcarried⟩

theorem Spans.mono {packets packets' : List ParsedPacket} (h : Spans packets seq data)
    (hsub : ∀ p ∈ packets, p ∈ packets') : Spans packets' seq data :=
  fun i b hb => (h i b hb).mono hsub

theorem spans_nil (packets : List ParsedPacket) (seq : BitVec 32) : Spans packets seq [] := by
  intro i b hb
  simp at hb

theorem spans_payload (hp : p ∈ conn) (hseq : p.tcpSeq = some seq) : Spans conn seq p.payload :=
  fun i _ hb => ⟨p, hp, seq, i, hseq, hb, rfl⟩

theorem atOffset_atOffset (seq : BitVec 32) (i j : ℕ) :
    atOffset (atOffset seq i) j = atOffset seq (i + j) := by
  rw [← atOffset_add]
  rfl

theorem atOffset_zero (seq : BitVec 32) : atOffset seq 0 = seq := BitVec.add_zero _

theorem Spans.append (h : Spans conn seq data) (h' : Spans conn (atOffset seq data.length) data') :
    Spans conn seq (data ++ data') := by
  intro i b hb
  by_cases hi : i < data.length
  · rw [List.getElem?_append_left hi] at hb
    exact h i b hb
  · rw [List.getElem?_append_right (Nat.le_of_not_lt hi)] at hb
    have hcarried := h' _ b hb
    rwa [atOffset_atOffset, Nat.add_sub_cancel' (Nat.le_of_not_lt hi)] at hcarried

theorem Spans.drop (h : Spans conn seq data) (n : ℕ) : Spans conn (atOffset seq n) (data.drop n) := by
  intro i b hb
  rw [List.getElem?_drop] at hb
  rw [atOffset_atOffset]
  exact h _ b hb

theorem Spans.take (h : Spans conn seq data) (n : ℕ) : Spans conn seq (data.take n) := by
  intro i b hb
  rw [List.getElem?_take] at hb
  split_ifs at hb
  exact h i b hb

theorem FromOneConnection.append (h : FromOneConnection ttl direction data)
    (more : List ParsedPacket) : FromOneConnection ttl (direction ++ more) data := by
  obtain ⟨earlier, conn, later, seq, rfl, hone, hspans⟩ := h
  exact ⟨earlier, conn, later ++ more, seq, by simp only [append_assoc], hone, hspans⟩

theorem oneConnection_singleton (ttl : ℕ) (earlier : List ParsedPacket) (p : ParsedPacket) :
    OneConnection ttl earlier [p] := by
  rw [OneConnection, ← nil_append [p], stepwise_concat]
  exact ⟨stepwise_nil, fun h => absurd rfl h⟩

theorem OneConnection.concat (h : OneConnection ttl earlier conn)
    (hopen : ∀ q ∈ conn, q.endsConnection = false) (hsyn : p.isSyn = false)
    (hheard : ∃ q ∈ earlier ++ conn, silentPast q.timestamp p.timestamp ttl = false) :
    OneConnection ttl earlier (conn ++ [p]) :=
  stepwise_concat.mpr ⟨h, fun _ => ⟨hsyn, hopen, hheard⟩⟩

/-! ## One stream -/

namespace TcpStream

def BufferSpans (conn : List ParsedPacket) (st : TcpStream) : Prop :=
  ∀ seq data, st.buffer.get? seq = some data → Spans conn seq data

/-- The stream after handing over `out`, carried by the packets from the expected number on. -/
structure Flows (conn : List ParsedPacket) (st st' : TcpStream) (out : List UInt8) : Prop where
  expected : st'.expectedSeq = atOffset st.expectedSeq out.length
  spans : Spans conn st.expectedSeq out
  buffer : ∀ seq data, st'.buffer.get? seq = some data → st.buffer.get? seq = some data
  delivered : st.delivered = true ∨ out ≠ [] → st'.delivered = true
  resynced : st'.resynced = st.resynced
  initialized : st'.initialized = st.initialized
  lastPacketAt : st'.lastPacketAt = st.lastPacketAt

variable {st st' st'' : TcpStream} {out out' : List UInt8}

theorem Flows.refl (conn : List ParsedPacket) (st : TcpStream) : Flows conn st st [] where
  expected := (atOffset_zero _).symm
  spans := spans_nil _ _
  buffer := fun _ _ h => h
  delivered := fun h => h.resolve_right (fun hne => hne rfl)
  resynced := rfl
  initialized := rfl
  lastPacketAt := rfl

theorem Flows.trans (h : Flows conn st st' out) (h' : Flows conn st' st'' out') :
    Flows conn st st'' (out ++ out') where
  expected := by rw [h'.expected, h.expected, atOffset_atOffset, length_append]
  spans := h.spans.append (by rw [← h.expected]; exact h'.spans)
  buffer := fun seq data hget => h.buffer seq data (h'.buffer seq data hget)
  delivered := by
    intro hor
    apply h'.delivered
    by_cases hout : out = []
    · subst hout
      exact hor.imp (fun hd => h.delivered (Or.inl hd)) id
    · exact Or.inl (h.delivered (Or.inr hout))
  resynced := h'.resynced.trans h.resynced
  initialized := h'.initialized.trans h.initialized
  lastPacketAt := h'.lastPacketAt.trans h.lastPacketAt

theorem flows_foldl_dropSegment (conn : List ParsedPacket) (seqs : List (BitVec 32))
    (st : TcpStream) : Flows conn st (seqs.foldl dropSegment st) [] := by
  obtain ⟨buffer, bytes, hfold, hget, -⟩ := foldl_dropSegment_eq seqs st
  rw [hfold]
  refine ⟨(atOffset_zero _).symm, spans_nil _ _, ?_, fun h => h.resolve_right (fun hne => hne rfl),
    rfl, rfl, rfl⟩
  intro seq data hseq
  rw [hget] at hseq
  split_ifs at hseq
  exact hseq

theorem flows_drainLoop (n : ℕ) (h : BufferSpans conn st) :
    Flows conn st (drainLoop n st).1 (drainLoop n st).2 := by
  induction n generalizing st with
  | zero => exact Flows.refl conn st
  | succ n ih =>
    rw [drainLoop]
    cases hget : st.buffer.get? st.expectedSeq with
    | some data =>
      have hwithin : ∀ seq data, (st.buffer.erase st.expectedSeq).get? seq = some data →
          st.buffer.get? seq = some data := by
        intro seq data hseq
        rw [get?_erase] at hseq
        split_ifs at hseq
        exact hseq
      have hfirst : Flows conn st { st with
          buffer := st.buffer.erase st.expectedSeq
          expectedSeq := st.expectedSeq + BitVec.ofNat 32 data.length
          bufferedBytes := st.bufferedBytes - data.length
          delivered := true } data :=
        ⟨rfl, h _ _ hget, hwithin, fun _ => rfl, rfl, rfl, rfl⟩
      exact hfirst.trans (ih (fun seq data hseq => h seq data (hwithin seq data hseq)))
    | none =>
      dsimp only
      split_ifs
      · exact Flows.refl conn st
      · have hdrop := flows_foldl_dropSegment conn (st.before st.expectedSeq) st
        exact hdrop.trans (ih (fun seq data hseq => h seq data (hdrop.buffer seq data hseq)))

theorem flows_drainInOrder (h : BufferSpans conn st) :
    Flows conn st st.drainInOrder.1 st.drainInOrder.2 := flows_drainLoop _ h

theorem drainAsResults_eq_nil_iff (st : TcpStream) :
    st.drainAsResults.2 = [] ↔ st.drainInOrder.2 = [] := by
  rw [drainAsResults]
  dsimp only
  split_ifs with hempty
  · exact iff_of_true rfl (List.isEmpty_iff.mp hempty)
  · exact iff_of_false id (fun hnil => hempty (List.isEmpty_iff.mpr hnil))

theorem flatten_drainAsResults_eq_nil (st : TcpStream) (h : st.drainAsResults.2.flatten = []) :
    st.drainAsResults.2 = [] := by
  rw [drainAsResults_eq_nil_iff, ← flatten_drainAsResults]
  exact h

theorem Flows.of_eq (h : Flows conn st st' out) (hexpected : st''.expectedSeq = st'.expectedSeq)
    (hbuffer : st''.buffer = st'.buffer) (hdelivered : st''.delivered = st'.delivered)
    (hresynced : st''.resynced = st'.resynced) (hinit : st''.initialized = st'.initialized)
    (hlast : st''.lastPacketAt = st'.lastPacketAt) : Flows conn st st'' out where
  expected := hexpected.trans h.expected
  spans := h.spans
  buffer := by
    rw [hbuffer]
    exact h.buffer
  delivered := fun hor => hdelivered.trans (h.delivered hor)
  resynced := hresynced.trans h.resynced
  initialized := hinit.trans h.initialized
  lastPacketAt := hlast.trans h.lastPacketAt

theorem flows_release (h : BufferSpans conn st) (ceiling : ℕ) (p : ParsedPacket) :
    Flows conn st (st.release ceiling p).1 (st.release ceiling p).2.flatten ∧
      ((st.release ceiling p).2.flatten = [] → (st.release ceiling p).2 = []) := by
  have hdrain := flows_drainInOrder h
  rw [release]
  by_cases hfull : ceiling < st.bufferedBytes
  · rw [if_pos hfull]
    exact ⟨by rw [flatten_drainAsResults]; exact hdrain, flatten_drainAsResults_eq_nil st⟩
  · rw [if_neg hfull]
    by_cases hpush : st.pendingFlush = true
    · obtain ⟨pendingFlush, hflush, -⟩ := flushPendingPush_eq hpush
      rw [hflush]
      dsimp only
      obtain ⟨blockedTemplate, hblocked⟩ :=
        rememberBlocked_eq { st.drainInOrder.1 with pendingFlush } p
      rw [hblocked]
      refine ⟨?_, flatten_drainAsResults_eq_nil st⟩
      rw [flatten_drainAsResults]
      exact hdrain.of_eq rfl rfl rfl rfl rfl rfl
    · obtain ⟨blockedTemplate, hblocked⟩ := rememberBlocked_eq st p
      rw [flushPendingPush, if_neg hpush]
      dsimp only
      rw [hblocked]
      exact ⟨(Flows.refl conn st).of_eq rfl rfl rfl rfl rfl rfl, fun _ => rfl⟩

/-! ## Recording a packet -/

/-- The stream of the packets `conn`, the last ones of a direction. -/
structure Live (ttl : ℕ) (direction earlier conn : List ParsedPacket) (st : TcpStream) : Prop where
  split : direction = earlier ++ conn
  one : OneConnection ttl earlier conn
  initialized : st.initialized = true
  heard : ∃ q ∈ direction, q.timestamp = st.lastPacketAt
  buffer : BufferSpans conn st

structure Joins (conn : List ParsedPacket) (st : TcpStream) (partialMessage : List UInt8) :
    Prop where
  delivered : st.delivered = true
  ends : ∃ seq, atOffset seq partialMessage.length = st.expectedSeq ∧ Spans conn seq partialMessage

theorem Joins.of_flows_nil {l : List UInt8} (h : Joins conn st l)
    (hflows : Flows conn st st' []) : Joins conn st' l := by
  obtain ⟨s, hstop, hspans⟩ := h.ends
  refine ⟨hflows.delivered (Or.inl h.delivered), s, ?_, hspans⟩
  rw [hflows.expected, length_nil, atOffset_zero]
  exact hstop

variable {flags : TcpFlags}

theorem takeSegment_expectedSeq (now : Instant) (seq : BitVec 32) (p : ParsedPacket)
    (hsyn : flags.syn = false) (hinit : st.initialized = true) (hdelivered : st.delivered = true) :
    (st.takeSegment now flags seq p).1.expectedSeq = st.expectedSeq := by
  cases hpsh : flags.psh <;> cases hempty : p.payload.isEmpty <;>
    simp [takeSegment, anchor, hinit, hsyn, hdelivered, hempty, hpsh]

theorem Live.flows (h : Live ttl direction earlier conn st) (hflows : Flows conn st st' out) :
    Live ttl direction earlier conn st' where
  split := h.split
  one := h.one
  initialized := hflows.initialized.trans h.initialized
  heard := by
    rw [hflows.lastPacketAt]
    exact h.heard
  buffer := fun seq data hget => h.buffer seq data (hflows.buffer seq data hget)

theorem resyncStream_cases (r : TcpReassembler) (seq : BitVec 32) (p : ParsedPacket)
    (h : BufferSpans conn st) :
    BufferSpans conn (r.resyncStream seq p st).2 ∧
      (r.resyncStream seq p st).2.initialized = st.initialized ∧
      (r.resyncStream seq p st).2.lastPacketAt = st.lastPacketAt ∧
      ((r.resyncStream seq p st).2 = st ∨ (r.resyncStream seq p st).2.resynced = true) := by
  rw [TcpReassembler.resyncStream]
  generalize (if p.payload.isEmpty then none else some seq) = justArrived
  cases hskip : r.resync.bind (fun startsMessage =>
      st.resyncPastHole startsMessage justArrived) with
  | none => exact ⟨h, rfl, rfl, Or.inl rfl⟩
  | some skipped =>
    obtain ⟨startsMessage, -, hresync⟩ := bind_eq_some_iff.mp hskip
    rw [resyncPastHole] at hresync
    split_ifs at hresync
    obtain ⟨target, -, rfl⟩ := map_eq_some_iff.mp hresync
    have hdrop := flows_foldl_dropSegment conn (st.before target) st
    exact ⟨fun seq data hseq => h seq data (hdrop.buffer seq data hseq), hdrop.initialized,
      hdrop.lastPacketAt, Or.inr rfl⟩

theorem Live.takeSegment (h : Live ttl direction earlier conn st)
    (hopen : ∀ q ∈ conn, q.endsConnection = false) (now : Instant)
    (hflags : p.tcpFlags = some flags) (hseq : p.tcpSeq = some seq) (hsyn : flags.syn = false)
    (hsilent : silentPast st.lastPacketAt p.timestamp ttl = false) :
    Live ttl (direction ++ [p]) earlier (conn ++ [p]) (st.takeSegment now flags seq p).1 := by
  obtain ⟨-, -, -, -, hinit, hlast⟩ := takeSegment_spec now st flags seq p
  obtain ⟨q, hq, htime⟩ := h.heard
  constructor
  case split => rw [h.split, append_assoc]
  case one =>
    refine h.one.concat hopen ?_ ⟨q, by rw [← h.split]; exact hq, by rw [htime]; exact hsilent⟩
    rw [ParsedPacket.isSyn, hflags]
    exact hsyn
  case initialized => exact hinit
  case heard =>
    rw [hlast]
    rcases max_choice st.lastPacketAt p.timestamp with hmax | hmax
    · exact ⟨q, mem_append_left _ hq, by rw [htime, hmax]⟩
    · exact ⟨p, mem_append_right _ (mem_singleton_self p), hmax.symm⟩
  case buffer =>
    intro s data hget
    rw [(takeSegment_spec now st flags seq p).1, hsyn, if_neg Bool.false_ne_true] at hget
    have hold : st.buffer.get? s = some data → Spans (conn ++ [p]) s data :=
      fun hold => (h.buffer s data hold).mono (fun q hq => mem_append_left _ hq)
    split_ifs at hget with hempty
    · exact hold hget
    · rw [get?_insert] at hget
      split_ifs at hget with hs
      · rw [hs, ← some.inj hget]
        exact spans_payload (mem_append_right _ (mem_singleton_self p)) hseq
      · exact hold hget

theorem live_takeSegment_first (ttl : ℕ) (direction : List ParsedPacket) (st : TcpStream)
    (now : Instant) (hseq : p.tcpSeq = some seq) (hstart : flags.syn = true ∨ st.buffer = .empty)
    (hheard : ∃ q ∈ direction ++ [p], q.timestamp = st.lastPacketAt) :
    Live ttl (direction ++ [p]) direction [p] (st.takeSegment now flags seq p).1 := by
  obtain ⟨-, -, -, -, hinit, hlast⟩ := takeSegment_spec now st flags seq p
  refine ⟨rfl, oneConnection_singleton ttl direction p, hinit, ?_, ?_⟩
  · rw [hlast]
    rcases max_choice st.lastPacketAt p.timestamp with hmax | hmax
    · rw [hmax]
      exact hheard
    · exact ⟨p, mem_append_right _ (mem_singleton_self p), hmax.symm⟩
  · intro s data hget
    have hempty : (if flags.syn = true then OrderedMap.empty else st.buffer) = .empty := by
      rcases hstart with hsyn | hbuffer
      · rw [if_pos hsyn]
      · rw [hbuffer, ite_self]
    rw [(takeSegment_spec now st flags seq p).1, hempty] at hget
    split_ifs at hget with hpayload
    · cases hget
    · rw [get?_insert] at hget
      split_ifs at hget with hs
      · rw [hs, ← some.inj hget]
        exact spans_payload (mem_singleton_self p) hseq
      · cases hget

end TcpStream

/-! ## One direction -/

namespace TcpReassembler
open TcpStream
variable {r : TcpReassembler} {now : Instant} {flags : TcpFlags} {st : TcpStream}
  {left : Option (List UInt8)}

/-- The stream is marked, or the packet starts it afresh, so that its partial is dropped with the
next flush. -/
def startsAfresh (r : TcpReassembler) (p : ParsedPacket) (st : TcpStream) : Bool :=
  st.resynced || silentPast st.lastPacketAt p.timestamp r.ttl

def skipsHole (now : Instant) (r : TcpReassembler) (flags : TcpFlags) (seq : BitVec 32)
    (p : ParsedPacket) : Bool :=
  (r.resync.bind (fun startsMessage =>
    ((r.recordedOn now seq p).takeSegment now flags seq p).1.resyncPastHole startsMessage
      (if p.payload.isEmpty then none else some seq))).isSome

/-- What is known of one direction: the partial held for it is a stretch of one connection, its
stream is that of its last packets, and the partial ends where the stream goes on unless the stream
is marked. -/
structure Upheld (ttl : ℕ) (direction : List ParsedPacket) (stream : Option TcpStream)
    (left : Option (List UInt8)) : Prop where
  held : ∀ l ∈ left, FromOneConnection ttl direction l
  tracked : ∀ st ∈ stream, ∃ earlier conn, Live ttl direction earlier conn st ∧
    (∀ q ∈ conn, q.endsConnection = false) ∧ ∀ l ∈ left, st.resynced = true ∨ Joins conn st l

theorem upheld_nil (ttl : ℕ) : Upheld ttl [] none none :=
  ⟨fun _ h => (not_mem_none _ h).elim, fun _ h => (not_mem_none _ h).elim⟩

theorem Upheld.of_within {stream stream' : Option TcpStream} {left left' : Option (List UInt8)}
    (h : Upheld ttl direction stream left) (hstream : ∀ st ∈ stream', st ∈ stream)
    (hleft : ∀ l ∈ left', l ∈ left) : Upheld ttl direction stream' left' where
  held := fun l hl => h.held l (hleft l hl)
  tracked := by
    intro st hst
    obtain ⟨earlier, conn, hlive, hopen, hjoins⟩ := h.tracked st (hstream st hst)
    exact ⟨earlier, conn, hlive, hopen, fun l hl => hjoins l (hleft l hl)⟩

theorem recordedOn_of_afresh (now : Instant) (seq : BitVec 32)
    (htracked : r.streams.get? p.streamKey = some st) (h : r.startsAfresh p st = true) :
    (r.recordedOn now seq p).resynced = true := by
  rw [recordedOn, continued, restartIfSilent, htracked, filter_some, any_some]
  rw [startsAfresh, Bool.or_eq_true] at h
  cases hsilent : silentPast st.lastPacketAt p.timestamp r.ttl with
  | true => rfl
  | false =>
    rw [hsilent] at h
    exact h.resolve_right Bool.false_ne_true

theorem recordedOn_of_not_silent (now : Instant) (seq : BitVec 32)
    (htracked : r.streams.get? p.streamKey = some st)
    (h : silentPast st.lastPacketAt p.timestamp r.ttl = false) : r.recordedOn now seq p = st := by
  rw [recordedOn, continued, htracked, filter_some, h]
  rfl

theorem recordedOn_of_not_continued (now : Instant) (seq : BitVec 32)
    (h : r.continued p = none) :
    (r.recordedOn now seq p).buffer = .empty ∧
      (r.recordedOn now seq p).lastPacketAt = p.timestamp := by
  rw [recordedOn, h]
  exact ⟨rfl, rfl⟩

/-- The stream once a packet is recorded on it. A partial needs a tracked stream, and a SYN a marked
one. -/
theorem Upheld.recorded
    (h : Upheld r.ttl direction (r.streams.get? p.streamKey) left) (now : Instant)
    (hflags : p.tcpFlags = some flags) (hseq : p.tcpSeq = some seq)
    (hleft : left.isSome = true → ∃ st, r.streams.get? p.streamKey = some st ∧
      (flags.syn = true → r.startsAfresh p st = true)) :
    let st₁ := ((r.recordedOn now seq p).takeSegment now flags seq p).1
    ∃ earlier conn, Live r.ttl (direction ++ [p]) earlier conn st₁ ∧
      (p.endsConnection = false → ∀ q ∈ conn, q.endsConnection = false) ∧
      ∀ l ∈ left, st₁.resynced = true ∨ Joins conn st₁ l := by
  intro st₁
  obtain ⟨-, -, hresynced, hdelivered, -, -⟩ :=
    takeSegment_spec now (r.recordedOn now seq p) flags seq p
  -- a partial is held for a stream that is tracked
  have hmarked : ∀ l ∈ left, ∃ st, r.streams.get? p.streamKey = some st ∧
      (flags.syn = true → st₁.resynced = true) ∧
      (r.startsAfresh p st = true → st₁.resynced = true) := by
    intro l hl
    obtain ⟨st, htracked, hsyn⟩ := hleft (by rw [mem_def.mp hl]; rfl)
    have hafresh : r.startsAfresh p st = true → st₁.resynced = true :=
      fun hafresh => hresynced.trans (recordedOn_of_afresh now seq htracked hafresh)
    exact ⟨st, htracked, fun hs => hafresh (hsyn hs), hafresh⟩
  cases hcontinued : r.continued p with
  | none =>
    obtain ⟨hbuffer, hlast⟩ := recordedOn_of_not_continued now seq hcontinued
    refine ⟨direction, [p], live_takeSegment_first r.ttl direction _ now hseq (Or.inr hbuffer)
      ⟨p, mem_append_right _ (mem_singleton_self p), hlast.symm⟩, ?_, ?_⟩
    · intro hends q hq
      rw [mem_singleton.mp hq]
      exact hends
    · intro l hl
      obtain ⟨st, htracked, -, hafresh⟩ := hmarked l hl
      left
      apply hafresh
      rw [startsAfresh, Bool.or_eq_true]
      right
      rw [continued, htracked, filter_some] at hcontinued
      simpa using hcontinued
  | some st =>
    have htracked : r.streams.get? p.streamKey = some st ∧
        silentPast st.lastPacketAt p.timestamp r.ttl = false := by
      rw [continued] at hcontinued
      simpa using filter_eq_some_iff.mp hcontinued
    have hrecorded := recordedOn_of_not_silent now seq htracked.1 htracked.2
    obtain ⟨earlier, conn, hlive, hopen, hjoins⟩ := h.tracked st htracked.1
    by_cases hsyn : flags.syn = true
    · obtain ⟨q, hq, htime⟩ := hlive.heard
      refine ⟨direction, [p], live_takeSegment_first r.ttl direction _ now hseq (Or.inl hsyn)
        ⟨q, mem_append_left _ hq, by rw [hrecorded]; exact htime⟩, ?_, ?_⟩
      · intro hends q hq
        rw [mem_singleton.mp hq]
        exact hends
      · intro l hl
        obtain ⟨-, -, hmark, -⟩ := hmarked l hl
        exact Or.inl (hmark hsyn)
    · rw [Bool.not_eq_true] at hsyn
      have hlive₁ := hlive.takeSegment hopen now hflags hseq hsyn htracked.2
      rw [show st₁ = (st.takeSegment now flags seq p).1 by rw [← hrecorded]]
      refine ⟨earlier, conn ++ [p], hlive₁, ?_, ?_⟩
      · intro hends q hq
        rcases mem_append.mp hq with hq | hq
        · exact hopen q hq
        · rw [mem_singleton.mp hq]
          exact hends
      · intro l hl
        rw [hrecorded] at hresynced hdelivered
        rcases hjoins l hl with hmark | hjoin
        · exact Or.inl (hresynced.trans hmark)
        · right
          obtain ⟨s, hends, hspans⟩ := hjoin.ends
          refine ⟨hdelivered.trans hjoin.delivered, s, ?_,
            hspans.mono (fun q hq => mem_append_left _ hq)⟩
          rw [hends, takeSegment_expectedSeq now seq p hsyn hlive.initialized hjoin.delivered]

theorem live_resumed {st₁ : TcpStream} (h : Live ttl direction earlier conn st₁)
    (r : TcpReassembler) (seq : BitVec 32) (p : ParsedPacket)
    (hjoins : ∀ l ∈ left, st₁.resynced = true ∨ Joins conn st₁ l) :
    Live ttl direction earlier conn (r.resyncStream seq p st₁).2 ∧
      ∀ l ∈ left, (r.resyncStream seq p st₁).2.resynced = true ∨
        Joins conn (r.resyncStream seq p st₁).2 l := by
  obtain ⟨hbuffer, hinit, hlast, hcases⟩ := resyncStream_cases r seq p h.buffer
  refine ⟨⟨h.split, h.one, hinit.trans h.initialized, by rw [hlast]; exact h.heard, hbuffer⟩, ?_⟩
  intro l hl
  rcases hcases with hsame | hmark
  · rw [hsame]
    exact hjoins l hl
  · exact Or.inl hmark

theorem not_resynced (htracked : r.streams.get? p.streamKey = some st)
    (hafresh : r.startsAfresh p st = false) (hskips : r.skipsHole now flags seq p = false) :
    (r.resyncStream seq p ((r.recordedOn now seq p).takeSegment now flags seq p).1).2.resynced =
      false := by
  rw [startsAfresh, Bool.or_eq_false_iff] at hafresh
  have hrecorded := recordedOn_of_not_silent now seq htracked hafresh.2
  rw [skipsHole, isSome_eq_false_iff, isNone_iff_eq_none] at hskips
  rw [resyncStream, hskips]
  rw [(takeSegment_spec now _ flags seq p).2.2.1, hrecorded]
  exact hafresh.1

theorem spans_behind {st' : TcpStream} {out : List UInt8} (hflows : Flows conn st st' out)
    (hjoins : ∀ l ∈ left, Joins conn st l) : ∃ s,
    Spans conn s (left.getD [] ++ out) ∧
      atOffset s (left.getD [] ++ out).length = st'.expectedSeq := by
  cases left with
  | none => exact ⟨st.expectedSeq, hflows.spans, hflows.expected.symm⟩
  | some l =>
    obtain ⟨s, hends, hspans⟩ := (hjoins l rfl).ends
    refine ⟨s, hspans.append (by rw [hends]; exact hflows.spans), ?_⟩
    rw [hflows.expected, ← hends, atOffset_atOffset, getD_some, length_append]

end TcpReassembler

/-! ## The processor -/

namespace PacketProcessor
open TcpReassembler TcpStream
variable {env : ReassemblyEnv} {now : Instant} {pp : PacketProcessor} {key : TcpStreamKey}

/-- With a partial held for its direction, the packet breaks the direction and leaves the partial:
the stream has been evicted; or a SYN comes on a stream that is not marked; or a FIN on one that is,
or that skips a hole, takes the mark with it. -/
def breaks (now : Instant) (pp : PacketProcessor) (p : ParsedPacket) : Bool :=
  match p.tcpFlags, p.tcpSeq with
  | some flags, some seq =>
    !flags.rst && (pp.tcpSipLeftover.get? p.streamKey).isSome &&
      match pp.tcpReassembler.streams.get? p.streamKey with
      | none => true
      | some st =>
        let afresh := pp.tcpReassembler.startsAfresh p st
        flags.syn && !afresh || flags.fin && (afresh || pp.tcpReassembler.skipsHole now flags seq p)
  | _, _ => false

theorem frameFlushed_spec (env : ReassemblyEnv) (pp : PacketProcessor) (p : ParsedPacket)
    (streamOpen : Bool) (flushed : List (List UInt8)) :
    let buf := (pp.tcpSipLeftover.get? p.streamKey).getD [] ++ flushed.flatten
    let result := pp.frameFlushed env p streamOpen flushed
    (∀ q ∈ result.2, ∃ i n, q.payload = (buf.drop i).take n) ∧
      (∀ l ∈ result.1.tcpSipLeftover.get? p.streamKey,
        streamOpen = true ∧ ∃ i ≤ buf.length, l = buf.drop i) ∧
      (∀ key ≠ p.streamKey, ∀ l ∈ result.1.tcpSipLeftover.get? key,
        l ∈ pp.tcpSipLeftover.get? key) ∧
      result.1.tcpReassembler = pp.tcpReassembler := by
  intro buf result
  have hremoved : ∀ l, l ∉ (pp.removeLeftover p.streamKey).tcpSipLeftover.get? p.streamKey := by
    intro l hl
    rw [get?_removeLeftover, if_pos rfl] at hl
    cases hl
  have hothers : ∀ key ≠ p.streamKey, ∀ l ∈ (pp.removeLeftover p.streamKey).tcpSipLeftover.get? key,
      l ∈ pp.tcpSipLeftover.get? key := by
    intro key hkey l hl
    rwa [get?_removeLeftover, if_neg hkey] at hl
  have hranges : ∀ q ∈ (frameTcpSip buf).1.map (fun r => { p with payload := slice buf r }),
      ∃ i n, q.payload = (buf.drop i).take n := by
    intro q hq
    obtain ⟨r, -, rfl⟩ := List.mem_map.mp hq
    exact ⟨r.1, r.2 - r.1, drop_take⟩
  have hresult : result = pp.frameFlushed env p streamOpen flushed := rfl
  rw [frameFlushed] at hresult
  dsimp only at hresult
  split_ifs at hresult with hsip hhold htail
  · rw [hresult]
    refine ⟨?_, fun l hl => absurd hl (hremoved l), hothers, rfl⟩
    intro q hq
    rw [mem_singleton.mp hq]
    exact ⟨0, buf.length, (take_length).symm⟩
  · obtain ⟨hself, hkept⟩ := get?_holdLeftover (pp.removeLeftover p.streamKey) p.streamKey
      (buf.drop (frameTcpSip buf).2)
    rw [hresult]
    refine ⟨hranges, ?_, fun key hkey l hl => hothers key hkey l (hkept key hkey l hl), rfl⟩
    intro l hl
    rw [hself] at hl
    exact ⟨hhold.2.1, _, frameTcpSip_consumed_le buf, (some.inj hl).symm⟩
  · rw [hresult]
    refine ⟨?_, fun l hl => absurd hl (hremoved l), hothers, rfl⟩
    intro q hq
    rcases mem_append.mp hq with hq | hq
    · exact hranges q hq
    · rw [mem_singleton.mp hq]
      exact ⟨(frameTcpSip buf).2, buf.length, (take_of_length_le (by
        rw [length_drop]; exact Nat.sub_le _ _)).symm⟩
  · rw [hresult]
    exact ⟨hranges, fun l hl => absurd hl (hremoved l), hothers, rfl⟩

theorem fromOneConnection_piece {s : BitVec 32} {buf : List UInt8}
    (hone : OneConnection ttl earlier conn) (hspans : Spans conn s buf)
    (hsplit : direction = earlier ++ conn) (i n : ℕ) :
    FromOneConnection ttl direction ((buf.drop i).take n) :=
  ⟨earlier, conn, [], atOffset s i, by rw [hsplit, append_nil], hone, (hspans.drop i).take n⟩

/-- What a step on one direction has to leave: what is known of every direction, with the packet
added to its own, and what is emitted from one connection. -/
structure StepUpheld (ttl : ℕ) (directions : TcpStreamKey → List ParsedPacket) (key : TcpStreamKey)
    (direction : List ParsedPacket) (result : PacketProcessor × List ParsedPacket) : Prop where
  settings : result.1.tcpReassembler.ttl = ttl
  others : ∀ key' ≠ key, Upheld ttl (directions key')
    (result.1.tcpReassembler.streams.get? key') (result.1.tcpSipLeftover.get? key')
  own : Upheld ttl direction (result.1.tcpReassembler.streams.get? key)
    (result.1.tcpSipLeftover.get? key)
  emitted : ∀ q ∈ result.2, FromOneConnection ttl direction q.payload

variable {directions : TcpStreamKey → List ParsedPacket}

theorem stepUpheld_releaseClosed (hsettings : pp.tcpReassembler.ttl = ttl)
    (hothers : ∀ key ≠ p.streamKey, Upheld ttl (directions key)
      (pp.tcpReassembler.streams.get? key) (pp.tcpSipLeftover.get? key))
    (hown : Upheld ttl direction (pp.tcpReassembler.streams.get? p.streamKey)
      (pp.tcpSipLeftover.get? p.streamKey)) :
    StepUpheld ttl directions p.streamKey direction (pp.releaseClosed p) := by
  rw [releaseClosed]
  split_ifs with hopen
  · exact ⟨hsettings, hothers, hown, fun q hq => absurd hq not_mem_nil⟩
  · cases hleft : pp.tcpSipLeftover.get? p.streamKey with
    | none => exact ⟨hsettings, hothers, hown, fun q hq => absurd hq not_mem_nil⟩
    | some rem =>
      refine ⟨hsettings, ?_, ?_, ?_⟩
      · intro key hkey
        refine (hothers key hkey).of_within (fun _ h => h) ?_
        intro l hl
        rwa [get?_removeLeftover, if_neg hkey] at hl
      · refine hown.of_within (fun _ h => h) ?_
        intro l hl
        rw [get?_removeLeftover, if_pos rfl] at hl
        cases hl
      · intro q hq
        dsimp only at hq
        split_ifs at hq with hempty
        · exact absurd hq not_mem_nil
        · rw [mem_singleton.mp hq]
          exact hown.held rem hleft

variable {flushed : List (List UInt8)} {r' : TcpReassembler}

variable {st st' : TcpStream} {flags : TcpFlags}

theorem stepUpheld_frameFlushed (pp : PacketProcessor) (hsettings : pp.tcpReassembler.ttl = ttl)
    (hothers : ∀ key ≠ p.streamKey, Upheld ttl (directions key)
      (pp.tcpReassembler.streams.get? key) (pp.tcpSipLeftover.get? key))
    (hlive : Live ttl direction earlier conn st) (hflows : Flows conn st st' flushed.flatten)
    (hjoins : ∀ l ∈ pp.tcpSipLeftover.get? p.streamKey, Joins conn st l)
    (hflushed : flushed.flatten ≠ []) (streamOpen : Bool)
    (hstream : ∀ st₁ ∈ pp.tcpReassembler.streams.get? p.streamKey,
      st₁ = { st' with resynced := false } ∧ ∀ q ∈ conn, q.endsConnection = false) :
    StepUpheld ttl directions p.streamKey direction (pp.frameFlushed env p streamOpen flushed) := by
  obtain ⟨s, hspans, hends⟩ := spans_behind hflows hjoins
  obtain ⟨hemitted, hheld, hkept, hsame⟩ := frameFlushed_spec env pp p streamOpen flushed
  refine ⟨by rw [hsame]; exact hsettings, ?_, ?_, ?_⟩
  · intro key hkey
    rw [hsame]
    exact (hothers key hkey).of_within (fun _ h => h) (hkept key hkey)
  · rw [hsame]
    constructor
    · intro l hl
      obtain ⟨-, i, hi, rfl⟩ := hheld l hl
      have hpiece := fromOneConnection_piece hlive.one hspans hlive.split i
        ((pp.tcpSipLeftover.get? p.streamKey).getD [] ++ flushed.flatten).length
      rwa [take_of_length_le (by rw [length_drop]; exact Nat.sub_le _ _)] at hpiece
    · intro st₁ hst₁
      obtain ⟨rfl, hopen⟩ := hstream st₁ hst₁
      have hlive' := hlive.flows hflows
      refine ⟨earlier, conn, ⟨hlive'.split, hlive'.one, hlive'.initialized, hlive'.heard,
        hlive'.buffer⟩, hopen, ?_⟩
      intro l hl
      obtain ⟨-, i, hi, rfl⟩ := hheld l hl
      right
      refine ⟨hflows.delivered (Or.inr hflushed), atOffset s i, ?_, hspans.drop i⟩
      rw [atOffset_atOffset, length_drop, Nat.add_sub_cancel' hi]
      exact hends
  · intro q hq
    obtain ⟨i, n, hpayload⟩ := hemitted q hq
    rw [hpayload]
    exact fromOneConnection_piece hlive.one hspans hlive.split i n

theorem processTcp_of_none (env : ReassemblyEnv) (now : Instant) (pp : PacketProcessor)
    (p : ParsedPacket) (hinsert : pp.tcpReassembler.insert env now p = (r', [])) :
    pp.processTcp env now p = { pp with tcpReassembler := r' }.releaseClosed p := by
  rw [processTcp, hinsert]
  rfl

theorem processTcp_of_some (env : ReassemblyEnv) (now : Instant) (pp : PacketProcessor)
    (p : ParsedPacket) {r'' : TcpReassembler} {resynced : Bool}
    (hinsert : pp.tcpReassembler.insert env now p = (r', flushed)) (hflushed : flushed ≠ [])
    (htake : r'.takeResync p.streamKey = (r'', resynced)) :
    pp.processTcp env now p =
      (if resynced then { pp with tcpReassembler := r'' }.removeLeftover p.streamKey
        else { pp with tcpReassembler := r'' }).frameFlushed env p
          (r'.contains p.streamKey) flushed := by
  rw [processTcp, hinsert]
  dsimp only
  rw [htake, if_neg (fun hempty => hflushed (List.isEmpty_iff.mp hempty))]

theorem Upheld.recorded_of_not_breaks (h : Upheld pp.tcpReassembler.ttl direction
      (pp.tcpReassembler.streams.get? p.streamKey) (pp.tcpSipLeftover.get? p.streamKey))
    (hbreaks : pp.breaks now p = false) (hflags : p.tcpFlags = some flags)
    (hseq : p.tcpSeq = some seq) (hrst : flags.rst = false) :
    let st₁ := ((pp.tcpReassembler.recordedOn now seq p).takeSegment now flags seq p).1
    let resumed := (pp.tcpReassembler.resyncStream seq p st₁).2
    ∃ earlier conn, Live pp.tcpReassembler.ttl (direction ++ [p]) earlier conn st₁ ∧
      Live pp.tcpReassembler.ttl (direction ++ [p]) earlier conn resumed ∧
      (p.endsConnection = false → ∀ q ∈ conn, q.endsConnection = false) ∧
      (∀ l ∈ pp.tcpSipLeftover.get? p.streamKey, st₁.resynced = true ∨ Joins conn st₁ l) ∧
      (∀ l ∈ pp.tcpSipLeftover.get? p.streamKey, resumed.resynced = true ∨ Joins conn resumed l) ∧
      (flags.fin = true → ∀ l ∈ pp.tcpSipLeftover.get? p.streamKey, resumed.resynced = false) := by
  intro st₁ resumed
  simp only [breaks, hflags, hseq, hrst, Bool.not_false, Bool.true_and] at hbreaks
  -- with a partial held, the stream is tracked, and the packet meets its mark as it has to
  have hleft : (pp.tcpSipLeftover.get? p.streamKey).isSome = true →
      ∃ st, pp.tcpReassembler.streams.get? p.streamKey = some st ∧
        (flags.syn = true → pp.tcpReassembler.startsAfresh p st = true) ∧
        (flags.fin = true → pp.tcpReassembler.startsAfresh p st = false ∧
          pp.tcpReassembler.skipsHole now flags seq p = false) := by
    intro hsome
    rw [hsome, Bool.true_and] at hbreaks
    cases htracked : pp.tcpReassembler.streams.get? p.streamKey with
    | none =>
      rw [htracked] at hbreaks
      cases hbreaks
    | some st =>
      rw [htracked] at hbreaks
      rw [Bool.or_eq_false_iff] at hbreaks
      refine ⟨st, rfl, ?_, ?_⟩
      · intro hsyn
        simpa [hsyn] using hbreaks.1
      · intro hfin
        simpa [hfin] using hbreaks.2
  obtain ⟨earlier, conn, hlive, hopen, hjoins⟩ := h.recorded now hflags hseq (by
    intro hsome
    obtain ⟨st, htracked, hsyn, -⟩ := hleft hsome
    exact ⟨st, htracked, hsyn⟩)
  obtain ⟨hlive', hjoins'⟩ := live_resumed hlive pp.tcpReassembler seq p hjoins
  refine ⟨earlier, conn, hlive, hlive', hopen, hjoins, hjoins', ?_⟩
  intro hfin l hl
  obtain ⟨st, htracked, -, hclear⟩ := hleft (by rw [mem_def.mp hl]; rfl)
  exact not_resynced htracked (hclear hfin).1 (hclear hfin).2

theorem stepUpheld_removed
    (hinsert : pp.tcpReassembler.insert env now p = (r'.remove p.streamKey, flushed))
    (hsettings : r'.ttl = ttl)
    (hothers : ∀ key ≠ p.streamKey, Upheld ttl (directions key) (r'.streams.get? key)
      (pp.tcpSipLeftover.get? key))
    (hheld : ∀ l ∈ pp.tcpSipLeftover.get? p.streamKey, FromOneConnection ttl direction l)
    (hlive : Live ttl direction earlier conn st) (hflows : Flows conn st st' flushed.flatten)
    (hnil : flushed.flatten = [] → flushed = [])
    (hjoins : ∀ l ∈ pp.tcpSipLeftover.get? p.streamKey, Joins conn st l) :
    StepUpheld ttl directions p.streamKey direction (pp.processTcp env now p) := by
  have hgone : (r'.remove p.streamKey).streams.get? p.streamKey = none := by
    rw [get?_remove, if_pos rfl]
  have hnot : ∀ st, st ∉ (r'.remove p.streamKey).streams.get? p.streamKey := by
    intro st hst
    rw [hgone] at hst
    cases hst
  have hothers' : ∀ key ≠ p.streamKey, Upheld ttl (directions key)
      ((r'.remove p.streamKey).streams.get? key) (pp.tcpSipLeftover.get? key) := by
    intro key hkey
    rw [get?_remove, if_neg hkey]
    exact hothers key hkey
  by_cases hnone : flushed = []
  · subst hnone
    rw [processTcp_of_none env now pp p hinsert]
    exact stepUpheld_releaseClosed hsettings hothers' ⟨hheld, fun st hst => absurd hst (hnot st)⟩
  · have htake : (r'.remove p.streamKey).takeResync p.streamKey =
        (r'.remove p.streamKey, false) := by rw [takeResync, hgone]
    rw [processTcp_of_some env now pp p hinsert hnone htake, if_neg Bool.false_ne_true]
    exact stepUpheld_frameFlushed { pp with tcpReassembler := r'.remove p.streamKey } hsettings
      hothers' hlive hflows hjoins (fun h => hnone (hnil h)) _ (fun st hst => absurd hst (hnot st))

/-- The stream stays, and what has become contiguous comes out behind the partial. A marked stream
has lost its partial by then. -/
theorem stepUpheld_kept
    (hinsert : pp.tcpReassembler.insert env now p = (r'.put p.streamKey st', flushed))
    (hsettings : r'.ttl = ttl)
    (hothers : ∀ key ≠ p.streamKey, Upheld ttl (directions key) (r'.streams.get? key)
      (pp.tcpSipLeftover.get? key))
    (hheld : ∀ l ∈ pp.tcpSipLeftover.get? p.streamKey, FromOneConnection ttl direction l)
    (hlive : Live ttl direction earlier conn st) (hopen : ∀ q ∈ conn, q.endsConnection = false)
    (hflows : Flows conn st st' flushed.flatten) (hnil : flushed.flatten = [] → flushed = [])
    (hjoins : ∀ l ∈ pp.tcpSipLeftover.get? p.streamKey, st.resynced = true ∨ Joins conn st l) :
    StepUpheld ttl directions p.streamKey direction (pp.processTcp env now p) := by
  by_cases hnone : flushed = []
  · -- nothing came out, so the stream has not moved
    subst hnone
    rw [processTcp_of_none env now pp p hinsert]
    refine stepUpheld_releaseClosed hsettings ?_ ⟨hheld, ?_⟩
    · intro key hkey
      rw [get?_put_other r' hkey]
      exact hothers key hkey
    · intro st₁ hst₁
      rw [get?_put, mem_some_iff] at hst₁
      subst hst₁
      refine ⟨earlier, conn, hlive.flows hflows, hopen, ?_⟩
      intro l hl
      exact (hjoins l hl).imp hflows.resynced.trans (fun h => h.of_flows_nil hflows)
  · have htake : (r'.put p.streamKey st').takeResync p.streamKey =
        ((r'.put p.streamKey st').put p.streamKey { st' with resynced := false },
          st'.resynced) := by rw [takeResync, get?_put]
    have hothers' : ∀ key ≠ p.streamKey, Upheld ttl (directions key)
        (((r'.put p.streamKey st').put p.streamKey
          { st' with resynced := false }).streams.get? key) (pp.tcpSipLeftover.get? key) := by
      intro key hkey
      rw [get?_put_other _ hkey, get?_put_other _ hkey]
      exact hothers key hkey
    have hstream : ∀ st₁ ∈ ((r'.put p.streamKey st').put p.streamKey
        { st' with resynced := false }).streams.get? p.streamKey,
        st₁ = { st' with resynced := false } ∧ ∀ q ∈ conn, q.endsConnection = false := by
      intro st₁ hst₁
      rw [get?_put, mem_some_iff] at hst₁
      exact ⟨hst₁.symm, hopen⟩
    rw [processTcp_of_some env now pp p hinsert hnone htake]
    cases hmark : st'.resynced with
    | true =>
      rw [if_pos rfl]
      refine stepUpheld_frameFlushed _ hsettings ?_ hlive hflows ?_ (fun h => hnone (hnil h)) _
        hstream
      · intro key hkey
        refine (hothers' key hkey).of_within (fun _ h => h) ?_
        intro l hl
        rwa [get?_removeLeftover, if_neg hkey] at hl
      · intro l hl
        rw [get?_removeLeftover, if_pos rfl] at hl
        cases hl
    | false =>
      rw [if_neg Bool.false_ne_true]
      refine stepUpheld_frameFlushed { pp with
        tcpReassembler := (r'.put p.streamKey st').put p.streamKey { st' with resynced := false } }
        hsettings hothers' hlive hflows ?_ (fun h => hnone (hnil h)) _ hstream
      intro l hl
      refine (hjoins l hl).resolve_left ?_
      rw [← hflows.resynced, hmark]
      exact Bool.false_ne_true

theorem stepUpheld_segment (env : ReassemblyEnv)
    (h : ∀ key, Upheld pp.tcpReassembler.ttl (directions key)
      (pp.tcpReassembler.streams.get? key) (pp.tcpSipLeftover.get? key))
    (hbreaks : pp.breaks now p = false) (hflags : p.tcpFlags = some flags)
    (hseq : p.tcpSeq = some seq) (hrst : flags.rst = false) :
    StepUpheld pp.tcpReassembler.ttl directions p.streamKey (directions p.streamKey ++ [p])
      (pp.processTcp env now p) := by
  obtain ⟨earlier, conn, hlive₁, hlive, hopen, hjoins₁, hjoins, hclear⟩ :=
    Upheld.recorded_of_not_breaks (h p.streamKey) hbreaks hflags hseq hrst
  obtain ⟨r', hwithin, ⟨httl, -⟩, hinsert⟩ := insert_eq env now pp.tcpReassembler hflags hseq hrst
  have hheld : ∀ l ∈ pp.tcpSipLeftover.get? p.streamKey,
      FromOneConnection pp.tcpReassembler.ttl (directions p.streamKey ++ [p]) l :=
    fun l hl => ((h p.streamKey).held l hl).append [p]
  have hothers : ∀ key ≠ p.streamKey, Upheld pp.tcpReassembler.ttl (directions key)
      (r'.streams.get? key) (pp.tcpSipLeftover.get? key) :=
    fun key _ => (h key).of_within (hwithin key) (fun _ hl => hl)
  split_ifs at hinsert with hempty hfin
  · -- a bare SYN is recorded and that is all
    have hends : p.endsConnection = false := by
      rw [Bool.and_eq_true] at hempty
      rw [ParsedPacket.endsConnection, hflags, any_some, hrst, hempty.1, Bool.not_true,
        Bool.and_false, Bool.or_self]
    exact stepUpheld_kept hinsert httl hothers hheld hlive₁ (hopen hends) (Flows.refl conn _)
      (fun _ => rfl) hjoins₁
  · have hflows := flows_drainInOrder hlive.buffer
    rw [← flatten_drainAsResults] at hflows
    refine stepUpheld_removed hinsert httl hothers hheld hlive hflows
      (flatten_drainAsResults_eq_nil _) ?_
    intro l hl
    refine (hjoins l hl).resolve_left ?_
    rw [hclear hfin l hl]
    exact Bool.false_ne_true
  · have hends : p.endsConnection = false := by
      rw [ParsedPacket.endsConnection, hflags, any_some, hrst, Bool.eq_false_iff.mpr hfin,
        Bool.false_and, Bool.or_self]
    obtain ⟨hflows, hnil⟩ := flows_release hlive.buffer env.maxTcpBuffer p
    exact stepUpheld_kept hinsert httl hothers hheld hlive (hopen hends) hflows hnil hjoins

theorem stepUpheld_reset (env : ReassemblyEnv) (now : Instant)
    (h : ∀ key, Upheld pp.tcpReassembler.ttl (directions key)
      (pp.tcpReassembler.streams.get? key) (pp.tcpSipLeftover.get? key))
    (hflags : p.tcpFlags = some flags) (hseq : p.tcpSeq = some seq) (hrst : flags.rst = true) :
    StepUpheld pp.tcpReassembler.ttl directions p.streamKey (directions p.streamKey ++ [p])
      (pp.processTcp env now p) := by
  have hinsert : pp.tcpReassembler.insert env now p =
      (pp.tcpReassembler.remove p.streamKey, []) := by
    simp only [TcpReassembler.insert, hflags, hseq, hrst, if_true]
  rw [processTcp_of_none env now pp p hinsert]
  refine stepUpheld_releaseClosed rfl ?_ ⟨fun l hl => ((h p.streamKey).held l hl).append [p], ?_⟩
  · intro key hkey
    refine (h key).of_within ?_ (fun _ hl => hl)
    intro st hst
    rwa [get?_remove, if_neg hkey] at hst
  · intro st hst
    rw [get?_remove, if_pos rfl] at hst
    cases hst

theorem stepUpheld_other (env : ReassemblyEnv) (now : Instant)
    (h : ∀ key, Upheld pp.tcpReassembler.ttl (directions key)
      (pp.tcpReassembler.streams.get? key) (pp.tcpSipLeftover.get? key))
    (hother : (p.tcpFlags.isSome && p.tcpSeq.isSome) = false) :
    StepUpheld pp.tcpReassembler.ttl directions p.streamKey (directions p.streamKey)
      (pp.processTcp env now p) := by
  have hinsert : pp.tcpReassembler.insert env now p = (pp.tcpReassembler, []) := by
    cases hflags : p.tcpFlags <;> cases hseq : p.tcpSeq
    · simp only [TcpReassembler.insert, hflags]
    · simp only [TcpReassembler.insert, hflags]
    · simp only [TcpReassembler.insert, hflags, hseq]
    · rw [hflags, hseq] at hother
      cases hother
  rw [processTcp_of_none env now pp p hinsert]
  exact stepUpheld_releaseClosed rfl (fun key _ => h key) (h p.streamKey)

/-! ## Runs -/

inductive Call
  | process (now : Instant) (p : ParsedPacket)
  | sweep (now : Instant)

def Call.apply (env : ReassemblyEnv) (pp : PacketProcessor) :
    Call → PacketProcessor × List ParsedPacket
  | process now p => pp.processTcp env now p
  | sweep now => (pp.sweep now, [])

def Call.breaks (pp : PacketProcessor) : Call → Bool
  | process now p => PacketProcessor.breaks now pp p
  | sweep _ => false

def applyAll (env : ReassemblyEnv) (pp : PacketProcessor) (calls : List Call) : PacketProcessor :=
  calls.foldl (fun pp call => (call.apply env pp).1) pp

def Call.segment (key : TcpStreamKey) : Call → Option ParsedPacket
  | process _ p =>
    if p.streamKey = key ∧ (p.tcpFlags.isSome && p.tcpSeq.isSome) = true then some p else none
  | sweep _ => none

def segments (calls : List Call) (key : TcpStreamKey) : List ParsedPacket :=
  calls.filterMap (Call.segment key)

theorem segments_concat (calls : List Call) (call : Call) (key : TcpStreamKey) :
    segments (calls ++ [call]) key = segments calls key ++ (call.segment key).toList := by
  rw [segments, filterMap_append]
  cases hsegment : call.segment key with
  | none => rw [filterMap_cons_none hsegment]; rfl
  | some p => rw [filterMap_cons_some hsegment]; rfl

theorem stepUpheld_process {calls : List Call} (env : ReassemblyEnv)
    (h : ∀ key, Upheld pp.tcpReassembler.ttl (segments calls key)
      (pp.tcpReassembler.streams.get? key) (pp.tcpSipLeftover.get? key))
    (hbreaks : pp.breaks now p = false) :
    StepUpheld pp.tcpReassembler.ttl (segments calls) p.streamKey
      (segments (calls ++ [Call.process now p]) p.streamKey) (pp.processTcp env now p) := by
  rw [segments_concat, Call.segment]
  by_cases hsegment : (p.tcpFlags.isSome && p.tcpSeq.isSome) = true
  · rw [if_pos ⟨rfl, hsegment⟩, toList_some]
    rw [Bool.and_eq_true] at hsegment
    obtain ⟨flags, hflags⟩ := isSome_iff_exists.mp hsegment.1
    obtain ⟨seq, hseq⟩ := isSome_iff_exists.mp hsegment.2
    by_cases hrst : flags.rst = true
    · exact stepUpheld_reset env now h hflags hseq hrst
    · exact stepUpheld_segment env h hbreaks hflags hseq (Bool.eq_false_iff.mpr hrst)
  · rw [if_neg (fun hand => hsegment hand.2), toList_none, append_nil]
    exact stepUpheld_other env now h (Bool.eq_false_iff.mpr hsegment)

theorem upheld_sweep (now : Instant) (hown : Upheld ttl direction
    (pp.tcpReassembler.streams.get? key) (pp.tcpSipLeftover.get? key)) :
    Upheld ttl direction ((pp.sweep now).tcpReassembler.streams.get? key)
      ((pp.sweep now).tcpSipLeftover.get? key) := by
  refine hown.of_within ?_ ?_
  · intro st hst
    rw [mem_def, IndexMap.get?_eq_some_iff] at hst ⊢
    exact mem_of_mem_filter hst
  · intro l hl
    rw [mem_def, IndexMap.get?_eq_some_iff] at hl ⊢
    exact mem_of_mem_filter hl

theorem upheld_applyAll (env : ReassemblyEnv) (maxSessions ttl : ℕ) {calls : List Call}
    (h : Stepwise (fun before call =>
      call.breaks (applyAll env (withMaxSessions maxSessions ttl) before) = false) calls) :
    let pp := applyAll env (withMaxSessions maxSessions ttl) calls
    pp.tcpReassembler.ttl = ttl ∧ ∀ key, Upheld ttl (segments calls key)
      (pp.tcpReassembler.streams.get? key) (pp.tcpSipLeftover.get? key) := by
  induction calls using List.reverseRecOn with
  | nil => exact ⟨rfl, fun key => upheld_nil ttl⟩
  | append_singleton calls call ih =>
    obtain ⟨hbefore, hlast⟩ := stepwise_concat.mp h
    obtain ⟨httl, hupheld⟩ := ih hbefore
    have hrun : applyAll env (withMaxSessions maxSessions ttl) (calls ++ [call]) =
        (call.apply env (applyAll env (withMaxSessions maxSessions ttl) calls)).1 := by
      rw [applyAll, foldl_append]
      rfl
    rw [hrun]
    generalize applyAll env (withMaxSessions maxSessions ttl) calls = pp at *
    subst httl
    cases call with
    | process now p =>
      have hstep := stepUpheld_process env hupheld hlast
      refine ⟨hstep.settings, ?_⟩
      intro key
      by_cases hkey : key = p.streamKey
      · rw [hkey]
        exact hstep.own
      · rw [segments_concat, Call.segment, if_neg (fun hand => hkey hand.1.symm),
          toList_none, append_nil]
        exact hstep.others key hkey
    | sweep now =>
      refine ⟨rfl, ?_⟩
      intro key
      rw [segments_concat, Call.segment, toList_none, append_nil]
      exact upheld_sweep now (hupheld key)

/-- In a run in which no packet breaks a direction that a partial is held for, every payload that
is emitted was consecutive in one connection of its direction. -/
theorem emitted_from_one_connection (env : ReassemblyEnv) (maxSessions ttl : ℕ)
    (calls : List Call) (h : Stepwise (fun before call =>
      call.breaks (applyAll env (withMaxSessions maxSessions ttl) before) = false) calls) :
    ∀ before now p after, calls = before ++ Call.process now p :: after →
      ∀ q ∈ ((applyAll env (withMaxSessions maxSessions ttl) before).processTcp env now p).2,
        FromOneConnection ttl (segments (before ++ [Call.process now p]) p.streamKey)
          q.payload := by
  intro before now p after hsplit q hq
  obtain ⟨httl, hupheld⟩ := upheld_applyAll env maxSessions ttl (hsplit ▸ h).of_append
  have hlast : (applyAll env (withMaxSessions maxSessions ttl) before).breaks now p = false :=
    h before (.process now p) after hsplit
  generalize applyAll env (withMaxSessions maxSessions ttl) before = pp at *
  subst httl
  exact (stepUpheld_process env hupheld hlast).emitted q hq

/-- A message in two segments, a sweep between them. -/
theorem emitted_from_one_connection_two_segments :
    let first := dataPacket { ack := true, psh := true } 100 (asciiBytes "INVITE sip:a SIP/2.0\r\n")
    let second := dataPacket { ack := true, psh := true } 122 (asciiBytes "l: 0\r\n\r\n")
    let before := [Call.process 0 (dataPacket { syn := true } 99 []), .process 1 first, .sweep 2]
    let pp := applyAll .plain (withMaxSessions 10 30000000000) before
    (pp.processTcp .plain 3 second).2.map ParsedPacket.payload =
        [asciiBytes "INVITE sip:a SIP/2.0\r\nl: 0\r\n\r\n"] ∧
      ∀ q ∈ (pp.processTcp .plain 3 second).2, FromOneConnection 30000000000
        (segments (before ++ [Call.process 3 second]) second.streamKey) q.payload := by
  intro first second before pp
  refine ⟨by decide +kernel, ?_⟩
  exact emitted_from_one_connection .plain 10 30000000000 (before ++ [Call.process 3 second])
    (by decide +kernel) before 3 second [] rfl

theorem exists_carrier_of_fromOneConnection (h : FromOneConnection ttl direction data) :
    ∃ i : Fin (direction.length + 1), ∃ n : Fin (direction.length + 1),
      OneConnection ttl (direction.take i) ((direction.drop i).take n) ∧
        ∀ b ∈ data, ∃ p ∈ (direction.drop i).take n, b ∈ p.payload := by
  obtain ⟨earlier, conn, later, seq, rfl, hone, hspans⟩ := h
  have hlength : (earlier ++ conn ++ later).length =
      earlier.length + conn.length + later.length := by
    rw [length_append, length_append]
  refine ⟨⟨earlier.length, by omega⟩, ⟨conn.length, by omega⟩, ?_⟩
  have htake : (earlier ++ conn ++ later).take earlier.length = earlier := by simp
  have hconn : ((earlier ++ conn ++ later).drop earlier.length).take conn.length = conn := by simp
  rw [htake, hconn]
  refine ⟨hone, ?_⟩
  intro b hb
  obtain ⟨i, hi⟩ := mem_iff_getElem?.mp hb
  obtain ⟨p, hp, start, j, -, hj, -⟩ := hspans i b hi
  exact ⟨p, hp, mem_of_getElem? hj⟩

/-- A SYN opens a new connection while the start of a message is held. The message that comes out
is put together of both connections. -/
theorem emitted_from_two_connections :
    let first := dataPacket { ack := true, psh := true } 100 (asciiBytes "INVITE sip:a SIP/2.0\r\n")
    let second := dataPacket { ack := true, psh := true } 500 (asciiBytes "X\r\n\r\n")
    let before := [Call.process 0 (dataPacket { syn := true } 99 []), .process 1 first,
      .process 2 (dataPacket { syn := true } 499 [])]
    let pp := applyAll .plain (withMaxSessions 10 30000000000) before
    (pp.processTcp .plain 3 second).2.map ParsedPacket.payload =
        [asciiBytes "INVITE sip:a SIP/2.0\r\nX\r\n\r\n"] ∧
      ¬ FromOneConnection 30000000000
        (segments (before ++ [Call.process 3 second]) second.streamKey)
        (asciiBytes "INVITE sip:a SIP/2.0\r\nX\r\n\r\n") := by
  intro first second before pp
  refine ⟨by decide +kernel, ?_⟩
  intro h
  have hcarrier := exists_carrier_of_fromOneConnection h
  revert hcarrier
  decide +kernel

end PacketProcessor

end Sipnab
