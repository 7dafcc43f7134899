import Sipnab.Rtp.LiveAudio
import Sipnab.Rtp.StreamStore

/-!
# The audio a stream store holds

The store charges every buffer of retained audio against one budget: the slots it has allocated and
the payloads in it. The running total is moved with each frame that comes or goes, and with each
stream that is evicted, merged in or cleared. A stream is here in two parts, its measurements in
`StreamStore` and its audio in `AudioStore`, in the same order.
-/

namespace Sipnab

open Text AudioPlacement List

/-! ## The store -/

def g729Variant (codec : String) : Bool :=
  eqIgnoreAsciiCase codec.toList "G729".toList || eqIgnoreAsciiCase codec.toList "G7291".toList

def isCapturableAudioCodec (g729 : Bool) (codec : Option String) : Bool :=
  codec.any (fun c => c = "PCMU" || c = "PCMA" || eqIgnoreAsciiCase c.toList "opus".toList ||
    eqIgnoreAsciiCase c.toList "G722".toList || (g729 && g729Variant c))

/-- A packet counted, and whether its payload may be kept as audio. -/
def AudioStream.noteProtection (s : AudioStream) (decrypted : Bool) : AudioStream × Bool :=
  let s := { s with packetCount := s.packetCount + 1 }
  if decrypted then ({ s with srtpDecryptedPackets := s.srtpDecryptedPackets + 1 }, true)
  else if s.srtp then ({ s with srtpUndecryptedPackets := s.srtpUndecryptedPackets + 1 }, false)
  else (s, true)

structure MediaPacket where
  packet : RtpPacket
  payload : List UInt8
  payload_len : packet.payloadLen = payload.length

def MediaPacket.frame (p : MediaPacket) : RetainedFrame :=
  ⟨p.packet.header.timestamp, p.packet.header.sequence, p.payload⟩

/-- The oldest streams go, and what they hold is given back. -/
def AudioStore.evict (slotBytes : ℕ) (st : AudioStore) (batch : ℕ) : AudioStore :=
  { st with
    streams := st.streams.drop batch
    audioBytesRetained := st.audioBytesRetained -
      ((st.streams.take batch).map (AudioStore.bufferCharge slotBytes)).sum
    audioReleaseCursor := st.audioReleaseCursor - batch }

structure MediaStore where
  store : StreamStore
  audio : AudioStore
  audioCapture : Bool
  /-- The remembered sockets that were declared with an SRTP profile. -/
  srtpSockets : List SocketAddr

namespace MediaStore

-- the size of a slot, the capacity behind a push, the streams' settings, and whether G.729 is in
variable (slotBytes : ℕ) (grow : ℕ → ℕ → ℕ) (settings : StreamSettings) (g729 : Bool)

def new (maxStreams : ℕ) (audioCapture : Bool) (maxAudioFrames : Option ℕ) (maxAudioBytes : ℕ) :
    MediaStore where
  store := .new maxStreams
  audio := ⟨[], maxAudioFrames, maxAudioBytes, 0, 0⟩
  audioCapture
  srtpSockets := []

def indexOf (m : MediaStore) (key : StreamKey) : ℕ := m.store.streams.keys.idxOf key

/-- The calls of the streams, for the audio parts, and the marks of the sockets that are left. -/
def refresh (m : MediaStore) : MediaStore :=
  { m with
    audio.streams := List.zipWith
      (fun a (s : RtpStream) => { a with associatedDialog := s.associatedDialog.map String.toList })
      m.audio.streams m.store.streams.values
    srtpSockets := m.srtpSockets.filter (fun socket => (m.store.sdpEndpoints.get? socket).isSome) }

/-- Keep the audio of a packet at a stream, if it is to be kept, and say whether it was. -/
def retainAt (m : MediaStore) (index : ℕ) (p : MediaPacket) (capturable : Bool) :
    MediaStore × Bool :=
  if capturable && !p.payload.isEmpty then
    ({ m with audio := m.audio.retainPayload slotBytes grow index p.frame }, true)
  else (m, false)

def recordNext (m : MediaStore) (key : StreamKey) (stream : RtpStream) (p : MediaPacket)
    (decrypted : Bool) : MediaStore × Bool :=
  let index := m.indexOf key
  let stream := stream.update p.packet.header p.packet.timestamp p.packet.payloadLen
  let keep := ((m.audio.streams[index]?).map (fun s => (s.noteProtection decrypted).2)).getD false
  let m := { m with
    store := m.store.recordUnder settings key p.packet
    audio.streams := m.audio.streams.modify index (fun s => (s.noteProtection decrypted).1) }
  m.retainAt slotBytes grow index p (keep && m.audioCapture &&
    decide (p.packet.header.payloadType = stream.payloadType) &&
    isCapturableAudioCodec g729 stream.codec)

/-- One of the sockets of a stream that starts is remembered with an SRTP profile. -/
def startsProtected (m : MediaStore) (key : StreamKey) (firstSeen : DateTime) : Bool :=
  [key.src, key.dst].any (fun socket => match m.store.sdpEndpoints.get? socket with
    | none => false
    | some endpoint => !sdpEndpointExpired endpoint firstSeen && m.srtpSockets.contains socket)

def recordFirst (m : MediaStore) (key : StreamKey) (p : MediaPacket) (decrypted : Bool) :
    MediaStore × Bool :=
  let batch := if m.store.maxStreams ≤ m.store.streams.length ∧ m.store.streams.length ≠ 0 then
      StreamStore.evictionBatch m.store.maxStreams m.store.streams.length else 0
  let room := m.store.ensureCapacity
  let stream := room.startStream settings key p.packet
  let audio := m.audio.evict slotBytes batch
  let started := (AudioStream.new (stream.associatedDialog.map String.toList)
    (m.startsProtected key stream.firstSeen)).noteProtection decrypted
  let m := { m with
    store := m.store.recordUnder settings key p.packet
    audio := { audio with streams := audio.streams ++ [started.1] } }
  m.retainAt slotBytes grow audio.streams.length p
    (started.2 && m.audioCapture && isCapturableAudioCodec g729 stream.codec)

def recordUnder (m : MediaStore) (key : StreamKey) (p : MediaPacket) (decrypted : Bool) :
    MediaStore × Bool :=
  match m.store.streams.get? key with
  | some stream => m.recordNext slotBytes grow settings g729 key stream p decrypted
  | none => m.recordFirst slotBytes grow settings g729 key p decrypted

/-- One packet, as captured or decrypted, and whether a frame was retained. -/
def recordRtp (m : MediaStore) (p : MediaPacket) (decrypted : Bool) : MediaStore × Bool :=
  let key := m.store.liveKey
    { ssrc := p.packet.header.ssrc, src := p.packet.src, dst := p.packet.dst }
  match m.store.streams.get? key with
  | some stream =>
    if m.store.callChanged stream key then
      let key := { key with session := key.session + 1 }
      recordUnder slotBytes grow settings g729
        { m with store.liveSessions := m.store.liveSessions.insert key.flow key.session } key p
        decrypted
    else m.recordUnder slotBytes grow settings g729 key p decrypted
  | none => m.recordUnder slotBytes grow settings g729 key p decrypted

def processRtp (m : MediaStore) (p : MediaPacket) : MediaStore :=
  (m.recordRtp slotBytes grow settings g729 p false).1

def processDecryptedRtp (m : MediaStore) (p : MediaPacket) : MediaStore :=
  (m.recordRtp slotBytes grow settings g729 p true).1

def linkEndpointFrom (m : MediaStore) (link : SdpLink) : MediaStore :=
  { m with store := m.store.linkEndpointFrom link }.refresh

/-- A socket is declared with an SRTP profile: it is marked, and the streams on it are. -/
def rememberMediaProtection (m : MediaStore) (socket : SocketAddr) (srtp : Bool) : MediaStore :=
  if !srtp then m
  else
    let m := if (m.store.sdpEndpoints.get? socket).isSome
      then { m with srtpSockets := socket :: m.srtpSockets } else m
    match m.store.endpointIndex.get? socket with
    | none => m
    | some keys =>
      { m with audio := m.audio.rememberMediaProtection slotBytes (keys.map m.indexOf) }

def linkToDialogWithSdpFrom (m : MediaStore) (socket : SocketAddr) (callId : String)
    (media : MediaDescription) (provenance : SdpProvenance) (srtp : Bool) : MediaStore :=
  (m.linkEndpointFrom (.ofMedia socket callId media provenance)).rememberMediaProtection slotBytes
    socket srtp

def releaseAudioFor (m : MediaStore) (callId : String) : MediaStore :=
  { m with audio := m.audio.releaseAudioFor slotBytes callId.toList }

/-- The streams of another store that are not here, with their audio. -/
def merge (m other : MediaStore) : MediaStore :=
  let added := ((other.store.streams.keys.zip other.audio.streams).filter
    (fun e => (m.store.streams.get? e.1).isNone)).map Prod.snd
  { m with
    store := m.store.merge other.store
    audio.streams := m.audio.streams ++ added
    audio.audioBytesRetained := m.audio.audioBytesRetained +
      (added.map (AudioStore.bufferCharge slotBytes)).sum
    srtpSockets := m.srtpSockets ++ other.srtpSockets }

def reassociateAll (m : MediaStore) : MediaStore :=
  (m.store.sdpEndpoints.entries.map (fun e => (e, m.srtpSockets.contains e.1))).foldl
    (fun m e => (m.linkEndpointFrom (StreamStore.relink e.1)).rememberMediaProtection slotBytes
      e.1.1 e.2) m

theorem map_fst_zip_sublist {α β : Type*} (xs : List α) (ys : List β) :
    ((xs.zip ys).map Prod.fst).Sublist xs := by
  induction xs generalizing ys with
  | nil => exact List.Sublist.refl _
  | cons x xs ih =>
    cases ys with
    | nil => exact nil_sublist _
    | cons y ys => exact (ih ys).cons_cons x

section Order

variable {κ : Type} [LinearOrder κ]

def sortedStreams (m : MediaStore) (rank : RtpStream × AudioStream → κ) :
    List ((StreamKey × RtpStream) × AudioStream) :=
  (m.store.streams.entries.zip m.audio.streams).mergeSort
    (fun a b => decide (rank (a.1.2, a.2) ≤ rank (b.1.2, b.2)))

variable (m : MediaStore) (rank : RtpStream × AudioStream → κ)

theorem perm_sortedStreams :
    (m.sortedStreams rank).Perm (m.store.streams.entries.zip m.audio.streams) :=
  mergeSort_perm _ _

theorem nodup_sortedStreams : (((m.sortedStreams rank).map Prod.fst).map Prod.fst).Nodup := by
  rw [(((m.perm_sortedStreams rank).map Prod.fst).map Prod.fst).nodup_iff]
  exact m.store.streams.nodup.sublist ((map_fst_zip_sublist _ _).map _)

def sortStreamsByKey (m : MediaStore) (rank : RtpStream × AudioStream → κ) : MediaStore :=
  { m with
    store.streams := ⟨(m.sortedStreams rank).map Prod.fst, m.nodup_sortedStreams rank⟩
    store.endpointIndex := ((m.sortedStreams rank).map (fun e => e.1.1)).foldl
      StreamStore.indexEndpoints .empty
    audio.streams := (m.sortedStreams rank).map Prod.snd
    audio.audioReleaseCursor := 0 }

end Order

def clear (m : MediaStore) : MediaStore :=
  { m with
    store.streams := .empty
    store.endpointIndex := .empty
    store.sdpEndpoints := .empty
    store.liveSessions := .empty
    audio.streams := []
    audio.audioBytesRetained := 0
    audio.audioReleaseCursor := 0
    srtpSockets := [] }

end MediaStore

/-! ## The total and the counters -/

/-- Of a stream that was never marked as SRTP every frame is held or counted. -/
def AudioStream.Counted (s : AudioStream) : Prop := s.srtp = false → s.retainedEver = s.arrived

variable {α : Type*}

theorem sum_map_set (f : α → ℕ) {xs : List α} {i : ℕ} {x : α} (h : xs[i]? = some x) (y : α) :
    ((xs.set i y).map f).sum + f x = (xs.map f).sum + f y := by
  induction xs generalizing i with
  | nil => cases h
  | cons a xs ih =>
    cases i with
    | zero =>
      obtain rfl := Option.some.inj h
      simp only [set_cons_zero, map_cons, sum_cons]
      omega
    | succ i =>
      have hrest := ih h
      simp only [set_cons_succ, map_cons, sum_cons]
      omega

theorem le_sum_map (f : α → ℕ) {xs : List α} {x : α} (h : x ∈ xs) : f x ≤ (xs.map f).sum :=
  single_le_sum (fun _ _ => Nat.zero_le _) _ (List.mem_map_of_mem h)

namespace AudioStore

variable {slotBytes : ℕ} {grow : ℕ → ℕ → ℕ} {st st' : AudioStore} {s s' : AudioStream} {index : ℕ}

/-- The running total is what the buffers are charged, and the counters of the streams agree. -/
structure Accounted (slotBytes : ℕ) (st : AudioStore) : Prop where
  charged : st.audioBytesRetained = (st.streams.map (bufferCharge slotBytes)).sum
  counted : ∀ s ∈ st.streams, s.Counted

theorem Accounted.set (h : Accounted slotBytes st) (hs : st.streams[index]? = some s)
    (hcounted : s'.Counted) (hstreams : st'.streams = st.streams.set index s')
    (hbytes : st'.audioBytesRetained + bufferCharge slotBytes s =
      st.audioBytesRetained + bufferCharge slotBytes s') : Accounted slotBytes st' where
  charged := by
    have hsum := sum_map_set (bufferCharge slotBytes) hs s'
    rw [hstreams]
    rw [h.charged] at hbytes
    omega
  counted := by
    intro t ht
    rw [hstreams] at ht
    rcases mem_or_eq_of_mem_set ht with hold | rfl
    · exact h.counted t hold
    · exact hcounted

variable {old : ℕ × RetainedFrame} {rest : List (ℕ × RetainedFrame)} {fuel : ℕ}

theorem bufferCharge_cons (slotBytes : ℕ) (hbuffer : s.payloadBuffer = old :: rest) :
    bufferCharge slotBytes s = s.capacity * slotBytes + audioPayloadCharge old.2.payload.length +
      (rest.map (fun e => audioPayloadCharge e.2.payload.length)).sum := by
  rw [bufferCharge, hbuffer, map_cons, sum_cons]
  omega

theorem bufferCharge_releaseOldest (slotBytes : ℕ) (hbuffer : s.payloadBuffer = old :: rest) :
    bufferCharge slotBytes s.releaseOldest + (audioPayloadCharge old.2.payload.length +
      if rest.isEmpty then s.capacity * slotBytes else 0) = bufferCharge slotBytes s := by
  rw [bufferCharge_cons slotBytes hbuffer]
  simp only [bufferCharge, AudioStream.releaseOldest, hbuffer, tail_cons]
  cases rest with
  | nil => simp [Nat.add_comm]
  | cons next rest =>
    simp only [isEmpty_cons, Bool.false_eq_true, if_false]
    omega

theorem counted_releaseOldest (h : s.Counted) (hne : s.payloadBuffer ≠ []) :
    s.releaseOldest.Counted := by
  intro hsrtp
  have hever : s.retainedEver = s.arrived := h hsrtp
  obtain ⟨old, rest, hbuffer⟩ := exists_cons_of_ne_nil hne
  simp only [AudioStream.retainedEver, AudioStream.released, AudioStream.releaseOldest, hbuffer,
    tail_cons, length_cons] at hever ⊢
  omega

theorem releaseFrom_true (h : Accounted slotBytes st)
    (hrelease : st.releaseFrom slotBytes fuel = (true, st')) :
    Accounted slotBytes st' ∧ st'.framesHeld + 1 = st.framesHeld := by
  induction fuel generalizing st with
  | zero => cases hrelease
  | succ fuel ih =>
    rw [releaseFrom] at hrelease
    split at hrelease
    · cases hrelease
    · rename_i s hs
      split at hrelease
      · rename_i old rest hbuffer
        obtain rfl := (Prod.mk.inj hrelease).2
        have hmem := mem_of_getElem? hs
        have hcharge := bufferCharge_releaseOldest slotBytes hbuffer
        have hle := le_sum_map (bufferCharge slotBytes) hmem
        rw [← h.charged] at hle
        refine ⟨h.set hs (counted_releaseOldest (h.counted s hmem) (by simp [hbuffer])) rfl ?_, ?_⟩
        · dsimp only
          omega
        · have hframes := sum_map_set (fun s => s.payloadBuffer.length) hs s.releaseOldest
          simp only [framesHeld, AudioStream.releaseOldest, hbuffer, tail_cons,
            length_cons] at hframes ⊢
          omega
      · have hlater := ih (by exact ⟨h.charged, h.counted⟩) hrelease
        exact hlater

def releaseStart (st : AudioStore) : ℕ :=
  if st.streams.length ≤ st.audioReleaseCursor then 0 else st.audioReleaseCursor

/-- A search that finds nothing has been at one empty buffer after the other, all the way round. -/
theorem releaseFrom_false (hrelease : st.releaseFrom slotBytes fuel = (false, st')) :
    st'.streams = st.streams ∧ st'.audioBytesRetained = st.audioBytesRetained ∧
      ∀ i < fuel, ∀ s, st.streams[(st.releaseStart + i) % st.streams.length]? = some s →
        s.payloadBuffer = [] := by
  induction fuel generalizing st with
  | zero =>
    obtain rfl := (Prod.mk.inj hrelease).2
    exact ⟨rfl, rfl, fun i hi => absurd hi (Nat.not_lt_zero i)⟩
  | succ fuel ih =>
    rw [releaseFrom] at hrelease
    rw [← releaseStart] at hrelease
    split at hrelease
    · rename_i hnone
      obtain rfl := (Prod.mk.inj hrelease).2
      have hempty : st.streams = [] := by
        rw [List.getElem?_eq_none_iff, releaseStart] at hnone
        split_ifs at hnone with hle
        · exact eq_nil_of_length_eq_zero (Nat.le_zero.mp hnone)
        · omega
      refine ⟨rfl, rfl, fun i _ s hs => ?_⟩
      rw [hempty] at hs
      cases hs
    · rename_i s hs
      have hlt := (List.getElem?_eq_some_iff.mp hs).1
      split at hrelease
      · cases hrelease
      · rename_i hbuffer
        obtain ⟨hstreams, hbytes, hlater⟩ := ih hrelease
        refine ⟨hstreams, hbytes, fun i hi t ht => ?_⟩
        cases i with
        | zero =>
          rw [Nat.add_zero, Nat.mod_eq_of_lt hlt, hs] at ht
          rw [← Option.some.inj ht]
          exact hbuffer
        | succ i =>
          refine hlater i (Nat.lt_of_succ_lt_succ hi) t ?_
          have hnext : (releaseStart { st with audioReleaseCursor := st.releaseStart + 1 } + i) %
              st.streams.length = (st.releaseStart + (i + 1)) % st.streams.length := by
            change ((if st.streams.length ≤ st.releaseStart + 1 then 0
              else st.releaseStart + 1) + i) % st.streams.length = _
            split_ifs with hwrap
            · have hend : st.releaseStart + (i + 1) = i + st.streams.length := by omega
              rw [hend, Nat.add_mod_right, Nat.zero_add]
            · rw [show st.releaseStart + 1 + i = st.releaseStart + (i + 1) by omega]
          exact (congrArg (fun i => st.streams[i]?) hnext).trans ht

def NoAudio (st : AudioStore) : Prop := ∀ s ∈ st.streams, s.payloadBuffer = []

theorem noAudio_of_releaseOldestFrame (h : st.releaseOldestFrame slotBytes = (false, st')) :
    st'.NoAudio := by
  obtain ⟨hstreams, -, hempty⟩ := releaseFrom_false h
  intro s hs
  rw [hstreams] at hs
  obtain ⟨j, hj, rfl⟩ := mem_iff_getElem.mp hs
  have hstart : st.releaseStart < st.streams.length ∨ st.releaseStart = 0 := by
    rw [releaseStart]
    split_ifs <;> omega
  -- the place is reached within one round
  have hround : ∃ i < st.streams.length + 1, (st.releaseStart + i) % st.streams.length = j := by
    rcases Nat.lt_or_ge j st.releaseStart with hlt | hge
    · refine ⟨j + st.streams.length - st.releaseStart, by omega, ?_⟩
      rw [show st.releaseStart + (j + st.streams.length - st.releaseStart) =
        j + st.streams.length by omega, Nat.add_mod_right, Nat.mod_eq_of_lt hj]
    · refine ⟨j - st.releaseStart, by omega, ?_⟩
      rw [show st.releaseStart + (j - st.releaseStart) = j by omega, Nat.mod_eq_of_lt hj]
  obtain ⟨i, hi, hplace⟩ := hround
  refine hempty i hi _ ?_
  rw [hplace, List.getElem?_eq_getElem hj]

def WithinBudget (st : AudioStore) : Prop :=
  st.audioBytesRetained ≤ st.maxAudioBytes ∨ st.NoAudio

theorem noAudio_of_framesHeld (h : st.framesHeld = 0) : st.NoAudio := by
  intro s hs
  have hle := le_sum_map (fun s => s.payloadBuffer.length) hs
  rw [framesHeld] at h
  rw [h] at hle
  exact eq_nil_of_length_eq_zero (Nat.le_zero.mp hle)

theorem keepBudget_spec (h : Accounted slotBytes st) (hfuel : st.framesHeld ≤ fuel) :
    Accounted slotBytes (st.keepBudget slotBytes fuel) ∧
      (st.keepBudget slotBytes fuel).WithinBudget := by
  induction fuel generalizing st with
  | zero => exact ⟨h, Or.inr (noAudio_of_framesHeld (Nat.le_zero.mp hfuel))⟩
  | succ fuel ih =>
    rw [keepBudget]
    split_ifs with hover
    · split
      · rename_i st₁ hrelease
        obtain ⟨haccounted, hframes⟩ := releaseFrom_true h hrelease
        exact ih haccounted (by omega)
      · rename_i st₁ hrelease
        have hsame := releaseFrom_false hrelease
        refine ⟨⟨?_, ?_⟩, Or.inr (noAudio_of_releaseOldestFrame hrelease)⟩
        · rw [hsame.2.1, hsame.1]
          exact h.charged
        · rw [hsame.1]
          exact h.counted
    · exact ⟨h, Or.inl (Nat.le_of_not_lt hover)⟩

theorem bufferCharge_dropOldest (slotBytes : ℕ) (hbuffer : s.payloadBuffer = old :: rest) :
    bufferCharge slotBytes s.dropOldest + audioPayloadCharge old.2.payload.length =
      bufferCharge slotBytes s := by
  rw [bufferCharge_cons slotBytes hbuffer]
  simp only [bufferCharge, AudioStream.dropOldest, hbuffer, tail_cons]
  omega

theorem bufferCharge_push (slotBytes : ℕ) (s : AudioStream) (capacity : ℕ) (frame : RetainedFrame) :
    bufferCharge slotBytes (s.push capacity frame) + s.capacity * slotBytes =
      bufferCharge slotBytes s + audioPayloadCharge frame.payload.length +
        capacity * slotBytes := by
  simp only [bufferCharge, AudioStream.push, map_append, sum_append, map_cons,
    map_nil, sum_singleton]
  omega

theorem counted_dropOldest (h : s.Counted) (hne : s.payloadBuffer ≠ []) : s.dropOldest.Counted := by
  intro hsrtp
  have hever : s.retainedEver = s.arrived := h hsrtp
  obtain ⟨old, rest, hbuffer⟩ := exists_cons_of_ne_nil hne
  simp only [AudioStream.retainedEver, AudioStream.released, AudioStream.dropOldest, hbuffer,
    tail_cons, length_cons] at hever ⊢
  omega

theorem counted_push (h : s.Counted) (capacity : ℕ) (frame : RetainedFrame) :
    (s.push capacity frame).Counted := by
  intro hsrtp
  have hever : s.retainedEver = s.arrived := h hsrtp
  simp only [AudioStream.retainedEver, AudioStream.released, AudioStream.push, length_append,
    length_singleton] at hever ⊢
  omega

theorem retainPayload_spec (hgrow : ∀ capacity length, capacity ≤ grow capacity length)
    (h : Accounted slotBytes st) (hs : st.streams[index]? = some s) (frame : RetainedFrame) :
    Accounted slotBytes (st.retainPayload slotBytes grow index frame) ∧
      (st.retainPayload slotBytes grow index frame).WithinBudget := by
  have hmem := mem_of_getElem? hs
  have hle := le_sum_map (bufferCharge slotBytes) hmem
  rw [← h.charged] at hle
  rw [retainPayload, hs]
  dsimp only
  refine keepBudget_spec ?_ le_rfl
  rw [pushed, hs]
  dsimp only
  split
  · rename_i old rest hbuffer
    have hdrop := bufferCharge_dropOldest slotBytes hbuffer
    have hpush := bufferCharge_push slotBytes s.dropOldest
      (grow s.dropOldest.capacity s.dropOldest.payloadBuffer.length) frame
    have hmore := Nat.mul_le_mul_right slotBytes
      (hgrow s.dropOldest.capacity s.dropOldest.payloadBuffer.length)
    refine h.set hs (counted_push (counted_dropOldest (h.counted s hmem) (by simp [hbuffer])) _ _)
      rfl ?_
    dsimp only
    rw [Nat.sub_mul]
    omega
  · have hpush := bufferCharge_push slotBytes s (grow s.capacity s.payloadBuffer.length) frame
    have hmore := Nat.mul_le_mul_right slotBytes (hgrow s.capacity s.payloadBuffer.length)
    refine h.set hs (counted_push (h.counted s hmem) _ _) rfl ?_
    dsimp only
    rw [Nat.sub_mul]
    omega

structure SameAudio (s s' : AudioStream) : Prop where
  charge : ∀ slotBytes, bufferCharge slotBytes s' = bufferCharge slotBytes s
  counted : s.Counted → s'.Counted

theorem sameAudio_noteProtection (s : AudioStream) (decrypted : Bool) :
    SameAudio s (s.noteProtection decrypted).1 := by
  unfold AudioStream.noteProtection
  dsimp only
  split_ifs with hdecrypted hsrtp
  all_goals exact ⟨fun _ => rfl, id⟩

theorem Accounted.same (h : Accounted slotBytes st)
    (hstreams : List.Forall₂ SameAudio st.streams st'.streams)
    (hbytes : st'.audioBytesRetained = st.audioBytesRetained) : Accounted slotBytes st' := by
  have hparts : (st'.streams.map (bufferCharge slotBytes)) =
      (st.streams.map (bufferCharge slotBytes)) ∧ ∀ s' ∈ st'.streams, s'.Counted := by
    have hcounted := h.counted
    generalize st.streams = xs, st'.streams = ys at hstreams hcounted
    induction hstreams with
    | nil => exact ⟨rfl, fun s' hs' => absurd hs' not_mem_nil⟩
    | cons hsame _ ih =>
      obtain ⟨hcharges, hrest⟩ := ih (fun s hs => hcounted s (mem_cons_of_mem _ hs))
      refine ⟨by rw [map_cons, map_cons, hsame.charge, hcharges], ?_⟩
      intro s' hs'
      rcases mem_cons.mp hs' with rfl | hs'
      · exact hsame.counted (hcounted _ mem_cons_self)
      · exact hrest s' hs'
  exact ⟨by rw [hbytes, h.charged, hparts.1], hparts.2⟩

theorem forall₂_modify {f : AudioStream → AudioStream} (hf : ∀ s, SameAudio s (f s))
    (xs : List AudioStream) (i : ℕ) : List.Forall₂ SameAudio xs (xs.modify i f) := by
  induction xs generalizing i with
  | nil =>
    rw [modify_nil]
    exact .nil
  | cons x xs ih =>
    cases i with
    | zero =>
      rw [modify_zero_cons]
      exact .cons (hf x) (forall₂_same.mpr (fun _ _ => ⟨fun _ => rfl, id⟩))
    | succ i =>
      rw [modify_succ_cons]
      exact .cons ⟨fun _ => rfl, id⟩ (ih i)

theorem forall₂_zipWith {β : Type*} {f : AudioStream → β → AudioStream}
    (hf : ∀ s b, SameAudio s (f s b)) {xs : List AudioStream} {ys : List β}
    (hlength : xs.length = ys.length) : List.Forall₂ SameAudio xs (List.zipWith f xs ys) := by
  induction xs generalizing ys with
  | nil => exact List.Forall₂.nil
  | cons x xs ih =>
    cases ys with
    | nil => cases hlength
    | cons y ys => exact .cons (hf x y) (ih (Nat.succ.inj hlength))

theorem Accounted.evict (h : Accounted slotBytes st) (batch : ℕ) :
    Accounted slotBytes (st.evict slotBytes batch) where
  charged := by
    have hsum := congrArg (fun xs => (xs.map (bufferCharge slotBytes)).sum)
      (take_append_drop batch st.streams)
    simp only [map_append, sum_append] at hsum
    have hcharged := h.charged
    simp only [AudioStore.evict]
    omega
  counted s hs := h.counted s (mem_of_mem_drop hs)

theorem Accounted.append (h : Accounted slotBytes st) {added : List AudioStream}
    (hadded : ∀ s ∈ added, s.Counted) (hstreams : st'.streams = st.streams ++ added)
    (hbytes : st'.audioBytesRetained = st.audioBytesRetained +
      (added.map (bufferCharge slotBytes)).sum) : Accounted slotBytes st' where
  charged := by rw [hbytes, hstreams, map_append, sum_append, h.charged]
  counted := by
    intro s hs
    rw [hstreams] at hs
    rcases mem_append.mp hs with hs | hs
    · exact h.counted s hs
    · exact hadded s hs

theorem Accounted.perm (h : Accounted slotBytes st) (hstreams : st'.streams.Perm st.streams)
    (hbytes : st'.audioBytesRetained = st.audioBytesRetained) : Accounted slotBytes st' where
  charged := by rw [hbytes, h.charged, (hstreams.map _).sum_eq]
  counted s hs := h.counted s (hstreams.mem_iff.mp hs)

theorem counted_releaseAfterExport (h : s.Counted) : s.releaseAfterExport.Counted := by
  intro hsrtp
  have hever : s.retainedEver = s.arrived := h hsrtp
  simp only [AudioStream.retainedEver, AudioStream.released, AudioStream.releaseAfterExport,
    length_nil] at hever ⊢
  omega

theorem bufferCharge_releaseAfterExport (slotBytes : ℕ) (s : AudioStream) :
    bufferCharge slotBytes s.releaseAfterExport = 0 := by
  simp [bufferCharge, AudioStream.releaseAfterExport]

theorem Accounted.releaseAudioFor (h : Accounted slotBytes st) (callId : List Char) :
    Accounted slotBytes (st.releaseAudioFor slotBytes callId) where
  charged := by
    have hsplit : ∀ xs : List AudioStream,
        ((xs.map (fun s => if s.associatedDialog = some callId then s.releaseAfterExport
          else s)).map (bufferCharge slotBytes)).sum +
        ((xs.filter (fun s => s.associatedDialog = some callId)).map
          (bufferCharge slotBytes)).sum = (xs.map (bufferCharge slotBytes)).sum := by
      intro xs
      induction xs with
      | nil => rfl
      | cons x xs ih =>
        by_cases hx : x.associatedDialog = some callId
        · simp only [map_cons, sum_cons, filter_cons, hx, decide_true, if_true,
            bufferCharge_releaseAfterExport]
          omega
        · simp only [map_cons, sum_cons, filter_cons, hx, decide_false, if_false,
            Bool.false_eq_true]
          omega
    have hparts := hsplit st.streams
    have hcharged := h.charged
    simp only [AudioStore.releaseAudioFor]
    omega
  counted := by
    intro s hs
    obtain ⟨t, ht, rfl⟩ := List.mem_map.mp hs
    split_ifs
    · exact counted_releaseAfterExport (h.counted t ht)
    · exact h.counted t ht

theorem bufferCharge_protect (slotBytes : ℕ) (s : AudioStream) :
    bufferCharge slotBytes s.protect +
      (if s.srtp = false ∧ s.srtpDecryptedPackets = 0 then bufferCharge slotBytes s else 0) =
      bufferCharge slotBytes s := by
  unfold AudioStream.protect
  cases hsrtp : s.srtp with
  | true => simp
  | false =>
    by_cases hnone : s.srtpDecryptedPackets = 0
    · simp [hnone, bufferCharge]
    · simp [hnone, bufferCharge]

theorem counted_protect (h : s.Counted) : s.protect.Counted := by
  unfold AudioStream.protect
  dsimp only
  split_ifs with hsrtp hnone
  · exact h
  all_goals exact fun hmarked => absurd hmarked (by simp)

theorem Accounted.rememberMediaProtection (h : Accounted slotBytes st) (indices : List ℕ) :
    Accounted slotBytes (st.rememberMediaProtection slotBytes indices) := by
  induction indices generalizing st with
  | nil => exact h
  | cons index rest ih =>
    rw [AudioStore.rememberMediaProtection]
    split
    · exact ih h
    · rename_i s hs
      have hmem := mem_of_getElem? hs
      have hle := le_sum_map (bufferCharge slotBytes) hmem
      rw [← h.charged] at hle
      have hcharge := bufferCharge_protect slotBytes s
      refine ih (h.set hs (counted_protect (h.counted s hmem)) rfl ?_)
      dsimp only
      omega

end AudioStore

namespace MediaStore

variable {slotBytes : ℕ} {grow : ℕ → ℕ → ℕ} {settings : StreamSettings} {g729 : Bool}
variable {m other : MediaStore} {key : StreamKey} {index : ℕ}

structure Inv (slotBytes : ℕ) (m : MediaStore) : Prop where
  aligned : m.audio.streams.length = m.store.streams.length
  accounted : m.audio.Accounted slotBytes

/-- A packet is taken up: the account is kept, and a retained frame is inside the budget. -/
structure Recorded (slotBytes : ℕ) (r : MediaStore × Bool) : Prop where
  inv : r.1.Inv slotBytes
  budget : r.2 = true → r.1.audio.WithinBudget

theorem inv_new (slotBytes maxStreams : ℕ) (audioCapture : Bool) (maxAudioFrames : Option ℕ)
    (maxAudioBytes : ℕ) :
    (new maxStreams audioCapture maxAudioFrames maxAudioBytes).Inv slotBytes :=
  ⟨rfl, rfl, fun _ hs => absurd hs not_mem_nil⟩

theorem length_keys (streams : IndexMap StreamKey RtpStream) :
    streams.keys.length = streams.length := length_map ..

variable (store : StreamStore)

theorem length_ensureCapacity :
    store.ensureCapacity.streams.length = store.streams.length -
      if store.maxStreams ≤ store.streams.length ∧ store.streams.length ≠ 0 then
        StreamStore.evictionBatch store.maxStreams store.streams.length else 0 := by
  unfold StreamStore.ensureCapacity
  split_ifs
  · exact IndexMap.length_dropFirst _ _
  · rfl

theorem not_mem_keys_ensureCapacity {store : StreamStore} (h : key ∉ store.streams.keys) :
    key ∉ store.ensureCapacity.streams.keys := by
  unfold StreamStore.ensureCapacity
  split_ifs
  · exact fun hmem => h ((IndexMap.keys_sublist_of_dropFirst _ _).subset hmem)
  · exact h

theorem counted_started (dialog : Option (List Char)) (srtp decrypted : Bool) :
    ((AudioStream.new dialog srtp).noteProtection decrypted).1.Counted :=
  (AudioStore.sameAudio_noteProtection _ decrypted).counted (fun _ => rfl)

section

variable (hgrow : ∀ capacity length, capacity ≤ grow capacity length)
include hgrow

theorem Inv.retainAt (h : m.Inv slotBytes) (hindex : index < m.audio.streams.length)
    (p : MediaPacket) (capturable : Bool) :
    Recorded slotBytes (m.retainAt slotBytes grow index p capturable) := by
  unfold MediaStore.retainAt
  split_ifs with hkeep
  · obtain ⟨haccounted, hbudget⟩ := AudioStore.retainPayload_spec hgrow h.accounted
      (List.getElem?_eq_getElem hindex) p.frame
    refine ⟨⟨?_, haccounted⟩, fun _ => hbudget⟩
    exact (AudioStore.length_retainPayload index p.frame m.audio).trans h.aligned
  · exact ⟨h, fun hfalse => absurd hfalse Bool.false_ne_true⟩

theorem Inv.recordNext (h : m.Inv slotBytes) {stream : RtpStream}
    (hstream : m.store.streams.get? key = some stream) (p : MediaPacket) (decrypted : Bool) :
    Recorded slotBytes (m.recordNext slotBytes grow settings g729 key stream p decrypted) := by
  have hmem : key ∈ m.store.streams.keys :=
    IndexMap.mem_keys_of_mem_entries (IndexMap.get?_eq_some_iff.mp hstream)
  have hindex : m.indexOf key < m.audio.streams.length := by
    rw [h.aligned, ← length_keys]
    exact idxOf_lt_length_of_mem hmem
  refine Inv.retainAt hgrow ⟨?_, ?_⟩ ?_ p _
  · dsimp only
    rw [length_modify, h.aligned, StreamStore.recordUnder, hstream]
    exact (IndexMap.length_alter_of_mem hmem _).symm
  · exact h.accounted.same
      (AudioStore.forall₂_modify (AudioStore.sameAudio_noteProtection · decrypted) _ _) rfl
  · rw [length_modify]
    exact hindex

theorem Inv.recordFirst (h : m.Inv slotBytes) (hnone : m.store.streams.get? key = none)
    (p : MediaPacket) (decrypted : Bool) :
    Recorded slotBytes (m.recordFirst slotBytes grow settings g729 key p decrypted) := by
  have hnew := not_mem_keys_ensureCapacity (IndexMap.get?_eq_none_iff.mp hnone)
  refine Inv.retainAt hgrow ⟨?_, ?_⟩ ?_ p _
  · dsimp only
    rw [length_append, length_singleton, StreamStore.recordUnder, hnone]
    dsimp only
    rw [IndexMap.insert, IndexMap.length_alter_of_not_mem hnew, length_ensureCapacity, ← h.aligned]
    simp only [AudioStore.evict, length_drop]
  · refine (h.accounted.evict _).append (fun s hs => ?_) rfl ?_
    · rw [mem_singleton.mp hs]
      exact counted_started _ _ _
    · rw [map_singleton, sum_singleton, (AudioStore.sameAudio_noteProtection _ decrypted).charge]
      simp [AudioStore.bufferCharge, AudioStream.new]
  · simp

theorem Inv.recordUnder (h : m.Inv slotBytes) (key : StreamKey) (p : MediaPacket)
    (decrypted : Bool) :
    Recorded slotBytes (m.recordUnder slotBytes grow settings g729 key p decrypted) := by
  unfold MediaStore.recordUnder
  split
  · rename_i stream hstream
    exact h.recordNext hgrow hstream p decrypted
  · rename_i hnone
    exact h.recordFirst hgrow hnone p decrypted

theorem Inv.recordRtp (h : m.Inv slotBytes) (p : MediaPacket) (decrypted : Bool) :
    Recorded slotBytes (m.recordRtp slotBytes grow settings g729 p decrypted) := by
  unfold MediaStore.recordRtp
  dsimp only
  split
  · split_ifs
    · exact Inv.recordUnder hgrow (by exact ⟨h.aligned, h.accounted⟩) _ p decrypted
    · exact h.recordUnder hgrow _ p decrypted
  · exact h.recordUnder hgrow _ p decrypted

end

theorem Inv.refresh (h : m.Inv slotBytes) : m.refresh.Inv slotBytes := by
  have hlength : m.audio.streams.length = m.store.streams.values.length :=
    h.aligned.trans (length_map ..).symm
  refine ⟨?_, h.accounted.same (AudioStore.forall₂_zipWith ?_ hlength) rfl⟩
  · simp only [MediaStore.refresh, length_zipWith]
    rw [← hlength, Nat.min_self, h.aligned]
  · exact fun _ _ => ⟨fun _ => rfl, id⟩

theorem length_streams_linkEndpointFrom (link : SdpLink) :
    (store.linkEndpointFrom link).streams.length = store.streams.length := by
  have hremember : (store.rememberSdpEndpoint link).streams = store.streams := by
    unfold StreamStore.rememberSdpEndpoint
    dsimp only
    split
    all_goals rfl
  unfold StreamStore.linkEndpointFrom
  dsimp only
  split
  · rw [hremember]
  · rw [IndexMap.length_mapValues, hremember]

theorem Inv.linkEndpointFrom (h : m.Inv slotBytes) (link : SdpLink) :
    (m.linkEndpointFrom link).Inv slotBytes := by
  refine Inv.refresh ⟨?_, h.accounted⟩
  exact h.aligned.trans (length_streams_linkEndpointFrom m.store link).symm

theorem Inv.rememberMediaProtection (h : m.Inv slotBytes) (socket : SocketAddr) (srtp : Bool) :
    (m.rememberMediaProtection slotBytes socket srtp).Inv slotBytes := by
  unfold MediaStore.rememberMediaProtection
  dsimp only
  split_ifs with hplain hknown
  · exact h
  all_goals
    split
    · exact ⟨h.aligned, h.accounted⟩
    · rename_i keys hkeys
      refine ⟨?_, h.accounted.rememberMediaProtection _⟩
      exact (AudioStore.length_rememberMediaProtection _ m.audio).trans h.aligned

theorem Inv.releaseAudioFor (h : m.Inv slotBytes) (callId : String) :
    (m.releaseAudioFor slotBytes callId).Inv slotBytes :=
  ⟨(length_map ..).trans h.aligned, h.accounted.releaseAudioFor _⟩

theorem length_foldl_insert (entries : List (StreamKey × RtpStream))
    (streams : IndexMap StreamKey RtpStream) (hnodup : (entries.map Prod.fst).Nodup)
    (hnew : ∀ e ∈ entries, e.1 ∉ streams.keys) :
    (entries.foldl (fun streams e => streams.insert e.1 e.2) streams).length =
      streams.length + entries.length := by
  induction entries generalizing streams with
  | nil => rfl
  | cons e entries ih =>
    rw [map_cons, nodup_cons] at hnodup
    have hfirst := hnew e mem_cons_self
    rw [foldl_cons, ih _ hnodup.2, IndexMap.insert, IndexMap.length_alter_of_not_mem hfirst,
      length_cons]
    · omega
    · intro e' he' hmem
      rcases (IndexMap.mem_keys_alter _ _ _ _).mp hmem with hold | hsame
      · exact hnew e' (mem_cons_of_mem _ he') hold
      · exact hnodup.1 (hsame ▸ List.mem_map_of_mem he')

theorem length_filter_zip {α β γ : Type*} (keep : α → Bool) (f : β → α) {xs : List β} {ys : List γ}
    (h : xs.length = ys.length) :
    (((xs.map f).zip ys).filter (fun e => keep e.1)).length =
      (xs.filter (fun x => keep (f x))).length := by
  induction xs generalizing ys with
  | nil => rfl
  | cons x xs ih =>
    cases ys with
    | nil => cases h
    | cons y ys =>
      have hrest := ih (Nat.succ.inj h)
      rw [map_cons, zip_cons_cons, filter_cons, filter_cons]
      split_ifs
      · rw [length_cons, length_cons, hrest]
      · exact hrest

theorem Inv.merge (h : m.Inv slotBytes) (hother : other.Inv slotBytes) :
    (m.merge slotBytes other).Inv slotBytes := by
  refine ⟨?_, h.accounted.append (fun s hs => ?_) rfl rfl⟩
  · simp only [MediaStore.merge, StreamStore.merge, length_append, length_map]
    rw [length_foldl_insert]
    · rw [IndexMap.keys, length_filter_zip (fun k => (m.store.streams.get? k).isNone) Prod.fst
        hother.aligned.symm, h.aligned]
    · exact other.store.streams.nodup.sublist (filter_sublist.map _)
    · intro e he
      rw [← IndexMap.get?_eq_none_iff]
      simpa using (mem_filter.mp he).2
  · obtain ⟨e, he, rfl⟩ := List.mem_map.mp hs
    exact hother.accounted.counted _ (of_mem_zip (mem_of_mem_filter he)).2

theorem Inv.reassociateAll (h : m.Inv slotBytes) : (m.reassociateAll slotBytes).Inv slotBytes := by
  unfold MediaStore.reassociateAll
  generalize m.store.sdpEndpoints.entries.map (fun e => (e, m.srtpSockets.contains e.1)) = links
  induction links generalizing m with
  | nil => exact h
  | cons link links ih => exact ih ((h.linkEndpointFrom _).rememberMediaProtection _ _)

theorem Inv.sortStreamsByKey {κ : Type} [LinearOrder κ] (h : m.Inv slotBytes)
    (rank : RtpStream × AudioStream → κ) : (m.sortStreamsByKey rank).Inv slotBytes := by
  refine ⟨?_, h.accounted.perm ?_ rfl⟩
  · simp [MediaStore.sortStreamsByKey, IndexMap.length]
  · have hsnd : (m.store.streams.entries.zip m.audio.streams).map Prod.snd = m.audio.streams :=
      map_snd_zip (le_of_eq h.aligned)
    have hperm := (m.perm_sortedStreams rank).map Prod.snd
    rw [hsnd] at hperm
    exact hperm

theorem inv_clear (slotBytes : ℕ) (m : MediaStore) : m.clear.Inv slotBytes :=
  ⟨rfl, rfl, fun _ hs => absurd hs not_mem_nil⟩

inductive Reachable (slotBytes : ℕ) (grow : ℕ → ℕ → ℕ) (settings : StreamSettings) (g729 : Bool) :
    MediaStore → Prop
  | new (maxStreams : ℕ) (audioCapture : Bool) (maxAudioFrames : Option ℕ) (maxAudioBytes : ℕ) :
    Reachable slotBytes grow settings g729
      (.new maxStreams audioCapture maxAudioFrames maxAudioBytes)
  | setAudioCapture {m : MediaStore} (enabled : Bool)
    (h : Reachable slotBytes grow settings g729 m) :
    Reachable slotBytes grow settings g729 { m with audioCapture := enabled }
  | setAudioLimits {m : MediaStore} (maxFrames : Option ℕ) (maxBytes : ℕ)
    (h : Reachable slotBytes grow settings g729 m) :
    Reachable slotBytes grow settings g729
      { m with audio.maxAudioFrames := maxFrames, audio.maxAudioBytes := maxBytes }
  | processRtp {m : MediaStore} (p : MediaPacket) (h : Reachable slotBytes grow settings g729 m) :
    Reachable slotBytes grow settings g729 (m.processRtp slotBytes grow settings g729 p)
  | processDecryptedRtp {m : MediaStore} (p : MediaPacket)
    (h : Reachable slotBytes grow settings g729 m) :
    Reachable slotBytes grow settings g729 (m.processDecryptedRtp slotBytes grow settings g729 p)
  | linkEndpointFrom {m : MediaStore} (link : SdpLink)
    (h : Reachable slotBytes grow settings g729 m) :
    Reachable slotBytes grow settings g729 (m.linkEndpointFrom link)
  | linkToDialogWithSdpFrom {m : MediaStore} (socket : SocketAddr) (callId : String)
    (media : MediaDescription) (provenance : SdpProvenance) (srtp : Bool)
    (h : Reachable slotBytes grow settings g729 m) :
    Reachable slotBytes grow settings g729
      (m.linkToDialogWithSdpFrom slotBytes socket callId media provenance srtp)
  | rememberMediaProtection {m : MediaStore} (socket : SocketAddr) (srtp : Bool)
    (h : Reachable slotBytes grow settings g729 m) :
    Reachable slotBytes grow settings g729 (m.rememberMediaProtection slotBytes socket srtp)
  | releaseAudioFor {m : MediaStore} (callId : String)
    (h : Reachable slotBytes grow settings g729 m) :
    Reachable slotBytes grow settings g729 (m.releaseAudioFor slotBytes callId)
  | merge {m other : MediaStore} (h : Reachable slotBytes grow settings g729 m)
    (hother : Reachable slotBytes grow settings g729 other) :
    Reachable slotBytes grow settings g729 (m.merge slotBytes other)
  | reassociateAll {m : MediaStore} (h : Reachable slotBytes grow settings g729 m) :
    Reachable slotBytes grow settings g729 (m.reassociateAll slotBytes)
  | sortStreamsByKey {m : MediaStore} {κ : Type} [LinearOrder κ]
    (rank : RtpStream × AudioStream → κ) (h : Reachable slotBytes grow settings g729 m) :
    Reachable slotBytes grow settings g729 (m.sortStreamsByKey rank)
  | clear {m : MediaStore} (h : Reachable slotBytes grow settings g729 m) :
    Reachable slotBytes grow settings g729 m.clear

theorem Reachable.inv (hgrow : ∀ capacity length, capacity ≤ grow capacity length)
    (h : Reachable slotBytes grow settings g729 m) : m.Inv slotBytes := by
  induction h with
  | new maxStreams audioCapture maxAudioFrames maxAudioBytes => exact inv_new _ _ _ _ _
  | setAudioCapture enabled _ ih => exact ⟨ih.aligned, ih.accounted⟩
  | setAudioLimits maxFrames maxBytes _ ih =>
    exact ⟨ih.aligned, ih.accounted.charged, ih.accounted.counted⟩
  | processRtp p _ ih => exact (ih.recordRtp hgrow p false).inv
  | processDecryptedRtp p _ ih => exact (ih.recordRtp hgrow p true).inv
  | linkEndpointFrom link _ ih => exact ih.linkEndpointFrom link
  | linkToDialogWithSdpFrom socket callId media provenance srtp _ ih =>
    exact (ih.linkEndpointFrom _).rememberMediaProtection socket srtp
  | rememberMediaProtection socket srtp _ ih => exact ih.rememberMediaProtection socket srtp
  | releaseAudioFor callId _ ih => exact ih.releaseAudioFor callId
  | merge _ _ ih ihother => exact ih.merge ihother
  | reassociateAll _ ih => exact ih.reassociateAll
  | sortStreamsByKey rank _ ih => exact ih.sortStreamsByKey rank
  | clear _ _ => exact inv_clear _ _

/-- In every store the running total is what the buffers are charged, each stream has its audio, and
of a stream that was not marked as SRTP every frame is held or counted. Behind a packet whose frame
is retained the total is inside the budget, unless no stream holds audio. -/
theorem retained_audio_accounted (hgrow : ∀ capacity length, capacity ≤ grow capacity length)
    (h : Reachable slotBytes grow settings g729 m) :
    m.audio.audioBytesRetained = (m.audio.streams.map (AudioStore.bufferCharge slotBytes)).sum ∧
    m.audio.streams.length = m.store.streams.length ∧
    (∀ s ∈ m.audio.streams, s.srtp = false → s.arrived = s.payloadBuffer.length +
      s.payloadFramesDropped + s.payloadFramesReleased + s.payloadFramesReleasedAfterExport) ∧
    ∀ p decrypted, (m.recordRtp slotBytes grow settings g729 p decrypted).2 = true →
      let m' := (m.recordRtp slotBytes grow settings g729 p decrypted).1
      m'.audio.audioBytesRetained ≤ m'.audio.maxAudioBytes ∨
        ∀ s ∈ m'.audio.streams, s.payloadBuffer = [] := by
  have hinv := h.inv hgrow
  refine ⟨hinv.accounted.charged, hinv.aligned, fun s hs hsrtp => ?_, fun p decrypted => ?_⟩
  · have hever := hinv.accounted.counted s hs hsrtp
    simp only [AudioStream.retainedEver, AudioStream.released] at hever
    omega
  · exact (hinv.recordRtp hgrow p decrypted).budget

/-! ### Two streams with room for the audio of one -/

def doubling (capacity length : ℕ) : ℕ :=
  if length < capacity then capacity else max 4 (2 * capacity)

theorem le_doubling (capacity length : ℕ) : capacity ≤ doubling capacity length := by
  unfold doubling
  split_ifs <;> omega

def pcmuPacket (ssrc : BitVec 32) : MediaPacket where
  packet :=
    { src := (.v4 0x0a000001, 20000)
      dst := (.v4 0x0a000002, 30000)
      inputOrigin := .wire
      header := { payloadType := 0, sequence := 1, timestamp := 0, ssrc }
      payloadLen := 4
      timestamp := 0 }
  payload := [0xff, 0x7f, 0xff, 0x7f]
  payload_len := rfl

def oneHeld : MediaStore :=
  (new 100 true none 300).processRtp 32 doubling {} false (pcmuPacket 1)

def twoHeld : MediaStore := oneHeld.processRtp 32 doubling {} false (pcmuPacket 2)

/-- The second stream's frame takes the place of the first's. -/
theorem retained_audio_accounted_two_streams : oneHeld.audio.audioBytesRetained = 165 ∧
    (oneHeld.recordRtp 32 doubling {} false (pcmuPacket 2) false).2 = true ∧
    twoHeld.audio.streams.map (fun s => (s.payloadBuffer.length, s.payloadFramesReleased)) =
      [(0, 1), (1, 0)] ∧
    (twoHeld.audio.audioBytesRetained ≤ 300 ∨
      ∀ s ∈ twoHeld.audio.streams, s.payloadBuffer = []) := by
  have hreachable : Reachable 32 doubling {} false oneHeld := .processRtp _ (.new 100 true none 300)
  have hretained : (oneHeld.recordRtp 32 doubling {} false (pcmuPacket 2) false).2 = true := by
    decide +kernel
  refine ⟨by decide +kernel, hretained, by decide +kernel, ?_⟩
  exact (retained_audio_accounted le_doubling hreachable).2.2.2 (pcmuPacket 2) false hretained

end MediaStore

end Sipnab
