import Sipnab.Rtp.AudioPlacement

/-!
# A stream's audio as it arrives

The frames a stream retains are a queue that loses its start: to the cap of the stream, to the
budget of the store, after an export, and when the stream turns out to be encrypted. A reader keeps
the count of the frames that it has taken, and finds its place again from the counters of what was
released.
-/

namespace Sipnab

open AudioPlacement List

def audioPayloadCharge (length : ℕ) : ℕ := length + length / 4 + 32

/-- The part of a stream that its retained audio is in. Every frame goes with its number, counted
from the first that the stream retained. -/
structure AudioStream where
  payloadBuffer : List (ℕ × RetainedFrame)
  capacity : ℕ
  payloadFramesDropped : ℕ
  payloadFramesReleased : ℕ
  payloadFramesReleasedAfterExport : ℕ
  associatedDialog : Option (List Char)
  srtp : Bool
  packetCount : ℕ
  srtpDecryptedPackets : ℕ
  srtpUndecryptedPackets : ℕ
  /-- How many frames it ever retained. -/
  arrived : ℕ

namespace AudioStream

def new (dialog : Option (List Char)) (srtp : Bool) : AudioStream :=
  ⟨[], 0, 0, 0, 0, dialog, srtp, 0, 0, 0, 0⟩

/-- How many frames have left the start of the buffer, by the counters. -/
def released (s : AudioStream) : ℕ :=
  s.payloadFramesDropped + s.payloadFramesReleased + s.payloadFramesReleasedAfterExport

def retainedEver (s : AudioStream) : ℕ := s.released + s.payloadBuffer.length

def dropOldest (s : AudioStream) : AudioStream :=
  { s with
    payloadBuffer := s.payloadBuffer.tail
    payloadFramesDropped := s.payloadFramesDropped + 1 }

def push (s : AudioStream) (capacity : ℕ) (frame : RetainedFrame) : AudioStream :=
  { s with
    payloadBuffer := s.payloadBuffer ++ [(s.arrived, frame)]
    capacity := capacity
    arrived := s.arrived + 1 }

/-- The budget takes the oldest frame; an emptied buffer gives its memory back. -/
def releaseOldest (s : AudioStream) : AudioStream :=
  { s with
    payloadBuffer := s.payloadBuffer.tail
    capacity := if s.payloadBuffer.tail.isEmpty then 0 else s.capacity
    payloadFramesReleased := s.payloadFramesReleased + 1 }

def releaseAfterExport (s : AudioStream) : AudioStream :=
  { s with
    payloadBuffer := []
    capacity := 0
    payloadFramesReleasedAfterExport :=
      s.payloadFramesReleasedAfterExport + s.payloadBuffer.length }

def countPacket (s : AudioStream) (decrypted : Bool) : AudioStream :=
  { s with
    packetCount := s.packetCount + 1
    srtpDecryptedPackets := s.srtpDecryptedPackets + if decrypted then 1 else 0 }

/-- The stream is learnt to be encrypted. What it holds is not audio if no packet was decrypted. -/
def protect (s : AudioStream) : AudioStream :=
  if s.srtp then s
  else
    let s := { s with
      srtp := true
      srtpUndecryptedPackets := s.packetCount - s.srtpDecryptedPackets }
    if s.srtpDecryptedPackets = 0 then { s with payloadBuffer := [], capacity := 0 } else s

end AudioStream

structure AudioStore where
  streams : List AudioStream
  maxAudioFrames : Option ℕ
  maxAudioBytes : ℕ
  audioBytesRetained : ℕ
  audioReleaseCursor : ℕ

namespace AudioStore

-- the size of a slot of a buffer, and the capacity behind a push, by the one before and the length
variable (slotBytes : ℕ) (grow : ℕ → ℕ → ℕ)

def bufferCharge (s : AudioStream) : ℕ :=
  s.capacity * slotBytes +
    (s.payloadBuffer.map (fun e => audioPayloadCharge e.2.payload.length)).sum

/-- Release the earliest frame of the oldest stream that holds any, in at most `fuel` tries. -/
def releaseFrom (st : AudioStore) : ℕ → Bool × AudioStore
  | 0 => (false, st)
  | fuel + 1 =>
    let cursor := if st.streams.length ≤ st.audioReleaseCursor then 0 else st.audioReleaseCursor
    match st.streams[cursor]? with
    | none => (false, { st with audioReleaseCursor := cursor })
    | some s =>
      match s.payloadBuffer with
      | old :: rest =>
        let freed := audioPayloadCharge old.2.payload.length +
          if rest.isEmpty then s.capacity * slotBytes else 0
        (true, { st with
          streams := st.streams.set cursor s.releaseOldest
          audioBytesRetained := st.audioBytesRetained - freed
          audioReleaseCursor := cursor })
      | [] => releaseFrom { st with audioReleaseCursor := cursor + 1 } fuel

def releaseOldestFrame (st : AudioStore) : Bool × AudioStore :=
  st.releaseFrom slotBytes (st.streams.length + 1)

/-- Back inside the budget; every release takes one of at most `fuel` frames. -/
def keepBudget (st : AudioStore) : ℕ → AudioStore
  | 0 => st
  | fuel + 1 =>
    if st.maxAudioBytes < st.audioBytesRetained then
      match st.releaseOldestFrame slotBytes with
      | (true, st) => keepBudget st fuel
      | (false, st) => st
    else st

def framesHeld (st : AudioStore) : ℕ := (st.streams.map (fun s => s.payloadBuffer.length)).sum

/-- The store with a frame pushed, the cap applied, before the budget is. -/
def pushed (st : AudioStore) (index : ℕ) (frame : RetainedFrame) : AudioStore :=
  match st.streams[index]? with
  | none => st
  | some s =>
    let atCap := st.maxAudioFrames.any (fun cap => cap ≤ s.payloadBuffer.length)
    let (s, bytes) := match atCap, s.payloadBuffer with
      | true, old :: _ =>
        (s.dropOldest, st.audioBytesRetained - audioPayloadCharge old.2.payload.length)
      | _, _ => (s, st.audioBytesRetained)
    let capacity := grow s.capacity s.payloadBuffer.length
    let bytes := bytes + audioPayloadCharge frame.payload.length +
      (capacity - s.capacity) * slotBytes
    { st with
      streams := st.streams.set index (s.push capacity frame)
      audioBytesRetained := bytes }

/-- Retain a frame of a stream, then apply the cap and the budget. -/
def retainPayload (st : AudioStore) (index : ℕ) (frame : RetainedFrame) : AudioStore :=
  match st.streams[index]? with
  | none => st
  | some _ =>
    let st := st.pushed slotBytes grow index frame
    st.keepBudget slotBytes st.framesHeld

def releaseAudioFor (st : AudioStore) (callId : List Char) : AudioStore :=
  { st with
    streams := st.streams.map
      (fun s => if s.associatedDialog = some callId then s.releaseAfterExport else s)
    audioBytesRetained := st.audioBytesRetained -
      ((st.streams.filter (fun s => s.associatedDialog = some callId)).map
        (bufferCharge slotBytes)).sum }

/-- A media description declares an SRTP profile for the streams of an endpoint. -/
def rememberMediaProtection (st : AudioStore) : List ℕ → AudioStore
  | [] => st
  | index :: rest =>
    match st.streams[index]? with
    | none => rememberMediaProtection st rest
    | some s =>
      let freed := if s.srtp = false ∧ s.srtpDecryptedPackets = 0 then bufferCharge slotBytes s else 0
      rememberMediaProtection { st with
        streams := st.streams.set index s.protect
        audioBytesRetained := st.audioBytesRetained - freed } rest

def countPacket (st : AudioStore) (index : ℕ) (decrypted : Bool) : AudioStore :=
  { st with streams := st.streams.modify index (fun s => s.countPacket decrypted) }

end AudioStore

/-! ## The reader -/

structure Frames where
  pcm : List (BitVec 16)
  missed : ℕ
  failed : ℕ

/-- A stream that is followed, with the numbers of the frames that it took up and of those that its
timeline let through to the decoder. -/
structure LiveStream (σ : Type*) where
  decoded : DecodedStream σ
  taken : ℕ
  missed : ℕ
  handed : List ℕ
  played : List ℕ

namespace LiveStream

variable {σ : Type*} (codec : FrameDecoder σ) (clock : ℕ)

def new (initial : σ) (wallMs : ℕ) : LiveStream σ :=
  ⟨⟨initial, Timeline.new clock wallMs true, [], 0, none⟩, 0, 0, [], []⟩

/-- One frame, which the timeline may drop as a repeat or as late. -/
def take (d : DecodedStream σ × List ℕ) (e : ℕ × RetainedFrame) : DecodedStream σ × List ℕ :=
  (decodeFrame codec clock d.1 e.2,
    match (d.1.timeline.step e.2.timestamp).2 with
    | .play _ => d.2 ++ [e.1]
    | .drop => d.2)

/-- Decode every frame that was retained since the last look. -/
def next (r : LiveStream σ) (stream : AudioStream) (wallMs : ℕ) : LiveStream σ × Frames :=
  let firstHeld := stream.released
  let missed := firstHeld - r.taken
  let taken := max r.taken firstHeld
  let fresh := stream.payloadBuffer.drop (taken - firstHeld)
  let (decoded, played) := fresh.foldl (take codec clock)
    ({ r.decoded with
      timeline := r.decoded.timeline.extendWall wallMs
      pcm := []
      failures := 0 }, r.played)
  ({ decoded := decoded
     taken := max stream.retainedEver taken
     missed := r.missed + missed
     handed := r.handed ++ fresh.map Prod.fst
     played := played },
    ⟨decoded.pcm, missed, decoded.failures⟩)

/-- The frames that the timeline dropped, as a repeat or as late. -/
def dropped (t : Timeline) : ℕ := t.report.duplicates + t.report.late

theorem dropped_step (t : Timeline) (ts : BitVec 32) :
    dropped (t.step ts).1 = dropped t + if (t.step ts).2 = .drop then 1 else 0 := by
  unfold dropped
  cases hplaced : t.placedExt with
  | none =>
    rw [Timeline.step_first t ts hplaced]
    rfl
  | some placed =>
    simp only [Timeline.step, hplaced]
    by_cases hrepeat : t.extOf ts = placed
    · simp only [hrepeat, ↓reduceIte]
      omega
    · by_cases hlate : t.extOf ts < t.endExt
      · simp only [hrepeat, hlate, ↓reduceIte]
        omega
      · simp only [hrepeat, hlate, ↓reduceIte]
        split_ifs
        all_goals simp_all [Timeline.place]

theorem dropped_decodeFrame (d : DecodedStream σ) (frame : RetainedFrame) :
    dropped (decodeFrame codec clock d frame).timeline =
      dropped (d.timeline.step frame.timestamp).1 := by
  unfold decodeFrame
  rcases d.timeline.step frame.timestamp with ⟨t, fillTicks | _⟩
  · dsimp only
    split
    · rfl
    · rfl
  · rfl

/-- Every frame that is taken up goes to the decoder, or is one more that the timeline dropped. -/
theorem foldl_take (fresh : List (ℕ × RetainedFrame)) (d : DecodedStream σ × List ℕ) :
    ∃ played, (fresh.foldl (take codec clock) d).2 = d.2 ++ played ∧
      played.Sublist (fresh.map Prod.fst) ∧
      dropped (fresh.foldl (take codec clock) d).1.timeline + played.length =
        dropped d.1.timeline + fresh.length := by
  induction fresh generalizing d with
  | nil => exact ⟨[], by simp, List.Sublist.refl _, rfl⟩
  | cons e fresh ih =>
    obtain ⟨played, hplayed, hsublist, hcount⟩ := ih (take codec clock d e)
    have hstep := dropped_step d.1.timeline e.2.timestamp
    have hdecode := dropped_decodeFrame codec clock d.1 e.2
    simp only [foldl_cons, map_cons, length_cons]
    rcases hkind : (d.1.timeline.step e.2.timestamp).2 with fillTicks | _
    · have htake : (take codec clock d e).2 = d.2 ++ [e.1] := by simp only [take, hkind]
      rw [htake] at hplayed
      refine ⟨e.1 :: played, by simpa using hplayed, hsublist.cons_cons _, ?_⟩
      simp only [hkind, reduceCtorEq, ↓reduceIte, Nat.add_zero] at hstep
      rw [length_cons]
      simp only [take] at hcount ⊢
      omega
    · have htake : (take codec clock d e).2 = d.2 := by simp only [take, hkind]
      rw [htake] at hplayed
      refine ⟨played, hplayed, hsublist.cons _, ?_⟩
      simp only [hkind, ↓reduceIte] at hstep
      simp only [take] at hcount ⊢
      omega

def fresh (r : LiveStream σ) (stream : AudioStream) : List (ℕ × RetainedFrame) :=
  stream.payloadBuffer.drop (max r.taken stream.released - stream.released)

theorem next_played (r : LiveStream σ) (stream : AudioStream) (wallMs : ℕ) :
    ∃ played, (r.next codec clock stream wallMs).1.played = r.played ++ played ∧
      played.Sublist ((r.fresh stream).map Prod.fst) ∧
      dropped (r.next codec clock stream wallMs).1.decoded.timeline + played.length =
        dropped r.decoded.timeline + (r.fresh stream).length :=
  foldl_take codec clock (r.fresh stream)
    ({ r.decoded with
      timeline := r.decoded.timeline.extendWall wallMs
      pcm := []
      failures := 0 }, r.played)

end LiveStream

/-! ## What the counters say -/

namespace AudioStream

/-- The frames in the buffer are the last that were retained, and the counters say how many went
before them. -/
structure Kept (s : AudioStream) : Prop where
  numbers : s.payloadBuffer.map Prod.fst = List.range' s.released s.payloadBuffer.length
  ever : s.retainedEver = s.arrived

structure Onward (s s' : AudioStream) : Prop where
  kept : s.Kept → s'.Kept
  released : s.released ≤ s'.released
  arrived : s.arrived ≤ s'.arrived

variable {s s' s'' : AudioStream}

theorem Onward.refl (s : AudioStream) : Onward s s := ⟨id, le_rfl, le_rfl⟩

theorem Onward.trans (h : Onward s s') (h' : Onward s' s'') : Onward s s'' :=
  ⟨h'.kept ∘ h.kept, h.released.trans h'.released, h.arrived.trans h'.arrived⟩

theorem Kept.tail (h : s.Kept) (hbuffer : s.payloadBuffer ≠ [])
    (hreleased : s'.released = s.released + 1) (hframes : s'.payloadBuffer = s.payloadBuffer.tail)
    (harrived : s'.arrived = s.arrived) : s'.Kept := by
  obtain ⟨e, rest, hcons⟩ := exists_cons_of_ne_nil hbuffer
  have hnumbers := h.numbers
  have hever := h.ever
  unfold retainedEver at hever
  rw [hcons, map_cons, length_cons, List.range'_succ] at hnumbers
  rw [hcons, length_cons] at hever
  rw [hcons, tail_cons] at hframes
  refine ⟨?_, ?_⟩
  · rw [hframes, hreleased]
    exact (List.cons.inj hnumbers).2
  · unfold retainedEver
    rw [hreleased, hframes, harrived]
    omega

theorem onward_dropOldest (h : s.payloadBuffer ≠ []) : Onward s s.dropOldest where
  kept hkept := hkept.tail h (by simp only [released, dropOldest]; omega) rfl rfl
  released := by
    simp only [released, dropOldest]
    omega
  arrived := le_rfl

theorem onward_releaseOldest (h : s.payloadBuffer ≠ []) : Onward s s.releaseOldest where
  kept hkept := hkept.tail h (by simp only [released, releaseOldest]; omega) rfl rfl
  released := by
    simp only [released, releaseOldest]
    omega
  arrived := le_rfl

theorem onward_push (capacity : ℕ) (frame : RetainedFrame) : Onward s (s.push capacity frame) where
  kept h := by
    have hever := h.ever
    unfold retainedEver at hever
    refine ⟨?_, ?_⟩
    · change (s.payloadBuffer ++ [(s.arrived, frame)]).map Prod.fst =
        List.range' s.released (s.payloadBuffer ++ [(s.arrived, frame)]).length
      rw [map_append, h.numbers, length_append, List.range'_append_1.symm]
      simp [hever]
    · change s.released + (s.payloadBuffer ++ [(s.arrived, frame)]).length = s.arrived + 1
      rw [length_append, length_singleton]
      omega
  released := le_rfl
  arrived := Nat.le_succ _

theorem onward_releaseAfterExport : Onward s s.releaseAfterExport where
  kept h := by
    have hever := h.ever
    simp only [retainedEver, released] at hever
    refine ⟨rfl, ?_⟩
    simp only [retainedEver, released, releaseAfterExport, length_nil]
    omega
  released := by
    simp only [released, releaseAfterExport]
    omega
  arrived := le_rfl

/-- Learning that a stream is encrypted keeps its counters in step if there is nothing to clear. -/
theorem onward_protect
    (h : s.srtp = false → s.srtpDecryptedPackets = 0 → s.payloadBuffer = []) :
    Onward s s.protect := by
  unfold protect
  dsimp only
  split_ifs with hsrtp hnone
  · exact Onward.refl s
  · have hempty := h (by simpa using hsrtp) hnone
    refine ⟨fun hkept => ⟨rfl, ?_⟩, le_rfl, le_rfl⟩
    have hever := hkept.ever
    unfold retainedEver at hever ⊢
    rw [hempty] at hever
    exact hever
  · exact ⟨fun hkept => ⟨hkept.numbers, hkept.ever⟩, le_rfl, le_rfl⟩

end AudioStream

namespace AudioStore

open AudioStream

variable (slotBytes : ℕ) (grow : ℕ → ℕ → ℕ)

def OnwardAt (j : ℕ) (st st' : AudioStore) : Prop :=
  ∀ s, st.streams[j]? = some s → ∃ s', st'.streams[j]? = some s' ∧ Onward s s'

variable {slotBytes grow} {j index : ℕ} {st st' st'' : AudioStore}

theorem OnwardAt.refl (j : ℕ) (st : AudioStore) : OnwardAt j st st :=
  fun s hs => ⟨s, hs, Onward.refl s⟩

theorem OnwardAt.trans (h : OnwardAt j st st') (h' : OnwardAt j st' st'') : OnwardAt j st st'' := by
  intro s hs
  obtain ⟨s', hs', honward⟩ := h s hs
  obtain ⟨s'', hs'', honward'⟩ := h' s' hs'
  exact ⟨s'', hs'', honward.trans honward'⟩

theorem onwardAt_set {s s' : AudioStream} (hs : st.streams[index]? = some s)
    (honward : index = j → Onward s s') (hstreams : st'.streams = st.streams.set index s') :
    OnwardAt j st st' := by
  intro t ht
  rw [hstreams]
  by_cases hj : index = j
  · subst hj
    obtain rfl : s = t := Option.some.inj (hs.symm.trans ht)
    refine ⟨s', ?_, honward rfl⟩
    rw [List.getElem?_set_self (List.getElem?_eq_some_iff.mp hs).1]
  · exact ⟨t, by rw [List.getElem?_set_ne hj, ht], Onward.refl t⟩

theorem onwardAt_releaseFrom (j fuel : ℕ) (st : AudioStore) :
    OnwardAt j st (st.releaseFrom slotBytes fuel).2 := by
  induction fuel generalizing st with
  | zero => exact OnwardAt.refl j st
  | succ fuel ih =>
    unfold releaseFrom
    dsimp only
    split
    · exact OnwardAt.refl j st
    · rename_i s hs
      split
      · rename_i old rest hbuffer
        exact onwardAt_set hs (fun _ => onward_releaseOldest (by simp [hbuffer])) rfl
      · exact fun s hs => ih _ s hs

theorem onwardAt_keepBudget (j fuel : ℕ) (st : AudioStore) :
    OnwardAt j st (st.keepBudget slotBytes fuel) := by
  induction fuel generalizing st with
  | zero => exact OnwardAt.refl j st
  | succ fuel ih =>
    unfold keepBudget
    split_ifs
    · have hrelease : OnwardAt j st (st.releaseFrom slotBytes (st.streams.length + 1)).2 :=
        onwardAt_releaseFrom j (st.streams.length + 1) st
      split
      · rename_i st₁ hst₁
        unfold releaseOldestFrame at hst₁
        rw [hst₁] at hrelease
        exact hrelease.trans (ih st₁)
      · rename_i st₁ hst₁
        unfold releaseOldestFrame at hst₁
        rw [hst₁] at hrelease
        exact hrelease
    · exact OnwardAt.refl j st

theorem onwardAt_pushed (j index : ℕ) (frame : RetainedFrame) (st : AudioStore) :
    OnwardAt j st (st.pushed slotBytes grow index frame) := by
  unfold pushed
  split
  · exact OnwardAt.refl j st
  · rename_i s hs
    dsimp only
    split
    · rename_i hbuffer
      apply onwardAt_set hs _ rfl
      intro _
      exact (onward_dropOldest (by simp [hbuffer])).trans (onward_push _ _)
    · exact onwardAt_set hs (fun _ => onward_push _ _) rfl

theorem onwardAt_retainPayload (j index : ℕ) (frame : RetainedFrame) (st : AudioStore) :
    OnwardAt j st (st.retainPayload slotBytes grow index frame) := by
  unfold retainPayload
  split
  · exact OnwardAt.refl j st
  · exact (onwardAt_pushed j index frame st).trans (onwardAt_keepBudget _ _ _)

theorem onwardAt_releaseAudioFor (j : ℕ) (callId : List Char) (st : AudioStore) :
    OnwardAt j st (st.releaseAudioFor slotBytes callId) := by
  intro s hs
  refine ⟨if s.associatedDialog = some callId then s.releaseAfterExport else s, ?_, ?_⟩
  · change (st.streams.map _)[j]? = _
    rw [List.getElem?_map, hs]
    rfl
  · split_ifs
    · exact onward_releaseAfterExport
    · exact Onward.refl s

def NothingToClear (j : ℕ) (st : AudioStore) : Prop :=
  ∀ s, st.streams[j]? = some s → s.srtp = false → s.srtpDecryptedPackets = 0 → s.payloadBuffer = []

theorem onwardAt_rememberMediaProtection (indices : List ℕ) (st : AudioStore)
    (h : j ∈ indices → NothingToClear j st) :
    OnwardAt j st (st.rememberMediaProtection slotBytes indices) := by
  induction indices generalizing st with
  | nil => exact OnwardAt.refl j st
  | cons index rest ih =>
    unfold rememberMediaProtection
    split
    · exact ih st (fun hj => h (mem_cons_of_mem _ hj))
    · rename_i s hs
      have hprotect : index = j → Onward s s.protect :=
        fun hj => onward_protect (h (hj ▸ mem_cons_self) s (hj ▸ hs))
      refine OnwardAt.trans (onwardAt_set hs hprotect rfl) (ih _ (fun hj t ht hsrtp => ?_))
      change (st.streams.set index s.protect)[j]? = some t at ht
      by_cases hindex : index = j
      · subst hindex
        rw [List.getElem?_set_self (List.getElem?_eq_some_iff.mp hs).1] at ht
        cases ht
        unfold protect at hsrtp
        dsimp only at hsrtp
        split_ifs at hsrtp with hold
        exact absurd hsrtp (by simpa using hold)
      · rw [List.getElem?_set_ne hindex] at ht
        exact h (mem_cons_of_mem _ hj) t ht hsrtp

theorem onwardAt_countPacket (j index : ℕ) (decrypted : Bool) (st : AudioStore) :
    OnwardAt j st (st.countPacket index decrypted) := by
  intro s hs
  have hget : (st.countPacket index decrypted).streams[j]? =
      some (if index = j then s.countPacket decrypted else s) := by
    change (st.streams.modify index _)[j]? = _
    rw [List.getElem?_modify, hs]
    split_ifs <;> rfl
  refine ⟨_, hget, ?_⟩
  split_ifs
  · exact ⟨fun hkept => ⟨hkept.numbers, hkept.ever⟩, le_rfl, le_rfl⟩
  · exact Onward.refl s

theorem length_countPacket (index : ℕ) (decrypted : Bool) (st : AudioStore) :
    (st.countPacket index decrypted).streams.length = st.streams.length :=
  length_modify _ _ _

theorem length_releaseFrom (fuel : ℕ) (st : AudioStore) :
    (st.releaseFrom slotBytes fuel).2.streams.length = st.streams.length := by
  induction fuel generalizing st with
  | zero => rfl
  | succ fuel ih =>
    unfold releaseFrom
    dsimp only
    split
    · rfl
    · split
      · exact length_set
      · exact ih _

theorem length_keepBudget (fuel : ℕ) (st : AudioStore) :
    (st.keepBudget slotBytes fuel).streams.length = st.streams.length := by
  induction fuel generalizing st with
  | zero => rfl
  | succ fuel ih =>
    have hrelease : (st.releaseOldestFrame slotBytes).2.streams.length = st.streams.length :=
      length_releaseFrom _ st
    unfold keepBudget
    split_ifs
    · split
      · rename_i st₁ hst₁
        rw [hst₁] at hrelease
        exact (ih st₁).trans hrelease
      · rename_i st₁ hst₁
        rw [hst₁] at hrelease
        exact hrelease
    · rfl

theorem length_retainPayload (index : ℕ) (frame : RetainedFrame) (st : AudioStore) :
    (st.retainPayload slotBytes grow index frame).streams.length = st.streams.length := by
  unfold retainPayload
  split
  case h_1 => rfl
  case h_2 s hs =>
    rw [length_keepBudget, pushed, hs]
    exact length_set

theorem length_rememberMediaProtection (indices : List ℕ) (st : AudioStore) :
    (st.rememberMediaProtection slotBytes indices).streams.length = st.streams.length := by
  induction indices generalizing st with
  | nil => rfl
  | cons index rest ih =>
    unfold rememberMediaProtection
    split
    · exact ih st
    · exact (ih _).trans length_set

end AudioStore

/-! ## Following a stream -/

/-- The store, the reader of its stream `index`, and how many frames the stream had retained at the
reader's last look. -/
structure Following (σ : Type*) where
  store : AudioStore
  reader : LiveStream σ
  seen : ℕ

inductive AudioEvent
  | opened (dialog : Option (List Char)) (srtp : Bool)
  | packet (index : ℕ) (decrypted : Bool)
  | retained (index : ℕ) (frame : RetainedFrame)
  | exported (callId : List Char)
  | encrypted (indices : List ℕ)
  | look (wallMs : ℕ)

namespace Following

variable {σ : Type*} (slotBytes : ℕ) (grow : ℕ → ℕ → ℕ) (codec : FrameDecoder σ) (clock index : ℕ)

def look (f : Following σ) (wallMs : ℕ) : Following σ :=
  match f.store.streams[index]? with
  | none => f
  | some s => { f with reader := (f.reader.next codec clock s wallMs).1, seen := s.arrived }

def step (f : Following σ) : AudioEvent → Following σ
  | .opened dialog srtp =>
    { f with store.streams := f.store.streams ++ [AudioStream.new dialog srtp] }
  | .packet i decrypted => { f with store := f.store.countPacket i decrypted }
  | .retained i frame => { f with store := f.store.retainPayload slotBytes grow i frame }
  | .exported callId => { f with store := f.store.releaseAudioFor slotBytes callId }
  | .encrypted indices => { f with store := f.store.rememberMediaProtection slotBytes indices }
  | .look wallMs => f.look codec clock index wallMs

def start (maxFrames : Option ℕ) (maxBytes : ℕ) (initial : σ) (wallMs : ℕ) : Following σ :=
  ⟨⟨[], maxFrames, maxBytes, 0, 0⟩, LiveStream.new clock initial wallMs, 0⟩

/-- Every frame retained before the last look was handed to the decoder once and in order, or is
counted as missed once; what was held at the look was handed. -/
structure Accounted (f : Following σ) : Prop where
  inOrder : f.reader.handed.Pairwise (· < ·)
  known : ∀ k ∈ f.reader.handed, k < f.seen
  counted : f.reader.handed.length + f.reader.missed = f.seen
  played : f.reader.played.Sublist f.reader.handed
  repeated : f.reader.played.length + LiveStream.dropped f.reader.decoded.timeline =
    f.reader.handed.length
  noneSkipped : ∀ s, f.store.streams[index]? = some s →
    ∀ e ∈ s.payloadBuffer, e.1 < f.seen → e.1 ∈ f.reader.handed

/-- When the stream turns out to be encrypted, it holds no audio that would be cleared. -/
def Uncleared (f : Following σ) : AudioEvent → Prop
  | .encrypted indices => index ∈ indices → f.store.NothingToClear index
  | _ => True

structure Inv (f : Following σ) : Prop where
  inOrder : f.reader.handed.Pairwise (· < ·)
  known : ∀ k ∈ f.reader.handed, k < f.seen
  counted : f.reader.handed.length + f.reader.missed = f.seen
  played : f.reader.played.Sublist f.reader.handed
  repeated : f.reader.played.length + LiveStream.dropped f.reader.decoded.timeline =
    f.reader.handed.length
  taken : f.reader.taken = f.seen
  streams : ∀ s, f.store.streams[index]? = some s → s.Kept ∧ f.seen ≤ s.arrived ∧
    ∀ k, s.released ≤ k → k < f.seen → k ∈ f.reader.handed
  unseen : f.store.streams[index]? = none → f.seen = 0

variable {slotBytes grow codec clock index} {f : Following σ}

theorem Inv.onward (h : f.Inv index) {store : AudioStore} (honward : f.store.OnwardAt index store)
    (hnew : f.store.streams[index]? = none → ∀ s, store.streams[index]? = some s →
      s.Kept) : { f with store := store }.Inv index := by
  refine ⟨h.inOrder, h.known, h.counted, h.played, h.repeated, h.taken, fun s' hs' => ?_,
    fun hnone => ?_⟩
  · cases hs : f.store.streams[index]? with
    | none =>
      have hseen := h.unseen hs
      refine ⟨hnew hs s' hs', ?_, fun k _ hk => ?_⟩
      · rw [hseen]
        exact Nat.zero_le _
      · rw [hseen] at hk
        exact absurd hk (Nat.not_lt_zero k)
    | some s =>
      obtain ⟨t, ht, hon⟩ := honward s hs
      obtain rfl : s' = t := Option.some.inj (hs'.symm.trans ht)
      obtain ⟨hkept, hseen, hheld⟩ := h.streams s hs
      exact ⟨hon.kept hkept, hseen.trans hon.arrived,
        fun k hk hlt => hheld k (hon.released.trans hk) hlt⟩
  · cases hs : f.store.streams[index]? with
    | none => exact h.unseen hs
    | some s =>
      obtain ⟨t, ht, -⟩ := honward s hs
      cases ht.symm.trans hnone

theorem absent {store : AudioStore} (hlength : store.streams.length = f.store.streams.length)
    (hnone : f.store.streams[index]? = none) (s : AudioStream)
    (hs : store.streams[index]? = some s) : s.Kept := by
  have hlt := (List.getElem?_eq_some_iff.mp hs).1
  rw [hlength] at hlt
  exact absurd (List.getElem?_eq_none_iff.mp hnone) (Nat.not_le.mpr hlt)

theorem Inv.look (h : f.Inv index) (wallMs : ℕ) : (f.look codec clock index wallMs).Inv index := by
  unfold Following.look
  cases hs : f.store.streams[index]? with
  | none => exact h
  | some s =>
    obtain ⟨hkept, hseen, hheld⟩ := h.streams s hs
    have hever : s.released + s.payloadBuffer.length = s.arrived := hkept.ever
    have htaken := h.taken
    have hfresh : (f.reader.fresh s).map Prod.fst =
        List.range' (max f.reader.taken s.released)
          (s.arrived - max f.reader.taken s.released) := by
      unfold LiveStream.fresh
      rw [map_drop, hkept.numbers, drop_range']
      congr 1
      · omega
      · omega
    have hmem : ∀ k, k ∈ (f.reader.next codec clock s wallMs).1.handed ↔
        k ∈ f.reader.handed ∨ max f.reader.taken s.released ≤ k ∧ k < s.arrived := by
      intro k
      change k ∈ f.reader.handed ++ (f.reader.fresh s).map Prod.fst ↔ _
      rw [mem_append, hfresh, List.mem_range'_1]
      refine or_congr_right ?_
      constructor
      · rintro ⟨hle, hlt⟩
        exact ⟨hle, by omega⟩
      · rintro ⟨hle, hlt⟩
        exact ⟨hle, by omega⟩
    obtain ⟨played, hplayed, hsublist, hdropped⟩ := f.reader.next_played codec clock s wallMs
    have hhanded : (f.reader.next codec clock s wallMs).1.handed =
        f.reader.handed ++ (f.reader.fresh s).map Prod.fst := rfl
    refine ⟨?_, fun k hk => ?_, ?_, ?_, ?_, ?_, fun s' hs' => ?_, fun hnone => ?_⟩
    · rw [hhanded, hfresh]
      refine pairwise_append.mpr ⟨h.inOrder, pairwise_lt_range', fun a ha b hb => ?_⟩
      have hlt := h.known a ha
      have hle := (List.mem_range'_1.mp hb).1
      omega
    · change k < s.arrived
      rcases (hmem k).mp hk with hold | hnew
      · have hlt := h.known k hold
        omega
      · exact hnew.2
    · change _ + (f.reader.missed + (s.released - f.reader.taken)) = s.arrived
      rw [hhanded, length_append, hfresh, length_range']
      have hcounted := h.counted
      omega
    · rw [hplayed, hhanded]
      exact h.played.append hsublist
    · change _ + LiveStream.dropped (f.reader.next codec clock s wallMs).1.decoded.timeline = _
      rw [hplayed, hhanded, length_append, length_append, length_map]
      have hrepeated := h.repeated
      omega
    · change max s.retainedEver (max f.reader.taken s.released) = s.arrived
      unfold AudioStream.retainedEver
      omega
    · obtain rfl : s = s' := Option.some.inj (hs.symm.trans hs')
      refine ⟨hkept, le_rfl, fun k hle hlt => (hmem k).mpr ?_⟩
      change k < s.arrived at hlt
      by_cases hk : k < f.seen
      · exact .inl (hheld k hle hk)
      · exact .inr ⟨by omega, hlt⟩
    · cases hs.symm.trans hnone

theorem Inv.step (h : f.Inv index) {e : AudioEvent} (hok : f.Uncleared index e) :
    (f.step slotBytes grow codec clock index e).Inv index := by
  cases e with
  | opened dialog srtp =>
    refine h.onward (fun s hs => ⟨s, ?_, AudioStream.Onward.refl s⟩) (fun hnone s hs => ?_)
    · exact (List.getElem?_append_left (List.getElem?_eq_some_iff.mp hs).1).trans hs
    · have hlength := List.getElem?_eq_none_iff.mp hnone
      rw [List.getElem?_append_right hlength] at hs
      obtain rfl := mem_singleton.mp (mem_of_getElem? hs)
      exact ⟨rfl, rfl⟩
  | packet i decrypted =>
    exact h.onward (AudioStore.onwardAt_countPacket index i decrypted f.store)
      (absent (AudioStore.length_countPacket i decrypted f.store))
  | retained i frame =>
    exact h.onward (AudioStore.onwardAt_retainPayload index i frame f.store)
      (absent (AudioStore.length_retainPayload i frame f.store))
  | exported callId =>
    exact h.onward (AudioStore.onwardAt_releaseAudioFor index callId f.store)
      (absent (length_map _))
  | encrypted indices =>
    exact h.onward (AudioStore.onwardAt_rememberMediaProtection indices f.store hok)
      (absent (AudioStore.length_rememberMediaProtection indices f.store))
  | look wallMs => exact h.look wallMs

theorem Inv.accounted (h : f.Inv index) : f.Accounted index where
  inOrder := h.inOrder
  known := h.known
  counted := h.counted
  played := h.played
  repeated := h.repeated
  noneSkipped s hs e he hlt := by
    obtain ⟨hkept, -, hheld⟩ := h.streams s hs
    have hnumber : e.1 ∈ s.payloadBuffer.map Prod.fst := List.mem_map_of_mem he
    rw [hkept.numbers, List.mem_range'_1] at hnumber
    exact hheld e.1 hnumber.1 hlt

theorem inv_start (maxFrames : Option ℕ) (maxBytes : ℕ) (initial : σ) (wallMs : ℕ) :
    (start clock maxFrames maxBytes initial wallMs).Inv index where
  inOrder := List.Pairwise.nil
  known k hk := by cases hk
  counted := rfl
  played := List.Sublist.refl _
  repeated := rfl
  taken := rfl
  streams s hs := by cases hs
  unseen _ := rfl

variable (slotBytes grow codec clock index)

def run (f : Following σ) (events : List AudioEvent) : Following σ :=
  events.foldl (step slotBytes grow codec clock index) f

def NeverCleared (f : Following σ) : List AudioEvent → Prop
  | [] => True
  | e :: events =>
    f.Uncleared index e ∧ NeverCleared (f.step slotBytes grow codec clock index e) events

variable {slotBytes grow codec clock index}

theorem Inv.run (h : f.Inv index) {events : List AudioEvent}
    (hclear : NeverCleared slotBytes grow codec clock index f events) :
    (run slotBytes grow codec clock index f events).Inv index := by
  induction events generalizing f with
  | nil => exact h
  | cons e events ih => exact ih (h.step hclear.1) hclear.2

/-- In whatever order frames arrive, are dropped by the cap, released for the budget or after an
export, and looked at: while no audio of the stream is cleared, each frame is handed over once and
in order, or counted as missed once. -/
theorem live_accounted (maxFrames : Option ℕ) (maxBytes : ℕ) (initial : σ) (wallMs : ℕ)
    (events : List AudioEvent)
    (hclear : NeverCleared slotBytes grow codec clock index
      (start clock maxFrames maxBytes initial wallMs) events) :
    (run slotBytes grow codec clock index (start clock maxFrames maxBytes initial wallMs)
      events).Accounted index :=
  ((inv_start maxFrames maxBytes initial wallMs).run hclear).accounted

def ulawToPcm (sample : UInt8) : BitVec 16 :=
  let u := 255 - sample.toNat
  let magnitude := (u % 16 * 8 + 132) * 2 ^ (u / 16 % 8) - 132
  if 128 ≤ u then -BitVec.ofNat 16 magnitude else BitVec.ofNat 16 magnitude

def pcmu : FrameDecoder Unit where
  rate clock := clock
  decode _ payload := ((), some (payload.map ulawToPcm))
  fill _ samples _ := ((), List.replicate samples 0)

def doubled (capacity length : ℕ) : ℕ := if length < capacity then capacity else max 4 (2 * capacity)

/-- The frames of a quiet stream, twenty milliseconds each. -/
def quiet (n : ℕ) : RetainedFrame :=
  ⟨BitVec.ofNat 32 (160 * n), BitVec.ofNat 16 n, List.replicate 160 0xff⟩

def quietRun : List AudioEvent → Following Unit :=
  run 32 doubled pcmu 8000 0 (start 8000 (some 2) 100000 () 0)

/-- The cap of two frames drops the second before it is looked at. -/
theorem live_accounted_capped :
    (quietRun [.opened none false, .retained 0 (quiet 0), .look 20, .retained 0 (quiet 1),
      .retained 0 (quiet 2), .retained 0 (quiet 3), .look 80]).Accounted 0 ∧
    (quietRun [.opened none false, .retained 0 (quiet 0), .look 20, .retained 0 (quiet 1),
      .retained 0 (quiet 2), .retained 0 (quiet 3), .look 80]).reader.handed = [0, 2, 3] := by
  refine ⟨live_accounted (some 2) 100000 () 0 _ ?_, by decide +kernel⟩
  simp only [NeverCleared, Uncleared, and_self]

/-- Two frames are taken as plain audio, the stream is learnt to be encrypted, and the first frame
that is decrypted is passed over: it has the place of one that was cleared. -/
theorem not_accounted_cleared :
    ¬(quietRun [.opened none false, .packet 0 false, .retained 0 (quiet 0), .packet 0 false,
      .retained 0 (quiet 1), .look 40, .encrypted [0], .packet 0 true, .retained 0 (quiet 2),
      .look 60]).Accounted 0 := by
  intro h
  have hcounted := h.counted
  revert hcounted
  decide +kernel

end Following

end Sipnab
