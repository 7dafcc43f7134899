import Sipnab.Rtp.RetainedAudio

/-!
# Which frame the budget releases

The search for the oldest stream with audio resumes at a cursor that only moves forward. It passes
empty buffers only, so that it finds the oldest stream as long as no stream behind it holds audio
again. A stream that was emptied and then retains a frame is such a stream: the cursor is past it,
and the budget takes the frames of younger streams before that one.
-/

namespace Sipnab

open AudioPlacement List Option

namespace AudioStore

variable {slotBytes : ℕ} {grow : ℕ → ℕ → ℕ} {st st' : AudioStore} {s : AudioStream} {index : ℕ}

def EmptyBefore (st : AudioStore) (place : ℕ) : Prop :=
  ∀ j < place, ∀ t, st.streams[j]? = some t → t.payloadBuffer = []

/-- A release took the earliest frame of the oldest stream that held any. -/
def TakesOldest (st st' : AudioStore) : Prop :=
  ∃ i s, st.streams[i]? = some s ∧ s.payloadBuffer ≠ [] ∧ st.EmptyBefore i ∧
    st'.streams = st.streams.set i s.releaseOldest

/-- The cursor stands among the streams or behind them, and nothing is held before it. -/
structure CursorTrue (st : AudioStore) : Prop where
  le : st.audioReleaseCursor ≤ st.streams.length
  empty : st.EmptyBefore st.audioReleaseCursor

theorem EmptyBefore.mono {i j : ℕ} (h : st.EmptyBefore j) (hij : i ≤ j) : st.EmptyBefore i :=
  fun k hk => h k (hk.trans_le hij)

theorem emptyBefore_releaseStart (h : st.EmptyBefore st.audioReleaseCursor) :
    st.EmptyBefore st.releaseStart := by
  refine h.mono ?_
  rw [releaseStart]
  split_ifs <;> omega

/-- The search, step by step: it takes a frame where it stands or moves on from an empty buffer. -/
theorem releaseFrom_succ (slotBytes fuel : ℕ) (st : AudioStore) :
    (st.streams[st.releaseStart]? = none ∧ st.releaseFrom slotBytes (fuel + 1)
        = (false, { st with audioReleaseCursor := st.releaseStart }))
      ∨ (∃ s, st.streams[st.releaseStart]? = some s ∧ s.payloadBuffer = [] ∧
        st.releaseFrom slotBytes (fuel + 1)
          = releaseFrom slotBytes { st with audioReleaseCursor := st.releaseStart + 1 } fuel)
      ∨ ∃ s st', st.streams[st.releaseStart]? = some s ∧ s.payloadBuffer ≠ [] ∧
        st.releaseFrom slotBytes (fuel + 1) = (true, st') ∧
        st'.streams = st.streams.set st.releaseStart s.releaseOldest ∧
        st'.audioReleaseCursor = st.releaseStart := by
  cases hs : st.streams[st.releaseStart]? with
  | none =>
    refine .inl ⟨rfl, ?_⟩
    rw [releaseFrom]
    simp only [releaseStart] at hs ⊢
    rw [hs]
  | some s =>
    refine .inr ?_
    cases hbuffer : s.payloadBuffer with
    | nil =>
      refine .inl ⟨s, rfl, hbuffer, ?_⟩
      rw [releaseFrom]
      simp only [releaseStart] at hs ⊢
      simp only [hs, hbuffer]
    | cons old rest =>
      refine .inr ⟨s, { st with
        streams := st.streams.set st.releaseStart s.releaseOldest
        audioBytesRetained := st.audioBytesRetained - (audioPayloadCharge old.2.payload.length +
          if rest.isEmpty then s.capacity * slotBytes else 0)
        audioReleaseCursor := st.releaseStart }, rfl, by simp [hbuffer], ?_, rfl, rfl⟩
      rw [releaseFrom]
      simp only [releaseStart] at hs ⊢
      simp only [hs, hbuffer]

theorem releaseStart_lt (hs : st.streams[st.releaseStart]? = some s) :
    st.releaseStart < st.streams.length := (List.getElem?_eq_some_iff.mp hs).1

theorem releaseFrom_of_cursorTrue (h : st.CursorTrue) (slotBytes fuel : ℕ) :
    (st.releaseFrom slotBytes fuel).2.CursorTrue ∧
      ((st.releaseFrom slotBytes fuel).1 = true →
        st.TakesOldest (st.releaseFrom slotBytes fuel).2) := by
  induction fuel generalizing st with
  | zero => exact ⟨h, fun hfalse => (by cases hfalse)⟩
  | succ fuel ih =>
    have hstart := emptyBefore_releaseStart h.empty
    rcases releaseFrom_succ slotBytes fuel st with
      ⟨hnone, heq⟩ | ⟨s, hs, hbuffer, heq⟩ | ⟨s, st', hs, hbuffer, heq, hstreams, hcursor⟩
    · rw [heq]
      refine ⟨⟨?_, hstart⟩, fun hfalse => (by cases hfalse)⟩
      change st.releaseStart ≤ st.streams.length
      rw [releaseStart]
      split_ifs <;> omega
    · rw [heq]
      have hnext : CursorTrue { st with audioReleaseCursor := st.releaseStart + 1 } := by
        refine ⟨releaseStart_lt hs, fun j hj t ht => ?_⟩
        rcases Nat.lt_succ_iff_lt_or_eq.mp hj with hlt | rfl
        · exact hstart j hlt t ht
        · rw [← some.inj (hs.symm.trans ht)]
          exact hbuffer
      exact ih hnext
    · rw [heq]
      refine ⟨⟨?_, ?_⟩, fun _ => ⟨_, s, hs, hbuffer, hstart, hstreams⟩⟩
      · rw [hcursor, hstreams, length_set]
        exact (releaseStart_lt hs).le
      · intro j hj t ht
        rw [hcursor] at hj
        rw [hstreams, List.getElem?_set_ne hj.ne'] at ht
        exact hstart j hj t ht

def BudgetStep (slotBytes : ℕ) (st st' : AudioStore) : Prop :=
  st.maxAudioBytes < st.audioBytesRetained ∧ st.releaseOldestFrame slotBytes = (true, st')

def Releases (slotBytes : ℕ) (st before after : AudioStore) : Prop :=
  Relation.ReflTransGen (BudgetStep slotBytes) st before ∧ BudgetStep slotBytes before after

theorem BudgetStep.cursorTrue (h : st.CursorTrue) (hstep : BudgetStep slotBytes st st') :
    st'.CursorTrue ∧ st.TakesOldest st' := by
  obtain ⟨htrue, htakes⟩ := releaseFrom_of_cursorTrue h slotBytes (st.streams.length + 1)
  have heq : st.releaseFrom slotBytes (st.streams.length + 1) = (true, st') := hstep.2
  rw [heq] at htrue htakes
  exact ⟨htrue, htakes rfl⟩

theorem cursorTrue_of_reach (h : st.CursorTrue)
    (hreach : Relation.ReflTransGen (BudgetStep slotBytes) st st') : st'.CursorTrue := by
  induction hreach with
  | refl => exact h
  | tail _ hstep ih => exact (hstep.cursorTrue ih).1

theorem takesOldest_of_releases {before after : AudioStore} (h : st.CursorTrue)
    (hreleases : Releases slotBytes st before after) : before.TakesOldest after :=
  (hreleases.2.cursorTrue (cursorTrue_of_reach h hreleases.1)).2

theorem keepBudget_reaches (slotBytes fuel : ℕ) (st : AudioStore) :
    ∃ last, Relation.ReflTransGen (BudgetStep slotBytes) st last ∧
      (st.keepBudget slotBytes fuel = last
        ∨ last.releaseOldestFrame slotBytes = (false, st.keepBudget slotBytes fuel)) := by
  induction fuel generalizing st with
  | zero => exact ⟨st, .refl, .inl rfl⟩
  | succ fuel ih =>
    rw [keepBudget]
    split_ifs with hover
    · cases hrelease : st.releaseOldestFrame slotBytes with
      | mk found next =>
        cases found with
        | true =>
          obtain ⟨last, hreach, hlast⟩ := ih next
          exact ⟨last, .head ⟨hover, hrelease⟩ hreach, hlast⟩
        | false => exact ⟨st, .refl, .inr hrelease⟩
    · exact ⟨st, .refl, .inl rfl⟩

theorem retainPayload_eq (hs : st.streams[index]? = some s) (frame : RetainedFrame) :
    st.retainPayload slotBytes grow index frame
      = (st.pushed slotBytes grow index frame).keepBudget slotBytes
          (st.pushed slotBytes grow index frame).framesHeld := by
  rw [retainPayload, hs]

theorem cursorTrue_keepBudget (h : st.CursorTrue) (slotBytes fuel : ℕ) :
    (st.keepBudget slotBytes fuel).CursorTrue := by
  obtain ⟨last, hreach, heq | hnone⟩ := keepBudget_reaches slotBytes fuel st
  · rw [heq]
    exact cursorTrue_of_reach h hreach
  · have htrue := (releaseFrom_of_cursorTrue (cursorTrue_of_reach h hreach) slotBytes
      (last.streams.length + 1)).1
    have heq : last.releaseFrom slotBytes (last.streams.length + 1)
        = (false, st.keepBudget slotBytes fuel) := hnone
    rw [heq] at htrue
    exact htrue

theorem CursorTrue.pushed (h : st.CursorTrue) (hindex : st.audioReleaseCursor ≤ index)
    (frame : RetainedFrame) : (st.pushed slotBytes grow index frame).CursorTrue := by
  rw [AudioStore.pushed]
  split
  · exact h
  · dsimp only
    refine ⟨?_, fun j hj t ht => ?_⟩
    · rw [length_set]
      exact h.le
    · rw [List.getElem?_set_ne (show index ≠ j by have := hj.trans_le hindex; omega)] at ht
      exact h.empty j hj t ht

theorem CursorTrue.retainPayload (h : st.CursorTrue) (hindex : st.audioReleaseCursor ≤ index)
    (frame : RetainedFrame) : (st.retainPayload slotBytes grow index frame).CursorTrue := by
  cases hs : st.streams[index]? with
  | none =>
    rw [AudioStore.retainPayload, hs]
    exact h
  | some s =>
    rw [retainPayload_eq hs]
    exact cursorTrue_keepBudget (h.pushed hindex frame) _ _

/-! ## The other operations -/

theorem CursorTrue.emptier (h : st.CursorTrue) (hlength : st.streams.length ≤ st'.streams.length)
    (hcursor : st'.audioReleaseCursor = st.audioReleaseCursor)
    (hstreams : ∀ j < st.streams.length, ∀ t', st'.streams[j]? = some t' →
      ∃ t, st.streams[j]? = some t ∧ (t.payloadBuffer = [] → t'.payloadBuffer = [])) :
    st'.CursorTrue where
  le := hcursor ▸ h.le.trans hlength
  empty := by
    intro j hj t' ht'
    rw [hcursor] at hj
    obtain ⟨t, ht, hempty⟩ := hstreams j (hj.trans_le h.le) t' ht'
    exact hempty (h.empty j hj t ht)

theorem payloadBuffer_noteProtection (s : AudioStream) (decrypted : Bool) :
    (s.noteProtection decrypted).1.payloadBuffer = s.payloadBuffer := by
  unfold AudioStream.noteProtection
  dsimp only
  split_ifs
  all_goals rfl

theorem payloadBuffer_protect (h : s.payloadBuffer = []) : s.protect.payloadBuffer = [] := by
  unfold AudioStream.protect
  dsimp only
  split_ifs
  · exact h
  · rfl
  · exact h

section

variable (h : st.CursorTrue)
include h

theorem CursorTrue.noteProtection (index : ℕ) (decrypted : Bool) :
    CursorTrue { st with
      streams := st.streams.modify index (fun s => (s.noteProtection decrypted).1) } := by
  refine h.emptier (by simp) rfl (fun j _ t' ht' => ?_)
  simp only [List.getElem?_modify] at ht'
  obtain ⟨t, ht, rfl⟩ := map_eq_some_iff.mp ht'
  refine ⟨t, ht, fun hempty => ?_⟩
  split_ifs
  · rw [payloadBuffer_noteProtection, hempty]
  · exact hempty

theorem CursorTrue.rememberMediaProtection (indices : List ℕ) :
    (st.rememberMediaProtection slotBytes indices).CursorTrue := by
  induction indices generalizing st with
  | nil => exact h
  | cons index rest ih =>
    rw [AudioStore.rememberMediaProtection]
    split
    · exact ih h
    · rename_i s hs
      refine ih (h.emptier (by simp) rfl (fun j _ t' ht' => ?_))
      by_cases hj : index = j
      · subst hj
        have hlt := (List.getElem?_eq_some_iff.mp hs).1
        rw [List.getElem?_set_self hlt] at ht'
        exact ⟨s, hs, fun hempty => some.inj ht' ▸ payloadBuffer_protect hempty⟩
      · rw [List.getElem?_set_ne hj] at ht'
        exact ⟨t', ht', id⟩

theorem CursorTrue.releaseAudioFor (callId : List Char) :
    (st.releaseAudioFor slotBytes callId).CursorTrue := by
  refine h.emptier (by simp [AudioStore.releaseAudioFor]) rfl (fun j _ t' ht' => ?_)
  simp only [AudioStore.releaseAudioFor, List.getElem?_map] at ht'
  obtain ⟨t, ht, rfl⟩ := map_eq_some_iff.mp ht'
  refine ⟨t, ht, fun hempty => ?_⟩
  split_ifs
  · rfl
  · exact hempty

theorem CursorTrue.evict (slotBytes batch : ℕ) :
    (st.evict slotBytes batch).CursorTrue where
  le := by
    rw [AudioStore.evict, length_drop]
    exact Nat.sub_le_sub_right h.le batch
  empty := by
    intro j hj t ht
    simp only [AudioStore.evict, List.getElem?_drop] at hj ht
    exact h.empty (batch + j) (by omega) t ht

theorem CursorTrue.append (hstreams : st.streams <+: st'.streams)
    (hcursor : st'.audioReleaseCursor = st.audioReleaseCursor) : st'.CursorTrue := by
  refine h.emptier hstreams.length_le hcursor (fun j hj t' ht' => ?_)
  obtain ⟨added, hadded⟩ := hstreams
  rw [← hadded, List.getElem?_append_left hj] at ht'
  exact ⟨t', ht', id⟩

end

end AudioStore

namespace MediaStore

variable {slotBytes : ℕ} {grow : ℕ → ℕ → ℕ} {settings : StreamSettings} {g729 : Bool}
  {m : MediaStore} {key : StreamKey}

/-! ## Where a packet retains its frame -/

def recordTarget (m : MediaStore) (p : MediaPacket) : MediaStore × StreamKey :=
  let key := m.store.liveKey
    { ssrc := p.packet.header.ssrc, src := p.packet.src, dst := p.packet.dst }
  match m.store.streams.get? key with
  | some stream =>
    if m.store.callChanged stream key then
      let key := { key with session := key.session + 1 }
      ({ m with store.liveSessions := m.store.liveSessions.insert key.flow key.session }, key)
    else (m, key)
  | none => (m, key)

theorem recordRtp_eq (slotBytes : ℕ) (grow : ℕ → ℕ → ℕ) (settings : StreamSettings) (g729 : Bool)
    (m : MediaStore) (p : MediaPacket) (decrypted : Bool) :
    m.recordRtp slotBytes grow settings g729 p decrypted
      = (m.recordTarget p).1.recordUnder slotBytes grow settings g729 (m.recordTarget p).2 p
          decrypted := by
  unfold recordRtp recordTarget
  dsimp only
  generalize m.store.liveKey
    { ssrc := p.packet.header.ssrc, src := p.packet.src, dst := p.packet.dst } = key
  cases m.store.streams.get? key with
  | none => rfl
  | some stream =>
    dsimp only
    by_cases hchanged : m.store.callChanged stream key = true
    · rw [if_pos hchanged, if_pos hchanged]
    · rw [if_neg hchanged, if_neg hchanged]

theorem recordTarget_spec (m : MediaStore) (p : MediaPacket) :
    (m.recordTarget p).1.audio = m.audio
      ∧ (m.recordTarget p).1.store.streams = m.store.streams := by
  unfold recordTarget
  dsimp only
  split
  · split_ifs <;> exact ⟨rfl, rfl⟩
  · exact ⟨rfl, rfl⟩

/-- The audio before the frame of a packet is retained, and the place of its stream. -/
def retentionPoint (slotBytes : ℕ) (settings : StreamSettings) (m : MediaStore) (key : StreamKey)
    (p : MediaPacket) (decrypted : Bool) : AudioStore × ℕ :=
  match m.store.streams.get? key with
  | some _ =>
    ({ m.audio with
        streams := m.audio.streams.modify (m.indexOf key)
          (fun s => (s.noteProtection decrypted).1) }, m.indexOf key)
  | none =>
    let batch := if m.store.maxStreams ≤ m.store.streams.length ∧ m.store.streams.length ≠ 0 then
        StreamStore.evictionBatch m.store.maxStreams m.store.streams.length else 0
    let stream := m.store.ensureCapacity.startStream settings key p.packet
    let audio := m.audio.evict slotBytes batch
    let started := (AudioStream.new (stream.associatedDialog.map String.toList)
      (m.startsProtected key stream.firstSeen)).noteProtection decrypted
    ({ audio with streams := audio.streams ++ [started.1] }, audio.streams.length)

theorem retainAt_audio (m : MediaStore) (index : ℕ) (p : MediaPacket) (capturable : Bool) :
    (m.retainAt slotBytes grow index p capturable).1.audio
      = if (m.retainAt slotBytes grow index p capturable).2
        then m.audio.retainPayload slotBytes grow index p.frame else m.audio := by
  unfold retainAt
  by_cases hkeep : (capturable && !p.payload.isEmpty) = true
  · rw [if_pos hkeep]
    rfl
  · rw [if_neg hkeep]
    rfl

theorem recordUnder_audio (slotBytes : ℕ) (grow : ℕ → ℕ → ℕ) (settings : StreamSettings)
    (g729 : Bool) (m : MediaStore) (key : StreamKey) (p : MediaPacket) (decrypted : Bool) :
    (m.recordUnder slotBytes grow settings g729 key p decrypted).1.audio
      = if (m.recordUnder slotBytes grow settings g729 key p decrypted).2
        then (m.retentionPoint slotBytes settings key p decrypted).1.retainPayload slotBytes grow
          (m.retentionPoint slotBytes settings key p decrypted).2 p.frame
        else (m.retentionPoint slotBytes settings key p decrypted).1 := by
  unfold recordUnder retentionPoint
  cases m.store.streams.get? key with
  | some stream => exact retainAt_audio _ _ _ _
  | none => exact retainAt_audio _ _ _ _

/-- The stream of a packet whose frame is retained does not stand before the cursor. -/
def BehindCursor (slotBytes : ℕ) (grow : ℕ → ℕ → ℕ) (settings : StreamSettings) (g729 : Bool)
    (m : MediaStore) (p : MediaPacket) (decrypted : Bool) : Prop :=
  (m.recordRtp slotBytes grow settings g729 p decrypted).2 = true →
    (m.recordTarget p).2 ∈ m.store.streams.keys →
      m.audio.audioReleaseCursor ≤ m.indexOf (m.recordTarget p).2

section

variable (h : m.audio.CursorTrue)
include h

theorem cursorTrue_retentionPoint
    (hindex : key ∈ m.store.streams.keys → m.audio.audioReleaseCursor ≤ m.indexOf key)
    (p : MediaPacket) (decrypted : Bool) :
    (m.retentionPoint slotBytes settings key p decrypted).1.CursorTrue
      ∧ (m.retentionPoint slotBytes settings key p decrypted).1.audioReleaseCursor
        ≤ (m.retentionPoint slotBytes settings key p decrypted).2 := by
  unfold retentionPoint
  cases hstream : m.store.streams.get? key with
  | some stream =>
    have hmem : key ∈ m.store.streams.keys :=
      IndexMap.mem_keys_of_mem_entries (IndexMap.get?_eq_some_iff.mp hstream)
    exact ⟨h.noteProtection _ decrypted, hindex hmem⟩
  | none =>
    have hevict := h.evict slotBytes (if m.store.maxStreams ≤ m.store.streams.length ∧
      m.store.streams.length ≠ 0 then
        StreamStore.evictionBatch m.store.maxStreams m.store.streams.length else 0)
    exact ⟨hevict.append (prefix_append _ _) rfl, hevict.le⟩

theorem cursorTrue_targetPoint {p : MediaPacket}
    (hindex : (m.recordTarget p).2 ∈ m.store.streams.keys →
      m.audio.audioReleaseCursor ≤ m.indexOf (m.recordTarget p).2)
    (decrypted : Bool) :
    ((m.recordTarget p).1.retentionPoint slotBytes settings (m.recordTarget p).2 p
        decrypted).1.CursorTrue
      ∧ ((m.recordTarget p).1.retentionPoint slotBytes settings (m.recordTarget p).2 p
          decrypted).1.audioReleaseCursor
        ≤ ((m.recordTarget p).1.retentionPoint slotBytes settings (m.recordTarget p).2 p
          decrypted).2 := by
  obtain ⟨haudio, hstreams⟩ := recordTarget_spec m p
  apply cursorTrue_retentionPoint
  · rw [haudio]
    exact h
  · rw [haudio, hstreams, indexOf, hstreams]
    exact hindex

theorem cursorTrue_unretained (key : StreamKey) (p : MediaPacket) (decrypted : Bool) :
    (m.retentionPoint slotBytes settings key p decrypted).1.CursorTrue := by
  unfold retentionPoint
  cases m.store.streams.get? key with
  | some stream => exact h.noteProtection _ decrypted
  | none => exact (h.evict _ _).append (prefix_append _ _) rfl

theorem cursorTrue_recordRtp {p : MediaPacket} {decrypted : Bool}
    (hbehind : m.BehindCursor slotBytes grow settings g729 p decrypted) :
    (m.recordRtp slotBytes grow settings g729 p decrypted).1.audio.CursorTrue := by
  unfold BehindCursor at hbehind
  rw [recordRtp_eq] at hbehind ⊢
  rw [recordUnder_audio]
  split_ifs with hretained
  · obtain ⟨htrue, hle⟩ := cursorTrue_targetPoint h (hbehind hretained) decrypted
    exact htrue.retainPayload hle p.frame
  · refine cursorTrue_unretained ?_ _ p decrypted
    rw [(recordTarget_spec m p).1]
    exact h

/-! ## Whole runs -/

theorem cursorTrue_refresh (haligned : m.audio.streams.length = m.store.streams.length) :
    m.refresh.audio.CursorTrue := by
  have hvalues : m.store.streams.values.length = m.store.streams.length := length_map ..
  refine h.emptier ?_ rfl (fun j hj t' ht' => ?_)
  · simp [refresh, hvalues, haligned]
  · simp only [refresh, List.getElem?_zipWith] at ht'
    rw [List.getElem?_eq_getElem hj] at ht'
    refine ⟨_, List.getElem?_eq_getElem hj, fun hempty => ?_⟩
    cases hv : m.store.streams.values[j]? with
    | none =>
      rw [hv] at ht'
      cases ht'
    | some v =>
      rw [hv] at ht'
      rw [← some.inj ht']
      exact hempty

theorem cursorTrue_linkEndpointFrom (hinv : m.Inv slotBytes) (link : SdpLink) :
    (m.linkEndpointFrom link).audio.CursorTrue :=
  cursorTrue_refresh h (hinv.aligned.trans (length_streams_linkEndpointFrom m.store link).symm)

theorem cursorTrue_rememberMediaProtection (socket : SocketAddr) (srtp : Bool) :
    (m.rememberMediaProtection slotBytes socket srtp).audio.CursorTrue := by
  unfold MediaStore.rememberMediaProtection
  dsimp only
  split_ifs with hplain hknown
  · exact h
  all_goals
    split
    · exact h
    · exact h.rememberMediaProtection _

theorem cursorTrue_reassociateAll (hinv : m.Inv slotBytes) :
    (m.reassociateAll slotBytes).audio.CursorTrue := by
  unfold MediaStore.reassociateAll
  generalize m.store.sdpEndpoints.entries.map (fun e => (e, m.srtpSockets.contains e.1)) = links
  induction links generalizing m with
  | nil => exact h
  | cons link links ih =>
    refine ih ?_ ((hinv.linkEndpointFrom _).rememberMediaProtection _ _)
    exact cursorTrue_rememberMediaProtection (cursorTrue_linkEndpointFrom h hinv _) _ _

end

inductive Quiet (slotBytes : ℕ) (grow : ℕ → ℕ → ℕ) (settings : StreamSettings) (g729 : Bool)
    (m : MediaStore) : MediaStore → Prop
  | setAudioCapture (enabled : Bool) :
    Quiet slotBytes grow settings g729 m { m with audioCapture := enabled }
  | setAudioLimits (maxFrames : Option ℕ) (maxBytes : ℕ) :
    Quiet slotBytes grow settings g729 m
      { m with audio.maxAudioFrames := maxFrames, audio.maxAudioBytes := maxBytes }
  | linkEndpointFrom (link : SdpLink) :
    Quiet slotBytes grow settings g729 m (m.linkEndpointFrom link)
  | linkToDialogWithSdpFrom (socket : SocketAddr) (callId : String) (media : MediaDescription)
    (provenance : SdpProvenance) (srtp : Bool) : Quiet slotBytes grow settings g729 m
      (m.linkToDialogWithSdpFrom slotBytes socket callId media provenance srtp)
  | rememberMediaProtection (socket : SocketAddr) (srtp : Bool) :
    Quiet slotBytes grow settings g729 m (m.rememberMediaProtection slotBytes socket srtp)
  | releaseAudioFor (callId : String) :
    Quiet slotBytes grow settings g729 m (m.releaseAudioFor slotBytes callId)
  | merge (other : MediaStore) (hother : Reachable slotBytes grow settings g729 other) :
    Quiet slotBytes grow settings g729 m (m.merge slotBytes other)
  | reassociateAll : Quiet slotBytes grow settings g729 m (m.reassociateAll slotBytes)
  | sortStreamsByKey {κ : Type} [LinearOrder κ] (rank : RtpStream × AudioStream → κ) :
    Quiet slotBytes grow settings g729 m (m.sortStreamsByKey rank)
  | clear : Quiet slotBytes grow settings g729 m m.clear

/-- The runs in which no frame is retained on a stream that stands before the cursor. -/
inductive Orderly (slotBytes : ℕ) (grow : ℕ → ℕ → ℕ) (settings : StreamSettings) (g729 : Bool) :
    MediaStore → Prop
  | new (maxStreams : ℕ) (audioCapture : Bool) (maxAudioFrames : Option ℕ) (maxAudioBytes : ℕ) :
    Orderly slotBytes grow settings g729 (.new maxStreams audioCapture maxAudioFrames maxAudioBytes)
  | quiet {m m' : MediaStore} (h : Orderly slotBytes grow settings g729 m)
    (hstep : Quiet slotBytes grow settings g729 m m') : Orderly slotBytes grow settings g729 m'
  | packet {m : MediaStore} (h : Orderly slotBytes grow settings g729 m) (p : MediaPacket)
    (decrypted : Bool) (hbehind : m.BehindCursor slotBytes grow settings g729 p decrypted) :
    Orderly slotBytes grow settings g729 (m.recordRtp slotBytes grow settings g729 p decrypted).1

variable {m' : MediaStore}

theorem Quiet.reachable (h : Reachable slotBytes grow settings g729 m)
    (hstep : Quiet slotBytes grow settings g729 m m') :
    Reachable slotBytes grow settings g729 m' := by
  cases hstep with
  | setAudioCapture enabled => exact .setAudioCapture enabled h
  | setAudioLimits maxFrames maxBytes => exact .setAudioLimits maxFrames maxBytes h
  | linkEndpointFrom link => exact .linkEndpointFrom link h
  | linkToDialogWithSdpFrom socket callId media provenance srtp =>
    exact .linkToDialogWithSdpFrom socket callId media provenance srtp h
  | rememberMediaProtection socket srtp => exact .rememberMediaProtection socket srtp h
  | releaseAudioFor callId => exact .releaseAudioFor callId h
  | merge other hother => exact .merge h hother
  | reassociateAll => exact .reassociateAll h
  | sortStreamsByKey rank => exact .sortStreamsByKey rank h
  | clear => exact .clear h

theorem Orderly.reachable (h : Orderly slotBytes grow settings g729 m) :
    Reachable slotBytes grow settings g729 m := by
  induction h with
  | new maxStreams audioCapture maxAudioFrames maxAudioBytes => exact .new _ _ _ _
  | quiet _ hstep ih => exact hstep.reachable ih
  | packet _ p decrypted _ ih =>
    cases decrypted with
    | false => exact .processRtp p ih
    | true => exact .processDecryptedRtp p ih

theorem Quiet.cursorTrue (h : m.audio.CursorTrue) (hinv : m.Inv slotBytes)
    (hstep : Quiet slotBytes grow settings g729 m m') : m'.audio.CursorTrue := by
  cases hstep with
  | setAudioCapture enabled => exact h
  | setAudioLimits maxFrames maxBytes => exact ⟨h.le, h.empty⟩
  | linkEndpointFrom link => exact cursorTrue_linkEndpointFrom h hinv link
  | linkToDialogWithSdpFrom socket callId media provenance srtp =>
    exact cursorTrue_rememberMediaProtection (cursorTrue_linkEndpointFrom h hinv _) socket srtp
  | rememberMediaProtection socket srtp =>
    exact cursorTrue_rememberMediaProtection h socket srtp
  | releaseAudioFor callId => exact h.releaseAudioFor _
  | merge other hother => exact h.append (prefix_append _ _) rfl
  | reassociateAll => exact cursorTrue_reassociateAll h hinv
  | sortStreamsByKey rank =>
    exact ⟨Nat.zero_le _, fun j hj => absurd hj (Nat.not_lt_zero j)⟩
  | clear => exact ⟨Nat.zero_le _, fun j hj => absurd hj (Nat.not_lt_zero j)⟩

theorem Orderly.cursorTrue (hgrow : ∀ capacity length, capacity ≤ grow capacity length)
    (h : Orderly slotBytes grow settings g729 m) : m.audio.CursorTrue := by
  induction h with
  | new maxStreams audioCapture maxAudioFrames maxAudioBytes =>
    exact ⟨Nat.zero_le _, fun j hj => absurd hj (Nat.not_lt_zero j)⟩
  | quiet h hstep ih => exact hstep.cursorTrue ih (h.reachable.inv hgrow)
  | packet _ p decrypted hbehind ih => exact cursorTrue_recordRtp ih hbehind

def Releases (slotBytes : ℕ) (grow : ℕ → ℕ → ℕ) (settings : StreamSettings) (g729 : Bool)
    (m : MediaStore) (p : MediaPacket) (decrypted : Bool) (before after : AudioStore) : Prop :=
  (m.recordRtp slotBytes grow settings g729 p decrypted).2 = true ∧
    let point := (m.recordTarget p).1.retentionPoint slotBytes settings (m.recordTarget p).2 p
      decrypted
    AudioStore.Releases slotBytes (point.1.pushed slotBytes grow point.2 p.frame) before after

/-- In every run in which no frame is retained on a stream that stands before the release cursor,
each frame that the budget releases is the earliest one of the oldest stream that holds any. -/
theorem budget_releases_oldest_of_orderly
    (hgrow : ∀ capacity length, capacity ≤ grow capacity length)
    (h : Orderly slotBytes grow settings g729 m) {p : MediaPacket} {decrypted : Bool}
    (hbehind : m.BehindCursor slotBytes grow settings g729 p decrypted) {before after : AudioStore}
    (hreleases : m.Releases slotBytes grow settings g729 p decrypted before after) :
    before.TakesOldest after := by
  obtain ⟨hretained, hreleases⟩ := hreleases
  obtain ⟨htrue, hle⟩ := cursorTrue_targetPoint (h.cursorTrue hgrow) (hbehind hretained) decrypted
  exact AudioStore.takesOldest_of_releases (htrue.pushed hle p.frame) hreleases

/-! ### A stream that resumes -/

def pushedBy (m : MediaStore) (p : MediaPacket) : AudioStore :=
  let point := (m.recordTarget p).1.retentionPoint 32 {} (m.recordTarget p).2 p false
  point.1.pushed 32 doubling point.2 p.frame

theorem releases_pushedBy {m : MediaStore} {p : MediaPacket}
    (hretained : (m.recordRtp 32 doubling {} false p false).2 = true)
    (hover : (m.pushedBy p).maxAudioBytes < (m.pushedBy p).audioBytesRetained)
    (hfound : ((m.pushedBy p).releaseOldestFrame 32).1 = true) :
    m.Releases 32 doubling {} false p false (m.pushedBy p)
      ((m.pushedBy p).releaseOldestFrame 32).2 :=
  ⟨hretained, .refl, hover, Prod.ext hfound rfl⟩

def tightHeld : MediaStore := (new 100 true none 200).processRtp 32 doubling {} false (pcmuPacket 1)

theorem orderly_tightHeld : Orderly 32 doubling {} false tightHeld :=
  .packet (.new 100 true none 200) (pcmuPacket 1) false (fun _ _ => Nat.zero_le _)

theorem budget_releases_oldest_of_second_stream :
    ∃ before after, tightHeld.Releases 32 doubling {} false (pcmuPacket 2) false before after ∧
      before.TakesOldest after := by
  have hfacts : (tightHeld.recordRtp 32 doubling {} false (pcmuPacket 2) false).2 = true ∧
      (tightHeld.pushedBy (pcmuPacket 2)).maxAudioBytes
        < (tightHeld.pushedBy (pcmuPacket 2)).audioBytesRetained ∧
      ((tightHeld.pushedBy (pcmuPacket 2)).releaseOldestFrame 32).1 = true ∧
      tightHeld.audio.audioReleaseCursor = 0 := by
    decide +kernel
  obtain ⟨hretained, hover, hfound, hcursor⟩ := hfacts
  refine ⟨_, _, releases_pushedBy hretained hover hfound, ?_⟩
  refine budget_releases_oldest_of_orderly le_doubling orderly_tightHeld (fun _ _ => ?_)
    (releases_pushedBy hretained hover hfound)
  rw [hcursor]
  exact Nat.zero_le _

/-- The second stream takes the place of the first, and a frame of its own goes: the cursor is past
the first one. -/
def cursorMoved : MediaStore :=
  (tightHeld.processRtp 32 doubling {} false (pcmuPacket 2)).processRtp 32 doubling {} false
    (pcmuPacket 2)

/-- The first stream resumes. It is the oldest and holds a frame, and the budget releases the one of
the second stream. -/
theorem younger_stream_released_first :
    Reachable 32 doubling {} false cursorMoved ∧
      ∃ before after, cursorMoved.Releases 32 doubling {} false (pcmuPacket 1) false before after ∧
        ¬ before.TakesOldest after := by
  have hfacts : (cursorMoved.recordRtp 32 doubling {} false (pcmuPacket 1) false).2 = true ∧
      (cursorMoved.pushedBy (pcmuPacket 1)).maxAudioBytes
        < (cursorMoved.pushedBy (pcmuPacket 1)).audioBytesRetained ∧
      ((cursorMoved.pushedBy (pcmuPacket 1)).releaseOldestFrame 32).1 = true ∧
      (cursorMoved.pushedBy (pcmuPacket 1)).streams.map (fun s => s.payloadBuffer.length) = [1, 1] ∧
      ((cursorMoved.pushedBy (pcmuPacket 1)).releaseOldestFrame 32).2.streams.map
        (fun s => s.payloadBuffer.length) = [1, 0] := by
    decide +kernel
  obtain ⟨hretained, hover, hfound, hbefore, hafter⟩ := hfacts
  refine ⟨.processRtp _ (.processRtp _ orderly_tightHeld.reachable), _, _,
    releases_pushedBy hretained hover hfound, ?_⟩
  generalize ((cursorMoved.pushedBy (pcmuPacket 1)).releaseOldestFrame 32).2 = after at hafter ⊢
  generalize cursorMoved.pushedBy (pcmuPacket 1) = before at hbefore ⊢
  rintro ⟨i, s, hs, hne, hempty, hstreams⟩
  -- the first stream holds a frame, so it is the one the release took from
  have hzero : i = 0 := by
    by_contra hi
    have hfirst := congrArg (fun lengths => lengths[0]?) hbefore
    simp only [List.getElem?_map, List.getElem?_cons_zero] at hfirst
    obtain ⟨t, ht, hlength⟩ := map_eq_some_iff.mp hfirst
    rw [hempty 0 (Nat.pos_of_ne_zero hi) t ht] at hlength
    cases hlength
  subst hzero
  have hfirst := congrArg (fun lengths => lengths[0]?) hbefore
  have htaken := congrArg (fun lengths => lengths[0]?) hafter
  have hlt := (List.getElem?_eq_some_iff.mp hs).1
  simp only [List.getElem?_map, hs, List.getElem?_cons_zero, map_some, Option.some.injEq] at hfirst
  simp only [hstreams, List.getElem?_map, List.getElem?_set_self hlt, List.getElem?_cons_zero,
    map_some, Option.some.injEq, AudioStream.releaseOldest, length_tail, hfirst] at htaken
  cases htaken

end MediaStore

end Sipnab
