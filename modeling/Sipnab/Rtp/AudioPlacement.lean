import Sipnab.Rtp.Timeline

/-!
# Where retained audio is placed

The export takes a stream's frames in timestamp order and steps its timeline through them. What
has been put out is kept beside the timeline here: for every frame played its timestamp, the
silence before it, the audio it gave, and the gap before it when that was counted as a jump. A
frame that fails to decode gives no audio.
-/

namespace Sipnab.AudioPlacement

open List

structure Placement where
  timestamp : ℤ
  fill : ℕ
  ticks : ℕ
  jump : ℤ
  deriving DecidableEq

structure Playback where
  timeline : Timeline
  placed : List Placement

def endOf (placed : List Placement) : ℤ :=
  match placed.getLast? with
  | some p => p.timestamp + p.ticks
  | none => 0

/-- The timeline after its frame was decoded: a failure leaves the end where the frame begins. -/
def decoded (t : Timeline) (outcome : Option ℕ) : Timeline :=
  match outcome with
  | some ticks => t.played ticks
  | none => t

/-- One frame: its timestamp and, where it decodes, how long its audio is. -/
def Playback.take (p : Playback) (frame : ℤ × Option ℕ) : Playback :=
  match p.timeline.step (BitVec.ofInt 32 frame.1) with
  | (t, .drop) => { p with timeline := t }
  | (t, .play fill) =>
    { timeline := decoded t frame.2
      placed := p.placed ++ [{
        timestamp := frame.1
        fill := fill
        ticks := frame.2.getD 0
        jump := if t.report.jumps = p.timeline.report.jumps then 0
          else frame.1 - endOf p.placed }] }

def play (t : Timeline) (frames : List (ℤ × Option ℕ)) : Playback :=
  frames.foldl Playback.take ⟨t, []⟩

def putOut (placed : List Placement) : ℤ := (placed.map (fun p => (p.fill : ℤ) + p.ticks)).sum

def jumped (placed : List Placement) : ℤ := (placed.map Placement.jump).sum

def filled (placed : List Placement) : ℕ := (placed.map Placement.fill).sum

/-- The timestamp repeats the last frame placed, or lies inside audio already placed. -/
def Covered (placed : List Placement) (timestamp : ℤ) : Prop :=
  (∃ p ∈ placed.getLast?, p.timestamp = timestamp) ∨
    ∃ p ∈ placed, p.timestamp ≤ timestamp ∧ timestamp < p.timestamp + p.ticks

/-- Every frame is put out at its distance from `first`, the jumps before it apart. -/
def AtTimestamps (first : ℤ) (placed : List Placement) : Prop :=
  ∀ (before : List Placement) (p : Placement) after, placed = before ++ p :: after →
    putOut before + p.fill = p.timestamp - first - jumped (before ++ [p])

variable (placed : List Placement)

@[simp] theorem endOf_append_singleton (p : Placement) :
    endOf (placed ++ [p]) = p.timestamp + p.ticks := by
  simp [endOf]

@[simp] theorem putOut_append_singleton (p : Placement) :
    putOut (placed ++ [p]) = putOut placed + (p.fill + p.ticks) := by
  simp [putOut]

@[simp] theorem jumped_append_singleton (p : Placement) :
    jumped (placed ++ [p]) = jumped placed + p.jump := by
  simp [jumped]

@[simp] theorem filled_append_singleton (p : Placement) :
    filled (placed ++ [p]) = filled placed + p.fill := by
  simp [filled]

theorem AtTimestamps.append {first : ℤ} {placed : List Placement} (h : AtTimestamps first placed)
    {p : Placement}
    (hp : putOut placed + p.fill = p.timestamp - first - jumped (placed ++ [p])) :
    AtTimestamps first (placed ++ [p]) := by
  intro before q after hsplit
  rcases eq_nil_or_concat after with rfl | ⟨after, r, rfl⟩
  · obtain ⟨rfl, hq⟩ := append_inj' hsplit rfl
    obtain rfl : p = q := by simpa using hq
    exact hp
  · have hlast : placed = before ++ q :: after := by
      have h' : placed ++ [p] = (before ++ q :: after) ++ [r] := by simpa using hsplit
      exact (append_inj' h' rfl).1
    exact h before q after hlast

/-! ### One frame -/

/-- What a filling timeline knows after frames that came in order, the last one at `last`. -/
structure Placed (budget : ℕ) (first last : ℤ) (p : Playback) : Prop where
  fill : p.timeline.fill = true
  clock : p.timeline.clockRate ≠ 0
  raw : p.timeline.lastRaw = some (BitVec.ofInt 32 last)
  ext : p.timeline.lastExt = last - first
  placedExt : ∃ q, p.placed.getLast? = some q ∧ p.timeline.placedExt = some (q.timestamp - first)
  endExt : p.timeline.endExt = endOf p.placed - first
  ends : ∀ q ∈ p.placed, q.timestamp + q.ticks ≤ endOf p.placed
  last_ge : ∀ q ∈ p.placed, q.timestamp ≤ last
  out : putOut p.placed = endOf p.placed - first - jumped p.placed
  atTimestamps : AtTimestamps first p.placed
  filledTicks : p.timeline.report.filledTicks = filled p.placed
  budgetTicks : p.timeline.budgetTicks = budget
  within : filled p.placed ≤ budget

theorem decoded_place (t : Timeline) (ext : ℤ) (outcome : Option ℕ) :
    decoded (t.place ext) outcome =
      { t with placedExt := some ext, endExt := ext + (outcome.getD 0 : ℕ) } := by
  cases outcome <;> simp [decoded, Timeline.place, Timeline.played]

theorem atTimestamps_nil (first : ℤ) : AtTimestamps first [] := by
  simp [AtTimestamps]

theorem Placed.begin (clock wall : ℕ) (hclock : clock ≠ 0) (first : ℤ) (outcome : Option ℕ) :
    Placed (ticksFromMs wall clock) first first
      ((⟨Timeline.new clock wall true, []⟩ : Playback).take (first, outcome)) := by
  unfold Playback.take
  rw [Timeline.step_first _ _ rfl]
  simp only [decoded_place]
  constructor
  case atTimestamps =>
    apply (atTimestamps_nil first).append
    simp [putOut, jumped, Timeline.place]
  all_goals simp [Timeline.new, Timeline.place, Timeline.extOf, unwrapStamp, hclock, endOf,
    putOut, jumped, filled]

variable {budget : ℕ} {first last timestamp : ℤ} {p : Playback}

section

variable (h : Placed budget first last p)
include h

theorem Placed.extOf_eq (hle : last ≤ timestamp) (hnear : timestamp - last < 2 ^ 31) :
    p.timeline.extOf (BitVec.ofInt 32 timestamp) = timestamp - first := by
  have hstamps : StampsNear last timestamp := by
    rw [StampsNear, abs_of_nonneg (by omega)]
    exact hnear
  rw [Timeline.extOf, h.raw, h.ext, Option.map_some, unwrapStamp_of_near hstamps]
  omega

/-- A timestamp at or past the last frame taken is covered when it repeats the last one placed or
comes before the end of its audio. -/
theorem Placed.covered_iff (hle : last ≤ timestamp) {q : Placement}
    (hq : p.placed.getLast? = some q) :
    Covered p.placed timestamp ↔ timestamp = q.timestamp ∨ timestamp < endOf p.placed := by
  have hmem : q ∈ p.placed := mem_of_getLast? hq
  constructor
  · rintro (⟨r, hr, hts⟩ | ⟨r, hr, -, hlt⟩)
    · obtain rfl : q = r := by simpa [hq] using hr
      exact .inl hts.symm
    · exact .inr (hlt.trans_le (h.ends r hr))
  · rintro (hts | hlt)
    · exact .inl ⟨q, hq, hts.symm⟩
    · refine .inr ⟨q, hmem, (h.last_ge q hmem).trans hle, ?_⟩
      simpa [endOf, hq] using hlt

/-- A frame past the end of the audio is put out after its gap, whether the gap is filled or
counted as a jump. -/
theorem Placed.append (hle : last ≤ timestamp) (hge : endOf p.placed ≤ timestamp)
    {report : TimelineReport} {gap : ℕ} {jump : ℤ}
    (hsplit : gap + jump = timestamp - endOf p.placed)
    (hfilled : report.filledTicks = p.timeline.report.filledTicks + gap)
    (hwithin : gap = 0 ∨ p.timeline.report.filledTicks + gap ≤ p.timeline.budgetTicks) (ticks : ℕ) :
    Placed budget first timestamp {
      timeline := { p.timeline with
        lastRaw := some (BitVec.ofInt 32 timestamp)
        lastExt := timestamp - first
        placedExt := some (timestamp - first)
        endExt := timestamp - first + ticks
        report }
      placed := p.placed ++ [⟨timestamp, gap, ticks, jump⟩] } where
  fill := h.fill
  clock := h.clock
  budgetTicks := h.budgetTicks
  raw := rfl
  ext := rfl
  placedExt := ⟨⟨timestamp, gap, ticks, jump⟩, by simp, rfl⟩
  endExt := by
    simp only [endOf_append_singleton]
    omega
  ends := by
    intro q hq
    simp only [endOf_append_singleton]
    rcases mem_append.1 hq with hq | hq
    · have := h.ends q hq
      omega
    · obtain rfl : q = ⟨timestamp, gap, ticks, jump⟩ := by simpa using hq
      exact le_rfl
  last_ge := by
    intro q hq
    rcases mem_append.1 hq with hq | hq
    · exact (h.last_ge q hq).trans hle
    · obtain rfl : q = ⟨timestamp, gap, ticks, jump⟩ := by simpa using hq
      exact le_rfl
  out := by
    have := h.out
    simp only [putOut_append_singleton, jumped_append_singleton, endOf_append_singleton]
    omega
  atTimestamps := by
    apply h.atTimestamps.append
    have := h.out
    simp only [jumped_append_singleton]
    omega
  filledTicks := by
    rw [filled_append_singleton, hfilled, h.filledTicks]
  within := by
    have := h.within
    have := h.filledTicks
    have := h.budgetTicks
    simp only [filled_append_singleton]
    omega

theorem Placed.take (hle : last ≤ timestamp) (hnear : timestamp - last < 2 ^ 31)
    (outcome : Option ℕ) :
    Placed budget first timestamp (p.take (timestamp, outcome)) ∧
      ((p.timeline.step (BitVec.ofInt 32 timestamp)).2 = .drop ↔ Covered p.placed timestamp) := by
  obtain ⟨q, hq, hplaced⟩ := h.placedExt
  have hext := h.extOf_eq hle hnear
  have hend := h.endExt
  rw [h.covered_iff hle hq]
  obtain ⟨hdrop, report, hstep, hfilled⟩ | ⟨hne, hge, report, gap, hstep, hfilled, hwithin, hgap⟩ :=
    p.timeline.step_cases (BitVec.ofInt 32 timestamp) h.fill h.clock hplaced
  · rw [hext] at hdrop
    constructor
    · simp only [Playback.take, hstep]
      exact {
        h with
        raw := rfl
        ext := hext
        last_ge := fun q hq => (h.last_ge q hq).trans hle
        filledTicks := hfilled.trans h.filledTicks }
    · simp only [hstep, true_iff]
      omega
  · rw [hext] at hne hge hgap
    have hpast : endOf p.placed ≤ timestamp := by omega
    constructor
    · simp only [Playback.take, hstep, decoded_place, hext]
      apply h.append hle hpast _ hfilled hwithin
      rcases hgap with ⟨hjumps, hgap⟩ | ⟨hjumps, rfl⟩
      · simp only [Timeline.place, hjumps, if_true]
        omega
      · simp [Timeline.place, hjumps]
    · simp only [hstep, reduceCtorEq, false_iff]
      omega

end

/-! ### Whole streams -/

theorem Placed.foldl (frames : List (ℤ × Option ℕ)) :
    ∀ {last : ℤ} {p : Playback}, Placed budget first last p →
      (last :: frames.map Prod.fst).IsChain (fun a b => a ≤ b ∧ b - a < 2 ^ 31) →
      Placed budget first ((frames.map Prod.fst).getLastD last) (frames.foldl Playback.take p) := by
  induction frames with
  | nil =>
    intro last p h _
    exact h
  | cons frame frames ih =>
    intro last p h hchain
    obtain ⟨⟨hle, hnear⟩, hrest⟩ := isChain_cons_cons.1 hchain
    rw [map_cons, getLastD_cons]
    exact ih (h.take hle hnear frame.2).1 hrest

section Stream

variable {clock wall : ℕ} {outcome : Option ℕ} {frames before after : List (ℤ × Option ℕ)}
  {frame : ℤ × Option ℕ}

theorem placed_play (hclock : clock ≠ 0)
    (hchain : (first :: frames.map Prod.fst).IsChain (fun a b => a ≤ b ∧ b - a < 2 ^ 31)) :
    Placed (ticksFromMs wall clock) first ((frames.map Prod.fst).getLastD first)
      (play (Timeline.new clock wall true) ((first, outcome) :: frames)) :=
  (Placed.begin clock wall hclock first outcome).foldl frames hchain

theorem step_drop_iff (hclock : clock ≠ 0)
    (hchain : ((before ++ frame :: after).map Prod.fst).IsChain
      (fun a b => a ≤ b ∧ b - a < 2 ^ 31)) :
    ((play (Timeline.new clock wall true) before).timeline.step (BitVec.ofInt 32 frame.1)).2 =
        .drop ↔ Covered (play (Timeline.new clock wall true) before).placed frame.1 := by
  cases before with
  | nil =>
    rw [play, foldl_nil, Timeline.step_first _ _ rfl]
    simp [Covered]
  | cons f before =>
    rw [map_append, map_cons, isChain_append] at hchain
    obtain ⟨hbefore, -, hnext⟩ := hchain
    obtain ⟨hle, hnear⟩ := hnext ((before.map Prod.fst).getLastD f.1)
      (by simp [List.getLast?_cons]) frame.1 (by simp)
    exact ((placed_play hclock hbefore).take hle hnear frame.2).2

theorem ticksFromMs_le (ms clock : ℕ) : ticksFromMs ms clock ≤ ms * clock / 1000 := by
  simp [ticksFromMs, ticksToSamples]

/-- Frames in any order of arrival, each near the one before, of any lengths and with any
failures: a filling timeline puts every frame it plays at its timestamp, drops exactly the frames
already covered, and fills no more than the wall clock. -/
theorem placed_at_timestamps (clock wall : ℕ) (hclock : clock ≠ 0) (stamps : List ℤ)
    (hnear : stamps.IsChain StampsNear) (frames : List (ℤ × Option ℕ))
    (hframes : frames.map Prod.fst = inOrder stamps) :
    (∀ first ∈ (inOrder stamps).head?,
      AtTimestamps first (play (Timeline.new clock wall true) frames).placed) ∧
    (∀ before frame after, frames = before ++ frame :: after →
      (((play (Timeline.new clock wall true) before).timeline.step
          (BitVec.ofInt 32 frame.1)).2 = .drop ↔
        Covered (play (Timeline.new clock wall true) before).placed frame.1)) ∧
    filled (play (Timeline.new clock wall true) frames).placed ≤ wall * clock / 1000 := by
  have hchain := isChain_inOrder hnear
  rw [← hframes] at hchain ⊢
  refine ⟨?_, ?_, ?_⟩
  · intro first hfirst
    cases frames with
    | nil => simp at hfirst
    | cons frame frames =>
      obtain rfl : frame.1 = first := by simpa using hfirst
      exact (placed_play hclock hchain).atTimestamps
  · rintro before frame after rfl
    exact step_drop_iff hclock hchain
  · cases frames with
    | nil => simp [play, filled]
    | cons frame frames =>
      exact (placed_play hclock hchain).within.trans (ticksFromMs_le wall clock)

end Stream

/-- Three frames across the wrap of the stamp, the last two swapped and one of them repeated. -/
def sampleStamps : List ℤ := [4294967136, 4294967456, 4294967296, 4294967296]

def sampleFrames : List (ℤ × Option ℕ) :=
  [(4294967136, some 160), (4294967296, none), (4294967296, some 160), (4294967456, some 160)]

theorem sampleStamps_near : sampleStamps.IsChain StampsNear := by
  simp only [sampleStamps, StampsNear, isChain_cons_cons, isChain_singleton]
  decide

theorem sampleFrames_fst : sampleFrames.map Prod.fst = inOrder sampleStamps := by
  have hperm : (sampleFrames.map Prod.fst).Perm (inOrder sampleStamps) :=
    List.Perm.trans (by decide) (perm_inOrder sampleStamps_near).symm
  exact hperm.eq_of_pairwise' (by decide) (pairwise_inOrder sampleStamps_near)

theorem sample_placed :
    sampleStamps.IsChain StampsNear ∧ sampleFrames.map Prod.fst = inOrder sampleStamps ∧
      AtTimestamps 4294967136 (play (Timeline.new 8000 1000 true) sampleFrames).placed ∧
      filled (play (Timeline.new 8000 1000 true) sampleFrames).placed ≤ 1000 * 8000 / 1000 := by
  obtain ⟨hplaced, -, hfilled⟩ := placed_at_timestamps 8000 1000 (by decide) sampleStamps
    sampleStamps_near sampleFrames sampleFrames_fst
  refine ⟨sampleStamps_near, sampleFrames_fst, hplaced _ ?_, hfilled⟩
  rw [← sampleFrames_fst]
  rfl

/-! ### The export's loop -/

structure RetainedFrame where
  timestamp : BitVec 32
  sequence : BitVec 16
  payload : List UInt8

structure FrameDecoder (σ : Type*) where
  rate : ℕ → ℕ
  decode : σ → List UInt8 → σ × Option (List (BitVec 16))
  fill : σ → ℕ → Option (BitVec 16) → σ × List (BitVec 16)

def missingBetween (previous : Option (BitVec 16)) (next : BitVec 16) : Option (BitVec 16) :=
  previous.map (fun p => next - p - 1)

structure DecodedStream (σ : Type*) where
  decoder : σ
  timeline : Timeline
  pcm : List (BitVec 16)
  failures : ℕ
  decodedSequence : Option (BitVec 16)

variable {σ : Type*} (codec : FrameDecoder σ) (clock : ℕ)

/-- The silence before a frame, as the codec gives it. -/
def fillBefore (s : DecodedStream σ) (frame : RetainedFrame) (fillTicks : ℕ) :
    σ × List (BitVec 16) :=
  let silence := ticksToSamples fillTicks clock (codec.rate clock)
  if 0 < silence then
    codec.fill s.decoder silence (missingBetween s.decodedSequence frame.sequence)
  else (s.decoder, [])

def decodeFrame (s : DecodedStream σ) (frame : RetainedFrame) : DecodedStream σ :=
  match s.timeline.step frame.timestamp with
  | (t, .drop) => { s with timeline := t }
  | (t, .play fillTicks) =>
    let (decoder, quiet) := fillBefore codec clock s frame fillTicks
    match codec.decode decoder frame.payload with
    | (decoder, some samples) =>
      { decoder
        timeline := t.played (samplesToTicks samples.length (codec.rate clock) clock)
        pcm := s.pcm ++ quiet ++ samples
        failures := s.failures
        decodedSequence := some frame.sequence }
    | (decoder, none) =>
      { s with decoder, timeline := t, pcm := s.pcm ++ quiet, failures := s.failures + 1 }

def framesInOrder (buffer : List RetainedFrame) : List RetainedFrame :=
  (timestampOrder (buffer.map RetainedFrame.timestamp)).filterMap (buffer[·]?)

def beginStream (initial : σ) (wall : ℕ) (fill : Bool) : DecodedStream σ :=
  ⟨initial, Timeline.new clock wall fill, [], 0, none⟩

def decodeStreamPcm (initial : σ) (wall : ℕ) (fill : Bool) (buffer : List RetainedFrame) :
    DecodedStream σ :=
  (framesInOrder buffer).foldl (decodeFrame codec clock) (beginStream clock initial wall fill)

/-- How long the audio is that the codec gives for a frame, if it plays and decodes. -/
def outcomeOf (s : DecodedStream σ) (frame : RetainedFrame) : Option ℕ :=
  match s.timeline.step frame.timestamp with
  | (_, .drop) => none
  | (_, .play fillTicks) =>
    (codec.decode (fillBefore codec clock s frame fillTicks).1 frame.payload).2.map
      (fun samples => samplesToTicks samples.length (codec.rate clock) clock)

/-- The outcomes of a run of the loop. -/
def outcomes (s : DecodedStream σ) : List RetainedFrame → List (Option ℕ)
  | [] => []
  | frame :: frames =>
    outcomeOf codec clock s frame :: outcomes (decodeFrame codec clock s frame) frames

theorem decodeFrame_eq_take (s : DecodedStream σ) (frame : RetainedFrame) {timestamp : ℤ}
    (hts : frame.timestamp = BitVec.ofInt 32 timestamp) (placed : List Placement) :
    (decodeFrame codec clock s frame).timeline =
      ((⟨s.timeline, placed⟩ : Playback).take
        (timestamp, outcomeOf codec clock s frame)).timeline := by
  rcases hstep : s.timeline.step (BitVec.ofInt 32 timestamp) with ⟨t, fillTicks | _⟩
  · simp only [decodeFrame, Playback.take, outcomeOf, hts, hstep]
    split
    case h_1 hdecode =>
      rw [hdecode]
      rfl
    case h_2 hdecode =>
      rw [hdecode]
      rfl
  · simp only [decodeFrame, Playback.take, hts, hstep]

theorem foldl_decodeFrame_eq (timestamps : List ℤ) :
    ∀ (frames : List RetainedFrame) (s : DecodedStream σ) (placed : List Placement),
      frames.map RetainedFrame.timestamp = timestamps.map (BitVec.ofInt 32) →
      (timestamps.zip (outcomes codec clock s frames)).map Prod.fst = timestamps ∧
        (frames.foldl (decodeFrame codec clock) s).timeline =
          ((timestamps.zip (outcomes codec clock s frames)).foldl Playback.take
            ⟨s.timeline, placed⟩).timeline := by
  induction timestamps with
  | nil =>
    intro frames s placed h
    obtain rfl : frames = [] := by simpa using h
    exact ⟨rfl, rfl⟩
  | cons timestamp timestamps ih =>
    intro frames s placed h
    cases frames with
    | nil => simp at h
    | cons frame frames =>
      obtain ⟨hts, hrest⟩ := List.cons.inj h
      have htake := decodeFrame_eq_take codec clock s frame hts placed
      obtain ⟨hfst, hfold⟩ := ih frames (decodeFrame codec clock s frame)
        ((⟨s.timeline, placed⟩ : Playback).take
          (timestamp, outcomeOf codec clock s frame)).placed hrest
      rw [outcomes, zip_cons_cons, map_cons, hfst, foldl_cons, foldl_cons, hfold, htake]
      exact ⟨rfl, rfl⟩

/-- The loop over the retained frames steps its timeline as a playback of the same frames in the
same order does, each with the length that its decoding gave. -/
theorem decodeStreamPcm_plays (initial : σ) (wall : ℕ) (fill : Bool)
    (buffer : List RetainedFrame) (stamps : List ℤ)
    (hstamps : buffer.map RetainedFrame.timestamp = stamps.map (BitVec.ofInt 32)) :
    let frames := (inOrder stamps).zip
      (outcomes codec clock (beginStream clock initial wall fill) (framesInOrder buffer))
    frames.map Prod.fst = inOrder stamps ∧
      (decodeStreamPcm codec clock initial wall fill buffer).timeline =
        (play (Timeline.new clock wall fill) frames).timeline := by
  apply foldl_decodeFrame_eq
  have hlength : buffer.length = stamps.length := by simpa using congrArg List.length hstamps
  -- Every index is one of the buffer's, so no frame is passed over.
  have hget : ∀ i ∈ timestampOrder (buffer.map RetainedFrame.timestamp),
      buffer[i]?.map RetainedFrame.timestamp = some (BitVec.ofInt 32 (stamps.getD i 0)) := by
    intro i hi
    have hlt : i < stamps.length := by
      rw [← hlength]
      simpa using lt_length_of_mem_timestampOrder hi
    rw [← List.getElem?_map, hstamps, List.getElem?_map, List.getElem?_eq_getElem hlt,
      getD_eq_getElem _ _ hlt, Option.map_some]
  rw [framesInOrder, map_filterMap, inOrder, List.map_map, ← hstamps, filterMap_congr hget,
    filterMap_eq_map']
  rfl

/-- One sample for each byte, and zeros for silence. -/
def byteCodec : FrameDecoder Unit :=
  ⟨id, fun _ payload => ((), some (payload.map (fun _ => 0))), fun _ n _ => ((), replicate n 0)⟩

theorem decodeStreamPcm_plays_sample :
    let buffer : List RetainedFrame := sampleStamps.map (fun t => ⟨BitVec.ofInt 32 t, 0, [0xff]⟩)
    (decodeStreamPcm byteCodec 8000 () 1000 true buffer).timeline =
      (play (Timeline.new 8000 1000 true) ((inOrder sampleStamps).zip
        (outcomes byteCodec 8000 (beginStream 8000 () 1000 true)
          (framesInOrder buffer)))).timeline := by
  apply (decodeStreamPcm_plays byteCodec 8000 () 1000 true _ sampleStamps _).2
  rw [map_map]
  rfl

end Sipnab.AudioPlacement
