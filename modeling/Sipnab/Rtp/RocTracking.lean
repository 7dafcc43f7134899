import Sipnab.Lib.Cuts
import Sipnab.Rtp.Srtp

/-!
# The tracked index

Behind the rollover counter and the highest sequence number stands one 48-bit index. The estimate
for a packet is right exactly while the packet's index is within half an epoch of it, and the state
then stays the higher of the two.
-/

namespace Sipnab

open List Option

def rocOf (index : ℕ) : BitVec 32 := BitVec.ofNat 32 (index / 65536)

def seqOf (index : ℕ) : BitVec 16 := BitVec.ofNat 16 index

def RocState.ofIndex (index : ℕ) : RocState := ⟨rocOf index, seqOf index⟩

def indexBound : ℕ := 2 ^ 48

variable {i h : ℕ}

theorem toNat_rocOf (h : i < indexBound) : (rocOf i).toNat = i / 65536 := by
  rw [rocOf, BitVec.toNat_ofNat]
  rw [indexBound] at h
  omega

theorem toNat_seqOf (i : ℕ) : (seqOf i).toNat = i % 65536 := by
  rw [seqOf, BitVec.toNat_ofNat]

/-! ## The estimate -/

theorem estimateRoc_eq (roc : BitVec 32) (sL seq : BitVec 16) :
    estimateRoc roc sL seq =
      if sL.toNat < 32768 then if sL.toNat + 32768 < seq.toNat then roc - 1 else roc
      else if seq.toNat + 32768 < sL.toNat then roc + 1 else roc := by
  unfold estimateRoc
  have hhalf : (2 ^ 15 : ℤ) = 32768 := by decide
  dsimp only
  rw [hhalf]
  split_ifs
  all_goals first | rfl | omega

/-- Where the estimate from the index `h` is right: within half an epoch, the end that counts
depending on the half `h` is in. -/
def InWindow (h i : ℕ) : Prop :=
  if h % 65536 < 32768 then h < i + 32768 ∧ i ≤ h + 32768 else h ≤ i + 32768 ∧ i < h + 32768

instance (h i : ℕ) : Decidable (InWindow h i) :=
  inferInstanceAs (Decidable (if h % 65536 < 32768 then h < i + 32768 ∧ i ≤ h + 32768
    else h ≤ i + 32768 ∧ i < h + 32768))

theorem toNat_sub_one (x : BitVec 32) : (x - 1).toNat = (x.toNat + 4294967295) % 4294967296 := by
  rw [BitVec.toNat_sub, show (1 : BitVec 32).toNat = 1 from rfl]
  omega

theorem toNat_add_one (x : BitVec 32) : (x + 1).toNat = (x.toNat + 1) % 4294967296 := by
  rw [BitVec.toNat_add, show (1 : BitVec 32).toNat = 1 from rfl]

theorem estimateRoc_of_inWindow (hh : h < indexBound) (hi : i < indexBound)
    (hwindow : InWindow h i) : estimateRoc (rocOf h) (seqOf h) (seqOf i) = rocOf i := by
  apply BitVec.eq_of_toNat_eq
  rw [InWindow] at hwindow
  rw [estimateRoc_eq, toNat_seqOf, toNat_seqOf, toNat_rocOf hi]
  split_ifs at hwindow ⊢
  · rw [toNat_sub_one, toNat_rocOf hh]
    rw [indexBound] at hh
    omega
  · rw [toNat_rocOf hh]
    omega
  · rw [toNat_add_one, toNat_rocOf hh]
    rw [indexBound] at hi
    omega
  · rw [toNat_rocOf hh]
    omega

theorem advance_of_inWindow (hh : h < indexBound) (hi : i < indexBound) (hwindow : InWindow h i) :
    SrtpRocTracker.advance (some (.ofIndex h)) (rocOf i) (seqOf i) = .ofIndex (max h i) := by
  have hroc : rocOf i = rocOf h ↔ i / 65536 = h / 65536 := by
    rw [← BitVec.toNat_inj, toNat_rocOf hi, toNat_rocOf hh]
  have hnext : rocOf i = rocOf h + 1 → i / 65536 = h / 65536 + 1 := by
    intro heq
    have hnat := congrArg BitVec.toNat heq
    rw [toNat_add_one, toNat_rocOf hi, toNat_rocOf hh] at hnat
    rw [indexBound] at hh
    rw [InWindow] at hwindow
    split_ifs at hwindow <;> omega
  have hseq : seqOf h < seqOf i ↔ h % 65536 < i % 65536 := by
    rw [BitVec.lt_def, toNat_seqOf, toNat_seqOf]
  have hadvance : SrtpRocTracker.advance (some (.ofIndex h)) (rocOf i) (seqOf i) =
      if rocOf i = rocOf h + 1 ∨ (rocOf i = rocOf h ∧ seqOf h < seqOf i) then .ofIndex i
      else .ofIndex h := rfl
  rw [hadvance]
  split_ifs with hnewer
  · have hle : h ≤ i := by
      rcases hnewer with hwrapped | ⟨hsame, hnewer⟩
      · have hepoch := hnext hwrapped
        omega
      · have hepoch := hroc.mp hsame
        have hlower := hseq.mp hnewer
        omega
    rw [max_eq_right hle]
  · have hle : i ≤ h := by
      by_contra hlt
      apply hnewer
      by_cases hsame : i / 65536 = h / 65536
      · exact Or.inr ⟨hroc.mpr hsame, hseq.mpr (by omega)⟩
      · refine Or.inl ?_
        apply BitVec.eq_of_toNat_eq
        rw [toNat_add_one, toNat_rocOf hi, toNat_rocOf hh]
        rw [InWindow] at hwindow
        rw [indexBound] at hi
        split_ifs at hwindow <;> omega
    rw [max_eq_left hle]

/-- The counter a packet with this sequence number is checked with. -/
def guessRoc (existing : Option RocState) (seq : BitVec 16) : BitVec 32 :=
  match existing with
  | some st => estimateRoc st.roc st.sL seq
  | none => 0

theorem guessRoc_some (st : RocState) (seq : BitVec 16) :
    guessRoc (some st) seq = estimateRoc st.roc st.sL seq := by
  rw [guessRoc]

theorem inWindow_of_abs_lt (hnear : |(i : ℤ) - h| < 2 ^ 15) : InWindow h i := by
  rw [abs_lt] at hnear
  have hhalf : (2 ^ 15 : ℤ) = 32768 := by decide
  rw [hhalf] at hnear
  rw [InWindow]
  split_ifs <;> omega

/-- A stream's next index by itself: it starts in epoch 0, and stays less than half an epoch from the
highest index so far. -/
def Near (seen : Option ℕ) (i : ℕ) : Prop :=
  match seen with
  | none => i < 65536
  | some h => |(i : ℤ) - h| < 2 ^ 15

instance : (seen : Option ℕ) → (i : ℕ) → Decidable (Near seen i)
  | none, i => inferInstanceAs (Decidable (i < 65536))
  | some h, i => inferInstanceAs (Decidable (|(i : ℤ) - h| < 2 ^ 15))

/-- An index whose counter is guessed from the highest index so far. -/
def Guessed (seen : Option ℕ) (i : ℕ) : Prop :=
  match seen with
  | none => i < 65536
  | some h => InWindow h i

instance : (seen : Option ℕ) → (i : ℕ) → Decidable (Guessed seen i)
  | none, i => inferInstanceAs (Decidable (i < 65536))
  | some h, i => inferInstanceAs (Decidable (InWindow h i))

theorem Near.guessed {seen : Option ℕ} (h : Near seen i) : Guessed seen i := by
  cases seen with
  | none => exact h
  | some _ => exact inWindow_of_abs_lt h

section Guess

variable {seen : Option ℕ} {i : ℕ}

theorem guessRoc_of_guessed (hseen : ∀ h ∈ seen, h < indexBound) (hi : i < indexBound)
    (hguessed : Guessed seen i) : guessRoc (seen.map RocState.ofIndex) (seqOf i) = rocOf i := by
  cases seen with
  | none =>
    have hzero : i / 65536 = 0 := Nat.div_eq_of_lt hguessed
    rw [rocOf, hzero]
    rfl
  | some h =>
    rw [map_some, guessRoc_some]
    exact estimateRoc_of_inWindow (hseen h rfl) hi hguessed

theorem advance_of_guessed (hseen : ∀ h ∈ seen, h < indexBound) (hi : i < indexBound)
    (hguessed : Guessed seen i) :
    SrtpRocTracker.advance (seen.map RocState.ofIndex) (rocOf i) (seqOf i) =
      .ofIndex (seen.elim i (fun h => max h i)) := by
  cases seen with
  | none =>
    have hzero : i / 65536 = 0 := Nat.div_eq_of_lt hguessed
    rw [elim_none, RocState.ofIndex, rocOf, hzero]
    rfl
  | some h => exact advance_of_inWindow (hseen h rfl) hi hguessed

theorem guessed_of_guessRoc (hseen : ∀ h ∈ seen, h + 65536 < indexBound)
    (hi : i + 65536 < indexBound)
    (hguess : guessRoc (seen.map RocState.ofIndex) (seqOf i) = rocOf i) : Guessed seen i := by
  have hnat := congrArg BitVec.toNat hguess
  rw [toNat_rocOf (by omega)] at hnat
  rw [indexBound] at hi
  cases seen with
  | none =>
    have hzero : i / 65536 = 0 := hnat.symm
    rw [Guessed]
    omega
  | some h =>
    have hh := hseen h rfl
    rw [map_some, guessRoc_some, RocState.ofIndex, estimateRoc_eq, toNat_seqOf, toNat_seqOf] at hnat
    rw [Guessed, InWindow]
    have hroc := toNat_rocOf (i := h) (by omega)
    rw [indexBound] at hh
    split_ifs at hnat ⊢ <;> simp only [toNat_sub_one, toNat_add_one, hroc] at hnat <;> omega

end Guess

theorem max?_concat (xs : List ℕ) (i : ℕ) :
    (xs ++ [i]).max? = some (xs.max?.elim i (fun h => max h i)) := by
  cases xs with
  | nil => rfl
  | cons x xs =>
    rw [cons_append, List.max?_cons', List.max?_cons', foldl_append]
    rfl

/-! ## One stream -/

def tagVerifies (crypto : Crypto) (km : SrtpKeyMaterial) (packet : List UInt8) (roc : BitVec 32) :
    Except SrtpError Bool := do
  let sessionAuthKey ← deriveSessionKey crypto km.masterKey km.masterSalt srtpLabelAuth
    srtpAuthKeyLen
  let authPortionLen := packet.length - authTagLen km.suite
  srtpTagMatches crypto (packet.take authPortionLen) (packet.drop authPortionLen) sessionAuthKey roc
    (authTagLen km.suite)

/-- An authentic packet under one SSRC, with its index, or a forged one, which may be any bytes. A
tag verifies exactly with the counter of the packet's index. -/
structure SrtpArrival (crypto : Crypto) (km : SrtpKeyMaterial) (ssrc : BitVec 32) where
  packet : List UInt8
  index : Option ℕ
  length_le : index.isSome → 12 + authTagLen km.suite ≤ packet.length
  ssrc_eq : index.isSome → packetSsrc packet = ssrc
  index_lt : ∀ i ∈ index, i < indexBound
  sequence_eq : ∀ i ∈ index, packetSequence packet = seqOf i
  tag_verifies : 12 + authTagLen km.suite ≤ packet.length →
    ∀ roc, tagVerifies crypto km packet roc = .ok (decide (index.map rocOf = some roc))

section Tracking

variable {crypto : Crypto} {km : SrtpKeyMaterial} {ssrc : BitVec 32}

/-- The tracker behind a packet that was checked with `roc`. -/
def SrtpRocTracker.accept (tracker : SrtpRocTracker) (ssrc : BitVec 32) (roc : BitVec 32)
    (seq : BitVec 16) : SrtpRocTracker where
  perSsrc := tracker.perSsrc.insert ssrc (advance (tracker.perSsrc.get? ssrc) roc seq)

theorem verifyRocWithAuthKey_eq {tracker : SrtpRocTracker} {packet sessionAuthKey : List UInt8}
    {tagLen : ℕ} {verified : Bool} (hlong : 12 + tagLen ≤ packet.length)
    (hssrc : packetSsrc packet = ssrc)
    (htag : srtpTagMatches crypto (packet.take (packet.length - tagLen))
      (packet.drop (packet.length - tagLen)) sessionAuthKey
      (guessRoc (tracker.perSsrc.get? ssrc) (packetSequence packet)) tagLen = .ok verified) :
    tracker.verifyRocWithAuthKey crypto packet tagLen sessionAuthKey =
      .ok (if verified then
        (some (guessRoc (tracker.perSsrc.get? ssrc) (packetSequence packet)),
          tracker.accept ssrc (guessRoc (tracker.perSsrc.get? ssrc) (packetSequence packet))
            (packetSequence packet))
      else (none, tracker)) := by
  subst hssrc
  have hcheck : tracker.verifyRocWithAuthKey crypto packet tagLen sessionAuthKey =
      (srtpTagMatches crypto (packet.take (packet.length - tagLen))
        (packet.drop (packet.length - tagLen)) sessionAuthKey
        (guessRoc (tracker.perSsrc.get? (packetSsrc packet)) (packetSequence packet)) tagLen).bind
        (fun verified => if verified then
          .ok (some (guessRoc (tracker.perSsrc.get? (packetSsrc packet)) (packetSequence packet)),
            tracker.accept (packetSsrc packet)
              (guessRoc (tracker.perSsrc.get? (packetSsrc packet)) (packetSequence packet))
              (packetSequence packet))
        else .ok (none, tracker)) := by
    rw [SrtpRocTracker.verifyRocWithAuthKey, if_neg (not_lt.mpr hlong)]
    rfl
  rw [hcheck, htag]
  cases verified <;> rfl

variable (tracker : SrtpRocTracker)

theorem verifyRoc_eq {p : SrtpArrival crypto km ssrc}
    (hlong : 12 + authTagLen km.suite ≤ p.packet.length) (hssrc : packetSsrc p.packet = ssrc) :
    tracker.verifyRoc crypto p.packet km =
      .ok (if p.index.map rocOf =
          some (guessRoc (tracker.perSsrc.get? ssrc) (packetSequence p.packet)) then
        (p.index.map rocOf, tracker.accept ssrc
          (guessRoc (tracker.perSsrc.get? ssrc) (packetSequence p.packet))
          (packetSequence p.packet))
      else (none, tracker)) := by
  have htag := p.tag_verifies hlong
    (guessRoc (tracker.perSsrc.get? ssrc) (packetSequence p.packet))
  rw [tagVerifies] at htag
  rw [SrtpRocTracker.verifyRoc, if_neg (not_lt.mpr hlong)]
  cases hkey : deriveSessionKey crypto km.masterKey km.masterSalt srtpLabelAuth srtpAuthKeyLen with
  | error e =>
    rw [hkey] at htag
    cases htag
  | ok sessionAuthKey =>
    rw [hkey] at htag
    refine (verifyRocWithAuthKey_eq hlong hssrc htag).trans ?_
    by_cases hguess : p.index.map rocOf =
        some (guessRoc (tracker.perSsrc.get? ssrc) (packetSequence p.packet))
    · rw [if_pos hguess, decide_eq_true hguess, if_pos rfl, hguess]
    · rw [if_neg hguess, decide_eq_false hguess, if_neg Bool.false_ne_true]

/-- What a caller learns of a packet: the counter it was accepted with, if it was, and the tracker
behind it, which an error does not touch. -/
def SrtpRocTracker.check (crypto : Crypto) (km : SrtpKeyMaterial) (tracker : SrtpRocTracker)
    (packet : List UInt8) : Option (BitVec 32) × SrtpRocTracker :=
  match tracker.verifyRoc crypto packet km with
  | .ok result => result
  | .error _ => (none, tracker)

theorem check_eq {p : SrtpArrival crypto km ssrc}
    (hlong : 12 + authTagLen km.suite ≤ p.packet.length) (hssrc : packetSsrc p.packet = ssrc) :
    tracker.check crypto km p.packet =
      if p.index.map rocOf =
          some (guessRoc (tracker.perSsrc.get? ssrc) (packetSequence p.packet)) then
        (p.index.map rocOf, tracker.accept ssrc
          (guessRoc (tracker.perSsrc.get? ssrc) (packetSequence p.packet))
          (packetSequence p.packet))
      else (none, tracker) := by
  rw [SrtpRocTracker.check, verifyRoc_eq tracker hlong hssrc]

theorem check_of_forged {p : SrtpArrival crypto km ssrc} (hforged : p.index = none) :
    tracker.check crypto km p.packet = (none, tracker) := by
  by_cases hlong : 12 + authTagLen km.suite ≤ p.packet.length
  · -- the forged packet as one of its own SSRC
    let q : SrtpArrival crypto km (packetSsrc p.packet) :=
      { p with
        length_le := fun _ => hlong
        ssrc_eq := fun _ => rfl }
    have hcheck := check_eq tracker (p := q) hlong rfl
    have hindex : q.index = none := hforged
    rw [hindex, map_none, if_neg (fun heq => by cases heq)] at hcheck
    exact hcheck
  · rw [SrtpRocTracker.check, SrtpRocTracker.verifyRoc, if_pos (not_le.mp hlong)]

/-! ### Runs -/

def trackerAfter (crypto : Crypto) (km : SrtpKeyMaterial) (packets : List (List UInt8)) :
    SrtpRocTracker :=
  packets.foldl (fun tracker packet => (tracker.check crypto km packet).2) {}

def highestIndex (ps : List (SrtpArrival crypto km ssrc)) : Option ℕ :=
  (ps.filterMap SrtpArrival.index).max?

def WithinReach (before : List (SrtpArrival crypto km ssrc)) (p : SrtpArrival crypto km ssrc) :
    Prop :=
  ∀ i ∈ p.index, Near (highestIndex before) i

instance (before : List (SrtpArrival crypto km ssrc)) (p : SrtpArrival crypto km ssrc) :
    Decidable (WithinReach before p) :=
  inferInstanceAs (Decidable (∀ i ∈ p.index, Near (highestIndex before) i))

variable {ps : List (SrtpArrival crypto km ssrc)} {p : SrtpArrival crypto km ssrc}

theorem highestIndex_concat_of_none (h : p.index = none) :
    highestIndex (ps ++ [p]) = highestIndex ps := by
  simp [highestIndex, h]

theorem highestIndex_concat_of_some {i : ℕ} (h : p.index = some i) :
    highestIndex (ps ++ [p]) = some ((highestIndex ps).elim i (fun h => max h i)) := by
  have hsplit : (ps ++ [p]).filterMap SrtpArrival.index = ps.filterMap SrtpArrival.index ++ [i] := by
    simp [h]
  rw [highestIndex, hsplit, max?_concat]
  rfl

theorem lt_of_highestIndex {h : ℕ} (hhighest : highestIndex ps = some h) : h < indexBound := by
  obtain ⟨q, -, hq⟩ := mem_filterMap.mp (List.max?_mem hhighest)
  exact q.index_lt h hq

/-- The state that is tracked under the SSRC stands for the highest index. -/
def TracksHighest (tracker : SrtpRocTracker) (ps : List (SrtpArrival crypto km ssrc)) : Prop :=
  tracker.perSsrc.get? ssrc = (highestIndex ps).map RocState.ofIndex

theorem TracksHighest.step {tracker : SrtpRocTracker} (h : TracksHighest tracker ps)
    (hreach : WithinReach ps p) :
    (tracker.check crypto km p.packet).1 = p.index.map rocOf ∧
      TracksHighest (tracker.check crypto km p.packet).2 (ps ++ [p]) := by
  cases hindex : p.index with
  | none =>
    rw [check_of_forged tracker hindex]
    refine ⟨rfl, ?_⟩
    rw [TracksHighest, highestIndex_concat_of_none hindex]
    exact h
  | some i =>
    have hauthentic : p.index.isSome := by
      rw [hindex]
      rfl
    have hseq := p.sequence_eq i hindex
    have hi := p.index_lt i hindex
    have hseen : ∀ h ∈ highestIndex ps, h < indexBound := fun h hh => lt_of_highestIndex hh
    have hguessed := (hreach i hindex).guessed
    have hguess : guessRoc (tracker.perSsrc.get? ssrc) (packetSequence p.packet) = rocOf i := by
      rw [h, hseq]
      exact guessRoc_of_guessed hseen hi hguessed
    rw [check_eq tracker (p.length_le hauthentic) (p.ssrc_eq hauthentic), hguess, hindex,
      map_some, if_pos rfl]
    refine ⟨rfl, ?_⟩
    rw [TracksHighest, SrtpRocTracker.accept, IndexMap.insert, IndexMap.get?_alter, if_pos rfl,
      hseq, h, advance_of_guessed hseen hi hguessed, highestIndex_concat_of_some hindex]
    rfl

theorem trackerAfter_concat (packets : List (List UInt8)) (packet : List UInt8) :
    trackerAfter crypto km (packets ++ [packet]) =
      ((trackerAfter crypto km packets).check crypto km packet).2 := by
  rw [trackerAfter, foldl_append]
  rfl

theorem tracksHighest_trackerAfter (hreach : Stepwise WithinReach ps) :
    TracksHighest (trackerAfter crypto km (ps.map SrtpArrival.packet)) ps := by
  induction ps using List.reverseRecOn with
  | nil => rfl
  | append_singleton ps p ih =>
    obtain ⟨hreach, hlast⟩ := stepwise_concat.mp hreach
    have hmap : (ps ++ [p]).map SrtpArrival.packet = ps.map SrtpArrival.packet ++ [p.packet] := by
      simp
    rw [hmap, trackerAfter_concat]
    exact ((ih hreach).step hlast).2

/-- Every authentic packet is accepted with its own counter, every forged one is rejected, and the
state is always the highest authentic index. -/
theorem verify_roc_exact (hreach : Stepwise WithinReach ps) :
    Stepwise (fun before p =>
      ((trackerAfter crypto km (before.map SrtpArrival.packet)).check crypto km p.packet).1 =
        p.index.map rocOf) ps ∧
    ∀ seen, seen <+: ps →
      TracksHighest (trackerAfter crypto km (seen.map SrtpArrival.packet)) seen := by
  have htracks : ∀ seen, seen <+: ps →
      TracksHighest (trackerAfter crypto km (seen.map SrtpArrival.packet)) seen := by
    rintro seen ⟨rest, rfl⟩
    exact tracksHighest_trackerAfter hreach.of_append
  refine ⟨?_, htracks⟩
  intro before p after hsplit
  have hbefore := htracks before ⟨p :: after, hsplit.symm⟩
  exact (hbefore.step (hreach before p after hsplit)).1

end Tracking

/-! ### Packets under the key of RFC 3711's test vectors -/

def bigEndianBytes (length n : ℕ) : List UInt8 :=
  (List.range length).map (fun i => UInt8.ofNat (n / 256 ^ (length - 1 - i)))

/-- One value of the keyed hash: the tag of a header with a counter. -/
structure SampleTag where
  authKey : List UInt8
  header : List UInt8
  roc : BitVec 32
  tag : List UInt8

/-- The library's functions where the samples need them: the blocks of the key derivation and the
tags of the packets. -/
def sampleCrypto (blocks : List ((List UInt8 × List UInt8) × List UInt8)) (tags : List SampleTag) :
    Crypto where
  hmacSha1 := fun key message =>
    .ok (((tags.find? (fun t => t.authKey = key ∧ t.header ++ rocBytes t.roc = message)).map
      SampleTag.tag).getD [])
  encryptBlock := fun key block =>
    (((blocks.lookup (key, block)).getD []) ++ List.replicate 16 0).take 16
  length_encryptBlock := by
    intro key block
    simp
  fingerprint := fun masterKey _ _ => bigEndian masterKey

theorem rocBytes_inj {a b : BitVec 32} (h : rocBytes a = rocBytes b) : a = b := by
  simp only [rocBytes, map_cons, map_nil, List.cons.injEq, and_true] at h
  obtain ⟨h24, h16, h8, h0⟩ := h
  have hbyte : ∀ x y : ℕ, UInt8.ofNat x = UInt8.ofNat y → x % 256 = y % 256 := by
    intro x y hxy
    have hnat := congrArg UInt8.toNat hxy
    simpa using hnat
  have ha := a.isLt
  have hb := b.isLt
  have h24 := hbyte _ _ h24
  have h16 := hbyte _ _ h16
  have h8 := hbyte _ _ h8
  have h0 := hbyte _ _ h0
  apply BitVec.eq_of_toNat_eq
  omega

theorem tagVerifies_sample {blocks : List ((List UInt8 × List UInt8) × List UInt8)}
    {tags : List SampleTag} {km : SrtpKeyMaterial} {authKey header tag : List UInt8}
    (hkey : deriveSessionKey (sampleCrypto blocks tags) km.masterKey km.masterSalt srtpLabelAuth
      srtpAuthKeyLen = .ok authKey)
    (hlength : ∀ t ∈ tags, t.header.length = header.length) (htag : tag.length = authTagLen km.suite)
    (roc : BitVec 32) :
    tagVerifies (sampleCrypto blocks tags) km (header ++ tag) roc =
      .ok ((((tags.find? (fun t => t.authKey = authKey ∧ t.header = header ∧ t.roc = roc)).map
        SampleTag.tag).getD []).take (authTagLen km.suite) == tag) := by
  have hsplit : (header ++ tag).length - authTagLen km.suite = header.length := by
    rw [length_append]
    omega
  have hfind : tags.find? (fun t => t.authKey = authKey ∧
      t.header ++ rocBytes t.roc = header ++ rocBytes roc) =
      tags.find? (fun t => t.authKey = authKey ∧ t.header = header ∧ t.roc = roc) := by
    apply List.find?_congr
    intro t ht
    have hmessage : t.header ++ rocBytes t.roc = header ++ rocBytes roc ↔
        t.header = header ∧ t.roc = roc := by
      constructor
      · intro heq
        obtain ⟨hheader, hroc⟩ := append_inj heq (hlength t ht)
        exact ⟨hheader, rocBytes_inj hroc⟩
      · rintro ⟨hheader, hroc⟩
        rw [hheader, hroc]
    rw [decide_eq_decide, hmessage]
  have hhash : (sampleCrypto blocks tags).hmacSha1 authKey (header ++ rocBytes roc) =
      .ok (((tags.find? (fun t => t.authKey = authKey ∧ t.header = header ∧ t.roc = roc)).map
        SampleTag.tag).getD []) := by
    rw [← hfind]
    rfl
  have hverify : tagVerifies (sampleCrypto blocks tags) km (header ++ tag) roc =
      ((sampleCrypto blocks tags).hmacSha1 authKey
        ((header ++ tag).take ((header ++ tag).length - authTagLen km.suite) ++ rocBytes roc)).map
        (fun fullTag => fullTag.take (authTagLen km.suite) ==
          (header ++ tag).drop ((header ++ tag).length - authTagLen km.suite)) := by
    rw [tagVerifies, hkey]
    rfl
  rw [hverify, hsplit, take_left, drop_left, hhash]
  rfl

def rfcKey : SrtpKeyMaterial where
  suite := .aesCm128HmacSha1_80
  masterKey := bigEndianBytes 16 0xe1f97a0d3e018be0d64fa32c06de4139
  masterSalt := bigEndianBytes 14 0x0ec675ad498afeebb6960b3aabe6

def rfcAuthKey : List UInt8 := bigEndianBytes 20 0xcebe321f6ff7716b6fd4ab49af256a156d38baa4

/-- The cipher's blocks in the derivation of the session keys of `rfcKey`. -/
def rfcBlocks : List ((List UInt8 × List UInt8) × List UInt8) :=
  [(0x0ec675ad498afeebb6960b3aabe60000, 0xc61e7a93744f39ee10734afe3ff7a087),
    (0x0ec675ad498afee9b6960b3aabe60000, 0x30cbbc08863d8c85d49db34a9ae17ac6),
    (0x0ec675ad498afeeab6960b3aabe60000, 0xcebe321f6ff7716b6fd4ab49af256a15),
    (0x0ec675ad498afeeab6960b3aabe60001, 0x6d38baa48f0a0acf3c34e2359e6cdbce)].map
    (fun e => ((rfcKey.masterKey, bigEndianBytes 16 e.1), bigEndianBytes 16 e.2))

def lastHeader : List UInt8 := bigEndianBytes 12 0x8000ffff000000000000cafe

def lastTag : List UInt8 := bigEndianBytes 20 0x8eeb6c8131fe4dffe02f001cf639a804a987105a

def nextHeader : List UInt8 := bigEndianBytes 12 0x80000000000000000000cafe

def nextTag : List UInt8 := bigEndianBytes 20 0x5fc8acd8b2fa0eda3d67d9cf283ac11955d0bbfd

def wrapCrypto : Crypto :=
  sampleCrypto rfcBlocks [⟨rfcAuthKey, lastHeader, 0, lastTag⟩, ⟨rfcAuthKey, nextHeader, 1, nextTag⟩]

theorem deriveSessionKey_rfcKey : deriveSessionKey wrapCrypto
    rfcKey.masterKey rfcKey.masterSalt srtpLabelAuth srtpAuthKeyLen = .ok rfcAuthKey := by
  decide +kernel

theorem tagVerifies_wrap {header tag : List UInt8} (hlength : header.length = 12)
    (htag : tag.length = 10) (roc : BitVec 32) :
    tagVerifies wrapCrypto rfcKey (header ++ tag) roc =
      .ok (if header = lastHeader ∧ roc = 0 then lastTag.take 10 == tag
        else if header = nextHeader ∧ roc = 1 then nextTag.take 10 == tag else false) := by
  have hheaders : ∀ t ∈ [(⟨rfcAuthKey, lastHeader, 0, lastTag⟩ : SampleTag),
      ⟨rfcAuthKey, nextHeader, 1, nextTag⟩], t.header.length = header.length := by
    rw [hlength]
    decide +kernel
  rw [wrapCrypto, tagVerifies_sample deriveSessionKey_rfcKey hheaders htag]
  rw [List.find?_cons, List.find?_cons, List.find?_nil]
  by_cases hlast : header = lastHeader ∧ roc = 0
  · obtain ⟨rfl, rfl⟩ := hlast
    rw [if_pos ⟨rfl, rfl⟩, decide_eq_true ⟨rfl, rfl, rfl⟩]
    rfl
  · rw [if_neg hlast, decide_eq_false (fun h => hlast ⟨h.2.1.symm, h.2.2.symm⟩)]
    by_cases hnext : header = nextHeader ∧ roc = 1
    · obtain ⟨rfl, rfl⟩ := hnext
      rw [if_pos ⟨rfl, rfl⟩, decide_eq_true ⟨rfl, rfl, rfl⟩]
      rfl
    · rw [if_neg hnext, decide_eq_false (fun h => hnext ⟨h.2.1.symm, h.2.2.symm⟩)]
      have hne : tag ≠ [] := by
        rintro rfl
        cases htag
      simp [hne]

def lastPacket : SrtpArrival wrapCrypto rfcKey 0xCAFE where
  packet := lastHeader ++ lastTag.take 10
  index := some 65535
  length_le := fun _ => by decide +kernel
  ssrc_eq := fun _ => by decide +kernel
  index_lt := by decide +kernel
  sequence_eq := by decide +kernel
  tag_verifies := by
    intro _ roc
    rw [tagVerifies_wrap (by decide +kernel) (by decide +kernel)]
    by_cases hroc : roc = 0
    · subst hroc
      decide +kernel
    · rw [if_neg (fun h => hroc h.2), if_neg (fun h => absurd h.1 (by decide +kernel)),
        decide_eq_false (show ¬ Option.map rocOf (some 65535) = some roc from
          fun h => hroc (some.inj h).symm)]

def nextPacket : SrtpArrival wrapCrypto rfcKey 0xCAFE where
  packet := nextHeader ++ nextTag.take 10
  index := some 65536
  length_le := fun _ => by decide +kernel
  ssrc_eq := fun _ => by decide +kernel
  index_lt := by decide +kernel
  sequence_eq := by decide +kernel
  tag_verifies := by
    intro _ roc
    rw [tagVerifies_wrap (by decide +kernel) (by decide +kernel),
      if_neg (fun h => absurd h.1 (by decide +kernel))]
    by_cases hroc : roc = 1
    · subst hroc
      decide +kernel
    · rw [if_neg (fun h => hroc h.2),
        decide_eq_false (show ¬ Option.map rocOf (some 65536) = some roc from
          fun h => hroc (some.inj h).symm)]

/-- A forged packet: the header of one packet with the tag of the other. -/
def forgedPacket : SrtpArrival wrapCrypto rfcKey 0xCAFE where
  packet := nextHeader ++ lastTag.take 10
  index := none
  length_le := fun h => by cases h
  ssrc_eq := fun h => by cases h
  index_lt := fun i hi => by cases hi
  sequence_eq := fun i hi => by cases hi
  tag_verifies := by
    intro _ roc
    rw [tagVerifies_wrap (by decide +kernel) (by decide +kernel),
      if_neg (fun h => absurd h.1 (by decide +kernel)), map_none,
      decide_eq_false (fun h => by cases h)]
    split_ifs with hroc
    · decide +kernel
    · rfl

/-- A wrap with a forged packet before it and a packet of the epoch before behind it. -/
theorem verify_roc_exact_at_wrap :
    let ps := [lastPacket, forgedPacket, nextPacket, lastPacket]
    Stepwise WithinReach ps ∧ Stepwise (fun before p =>
      ((trackerAfter wrapCrypto rfcKey (before.map SrtpArrival.packet)).check wrapCrypto rfcKey
        p.packet).1 = p.index.map rocOf) ps := by
  intro ps
  have hreach : Stepwise WithinReach ps := by
    rw [stepwise_iff_take]
    decide +kernel
  exact ⟨hreach, (verify_roc_exact hreach).1⟩

end Sipnab
