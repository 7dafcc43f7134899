import Mathlib

/-!
# Bursts and gaps

A stream's packets are received or lost. Three or more lost in a row are a burst, together with the
packet that ends it, and what stands between bursts is a gap. The analysis books each packet as it
comes: the first two of a burst go to the gap and are moved when the third is lost. Its lengths are
numbers of 32 bits.
-/

namespace Sipnab.BurstGap

open List

structure Counts where
  burstCount : ℕ
  burstPackets : ℕ
  burstLost : ℕ
  gapPackets : ℕ
  gapLost : ℕ
  consecutiveLost : ℕ
  inBurst : Bool
  currentBurstLen : ℕ
  burstLengths : List ℕ
  gapLengths : List ℕ
  currentGapLen : ℕ
  deriving DecidableEq

namespace Counts

def start : Counts := ⟨0, 0, 0, 0, 0, 0, false, 0, [], [], 0⟩

/-- Move the losses before this one from the gap to the burst. -/
def reclassify (c : Counts) : Counts :=
  let retroactive := c.consecutiveLost - 1
  if retroactive ≤ c.currentGapLen ∧ retroactive ≤ c.gapLost ∧ retroactive ≤ c.gapPackets then
    { c with
      currentGapLen := c.currentGapLen - retroactive
      gapLost := c.gapLost - retroactive
      gapPackets := c.gapPackets - retroactive }
  else c

def closeGap (c : Counts) : Counts :=
  if 0 < c.currentGapLen then
    { c with gapLengths := c.gapLengths ++ [c.currentGapLen], currentGapLen := 0 }
  else c

def enterBurst (c : Counts) : Counts :=
  let retroactive := c.consecutiveLost - 1
  let c := { c with inBurst := true, burstCount := (c.burstCount + 1) % 2 ^ 32 }
  let c := c.reclassify.closeGap
  { c with
    currentBurstLen := retroactive
    burstLost := c.burstLost + retroactive
    burstPackets := c.burstPackets + retroactive }

def countRun (c : Counts) (received : Bool) : Counts :=
  if received then { c with consecutiveLost := 0 }
  else
    let c := { c with consecutiveLost := (c.consecutiveLost + 1) % 2 ^ 32 }
    if 3 ≤ c.consecutiveLost ∧ c.inBurst = false then c.enterBurst else c

def book (c : Counts) (received : Bool) : Counts :=
  let lost := if received then 0 else 1
  if c.inBurst then
    let c :=
      { c with
        burstPackets := c.burstPackets + 1
        currentBurstLen := (c.currentBurstLen + 1) % 2 ^ 32
        burstLost := c.burstLost + lost }
    if received then
      { c with
        burstLengths := c.burstLengths ++ [c.currentBurstLen]
        currentBurstLen := 0
        inBurst := false
        currentGapLen := 0 }
    else c
  else
    { c with
      gapPackets := c.gapPackets + 1
      currentGapLen := (c.currentGapLen + 1) % 2 ^ 32
      gapLost := c.gapLost + lost }

def step (c : Counts) (received : Bool) : Counts := (c.countRun received).book received

def finish (c : Counts) : Counts :=
  if c.inBurst then
    if 0 < c.currentBurstLen then
      { c with burstLengths := c.burstLengths ++ [c.currentBurstLen] }
    else c
  else c.closeGap

end Counts

/-- What the analysis is computed from: durations are totals over numbers of lengths, and loss rates
are losses over packets. -/
structure Analysis where
  burstCount : ℕ
  burstLengths : List ℕ
  totalBurstLen : ℕ
  gapLengths : List ℕ
  totalGapLen : ℕ
  burstPackets : ℕ
  burstLost : ℕ
  gapPackets : ℕ
  gapLost : ℕ
  deriving DecidableEq

def analyzeBurstGap (received : List Bool) : Analysis :=
  let c := (received.foldl Counts.step .start).finish
  { burstCount := c.burstCount
    burstLengths := c.burstLengths
    totalBurstLen := c.burstLengths.sum % 2 ^ 32
    gapLengths := c.gapLengths
    totalGapLen := c.gapLengths.sum % 2 ^ 32
    burstPackets := c.burstPackets
    burstLost := c.burstLost
    gapPackets := c.gapPackets
    gapLost := c.gapLost }

/-! ## The window of a stream -/

/-- One lap of the sequence counter. -/
def burstWindowSeqSpace : ℕ := 65536

/-- The widest span that is analyzed, ten sequence numbers for each loss that is kept. -/
def burstWindowCap (lostSeqCap : ℕ) : ℕ :=
  min (min (lostSeqCap * 10) (2 ^ 64 - 1)) burstWindowSeqSpace

/-- The packets from the oldest kept loss to the newest, or the last of them when they are more than
the cap. -/
def burstWindow (lostSequences : List UInt16) (lostSeqCap : ℕ) : Option (List Bool) :=
  match lostSequences.head?, lostSequences.getLast? with
  | some front, some back =>
    let windowSize := min ((back - front).toNat + 1) (burstWindowCap lostSeqCap)
    some ((List.range windowSize).map fun i =>
      !lostSequences.contains (back - UInt16.ofNat (windowSize - 1 - i)))
  | _, _ => none

def burstGapAnalysis (lostSequences : List UInt16) (lostSeqCap : ℕ) : Option Analysis :=
  (burstWindow lostSequences lostSeqCap).map analyzeBurstGap

theorem length_burstWindow_le {lostSequences : List UInt16} {lostSeqCap : ℕ} {received : List Bool}
    (h : burstWindow lostSequences lostSeqCap = some received) :
    received.length ≤ burstWindowSeqSpace := by
  unfold burstWindow at h
  split at h
  case h_1 front back _ _ =>
    rw [← Option.some.inj h, length_map, length_range]
    exact (Nat.min_le_right _ _).trans (Nat.min_le_right _ _)
  case h_2 => cases h

/-! ## Regions -/

/-- The lengths of the maximal runs of lost packets before each received packet, and behind the
last one; `n` packets were lost just before. -/
def lostRuns : ℕ → List Bool → List ℕ × ℕ
  | n, [] => ([], n)
  | n, false :: received => lostRuns (n + 1) received
  | n, true :: received => (n :: (lostRuns 0 received).1, (lostRuns 0 received).2)

/-- A burst of lost packets, with the packet that ends it when there is one; a gap of so many
packets, some lost. -/
inductive Region
  | burst (lost : ℕ) (closed : Bool)
  | gap (packets lost : ℕ)
  deriving DecidableEq

def gapOf (packets lost : ℕ) : List Region := if packets = 0 then [] else [.gap packets lost]

/-- The regions of runs of losses behind a gap that is open. -/
def regionsOf : ℕ → ℕ → List ℕ → ℕ → List Region
  | packets, lost, [], last =>
    if 3 ≤ last then gapOf packets lost ++ [.burst last false]
    else gapOf (packets + last) (lost + last)
  | packets, lost, n :: runs, last =>
    if 3 ≤ n then gapOf packets lost ++ .burst n true :: regionsOf 0 0 runs last
    else regionsOf (packets + n + 1) (lost + n) runs last

def regions (received : List Bool) : List Region :=
  regionsOf 0 0 (lostRuns 0 received).1 (lostRuns 0 received).2

namespace Region

def burstLength : Region → Option ℕ
  | .burst lost closed => some (lost + closed.toNat)
  | .gap _ _ => none

def gapLength : Region → Option ℕ
  | .burst _ _ => none
  | .gap packets _ => some packets

def burstLosses : Region → ℕ
  | .burst lost _ => lost
  | .gap _ _ => 0

def gapLosses : Region → ℕ
  | .burst _ _ => 0
  | .gap _ lost => lost

end Region

def burstLengthsOf (rs : List Region) : List ℕ := rs.filterMap Region.burstLength

def gapLengthsOf (rs : List Region) : List ℕ := rs.filterMap Region.gapLength

structure Describes (a : Analysis) (rs : List Region) : Prop where
  burstCount : a.burstCount = (burstLengthsOf rs).length
  burstLengths : a.burstLengths = burstLengthsOf rs
  totalBurstLen : a.totalBurstLen = (burstLengthsOf rs).sum
  gapLengths : a.gapLengths = gapLengthsOf rs
  totalGapLen : a.totalGapLen = (gapLengthsOf rs).sum
  burstPackets : a.burstPackets = (burstLengthsOf rs).sum
  burstLost : a.burstLost = (rs.map Region.burstLosses).sum
  gapPackets : a.gapPackets = (gapLengthsOf rs).sum
  gapLost : a.gapLost = (rs.map Region.gapLosses).sum

/-! ## Runs of losses -/

/-- A sequence is its runs of losses, each with the packet that ends it, and the run at the end. -/
theorem lostRuns_join (n : ℕ) (received : List Bool) :
    List.replicate n false ++ received
      = (lostRuns n received).1.flatMap (fun k => List.replicate k false ++ [true])
        ++ List.replicate (lostRuns n received).2 false := by
  induction received generalizing n with
  | nil => rw [lostRuns, append_nil, flatMap_nil, nil_append]
  | cons b received ih =>
    cases b with
    | false =>
      rw [lostRuns, ← ih (n + 1), replicate_succ', append_assoc]
      rfl
    | true =>
      have hrest := ih 0
      rw [replicate_zero, nil_append] at hrest
      rw [lostRuns, flatMap_cons, append_assoc, ← hrest, append_assoc]
      rfl

namespace Counts

variable {c : Counts}

/-- The length that is written down for a gap, none where it is empty. -/
def gapLength (packets : ℕ) : List ℕ := if packets = 0 then [] else [packets]

/-- The counters before a run of losses: no burst is open, the last packet was received, and there
is room for `n` more packets. -/
structure Between (c : Counts) (n : ℕ) : Prop where
  inBurst : c.inBurst = false
  consecutiveLost : c.consecutiveLost = 0
  bursts : c.burstCount + n < 2 ^ 32
  gap : c.currentGapLen + n + 2 < 2 ^ 32

theorem step_lost_gap (hburst : c.inBurst = false) (hrun : c.consecutiveLost < 2)
    (hgap : c.currentGapLen + 1 < 2 ^ 32) :
    c.step false =
      { c with
        consecutiveLost := c.consecutiveLost + 1
        gapPackets := c.gapPackets + 1
        gapLost := c.gapLost + 1
        currentGapLen := c.currentGapLen + 1 } := by
  have hmod : (c.consecutiveLost + 1) % 2 ^ 32 = c.consecutiveLost + 1 :=
    Nat.mod_eq_of_lt (by omega)
  have hshort : ¬ (3 ≤ c.consecutiveLost + 1 ∧ c.inBurst = false) := by omega
  have hcount : c.countRun false = { c with consecutiveLost := c.consecutiveLost + 1 } := by
    simp only [countRun, Bool.false_eq_true, if_false, hmod, if_neg hshort]
  rw [step, hcount, book]
  simp only [hburst, Bool.false_eq_true, if_false, Nat.mod_eq_of_lt hgap]

theorem step_lost_enter (hburst : c.inBurst = false) (hrun : c.consecutiveLost = 2)
    (hcount : c.burstCount + 1 < 2 ^ 32) (hlost : 2 ≤ c.gapLost) (hpackets : 2 ≤ c.gapPackets)
    (hgap : 2 ≤ c.currentGapLen) :
    c.step false =
      { c with
        burstCount := c.burstCount + 1
        burstPackets := c.burstPackets + 3
        burstLost := c.burstLost + 3
        gapPackets := c.gapPackets - 2
        gapLost := c.gapLost - 2
        consecutiveLost := 3
        inBurst := true
        currentBurstLen := 3
        gapLengths := c.gapLengths ++ gapLength (c.currentGapLen - 2)
        currentGapLen := 0 } := by
  obtain ⟨burstCount, burstPackets, burstLost, gapPackets, gapLost, consecutiveLost, inBurst,
    currentBurstLen, burstLengths, gapLengths, currentGapLen⟩ := c
  subst hburst hrun
  by_cases hleft : currentGapLen - 2 = 0
  · simp [step, countRun, enterBurst, reclassify, closeGap, book, gapLength, hgap, hlost, hpackets,
      hleft]
    omega
  · simp [step, countRun, enterBurst, reclassify, closeGap, book, gapLength, hgap, hlost, hpackets,
      hleft, Nat.pos_of_ne_zero hleft]
    omega

theorem step_lost_burst (hburst : c.inBurst = true) (hrun : c.consecutiveLost + 1 < 2 ^ 32)
    (hlen : c.currentBurstLen + 1 < 2 ^ 32) :
    c.step false =
      { c with
        consecutiveLost := c.consecutiveLost + 1
        burstPackets := c.burstPackets + 1
        currentBurstLen := c.currentBurstLen + 1
        burstLost := c.burstLost + 1 } := by
  simp [step, countRun, book, hburst]
  omega

theorem foldl_lost_short {n : ℕ} (h : c.Between n) (hn : n < 3) :
    (List.replicate n false).foldl step c =
      { c with
        consecutiveLost := n
        gapPackets := c.gapPackets + n
        gapLost := c.gapLost + n
        currentGapLen := c.currentGapLen + n } := by
  have hgap := h.gap
  induction n with
  | zero =>
    have hself : { c with consecutiveLost := 0 } = c := by rw [← h.consecutiveLost]
    exact hself.symm
  | succ n ih =>
    have hbursts := h.bursts
    rw [replicate_succ', foldl_append, ih ⟨h.1, h.2, by omega, by omega⟩ (by omega) (by omega),
      foldl_cons, foldl_nil]
    exact step_lost_gap h.inBurst (by dsimp only; omega) (by dsimp only; omega)

theorem foldl_lost_long {n : ℕ} (h : c.Between n) (hn : 3 ≤ n) :
    (List.replicate n false).foldl step c =
      { c with
        burstCount := c.burstCount + 1
        burstPackets := c.burstPackets + n
        burstLost := c.burstLost + n
        consecutiveLost := n
        inBurst := true
        currentBurstLen := n
        gapLengths := c.gapLengths ++ gapLength c.currentGapLen
        currentGapLen := 0 } := by
  induction n, hn using Nat.le_induction with
  | base =>
    have hbursts := h.bursts
    have hgap := h.gap
    have hsplit : List.replicate 3 false = List.replicate 2 false ++ [false] := rfl
    rw [hsplit, foldl_append, foldl_lost_short ⟨h.1, h.2, by omega, by omega⟩ (by decide),
      foldl_cons, foldl_nil]
    exact step_lost_enter h.inBurst rfl (by dsimp only; omega) (Nat.le_add_left 2 _)
      (Nat.le_add_left 2 _) (Nat.le_add_left 2 _)
  | succ n hn ih =>
    have hbursts := h.bursts
    have hgap := h.gap
    rw [replicate_succ', foldl_append, ih ⟨h.1, h.2, by omega, by omega⟩, foldl_cons, foldl_nil]
    exact step_lost_burst rfl (by dsimp only; omega) (by dsimp only; omega)

theorem foldl_run_short {n : ℕ} (h : c.Between (n + 1)) (hn : n < 3) :
    (List.replicate n false ++ [true]).foldl step c =
      { c with
        consecutiveLost := 0
        gapPackets := c.gapPackets + n + 1
        gapLost := c.gapLost + n
        currentGapLen := c.currentGapLen + n + 1 } := by
  have hbursts := h.bursts
  have hgap := h.gap
  have hmod : (c.currentGapLen + n + 1) % 2 ^ 32 = c.currentGapLen + n + 1 :=
    Nat.mod_eq_of_lt (by omega)
  rw [foldl_append, foldl_lost_short ⟨h.1, h.2, by omega, by omega⟩ hn, foldl_cons, foldl_nil]
  simp only [step, countRun, book, h.inBurst, Bool.false_eq_true, if_false, if_true, Nat.add_zero,
    hmod]

theorem foldl_run_long {n : ℕ} (h : c.Between (n + 1)) (hn : 3 ≤ n) :
    (List.replicate n false ++ [true]).foldl step c =
      { c with
        burstCount := c.burstCount + 1
        burstPackets := c.burstPackets + n + 1
        burstLost := c.burstLost + n
        consecutiveLost := 0
        inBurst := false
        currentBurstLen := 0
        burstLengths := c.burstLengths ++ [n + 1]
        gapLengths := c.gapLengths ++ gapLength c.currentGapLen
        currentGapLen := 0 } := by
  have hbursts := h.bursts
  have hgap := h.gap
  have hmod : (n + 1) % 2 ^ 32 = n + 1 := Nat.mod_eq_of_lt (by omega)
  rw [foldl_append, foldl_lost_long ⟨h.1, h.2, by omega, by omega⟩ hn, foldl_cons, foldl_nil]
  simp only [step, countRun, book, if_true, Nat.add_zero, hmod]

end Counts

/-! ## Sums over regions -/

variable {packets lost n last : ℕ} {runs : List ℕ} {rs : List Region}

theorem gapLengthsOf_gapOf (packets lost : ℕ) (rs : List Region) :
    gapLengthsOf (gapOf packets lost ++ rs)
      = Counts.gapLength packets ++ gapLengthsOf rs := by
  unfold gapOf Counts.gapLength
  split <;> rfl

theorem sum_gapLengthsOf_gapOf (packets lost : ℕ) (rs : List Region) :
    (gapLengthsOf (gapOf packets lost ++ rs)).sum = packets + (gapLengthsOf rs).sum := by
  rw [gapLengthsOf_gapOf, sum_append, Counts.gapLength]
  split
  case isTrue h => rw [h, sum_nil]
  case isFalse h => rw [sum_singleton]

theorem sum_gapLengthsOf_gap (packets lost : ℕ) :
    (gapLengthsOf (gapOf packets lost)).sum = packets := by
  have hsum := sum_gapLengthsOf_gapOf packets lost []
  rw [append_nil] at hsum
  exact hsum

theorem burstLengthsOf_gapOf (packets lost : ℕ) (rs : List Region) :
    burstLengthsOf (gapOf packets lost ++ rs) = burstLengthsOf rs := by
  unfold gapOf
  split <;> rfl

theorem burstLosses_gapOf (packets lost : ℕ) (rs : List Region) :
    ((gapOf packets lost ++ rs).map Region.burstLosses).sum = (rs.map Region.burstLosses).sum := by
  unfold gapOf
  split
  · rfl
  · exact Nat.zero_add _

theorem gapLosses_gapOf (hlost : lost ≤ packets) (rs : List Region) :
    ((gapOf packets lost ++ rs).map Region.gapLosses).sum
      = lost + (rs.map Region.gapLosses).sum := by
  unfold gapOf
  split
  case isTrue h =>
    have hzero : lost = 0 := by omega
    rw [hzero, Nat.zero_add, nil_append]
  case isFalse h => rfl

theorem burstLengthsOf_burst (n : ℕ) (closed : Bool) (rs : List Region) :
    burstLengthsOf (.burst n closed :: rs) = (n + closed.toNat) :: burstLengthsOf rs := rfl

theorem gapLengthsOf_burst (n : ℕ) (closed : Bool) (rs : List Region) :
    gapLengthsOf (.burst n closed :: rs) = gapLengthsOf rs := rfl

/-! ## The loop over runs -/

/-- Packets in runs of losses, each with the packet that ends it, and a run at the end. -/
def sequenceOf (runs : List ℕ) (last : ℕ) : List Bool :=
  runs.flatMap (fun k => List.replicate k false ++ [true]) ++ List.replicate last false

theorem sequenceOf_cons (n : ℕ) (runs : List ℕ) (last : ℕ) :
    sequenceOf (n :: runs) last = (List.replicate n false ++ [true]) ++ sequenceOf runs last := by
  rw [sequenceOf, flatMap_cons, append_assoc]
  rfl

namespace Counts

variable {c : Counts}

/-- What the counters come to, from what they were and the regions behind. -/
structure Comes (c final : Counts) (packets lost : ℕ) (rs : List Region) : Prop where
  burstCount : final.burstCount = c.burstCount + (burstLengthsOf rs).length
  burstLengths : final.burstLengths = c.burstLengths ++ burstLengthsOf rs
  gapLengths : final.gapLengths = c.gapLengths ++ gapLengthsOf rs
  burstPackets : final.burstPackets = c.burstPackets + (burstLengthsOf rs).sum
  burstLost : final.burstLost = c.burstLost + (rs.map Region.burstLosses).sum
  gapPackets : final.gapPackets + packets = c.gapPackets + (gapLengthsOf rs).sum
  gapLost : final.gapLost + lost = c.gapLost + (rs.map Region.gapLosses).sum

theorem length_sequenceOf_cons (n : ℕ) (runs : List ℕ) (last : ℕ) :
    (sequenceOf (n :: runs) last).length = n + 1 + (sequenceOf runs last).length := by
  rw [sequenceOf_cons, length_append, length_append, length_replicate, length_singleton]

variable {final : Counts}

theorem Comes.refl (c : Counts) : Comes c c 0 0 [] :=
  ⟨rfl, (append_nil _).symm, (append_nil _).symm, rfl, rfl, rfl, rfl⟩

/-- Packets that were booked in the open gap. -/
theorem Comes.booked {c' : Counts} {i j : ℕ} (h : Comes c' final (packets + i) (lost + j) rs)
    (hcount : c'.burstCount = c.burstCount) (hlengths : c'.burstLengths = c.burstLengths)
    (hgaps : c'.gapLengths = c.gapLengths) (hpackets : c'.burstPackets = c.burstPackets)
    (hlost : c'.burstLost = c.burstLost) (hgapPackets : c'.gapPackets = c.gapPackets + i)
    (hgapLost : c'.gapLost = c.gapLost + j) : Comes c final packets lost rs where
  burstCount := hcount ▸ h.burstCount
  burstLengths := hlengths ▸ h.burstLengths
  gapLengths := hgaps ▸ h.gapLengths
  burstPackets := hpackets ▸ h.burstPackets
  burstLost := hlost ▸ h.burstLost
  gapPackets := by
    have hrest := h.gapPackets
    omega
  gapLost := by
    have hrest := h.gapLost
    omega

/-- A burst behind the open gap. -/
theorem Comes.burst {c' : Counts} {closed : Bool} (h : Comes c' final 0 0 rs)
    (hlost : lost ≤ packets) (hcount : c'.burstCount = c.burstCount + 1)
    (hlengths : c'.burstLengths = c.burstLengths ++ [n + closed.toNat])
    (hgaps : c'.gapLengths = c.gapLengths ++ gapLength packets)
    (hpackets : c'.burstPackets = c.burstPackets + (n + closed.toNat))
    (hburstLost : c'.burstLost = c.burstLost + n) (hgapPackets : c'.gapPackets = c.gapPackets)
    (hgapLost : c'.gapLost = c.gapLost) :
    Comes c final packets lost (gapOf packets lost ++ .burst n closed :: rs) where
  burstCount := by
    rw [h.burstCount, hcount, burstLengthsOf_gapOf, burstLengthsOf_burst, length_cons]
    omega
  burstLengths := by
    rw [h.burstLengths, hlengths, burstLengthsOf_gapOf, append_assoc]
    rfl
  gapLengths := by
    rw [h.gapLengths, hgaps, gapLengthsOf_gapOf, append_assoc]
    rfl
  burstPackets := by
    rw [h.burstPackets, hpackets, burstLengthsOf_gapOf, burstLengthsOf_burst, sum_cons]
    omega
  burstLost := by
    rw [h.burstLost, hburstLost, burstLosses_gapOf, map_cons, sum_cons, Region.burstLosses]
    omega
  gapPackets := by
    have hrest := h.gapPackets
    rw [sum_gapLengthsOf_gapOf, gapLengthsOf_burst]
    omega
  gapLost := by
    have hrest := h.gapLost
    rw [gapLosses_gapOf hlost, map_cons, sum_cons, Region.gapLosses]
    omega

theorem comes_closeGap (hlen : c.currentGapLen = packets) (hlost : lost ≤ packets) :
    Comes c c.closeGap packets lost (gapOf packets lost) := by
  rw [closeGap, gapOf, hlen]
  by_cases hzero : packets = 0
  · obtain rfl : lost = 0 := by omega
    rw [hzero, if_neg (lt_irrefl 0), if_pos rfl]
    exact .refl c
  · rw [if_pos (Nat.pos_of_ne_zero hzero), if_neg hzero]
    exact ⟨rfl, (append_nil _).symm, rfl, rfl, rfl, rfl, rfl⟩

theorem comes_finish (h : c.Between (sequenceOf runs last).length)
    (hlen : c.currentGapLen = packets) (hlost : lost ≤ packets) :
    Comes c ((sequenceOf runs last).foldl step c).finish packets lost
      (regionsOf packets lost runs last) := by
  have hbursts := h.bursts
  have hgap := h.gap
  induction runs generalizing c packets lost with
  | nil =>
    have hlength : (sequenceOf [] last).length = last := length_replicate
    rw [hlength] at h hbursts hgap
    rw [sequenceOf, flatMap_nil, nil_append, regionsOf]
    by_cases hlast : 3 ≤ last
    · rw [if_pos hlast, foldl_lost_long h hlast, hlen, finish, if_pos rfl,
        if_pos (by dsimp only; omega)]
      exact Comes.burst (.refl _) hlost rfl rfl rfl rfl rfl rfl rfl
    · rw [if_neg hlast, foldl_lost_short h (by omega), finish,
        if_neg (by rw [h.inBurst]; exact Bool.false_ne_true)]
      exact Comes.booked (comes_closeGap (by rw [hlen]) (Nat.add_le_add_right hlost last)) rfl rfl
        rfl rfl rfl rfl rfl
  | cons n runs ih =>
    rw [length_sequenceOf_cons] at h hbursts hgap
    have hrun : c.Between (n + 1) := ⟨h.1, h.2, by omega, by omega⟩
    rw [sequenceOf_cons, foldl_append, regionsOf]
    by_cases hn : 3 ≤ n
    · rw [if_pos hn, foldl_run_long hrun hn, hlen]
      refine Comes.burst (ih ⟨rfl, rfl, ?_, ?_⟩ rfl le_rfl ?_ ?_) hlost rfl rfl rfl rfl rfl rfl
        rfl <;> dsimp only <;> omega
    · rw [if_neg hn, foldl_run_short hrun (by omega), hlen]
      refine Comes.booked (i := n + 1) (j := n) (ih ⟨h.inBurst, rfl, ?_, ?_⟩ rfl (by omega) ?_ ?_)
        rfl rfl rfl rfl rfl rfl rfl <;> dsimp only <;> omega

end Counts

/-! ## The analysis -/

theorem sequenceOf_lostRuns (received : List Bool) :
    sequenceOf (lostRuns 0 received).1 (lostRuns 0 received).2 = received :=
  (lostRuns_join 0 received).symm

theorem totals_regionsOf (hlost : lost ≤ packets) (runs : List ℕ) (last : ℕ) :
    (burstLengthsOf (regionsOf packets lost runs last)).sum
          + (gapLengthsOf (regionsOf packets lost runs last)).sum
        = packets + (sequenceOf runs last).length ∧
      ((regionsOf packets lost runs last).map Region.burstLosses).sum
          + ((regionsOf packets lost runs last).map Region.gapLosses).sum
        = lost + (sequenceOf runs last).count false := by
  induction runs generalizing packets lost with
  | nil =>
    have hlength : (sequenceOf [] last).length = last := length_replicate
    have hcount : (sequenceOf [] last).count false = last := count_replicate_self
    rw [hlength, hcount, regionsOf]
    split
    · rw [burstLengthsOf_gapOf, sum_gapLengthsOf_gapOf, burstLosses_gapOf, gapLosses_gapOf hlost]
      exact ⟨Nat.add_comm last packets, Nat.add_comm last lost⟩
    · have hbursts := burstLengthsOf_gapOf (packets + last) (lost + last) []
      have hlosses := burstLosses_gapOf (packets + last) (lost + last) []
      have hgapLosses := gapLosses_gapOf (Nat.add_le_add_right hlost last) []
      rw [append_nil] at hbursts hlosses hgapLosses
      rw [hbursts, sum_gapLengthsOf_gap, hlosses, hgapLosses]
      exact ⟨Nat.zero_add _, Nat.zero_add _⟩
  | cons n runs ih =>
    have hcount : (sequenceOf (n :: runs) last).count false
        = n + (sequenceOf runs last).count false := by
      rw [sequenceOf_cons, count_append, count_append, count_replicate_self]
      rfl
    rw [Counts.length_sequenceOf_cons, hcount, regionsOf]
    split
    · obtain ⟨hpackets, hlosses⟩ := @ih 0 0 le_rfl
      rw [burstLengthsOf_gapOf, sum_gapLengthsOf_gapOf, burstLosses_gapOf, gapLosses_gapOf hlost,
        burstLengthsOf_burst, gapLengthsOf_burst, sum_cons, map_cons, sum_cons,
        map_cons, sum_cons, Region.burstLosses, Region.gapLosses, Bool.toNat_true]
      exact ⟨by omega, by omega⟩
    · obtain ⟨hpackets, hlosses⟩ := @ih (packets + n + 1) (lost + n) (by omega)
      exact ⟨by omega, by omega⟩

theorem totals_regions (received : List Bool) :
    (burstLengthsOf (regions received)).sum + (gapLengthsOf (regions received)).sum
        = received.length ∧
      ((regions received).map Region.burstLosses).sum
        + ((regions received).map Region.gapLosses).sum = received.count false := by
  have htotals := totals_regionsOf (le_refl 0) (lostRuns 0 received).1 (lostRuns 0 received).2
  rw [sequenceOf_lostRuns, Nat.zero_add, Nat.zero_add] at htotals
  exact htotals

theorem describes_of_length {received : List Bool} (h : received.length + 2 < 2 ^ 32) :
    Describes (analyzeBurstGap received) (regions received) := by
  have hstart : Counts.start.Between
      (sequenceOf (lostRuns 0 received).1 (lostRuns 0 received).2).length := by
    rw [sequenceOf_lostRuns]
    exact ⟨rfl, rfl, by change 0 + _ < _; omega, by change 0 + _ + 2 < _; omega⟩
  have hcomes := @Counts.comes_finish 0 0 _ _ .start hstart rfl le_rfl
  rw [sequenceOf_lostRuns, ← regions] at hcomes
  have htotals := (totals_regions received).1
  have hlengths : (analyzeBurstGap received).burstLengths = burstLengthsOf (regions received) :=
    hcomes.burstLengths
  have hgapLengths : (analyzeBurstGap received).gapLengths = gapLengthsOf (regions received) :=
    hcomes.gapLengths
  exact
    { burstCount := hcomes.burstCount.trans (Nat.zero_add _)
      burstLengths := hlengths
      totalBurstLen := by
        change (analyzeBurstGap received).burstLengths.sum % 2 ^ 32 = _
        rw [hlengths, Nat.mod_eq_of_lt (by omega)]
      gapLengths := hgapLengths
      totalGapLen := by
        change (analyzeBurstGap received).gapLengths.sum % 2 ^ 32 = _
        rw [hgapLengths, Nat.mod_eq_of_lt (by omega)]
      burstPackets := hcomes.burstPackets.trans (Nat.zero_add _)
      burstLost := hcomes.burstLost.trans (Nat.zero_add _)
      gapPackets := hcomes.gapPackets.trans (Nat.zero_add _)
      gapLost := hcomes.gapLost.trans (Nat.zero_add _) }

/-- Every packet and every loss is in one region, and the analysis says what the regions are. Its
lengths are numbers of 32 bits; a stream hands over at most one lap of sequence numbers. -/
theorem regions_described :
    (∀ received : List Bool, received.length + 2 < 2 ^ 32 →
      (burstLengthsOf (regions received)).sum + (gapLengthsOf (regions received)).sum
          = received.length ∧
        ((regions received).map Region.burstLosses).sum
            + ((regions received).map Region.gapLosses).sum = received.count false ∧
        Describes (analyzeBurstGap received) (regions received)) ∧
      ∀ (lostSequences : List UInt16) (lostSeqCap : ℕ) (received : List Bool),
        burstWindow lostSequences lostSeqCap = some received →
          received.length + 2 < 2 ^ 32 ∧
            burstGapAnalysis lostSequences lostSeqCap = some (analyzeBurstGap received) := by
  constructor
  · intro received h
    obtain ⟨hpackets, hlosses⟩ := totals_regions received
    exact ⟨hpackets, hlosses, describes_of_length h⟩
  · intro lostSequences lostSeqCap received h
    have hlap := length_burstWindow_le h
    rw [burstWindowSeqSpace] at hlap
    rw [burstGapAnalysis, h]
    exact ⟨by omega, rfl⟩

/-- Losses 7, 8, 9 and 11 of a stream: one burst, closed by the tenth packet, and a gap. -/
theorem regions_described_window :
    burstWindow [7, 8, 9, 11] 1000 = some [false, false, false, true, false] ∧
      regions [false, false, false, true, false] = [.burst 3 true, .gap 1 1] ∧
      Describes (analyzeBurstGap [false, false, false, true, false])
        (regions [false, false, false, true, false]) := by
  have hwindow : burstWindow [7, 8, 9, 11] 1000 = some [false, false, false, true, false] := by
    decide
  have hlength := (regions_described.2 [7, 8, 9, 11] 1000 _ hwindow).1
  exact ⟨hwindow, rfl, (regions_described.1 _ hlength).2.2⟩

end Sipnab.BurstGap
