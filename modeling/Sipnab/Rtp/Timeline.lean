import Sipnab.Lib.Crossing
import Sipnab.Lib.SerialNumber

/-!
# The RTP clock of a stream's retained audio

A frame's timestamp says where it belongs. Timestamps are read modulo `2 ^ 32` and unwrapped by
their signed difference from the one before: once in arrival order, to sort the frames, and again
in sorted order, to place them. `Timeline` fills the gap before a frame with silence while the
stream's wall clock allows it.
-/

namespace Sipnab

open List

inductive Step
  | play (fillTicks : ℕ)
  | drop
  deriving DecidableEq

structure TimelineReport where
  gaps : ℕ := 0
  filledTicks : ℕ := 0
  duplicates : ℕ := 0
  late : ℕ := 0
  jumps : ℕ := 0
  deriving DecidableEq

structure Timeline where
  clockRate : ℕ
  fill : Bool
  budgetTicks : ℕ
  lastRaw : Option (BitVec 32)
  lastExt : ℤ
  placedExt : Option ℤ
  endExt : ℤ
  report : TimelineReport
  deriving DecidableEq

def ticksToSamples (ticks clockRate rate : ℕ) : ℕ :=
  if clockRate = 0 then 0 else min (ticks * rate / clockRate) (2 ^ 64 - 1)

def samplesToTicks (samples rate clockRate : ℕ) : ℕ :=
  if rate = 0 then 0 else ticksToSamples samples rate clockRate

def ticksFromMs (ms clockRate : ℕ) : ℕ := ticksToSamples ms 1000 clockRate

/-- The signed difference unwraps: a step across `2 ^ 32` is small and positive. -/
def unwrapStamp (last : Option (BitVec 32 × ℤ)) (ts : BitVec 32) : ℤ :=
  match last with
  | some (raw, ext) => ext + (ts - raw).toInt
  | none => 0

namespace Timeline

def new (clockRate wallMs : ℕ) (fill : Bool) : Timeline where
  clockRate := clockRate
  fill := fill
  budgetTicks := ticksFromMs wallMs clockRate
  lastRaw := none
  lastExt := 0
  placedExt := none
  endExt := 0
  report := {}

def extendWall (t : Timeline) (wallMs : ℕ) : Timeline :=
  { t with budgetTicks := max t.budgetTicks (ticksFromMs wallMs t.clockRate) }

def place (t : Timeline) (ext : ℤ) : Timeline :=
  { t with placedExt := some ext, endExt := ext }

/-- Where a frame stamped `ts` lies on the unwrapped clock. -/
def extOf (t : Timeline) (ts : BitVec 32) : ℤ := unwrapStamp (t.lastRaw.map (·, t.lastExt)) ts

def step (t : Timeline) (ts : BitVec 32) : Timeline × Step :=
  let ext := t.extOf ts
  let t := { t with lastRaw := some ts, lastExt := ext }
  match t.placedExt with
  | none => (t.place ext, .play 0)
  | some placed =>
    if ext = placed then
      ({ t with report.duplicates := t.report.duplicates + 1 }, .drop)
    else if ext < t.endExt then
      ({ t with report.late := t.report.late + 1 }, .drop)
    else
      let gap := (ext - t.endExt).toNat
      let t := t.place ext
      if gap = 0 ∨ t.fill = false ∨ t.clockRate = 0 then (t, .play 0)
      else
        let total := t.report.filledTicks + gap
        if t.budgetTicks < total then
          ({ t with report.jumps := t.report.jumps + 1 }, .play 0)
        else
          ({ t with report.gaps := t.report.gaps + 1, report.filledTicks := total }, .play gap)

variable (t : Timeline) (ts : BitVec 32)

theorem step_first (h : t.placedExt = none) :
    t.step ts = ({ t with lastRaw := some ts, lastExt := t.extOf ts }.place (t.extOf ts),
      .play 0) := by
  simp [step, h]

/-- A filling timeline with a frame placed drops the next one, plays it after filling its gap, or
counts the gap as a jump. -/
theorem step_cases (hfill : t.fill = true) (hclock : t.clockRate ≠ 0) {placed : ℤ}
    (hplaced : t.placedExt = some placed) :
    ((t.extOf ts = placed ∨ t.extOf ts < t.endExt) ∧ ∃ report : TimelineReport,
      t.step ts = ({ t with lastRaw := some ts, lastExt := t.extOf ts, report }, .drop) ∧
      report.filledTicks = t.report.filledTicks) ∨
    (t.extOf ts ≠ placed ∧ t.endExt ≤ t.extOf ts ∧ ∃ (report : TimelineReport) (gap : ℕ),
      t.step ts = ({ t with lastRaw := some ts, lastExt := t.extOf ts, report }.place (t.extOf ts),
        .play gap) ∧
      report.filledTicks = t.report.filledTicks + gap ∧
      (gap = 0 ∨ t.report.filledTicks + gap ≤ t.budgetTicks) ∧
      (report.jumps = t.report.jumps ∧ gap = t.extOf ts - t.endExt ∨
        report.jumps ≠ t.report.jumps ∧ gap = 0)) := by
  unfold step
  simp only [hplaced]
  split_ifs with heq hlt hnone hover
  · exact .inl ⟨.inl heq, _, rfl, rfl⟩
  · exact .inl ⟨.inr hlt, _, rfl, rfl⟩
  · refine .inr ⟨heq, not_lt.1 hlt, t.report, 0, rfl, rfl, .inl rfl, .inl ⟨rfl, ?_⟩⟩
    simp only [place, hfill, hclock, or_false, Bool.true_eq_false] at hnone
    omega
  · exact .inr ⟨heq, not_lt.1 hlt, _, 0, rfl, rfl, .inl rfl, .inr ⟨by simp [place], rfl⟩⟩
  · refine .inr ⟨heq, not_lt.1 hlt, _, _, rfl, rfl, .inr (not_lt.1 hover), .inl ⟨rfl, ?_⟩⟩
    omega

def played (t : Timeline) (ticks : ℕ) : Timeline :=
  { t with endExt := t.placedExt.getD 0 + ticks }

end Timeline

/-- The stamps unwrapped one against the other, in arrival order. -/
def unwrapAll (last : Option (BitVec 32 × ℤ)) : List (BitVec 32) → List ℤ
  | [] => []
  | ts :: stamps =>
    unwrapStamp last ts :: unwrapAll (some (ts, unwrapStamp last ts)) stamps

def timestampOrder (stamps : List (BitVec 32)) : List ℕ :=
  ((unwrapAll none stamps).zipIdx.mergeSort (fun a b => a.1 ≤ b.1)).map Prod.snd

theorem length_unwrapAll (stamps : List (BitVec 32)) :
    ∀ last, (unwrapAll last stamps).length = stamps.length := by
  induction stamps with
  | nil => simp [unwrapAll]
  | cons ts stamps ih => simp [unwrapAll, ih]

theorem lt_length_of_mem_timestampOrder {stamps : List (BitVec 32)} {i : ℕ}
    (h : i ∈ timestampOrder stamps) : i < stamps.length := by
  obtain ⟨e, he, rfl⟩ := List.mem_map.1 h
  obtain ⟨hlt, -⟩ := mem_zipIdx' ((mergeSort_perm _ _).mem_iff.1 he)
  rwa [length_unwrapAll] at hlt

/-! ### Unwrapping -/

/-- StampsNear in the sense that lets a 32-bit stamp be unwrapped. -/
def StampsNear (a b : ℤ) : Prop := |b - a| < 2 ^ 31

theorem unwrapStamp_of_near {a b : ℤ} (h : StampsNear a b) (ext : ℤ) :
    unwrapStamp (some (BitVec.ofInt 32 a, ext)) (BitVec.ofInt 32 b) = ext + (b - a) := by
  rw [StampsNear, abs_lt] at h
  have hdiff : (BitVec.ofInt 32 b - BitVec.ofInt 32 a).toInt = b - a := by
    rw [ofInt_sub_ofInt, BitVec.toInt_ofInt]
    apply Int.bmod_eq_of_le <;> omega
  rw [unwrapStamp, hdiff]

theorem unwrapAll_of_near (stamps : List ℤ) :
    ∀ {t ext : ℤ}, (t :: stamps).IsChain StampsNear →
      unwrapAll (some (BitVec.ofInt 32 t, ext)) (stamps.map (BitVec.ofInt 32)) =
        stamps.map (fun s => ext + (s - t)) := by
  induction stamps with
  | nil =>
    intro t ext _
    rfl
  | cons s stamps ih =>
    intro t ext h
    obtain ⟨hts, hrest⟩ := isChain_cons_cons.1 h
    have hs := unwrapStamp_of_near hts ext
    rw [map_cons, unwrapAll, hs, ih hrest, map_cons]
    congr 1
    apply map_congr_left
    intro x _
    omega

variable {stamps : List ℤ}

theorem unwrapAll_none_of_near {t : ℤ} (h : (t :: stamps).IsChain StampsNear) :
    unwrapAll none ((t :: stamps).map (BitVec.ofInt 32)) = (t :: stamps).map (· - t) := by
  rw [map_cons, unwrapAll, unwrapStamp, unwrapAll_of_near stamps h, map_cons]
  simp

/-! ### The order frames are placed in -/

def inOrder (stamps : List ℤ) : List ℤ :=
  (timestampOrder (stamps.map (BitVec.ofInt 32))).map (stamps.getD · 0)

theorem mem_zipIdx_unwrapAll {t : ℤ} (h : (t :: stamps).IsChain StampsNear) {e : ℤ × ℕ}
    (he : e ∈ (unwrapAll none ((t :: stamps).map (BitVec.ofInt 32))).zipIdx) :
    (t :: stamps).getD e.2 0 = e.1 + t := by
  rw [unwrapAll_none_of_near h] at he
  obtain ⟨hlt, hget⟩ := mem_zipIdx' he
  simp only [length_map] at hlt
  rw [getElem_map] at hget
  rw [getD_eq_getElem _ _ hlt, hget]
  omega

theorem inOrder_eq {t : ℤ} (h : (t :: stamps).IsChain StampsNear) :
    inOrder (t :: stamps) =
      ((unwrapAll none ((t :: stamps).map (BitVec.ofInt 32))).zipIdx.mergeSort
        (fun a b => a.1 ≤ b.1)).map (fun e => e.1 + t) := by
  rw [inOrder, timestampOrder, List.map_map]
  apply map_congr_left
  intro e he
  exact mem_zipIdx_unwrapAll h ((mergeSort_perm _ _).mem_iff.1 he)

theorem perm_inOrder (h : stamps.IsChain StampsNear) : (inOrder stamps).Perm stamps := by
  cases stamps with
  | nil => simp [inOrder, timestampOrder, unwrapAll]
  | cons t stamps =>
    rw [inOrder_eq h]
    refine ((mergeSort_perm _ _).map _).trans (List.Perm.of_eq ?_)
    have hfst : (fun e : ℤ × ℕ => e.1 + t) = (· + t) ∘ Prod.fst := rfl
    rw [hfst, ← List.map_map, zipIdx_map_fst, unwrapAll_none_of_near h, List.map_map]
    simp [Function.comp_def]

theorem pairwise_inOrder (h : stamps.IsChain StampsNear) : (inOrder stamps).Pairwise (· ≤ ·) := by
  cases stamps with
  | nil => simp [inOrder, timestampOrder, unwrapAll]
  | cons t stamps =>
    rw [inOrder_eq h, pairwise_map]
    refine (pairwise_mergeSort ?_ ?_ _).imp ?_
    · intro a b c hab hbc
      simp only [decide_eq_true_eq] at hab hbc ⊢
      exact hab.trans hbc
    · intro a b
      simpa using le_total a.1 b.1
    · intro a b hab
      simpa using hab

theorem isChain_inOrder (h : stamps.IsChain StampsNear) :
    (inOrder stamps).IsChain (fun a b => a ≤ b ∧ b - a < 2 ^ 31) :=
  Crossing.isChain_sorted (by decide) h (perm_inOrder h) (pairwise_inOrder h)

end Sipnab
