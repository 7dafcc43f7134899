import Mathlib

/-!
# Cutting a stream at its front

A rule says where the first item of a stream ends, if all of it is there. Items are cut off one after
the other, and what is left waits for more. If the rule never revises an answer, the items are the
same for every way in which the stream arrives.
-/

namespace Sipnab

open List

variable {α : Type*} (cut : List α → Option ℕ)

/-- An item is not empty and lies in the data, and more data does not move its end. -/
structure FrontCut : Prop where
  pos : ∀ {data : List α} {n : ℕ}, cut data = some n → 0 < n
  le : ∀ {data : List α} {n : ℕ}, cut data = some n → n ≤ data.length
  stable : ∀ {data : List α} {n : ℕ} (more : List α), cut data = some n →
    cut (data ++ more) = some n

/-- The ranges of the items and where what is left starts, in a bounded number of rounds. -/
def cutLoop : ℕ → ℕ → List α → List (ℕ × ℕ) × ℕ
  | 0, pos, _ => ([], pos)
  | rounds + 1, pos, rest =>
    match cut rest with
    | none => ([], pos)
    | some n =>
      let (ranges, consumed) := cutLoop rounds (pos + n) (rest.drop n)
      ((pos, pos + n) :: ranges, consumed)

def cutFront (data : List α) : List (ℕ × ℕ) × ℕ := cutLoop cut data.length 0 data

def shiftRange (k : ℕ) (r : ℕ × ℕ) : ℕ × ℕ := (k + r.1, k + r.2)

theorem map_shiftRange_zero (ranges : List (ℕ × ℕ)) : ranges.map (shiftRange 0) = ranges := by
  conv_rhs => rw [← List.map_id ranges]
  refine map_congr_left (fun r _ => ?_)
  simp [shiftRange]

theorem map_shiftRange_shiftRange (j k : ℕ) (ranges : List (ℕ × ℕ)) :
    (ranges.map (shiftRange k)).map (shiftRange j) = ranges.map (shiftRange (j + k)) := by
  rw [List.map_map]
  refine map_congr_left (fun r _ => ?_)
  simp [shiftRange, Nat.add_assoc]

def sliceAt (data : List α) (r : ℕ × ℕ) : List α := (data.take r.2).drop r.1

theorem sliceAt_append_of_le {data more : List α} {r : ℕ × ℕ} (h : r.2 ≤ data.length) :
    sliceAt (data ++ more) r = sliceAt data r := by
  rw [sliceAt, sliceAt, take_append_of_le_length h]

theorem sliceAt_shiftRange (data : List α) (k : ℕ) (r : ℕ × ℕ) :
    sliceAt data (shiftRange k r) = sliceAt (data.drop k) r := by
  rw [sliceAt, sliceAt, shiftRange, ← drop_drop, drop_take]
  congr 2
  omega

def Contiguous : ℕ → List (ℕ × ℕ) → ℕ → Prop
  | start, [], stop => start = stop
  | start, r :: rest, stop => r.1 = start ∧ start < r.2 ∧ Contiguous r.2 rest stop

theorem Contiguous.shift {start stop : ℕ} {ranges : List (ℕ × ℕ)} (k : ℕ)
    (h : Contiguous start ranges stop) :
    Contiguous (k + start) (ranges.map (shiftRange k)) (k + stop) := by
  induction ranges generalizing start with
  | nil => exact congrArg (k + ·) h
  | cons r rest ih =>
    obtain ⟨hstart, hlt, hrest⟩ := h
    exact ⟨congrArg (k + ·) hstart, Nat.add_lt_add_left hlt k, ih hrest⟩

theorem Contiguous.le_stop {start stop : ℕ} {ranges : List (ℕ × ℕ)}
    (h : Contiguous start ranges stop) : start ≤ stop ∧ ∀ r ∈ ranges, r.2 ≤ stop := by
  induction ranges generalizing start with
  | nil => exact ⟨Nat.le_of_eq h, fun r hr => absurd hr not_mem_nil⟩
  | cons r rest ih =>
    obtain ⟨-, hlt, hrest⟩ := h
    obtain ⟨hle, hall⟩ := ih hrest
    refine ⟨by omega, fun s hs => ?_⟩
    rcases mem_cons.mp hs with rfl | hs
    · exact hle
    · exact hall s hs

/-- The items that are cut while a stream arrives in pieces, and what waits at the end: what is left
of each piece is put in front of the next one. -/
def cutPieces (held : List α) : List (List α) → List (List α) × List α
  | [] => ([], held)
  | piece :: rest =>
    let data := held ++ piece
    let (ranges, consumed) := cutFront cut data
    let (items, left) := cutPieces (data.drop consumed) rest
    (ranges.map (sliceAt data) ++ items, left)

theorem cutLoop_shift (rounds k pos : ℕ) (rest : List α) :
    cutLoop cut rounds (k + pos) rest = ((cutLoop cut rounds pos rest).1.map (shiftRange k),
      k + (cutLoop cut rounds pos rest).2) := by
  induction rounds generalizing pos rest with
  | zero => rfl
  | succ rounds ih =>
    rw [cutLoop, cutLoop]
    cases cut rest with
    | none => rfl
    | some n =>
      dsimp only
      rw [Nat.add_assoc k pos n, ih (pos + n) (rest.drop n)]
      rfl

variable {cut}

section

variable (hcut : FrontCut cut)

include hcut

theorem cut_nil : cut [] = none := by
  cases hnone : cut [] with
  | none => rfl
  | some n => exact absurd (hcut.le hnone) (Nat.not_le.mpr (hcut.pos hnone))

omit hcut in
theorem cutLoop_of_none {rest : List α} (h : cut rest = none) (rounds pos : ℕ) :
    cutLoop cut rounds pos rest = ([], pos) := by
  cases rounds with
  | zero => rfl
  | succ rounds => rw [cutLoop, h]

theorem cutLoop_rounds {rounds rounds' : ℕ} (pos : ℕ) {rest : List α} (h : rest.length ≤ rounds)
    (h' : rest.length ≤ rounds') : cutLoop cut rounds pos rest = cutLoop cut rounds' pos rest := by
  induction rounds generalizing rounds' pos rest with
  | zero =>
    obtain rfl := length_eq_zero_iff.mp (Nat.le_zero.mp h)
    rw [cutLoop_of_none (cut_nil hcut), cutLoop_of_none (cut_nil hcut)]
  | succ rounds ih =>
    cases rounds' with
    | zero =>
      obtain rfl := length_eq_zero_iff.mp (Nat.le_zero.mp h')
      rw [cutLoop_of_none (cut_nil hcut), cutLoop_of_none (cut_nil hcut)]
    | succ rounds' =>
      rw [cutLoop, cutLoop]
      cases hn : cut rest with
      | none => rfl
      | some n =>
        have hpos := hcut.pos hn
        have hdrop : (rest.drop n).length = rest.length - n := length_drop
        have hrest := ih (pos + n) (show (rest.drop n).length ≤ rounds by omega)
          (show (rest.drop n).length ≤ rounds' by omega)
        dsimp only
        rw [hrest]

omit hcut in
theorem cutFront_of_none {data : List α} (h : cut data = none) : cutFront cut data = ([], 0) :=
  cutLoop_of_none h data.length 0

theorem cutFront_of_some {data : List α} {n : ℕ} (h : cut data = some n) :
    cutFront cut data = ((0, n) :: (cutFront cut (data.drop n)).1.map (shiftRange n),
      n + (cutFront cut (data.drop n)).2) := by
  have hpos := hcut.pos h
  have hle := hcut.le h
  have hdrop : (data.drop n).length = data.length - n := length_drop
  obtain ⟨m, hm⟩ : ∃ m, data.length = m + 1 := ⟨data.length - 1, by omega⟩
  have hrounds := cutLoop_rounds hcut (0 + n) (show (data.drop n).length ≤ m by omega)
    (Nat.le_refl (data.drop n).length)
  rw [cutFront, hm, cutLoop, h]
  dsimp only
  rw [hrounds, Nat.add_comm 0 n, cutLoop_shift]
  rfl

theorem contiguous_cutFront (data : List α) :
    Contiguous 0 (cutFront cut data).1 (cutFront cut data).2 ∧
      (cutFront cut data).2 ≤ data.length ∧ cut (data.drop (cutFront cut data).2) = none := by
  induction hlength : data.length using Nat.strongRecOn generalizing data with
  | ind length ih =>
    cases h : cut data with
    | none =>
      rw [cutFront_of_none h]
      exact ⟨rfl, Nat.zero_le _, h⟩
    | some n =>
      have hpos := hcut.pos h
      have hle := hcut.le h
      have hdrop : (data.drop n).length = data.length - n := length_drop
      obtain ⟨hranges, hconsumed, hnone⟩ := ih _ (by omega) (data.drop n) rfl
      rw [cutFront_of_some hcut h]
      refine ⟨⟨rfl, hpos, hranges.shift n⟩, ?_, ?_⟩
      · dsimp only
        omega
      · rwa [← drop_drop]

/-- What is cut of the first part of a stream stays cut, and what it leaves is cut with the rest. -/
theorem cutFront_append (data more : List α) :
    cutFront cut (data ++ more) =
      ((cutFront cut data).1 ++ (cutFront cut (data.drop (cutFront cut data).2 ++ more)).1.map
          (shiftRange (cutFront cut data).2),
        (cutFront cut data).2 + (cutFront cut (data.drop (cutFront cut data).2 ++ more)).2) := by
  induction hlength : data.length using Nat.strongRecOn generalizing data with
  | ind length ih =>
    cases h : cut data with
    | none =>
      rw [cutFront_of_none h]
      simp only [drop_zero, map_shiftRange_zero, nil_append, Nat.zero_add]
    | some n =>
      have hpos := hcut.pos h
      have hle := hcut.le h
      have hdrop : (data.drop n).length = data.length - n := length_drop
      rw [cutFront_of_some hcut (hcut.stable more h), drop_append_of_le_length hle,
        ih _ (by omega) (data.drop n) rfl, cutFront_of_some hcut h]
      simp only [map_append, map_shiftRange_shiftRange, cons_append, drop_drop, Nat.add_assoc]

theorem cutPieces_eq {held : List α} (hheld : cut held = none) (pieces : List (List α)) :
    cutPieces cut held pieces =
      ((cutFront cut (held ++ pieces.flatten)).1.map (sliceAt (held ++ pieces.flatten)),
        (held ++ pieces.flatten).drop (cutFront cut (held ++ pieces.flatten)).2) := by
  induction pieces generalizing held with
  | nil =>
    rw [flatten_nil, append_nil, cutFront_of_none hheld]
    rfl
  | cons piece rest ih =>
    obtain ⟨hranges, hconsumed, hnone⟩ := contiguous_cutFront hcut (held ++ piece)
    set data := held ++ piece with hdata
    set consumed := (cutFront cut data).2
    have hwhole : held ++ (piece :: rest).flatten = data ++ rest.flatten := by
      rw [flatten_cons, hdata, append_assoc]
    have hdrop : (data ++ rest.flatten).drop consumed = data.drop consumed ++ rest.flatten :=
      drop_append_of_le_length hconsumed
    rw [cutPieces, hwhole, cutFront_append hcut data rest.flatten]
    dsimp only
    rw [ih hnone, map_append, List.map_map, ← drop_drop, hdrop]
    refine Prod.ext (congrArg₂ (· ++ ·) ?_ ?_) rfl
    · refine map_congr_left (fun r hr => ?_)
      exact (sliceAt_append_of_le (Nat.le_trans (hranges.le_stop.2 r hr) hconsumed)).symm
    · refine map_congr_left (fun r _ => ?_)
      rw [Function.comp_apply, sliceAt_shiftRange, hdrop]

end

end Sipnab
