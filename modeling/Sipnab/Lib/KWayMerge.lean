import Mathlib

/-!
# Merging several queues by their fronts

`mergeLanes` repeatedly takes the earliest front among its lanes, the first lane on a tie. It
keeps every element, and when each lane is in order so is the result. `share` is the other way
round: what a list dealt out by index gives each index.
-/

namespace Sipnab

open List Option

variable {α ℓ : Type*} [LinearOrder ℓ]

def popEarliest (pos : α → ℓ) : List (List α) → Option (α × List (List α))
  | [] => none
  | [] :: lanes => (popEarliest pos lanes).map (fun p => (p.1, [] :: p.2))
  | (a :: lane) :: lanes =>
    match popEarliest pos lanes with
    | none => some (a, lane :: lanes)
    | some (b, rest) => if pos b < pos a then some (b, (a :: lane) :: rest)
        else some (a, lane :: lanes)

def popAll (pos : α → ℓ) : ℕ → List (List α) → List α
  | 0, _ => []
  | fuel + 1, lanes =>
    match popEarliest pos lanes with
    | none => []
    | some (a, rest) => a :: popAll pos fuel rest

def mergeLanes (pos : α → ℓ) (lanes : List (List α)) : List α :=
  popAll pos (lanes.map List.length).sum lanes

variable {pos : α → ℓ}

theorem popEarliest_eq_none {lanes : List (List α)} (h : popEarliest pos lanes = none) :
    lanes.flatten = [] := by
  induction lanes with
  | nil => rfl
  | cons lane lanes ih =>
    cases lane with
    | nil => simpa using ih (map_eq_none_iff.mp h)
    | cons a lane =>
      rw [popEarliest] at h
      split at h
      · cases h
      · split_ifs at h

variable {a : α} {rest : List (List α)} (fuel : ℕ) (assign : α → ℕ) (lanes : List (List α))
  (xs : List α)

theorem popEarliest_cases {lanes : List (List α)} (h : popEarliest pos lanes = some (a, rest)) :
    ∃ before lane after,
    lanes = before ++ (a :: lane) :: after ∧ rest = before ++ lane :: after ∧
      ∀ l ∈ lanes, ∀ b ∈ l.head?, pos a ≤ pos b := by
  induction lanes generalizing a rest with
  | nil => cases h
  | cons lane lanes ih =>
    cases lane with
    | nil =>
      obtain ⟨⟨b, rest'⟩, hpop, heq⟩ := map_eq_some_iff.mp h
      obtain ⟨rfl, rfl⟩ := Prod.mk.inj heq
      obtain ⟨before, lane, after, rfl, rfl, hleast⟩ := ih hpop
      refine ⟨[] :: before, lane, after, rfl, rfl, ?_⟩
      rw [forall_mem_cons]
      exact ⟨fun b hb => absurd hb (not_mem_none b), hleast⟩
    | cons x lane =>
      rw [popEarliest] at h
      cases hpop : popEarliest pos lanes with
      | none =>
        rw [hpop] at h
        obtain ⟨rfl, rfl⟩ := Prod.mk.inj (some.inj h)
        refine ⟨[], lane, lanes, rfl, rfl, ?_⟩
        rw [forall_mem_cons]
        refine ⟨fun b hb => le_of_eq (by rw [some.inj hb]), ?_⟩
        intro l hl b hb
        have hmem : b ∈ lanes.flatten := mem_flatten.mpr ⟨l, hl, mem_of_mem_head? hb⟩
        rw [popEarliest_eq_none hpop] at hmem
        exact absurd hmem not_mem_nil
      | some p =>
        obtain ⟨y, rest'⟩ := p
        rw [hpop] at h
        obtain ⟨before, lane', after, hlanes, hrest, hleast⟩ := ih hpop
        dsimp only at h
        split_ifs at h with hlt
        · obtain ⟨rfl, rfl⟩ := Prod.mk.inj (some.inj h)
          refine ⟨(x :: lane) :: before, lane', after, by rw [hlanes]; rfl, by rw [hrest]; rfl, ?_⟩
          rw [forall_mem_cons]
          refine ⟨fun b hb => ?_, hleast⟩
          rw [← some.inj hb]
          exact hlt.le
        · obtain ⟨rfl, rfl⟩ := Prod.mk.inj (some.inj h)
          refine ⟨[], lane, lanes, rfl, rfl, ?_⟩
          rw [forall_mem_cons]
          refine ⟨fun b hb => le_of_eq (by rw [some.inj hb]), ?_⟩
          intro l hl b hb
          exact (not_lt.mp hlt).trans (hleast l hl b hb)

/-- What one pop takes and leaves: nothing is lost, no front left is earlier, and lanes in order
stay in order. -/
theorem popEarliest_spec {lanes : List (List α)} (h : popEarliest pos lanes = some (a, rest)) :
    lanes.flatten.Perm (a :: rest.flatten) ∧
      ((∀ lane ∈ lanes, lane.Pairwise (pos · ≤ pos ·)) →
        (∀ lane ∈ rest, lane.Pairwise (pos · ≤ pos ·)) ∧ ∀ b ∈ rest.flatten, pos a ≤ pos b) := by
  obtain ⟨before, lane, after, rfl, rfl, hleast⟩ := popEarliest_cases h
  have hperm : (before ++ (a :: lane) :: after).flatten.Perm
      (a :: (before ++ lane :: after).flatten) := by
    rw [flatten_append, flatten_cons, flatten_append, flatten_cons]
    exact perm_middle
  refine ⟨hperm, ?_⟩
  intro hlanes
  constructor
  · intro l hl
    rcases mem_append.mp hl with hl | hl
    · exact hlanes l (mem_append_left _ hl)
    · rcases mem_cons.mp hl with rfl | hl
      · have hown := hlanes (a :: l) (mem_append_right _ mem_cons_self)
        exact (pairwise_cons.mp hown).2
      · exact hlanes l (mem_append_right _ (mem_cons_of_mem _ hl))
  · intro b hb
    have hmem := hperm.mem_iff.mpr (mem_cons_of_mem a hb)
    obtain ⟨l, hl, hbl⟩ := mem_flatten.mp hmem
    -- a lane in order starts with its least element
    cases l with
    | nil => exact absurd hbl not_mem_nil
    | cons x l =>
      have hfront := hleast (x :: l) hl x rfl
      rcases mem_cons.mp hbl with rfl | hbl
      · exact hfront
      · exact hfront.trans ((pairwise_cons.mp (hlanes _ hl)).1 b hbl)

theorem popAll_perm (hfuel : lanes.flatten.length ≤ fuel) :
    (popAll pos fuel lanes).Perm lanes.flatten := by
  induction fuel generalizing lanes with
  | zero =>
    have hnil : lanes.flatten = [] := length_eq_zero_iff.mp (Nat.le_zero.mp hfuel)
    rw [hnil]
    exact List.Perm.refl []
  | succ fuel ih =>
    rw [popAll]
    cases hpop : popEarliest pos lanes with
    | none => rw [popEarliest_eq_none hpop]
    | some p =>
      obtain ⟨a, rest⟩ := p
      have hperm := (popEarliest_spec hpop).1
      have hlength : lanes.flatten.length = rest.flatten.length + 1 := hperm.length_eq
      exact ((ih rest (by omega)).cons a).trans hperm.symm

theorem popAll_pairwise (hfuel : lanes.flatten.length ≤ fuel)
    (hlanes : ∀ lane ∈ lanes, lane.Pairwise (pos · ≤ pos ·)) :
    (popAll pos fuel lanes).Pairwise (pos · ≤ pos ·) := by
  induction fuel generalizing lanes with
  | zero => exact List.Pairwise.nil
  | succ fuel ih =>
    rw [popAll]
    cases hpop : popEarliest pos lanes with
    | none => exact List.Pairwise.nil
    | some p =>
      obtain ⟨a, rest⟩ := p
      obtain ⟨hperm, hsorted⟩ := popEarliest_spec hpop
      have hlength : lanes.flatten.length = rest.flatten.length + 1 := hperm.length_eq
      obtain ⟨hrest, hleast⟩ := hsorted hlanes
      refine pairwise_cons.mpr ⟨fun b hb => ?_, ih rest (by omega) hrest⟩
      exact hleast b ((popAll_perm fuel rest (by omega)).mem_iff.mp hb)

theorem mergeLanes_perm : (mergeLanes pos lanes).Perm lanes.flatten :=
  popAll_perm _ lanes length_flatten.le

theorem mergeLanes_pairwise (hlanes : ∀ lane ∈ lanes, lane.Pairwise (pos · ≤ pos ·)) :
    (mergeLanes pos lanes).Pairwise (pos · ≤ pos ·) :=
  popAll_pairwise _ lanes length_flatten.le hlanes

def share (assign : α → ℕ) (xs : List α) (i : ℕ) : List α := xs.filter (fun x => assign x = i)

theorem share_subset (i : ℕ) : share assign xs i ⊆ xs :=
  filter_sublist.subset

theorem shares_perm (n : ℕ) (h : ∀ x ∈ xs, assign x < n) :
    ((List.range n).map (share assign xs)).flatten.Perm xs := by
  have hbelow : ∀ n, ((List.range n).map (share assign xs)).flatten.Perm
      (xs.filter (fun x => assign x < n)) := by
    intro n
    induction n with
    | zero => simp
    | succ n ih =>
      have hlow : xs.filter (fun x => assign x < n) =
          (xs.filter (fun x => assign x < n + 1)).filter (fun x => decide (assign x < n)) := by
        rw [List.filter_filter]
        refine filter_congr (fun x _ => ?_)
        rw [← Bool.decide_and]
        exact decide_eq_decide.mpr (by omega)
      have hlast : share assign xs n =
          (xs.filter (fun x => assign x < n + 1)).filter (fun x => !decide (assign x < n)) := by
        rw [share, List.filter_filter]
        refine filter_congr (fun x _ => ?_)
        rw [← decide_not, ← Bool.decide_and]
        exact decide_eq_decide.mpr (by omega)
      rw [range_succ, map_append, flatten_append, map_singleton, flatten_singleton]
      refine (List.Perm.append_right _ ih).trans ?_
      rw [hlow, hlast]
      exact filter_append_perm _ _
  refine (hbelow n).trans (List.Perm.of_eq ?_)
  exact filter_eq_self.mpr (fun x hx => by simpa using h x hx)

end Sipnab
