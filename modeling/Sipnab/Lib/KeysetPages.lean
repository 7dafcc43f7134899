import Mathlib

/-!
# Pages behind a key

A list is read in pages: sorted by a key, cut at a limit, and read on with what has a greater key
than the last one read. Elements with that same key are not read on, so a page must not end between
two of them.
-/

namespace Sipnab.KeysetPages

open List

variable {α κ : Type*} [LinearOrder κ] (key : α → κ)

def sortByKey (xs : List α) : List α := xs.mergeSort (fun a b => decide (key a ≤ key b))

def page (limit : ℕ) (xs : List α) : List α := (sortByKey key xs).take limit

def behind (c : κ) (xs : List α) : List α := xs.filter (fun x => decide (c < key x))

def sortedKeys (xs : List α) : List κ := (xs.map key).mergeSort (fun a b => decide (a ≤ b))

variable {limit : ℕ} (xs : List α)

theorem perm_sortByKey : (sortByKey key xs).Perm xs := mergeSort_perm _ _

theorem pairwise_sortByKey : (sortByKey key xs).Pairwise (fun a b => key a ≤ key b) := by
  have hsorted : (sortByKey key xs).Pairwise (fun a b => decide (key a ≤ key b) = true) := by
    refine pairwise_mergeSort ?_ ?_ xs
    · intro a b c hab hbc
      rw [decide_eq_true_eq] at hab hbc ⊢
      exact hab.trans hbc
    · intro a b
      rw [Bool.or_eq_true, decide_eq_true_eq, decide_eq_true_eq]
      exact le_total _ _
  exact hsorted.imp (fun h => of_decide_eq_true h)

theorem map_sortByKey : (sortByKey key xs).map key = sortedKeys key xs :=
  map_mergeSort (fun _ _ _ _ => rfl)

theorem pairwise_sortedKeys : (sortedKeys key xs).Pairwise (· ≤ ·) := by
  rw [← map_sortByKey, pairwise_map]
  exact pairwise_sortByKey key xs

theorem sortedKeys_eq_of_perm {xs ys : List α} (hperm : xs.Perm ys)
    (hsorted : ys.Pairwise (fun a b => key a ≤ key b)) : sortedKeys key xs = ys.map key := by
  have hkeys : (sortedKeys key xs).Perm (ys.map key) := (mergeSort_perm _ _).trans (hperm.map key)
  exact hkeys.eq_of_pairwise (fun a b _ _ hab hba => le_antisymm hab hba)
    (pairwise_sortedKeys key xs) (pairwise_map.mpr hsorted)

theorem mem_of_getLast?_page {xs : List α} {last : α}
    (h : (page key limit xs).getLast? = some last) : last ∈ xs :=
  (perm_sortByKey key xs).subset (mem_of_mem_take (mem_of_getLast? h))

theorem length_behind_lt {xs : List α} {x : α} (h : x ∈ xs) :
    (behind key (key x) xs).length < xs.length := by
  rw [behind]
  refine length_filter_lt_length_iff_exists.mpr ⟨x, h, ?_⟩
  simp

def visitAll (limit : ℕ) (xs : List α) : List α :=
  match h : (page key limit xs).getLast? with
  | none => []
  | some last => page key limit xs ++ visitAll limit (behind key (key last) xs)
termination_by xs.length
decreasing_by exact length_behind_lt key (mem_of_getLast?_page key h)

section Visit

variable {key} {limit : ℕ} {xs : List α} {last : α}

theorem visitAll_of_none (h : (page key limit xs).getLast? = none) : visitAll key limit xs = [] := by
  rw [visitAll]
  split
  · rfl
  · rename_i hsome
    rw [h] at hsome
    cases hsome

theorem visitAll_of_some (h : (page key limit xs).getLast? = some last) :
    visitAll key limit xs = page key limit xs ++ visitAll key limit (behind key (key last) xs) := by
  rw [visitAll]
  split
  · rename_i hnone
    rw [h] at hnone
    cases hnone
  · rename_i other hother
    rw [h] at hother
    rw [Option.some.inj hother]

theorem exists_rest (h : (page key limit xs).getLast? = some last) :
    ∃ rest, sortByKey key xs = page key limit xs ++ rest ∧
      (∀ x ∈ page key limit xs, key x ≤ key last) ∧ (∀ x ∈ rest, key last ≤ key x) ∧
      rest.Pairwise (fun a b => key a ≤ key b) ∧
      (behind key (key last) xs).Perm (rest.filter (fun x => decide (key last < key x))) := by
  have hsplit : sortByKey key xs = page key limit xs ++ (sortByKey key xs).drop limit :=
    (take_append_drop limit _).symm
  have hsorted := pairwise_sortByKey key xs
  rw [hsplit, pairwise_append] at hsorted
  obtain ⟨hpage, hrest, hcross⟩ := hsorted
  have hmem : last ∈ page key limit xs := mem_of_getLast? h
  have hle : ∀ x ∈ page key limit xs, key x ≤ key last := by
    intro x hx
    obtain ⟨front, hfront⟩ := List.getLast?_eq_some_iff.mp h
    rw [hfront] at hx hpage
    rcases mem_append.mp hx with hfirst | hlast
    · exact (pairwise_append.mp hpage).2.2 x hfirst last (by simp)
    · rw [mem_singleton.mp hlast]
  refine ⟨_, hsplit, hle, fun x hx => hcross last hmem x hx, hrest, ?_⟩
  have hnone : (page key limit xs).filter (fun x => decide (key last < key x)) = [] := by
    rw [filter_eq_nil_iff]
    intro x hx
    rw [decide_eq_true_eq]
    exact not_lt.mpr (hle x hx)
  have hperm := ((perm_sortByKey key xs).filter (fun x => decide (key last < key x))).symm
  rw [hsplit, filter_append, hnone, nil_append] at hperm
  exact hperm

end Visit

theorem pairwise_visitAll (limit : ℕ) (xs : List α) :
    (visitAll key limit xs).Pairwise (fun a b => key a ≤ key b) ∧
      ∀ x ∈ visitAll key limit xs, x ∈ xs := by
  induction hlength : xs.length using Nat.strongRecOn generalizing xs with
  | ind length ih =>
    cases hlast : (page key limit xs).getLast? with
    | none =>
      rw [visitAll_of_none hlast]
      exact ⟨List.Pairwise.nil, fun x hx => by cases hx⟩
    | some last =>
      have hshorter := length_behind_lt key (mem_of_getLast?_page key hlast)
      obtain ⟨hsorted, hsub⟩ := ih _ (hlength ▸ hshorter) (behind key (key last) xs) rfl
      obtain ⟨rest, hsplit, hle, -, -, -⟩ := exists_rest hlast
      have hpage := pairwise_sortByKey key xs
      rw [hsplit, pairwise_append] at hpage
      rw [visitAll_of_some hlast]
      constructor
      · refine pairwise_append.mpr ⟨hpage.1, hsorted, ?_⟩
        intro a ha b hb
        have hgreater := (mem_filter.mp (hsub b hb)).2
        exact (hle a ha).trans (of_decide_eq_true hgreater).le
      · intro x hx
        rcases mem_append.mp hx with hfirst | hlater
        · exact (perm_sortByKey key xs).subset (mem_of_mem_take hfirst)
        · exact (mem_filter.mp (hsub x hlater)).1

theorem length_visitAll_le (limit : ℕ) (xs : List α) :
    (visitAll key limit xs).length ≤ xs.length := by
  induction hlength : xs.length using Nat.strongRecOn generalizing xs with
  | ind length ih =>
    cases hlast : (page key limit xs).getLast? with
    | none =>
      rw [visitAll_of_none hlast]
      exact Nat.zero_le _
    | some last =>
      have hshorter := length_behind_lt key (mem_of_getLast?_page key hlast)
      have hlater := ih _ (hlength ▸ hshorter) (behind key (key last) xs) rfl
      obtain ⟨rest, hsplit, -, -, -, hbehind⟩ := exists_rest hlast
      have hall := (perm_sortByKey key xs).length_eq
      rw [hsplit, length_append] at hall
      have hfilter := length_filter_le (fun x => decide (key last < key x)) rest
      rw [← hbehind.length_eq] at hfilter
      rw [visitAll_of_some hlast, length_append]
      omega

/-! ## Where nothing is left out -/

/-- Where a page ends, the keys on both sides of the end differ. -/
def PageEndsApart (limit : ℕ) (keys : List κ) : Prop :=
  ∀ k c, keys[(k + 1) * limit]? = some c → keys[(k + 1) * limit - 1]? ≠ some c

omit [LinearOrder κ] in
theorem pageEndsApart_drop (hlimit : 0 < limit) (keys : List κ) :
    PageEndsApart limit keys ↔
      (∀ c, keys[limit]? = some c → keys[limit - 1]? ≠ some c) ∧
        PageEndsApart limit (keys.drop limit) := by
  have hshift (k : ℕ) : (k + 1 + 1) * limit = limit + (k + 1) * limit := by ring
  have hpos (k : ℕ) : 0 < (k + 1) * limit := Nat.mul_pos (Nat.succ_pos k) hlimit
  constructor
  · intro h
    refine ⟨fun c hc => ?_, fun k c hc => ?_⟩
    · have hfirst := h 0 c
      rw [zero_add, one_mul] at hfirst
      exact hfirst hc
    · rw [List.getElem?_drop] at hc ⊢
      have hlater := h (k + 1) c
      rw [hshift] at hlater
      rw [← Nat.add_sub_assoc (hpos k)]
      exact hlater hc
  · rintro ⟨hfirst, hlater⟩ k c hc
    cases k with
    | zero =>
      rw [zero_add, one_mul] at hc ⊢
      exact hfirst c hc
    | succ k =>
      rw [hshift] at hc ⊢
      have hdrop := hlater k c
      rw [List.getElem?_drop, List.getElem?_drop, ← Nat.add_sub_assoc (hpos k)] at hdrop
      exact hdrop hc

theorem pageEndsApart_of_nodup (hlimit : 0 < limit) {xs : List α} (h : (xs.map key).Nodup) :
    PageEndsApart limit (sortedKeys key xs) := by
  have hnodup : (sortedKeys key xs).Nodup := (mergeSort_perm _ _).nodup_iff.mpr h
  intro k c hc hbefore
  have hpos : 0 < (k + 1) * limit := Nat.mul_pos (Nat.succ_pos k) hlimit
  obtain ⟨hlt, hget⟩ := List.getElem?_eq_some_iff.mp hc
  obtain ⟨hlt', hget'⟩ := List.getElem?_eq_some_iff.mp hbefore
  have heq := (List.Nodup.getElem_inj_iff hnodup).mp (hget.trans hget'.symm)
  omega

theorem ends_apart_iff {xs rest : List α} {last : α} (hlimit : 0 < limit)
    (hlast : (page key limit xs).getLast? = some last)
    (hsplit : sortByKey key xs = page key limit xs ++ rest) (hge : ∀ x ∈ rest, key last ≤ key x)
    (hsorted : rest.Pairwise (fun a b => key a ≤ key b)) :
    (∀ c, ((sortByKey key xs).map key)[limit]? = some c →
        ((sortByKey key xs).map key)[limit - 1]? ≠ some c) ↔
      ∀ x ∈ rest, key last < key x := by
  have hpage : (page key limit xs).length = min limit (sortByKey key xs).length := length_take
  have hlength := congrArg List.length hsplit
  rw [length_append] at hlength
  rw [List.getElem?_map, List.getElem?_map]
  cases rest with
  | nil =>
    rw [length_nil] at hlength
    rw [List.getElem?_eq_none (by omega)]
    exact iff_of_true (fun c hc => by cases hc) (fun x hx => by cases hx)
  | cons first rest =>
    rw [length_cons] at hlength
    have hfirst : (sortByKey key xs)[limit]? = some first := by
      rw [hsplit, List.getElem?_append_right (by omega), show limit - (page key limit xs).length = 0 by
        omega]
      rfl
    have hbefore : (sortByKey key xs)[limit - 1]? = some last := by
      rw [hsplit, List.getElem?_append_left (by omega), ← hlast, List.getLast?_eq_getElem?,
        show (page key limit xs).length = limit by omega]
    rw [hfirst, hbefore, Option.map_some, Option.map_some]
    have hstart := hge first mem_cons_self
    constructor
    · intro h x hx
      have hlt : key last < key first :=
        lt_of_le_of_ne hstart (fun heq => h (key first) rfl (by rw [heq]))
      rcases mem_cons.mp hx with rfl | hx
      · exact hlt
      · exact hlt.trans_le ((pairwise_cons.mp hsorted).1 x hx)
    · intro h c hc hc'
      have hlt := h first mem_cons_self
      rw [Option.some.inj hc, ← Option.some.inj hc'] at hlt
      exact lt_irrefl _ hlt

theorem visitAll_perm_iff (hlimit : 0 < limit) (xs : List α) :
    (visitAll key limit xs).Perm xs ↔ PageEndsApart limit (sortedKeys key xs) := by
  induction hlength : xs.length using Nat.strongRecOn generalizing xs with
  | ind length ih =>
    cases hlast : (page key limit xs).getLast? with
    | none =>
      have hnil : xs = [] := by
        rw [List.getLast?_eq_none_iff, page, take_eq_nil_iff] at hlast
        rcases hlast with hzero | hnil
        · omega
        · exact nil_perm.mp (hnil ▸ perm_sortByKey key xs)
      subst hnil
      rw [visitAll_of_none hlast]
      refine iff_of_true (List.Perm.refl _) (pageEndsApart_of_nodup key hlimit ?_)
      exact nodup_nil
    | some last =>
      have hshorter := length_behind_lt key (mem_of_getLast?_page key hlast)
      have hlater := ih _ (hlength ▸ hshorter) (behind key (key last) xs) rfl
      obtain ⟨rest, hsplit, hle, hge, hsorted, hbehind⟩ := exists_rest hlast
      have hall := perm_sortByKey key xs
      rw [hsplit] at hall
      have hperm : (page key limit xs ++ visitAll key limit (behind key (key last) xs)).Perm xs ↔
          (visitAll key limit (behind key (key last) xs)).Perm rest := by
        constructor
        · exact fun h => (perm_append_left_iff _).mp (h.trans hall.symm)
        · exact fun h => (h.append_left _).trans hall
      rw [visitAll_of_some hlast, hperm, pageEndsApart_drop hlimit, ← map_sortByKey]
      have hdrop : ((sortByKey key xs).map key).drop limit = rest.map key := by
        rw [← map_drop, show (sortByKey key xs).drop limit = rest from
          append_cancel_left ((take_append_drop limit _).trans hsplit)]
      rw [hdrop, ends_apart_iff key hlimit hlast hsplit hge hsorted]
      by_cases hapart : ∀ x ∈ rest, key last < key x
      · have hsame : (behind key (key last) xs).Perm rest := by
          rwa [filter_eq_self.mpr (fun x hx => decide_eq_true (hapart x hx))] at hbehind
        rw [sortedKeys_eq_of_perm key hsame hsorted] at hlater
        rw [and_iff_right hapart, ← hlater]
        exact ⟨fun h => h.trans hsame.symm, fun h => h.trans hsame⟩
      · refine iff_of_false (fun h => ?_) (fun h => hapart h.1)
        -- an element with the last key is never read
        push Not at hapart
        obtain ⟨x, hx, hnot⟩ := hapart
        have hlost : (rest.filter (fun x => decide (key last < key x))).length < rest.length :=
          length_filter_lt_length_iff_exists.mpr ⟨x, hx, by simpa using hnot⟩
        have hread := length_visitAll_le key limit (behind key (key last) xs)
        rw [h.length_eq, hbehind.length_eq] at hread
        omega

end Sipnab.KeysetPages
