import Mathlib

/-!
# Crossings of a list

A list whose neighbours are related and that has both elements of a set and elements outside has
two neighbours the set separates. Sorting a list whose neighbours are near leaves neighbours that
are near: the list had to cross every gap the sorted one shows.
-/

namespace Sipnab.Crossing

open List

theorem exists_crossing {α : Type*} {R : α → α → Prop} {p : α → Prop} {l : List α}
    (hchain : l.IsChain R) (hin : ∃ x ∈ l, p x) (hout : ∃ y ∈ l, ¬ p y) :
    ∃ a ∈ l, ∃ b ∈ l, (R a b ∨ R b a) ∧ p a ∧ ¬ p b := by
  induction l with
  | nil => simp at hin
  | cons z l ih =>
    obtain ⟨hhead, htail⟩ := isChain_cons.1 hchain
    by_cases hboth : (∃ x ∈ l, p x) ∧ ∃ y ∈ l, ¬ p y
    · obtain ⟨a, ha, b, hb, h⟩ := ih htail hboth.1 hboth.2
      exact ⟨a, mem_cons_of_mem z ha, b, mem_cons_of_mem z hb, h⟩
    · -- Only the head is on its side, so it and its neighbour are separated.
      cases l with
      | nil =>
        obtain ⟨x, hx, hpx⟩ := hin
        obtain ⟨y, hy, hpy⟩ := hout
        obtain rfl : x = z := by simpa using hx
        obtain rfl : y = x := by simpa using hy
        exact absurd hpx hpy
      | cons w l =>
        have hzw : R z w := hhead w rfl
        by_cases hz : p z
        · by_cases hw : p w
          · obtain ⟨y, hy, hpy⟩ := hout
            rcases mem_cons.1 hy with rfl | hy
            · exact absurd hz hpy
            · exact absurd ⟨⟨w, mem_cons_self, hw⟩, y, hy, hpy⟩ hboth
          · exact ⟨z, by simp, w, by simp, .inl hzw, hz, hw⟩
        · by_cases hw : p w
          · exact ⟨w, by simp, z, by simp, .inr hzw, hw, hz⟩
          · obtain ⟨x, hx, hpx⟩ := hin
            rcases mem_cons.1 hx with rfl | hx
            · exact absurd hpx hz
            · exact absurd ⟨⟨x, hx, hpx⟩, w, mem_cons_self, hw⟩ hboth

variable {α : Type*} [AddCommGroup α] [LinearOrder α] [IsOrderedAddMonoid α]

theorem isChain_sorted {d : α} (hd : 0 < d) {l s : List α}
    (hnear : l.IsChain (fun a b => |b - a| < d)) (hperm : s.Perm l)
    (hsorted : s.Pairwise (· ≤ ·)) : s.IsChain (fun a b => a ≤ b ∧ b - a < d) := by
  rw [isChain_iff_forall_rel_of_append_cons_cons]
  rintro a b before after rfl
  rw [pairwise_append, pairwise_cons, pairwise_cons] at hsorted
  obtain ⟨-, ⟨ha, hb, -⟩, hbefore⟩ := hsorted
  have hab : a ≤ b := ha b (by simp)
  refine ⟨hab, ?_⟩
  rcases hab.eq_or_lt with rfl | hlt
  · simpa using hd
  -- No element lies strictly between `a` and `b`.
  have hsplit : ∀ x ∈ l, ¬ x ≤ a → b ≤ x := by
    intro x hx hxa
    rw [← hperm.mem_iff] at hx
    simp only [mem_append, mem_cons] at hx
    rcases hx with hx | rfl | rfl | hx
    · exact absurd (hbefore x hx a (by simp)) hxa
    · exact absurd le_rfl hxa
    · exact le_rfl
    · exact hb x hx
  obtain ⟨u, -, v, hv, hR, hu, hva⟩ := exists_crossing (p := (· ≤ a)) hnear
    ⟨a, hperm.mem_iff.1 (by simp), le_rfl⟩ ⟨b, hperm.mem_iff.1 (by simp), not_le.2 hlt⟩
  have huv : |v - u| < d := by
    rcases hR with h | h
    · exact h
    · rwa [abs_sub_comm]
  calc b - a ≤ v - u := sub_le_sub (hsplit v hv hva) hu
    _ ≤ |v - u| := le_abs_self _
    _ < d := huv

end Sipnab.Crossing
