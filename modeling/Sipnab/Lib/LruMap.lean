import Sipnab.Lib.IndexMap

/-!
# Maps that forget what was used least recently

A map of at most `capacity` entries, the least recently used first. A key that is new evicts the
first entry of a full map.
-/

namespace Sipnab

open IndexMap

structure LruMap (κ ν : Type*) where
  entries : IndexMap κ ν
  capacity : ℕ

namespace LruMap

variable {κ ν : Type*} [DecidableEq κ]

def new (capacity : ℕ) : LruMap κ ν := ⟨.empty, max capacity 1⟩

def length (m : LruMap κ ν) : ℕ := m.entries.length

def peek (m : LruMap κ ν) (k : κ) : Option ν := m.entries.get? k

def remove (m : LruMap κ ν) (k : κ) : LruMap κ ν :=
  { m with entries := m.entries.filter (fun e => e.1 ≠ k) }

def insert (m : LruMap κ ν) (k : κ) (v : ν) : LruMap κ ν :=
  if k ∈ m.entries.keys then { m with entries := (m.remove k).entries.insert k v }
  else
    let rest := if m.capacity ≤ m.length then m.entries.dropFirst 1 else m.entries
    { m with entries := rest.insert k v }

def HasRoom (m : LruMap κ ν) (k : κ) : Prop := k ∈ m.entries.keys ∨ m.length < m.capacity

instance (m : LruMap κ ν) (k : κ) : Decidable (m.HasRoom k) :=
  inferInstanceAs (Decidable (_ ∨ _))

variable (m : LruMap κ ν) (k k' : κ)

@[simp] theorem peek_new (capacity : ℕ) : (new capacity : LruMap κ ν).peek k = none := rfl

theorem peek_remove : (m.remove k).peek k' = if k' = k then none else m.peek k' := by
  unfold peek remove
  rw [m.entries.get?_filter_key (fun k' => decide (k' ≠ k))]
  by_cases h : k' = k
  · simp [h]
  · simp [h]

variable {m k}

theorem peek_insert (h : m.HasRoom k) (k' : κ) (v : ν) :
    (m.insert k v).peek k' = if k' = k then some v else m.peek k' := by
  by_cases hmem : k ∈ m.entries.keys
  · have hinsert : m.insert k v = { m with entries := (m.remove k).entries.insert k v } :=
      if_pos hmem
    rw [hinsert, peek, get?_insert]
    by_cases hk : k' = k
    · rw [if_pos hk, if_pos hk]
    · rw [if_neg hk, if_neg hk]
      exact (m.peek_remove k k').trans (if_neg hk)
  · have hroom : ¬m.capacity ≤ m.length := Nat.not_le.mpr (h.resolve_left hmem)
    have hinsert : m.insert k v = { m with entries := m.entries.insert k v } := by
      unfold insert
      rw [if_neg hmem, if_neg hroom]
    rw [hinsert, peek, get?_insert]
    rfl

theorem hasRoom_of_peek {v : ν} (h : m.peek k = some v) : m.HasRoom k :=
  .inl (mem_keys_of_mem_entries (IndexMap.get?_eq_some_iff.mp h))

@[simp] theorem capacity_insert (v : ν) : (m.insert k v).capacity = m.capacity := by
  unfold insert
  split_ifs <;> rfl

theorem mem_keys_of_insert {v : ν} {k' : κ} (h : k' ∈ (m.insert k v).entries.keys) :
    k' ∈ m.entries.keys ∨ k' = k := by
  by_cases hmem : k ∈ m.entries.keys
  · have hinsert : m.insert k v = { m with entries := (m.remove k).entries.insert k v } :=
      if_pos hmem
    rw [hinsert] at h
    apply ((mem_keys_alter _ _ _ _).mp h).imp_left
    intro hk'
    exact (List.filter_sublist.map Prod.fst).subset hk'
  · have hinsert : m.insert k v = { m with entries :=
        (if m.capacity ≤ m.length then m.entries.dropFirst 1 else m.entries).insert k v } :=
      if_neg hmem
    rw [hinsert] at h
    apply ((mem_keys_alter _ _ _ _).mp h).imp_left
    intro hk'
    split_ifs at hk' with hfull
    · exact (m.entries.keys_sublist_of_dropFirst 1).subset hk'
    · exact hk'

theorem hasRoom_of_keys {l : List κ} (hkeys : ∀ k' ∈ m.entries.keys, k' ∈ l) (hk : k ∈ l)
    (hl : l.dedup.length ≤ m.capacity) : m.HasRoom k := by
  by_cases hmem : k ∈ m.entries.keys
  · exact .inl hmem
  · apply Or.inr
    have hsub : (k :: m.entries.keys) ⊆ l.dedup := by
      intro k' hk'
      rw [List.mem_dedup]
      rcases List.mem_cons.mp hk' with rfl | hin
      · exact hk
      · exact hkeys k' hin
    have hlen : (k :: m.entries.keys).length ≤ l.dedup.length :=
      (List.subperm_of_subset (List.nodup_cons.mpr ⟨hmem, m.entries.keys_nodup⟩) hsub).length_le
    have hkeysLen : m.entries.keys.length = m.length := List.length_map Prod.fst
    rw [List.length_cons, hkeysLen] at hlen
    omega

end LruMap

end Sipnab
