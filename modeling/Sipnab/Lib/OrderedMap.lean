import Mathlib

/-!
# Maps in key order

A map kept as a list of entries in ascending key order, each key once.
-/

namespace Sipnab

open List

structure OrderedMap (κ ν : Type*) [LinearOrder κ] where
  entries : List (κ × ν)
  sorted : entries.Pairwise (fun a b => a.1 < b.1)

namespace OrderedMap
variable {κ ν : Type*} [LinearOrder κ]

def empty : OrderedMap κ ν := ⟨[], List.Pairwise.nil⟩

def keys (m : OrderedMap κ ν) : List κ := m.entries.map Prod.fst

def length (m : OrderedMap κ ν) : ℕ := m.entries.length

def isEmpty (m : OrderedMap κ ν) : Bool := m.entries.isEmpty

def get? (m : OrderedMap κ ν) (k : κ) : Option ν :=
  (m.entries.find? (fun e => e.1 = k)).map Prod.snd

def filter (m : OrderedMap κ ν) (keep : κ → Bool) : OrderedMap κ ν :=
  ⟨m.entries.filter (fun e => keep e.1), m.sorted.filter _⟩

def retain (m : OrderedMap κ ν) (keep : ν → Bool) : OrderedMap κ ν :=
  ⟨m.entries.filter (fun e => keep e.2), m.sorted.filter _⟩

def erase (m : OrderedMap κ ν) (k : κ) : OrderedMap κ ν := m.filter (fun k' => k' ≠ k)

def insert (m : OrderedMap κ ν) (k : κ) (v : ν) : OrderedMap κ ν where
  entries := m.entries.filter (fun e => e.1 < k) ++ (k, v) :: m.entries.filter (fun e => k < e.1)
  sorted := by
    rw [pairwise_append, pairwise_cons]
    refine ⟨m.sorted.filter _, ⟨?_, m.sorted.filter _⟩, ?_⟩
    · intro e he
      exact of_decide_eq_true (mem_filter.mp he).2
    · intro a ha b hb
      have hak : a.1 < k := of_decide_eq_true (mem_filter.mp ha).2
      rcases mem_cons.mp hb with rfl | hb
      · exact hak
      · have hkb : k < b.1 := of_decide_eq_true (mem_filter.mp hb).2
        exact lt_trans hak hkb

theorem keys_nodup (m : OrderedMap κ ν) : m.keys.Nodup :=
  pairwise_map.mpr (m.sorted.imp (fun h => ne_of_lt h))

theorem keys_sorted (m : OrderedMap κ ν) : m.keys.Pairwise (· < ·) := pairwise_map.mpr m.sorted

variable {m : OrderedMap κ ν} {k : κ} {v : ν} {e : κ × ν}

theorem head?_keys (h : m.keys.head? = some k) : k ∈ m.keys ∧ ∀ k' ∈ m.keys, k ≤ k' := by
  obtain ⟨ks, hks⟩ := List.head?_eq_some_iff.mp h
  have hsorted := m.keys_sorted
  rw [hks, pairwise_cons] at hsorted
  rw [hks]
  refine ⟨mem_cons_self, fun k' hk' => ?_⟩
  rcases mem_cons.mp hk' with rfl | hk'
  · exact le_rfl
  · exact le_of_lt (hsorted.1 k' hk')

theorem getLast?_keys (h : m.keys.getLast? = some k) : k ∈ m.keys ∧ ∀ k' ∈ m.keys, k' ≤ k := by
  obtain ⟨ks, hks⟩ := List.getLast?_eq_some_iff.mp h
  have hsorted := m.keys_sorted
  rw [hks, pairwise_append] at hsorted
  rw [hks]
  refine ⟨mem_append_right _ (mem_singleton_self k), fun k' hk' => ?_⟩
  rcases mem_append.mp hk' with hk' | hk'
  · exact le_of_lt (hsorted.2.2 k' hk' k (mem_singleton_self k))
  · exact le_of_eq (mem_singleton.mp hk')

theorem eq_of_mem {a b : κ × ν} (ha : a ∈ m.entries) (hb : b ∈ m.entries) (h : a.1 = b.1) : a = b :=
  inj_on_of_nodup_map m.keys_nodup ha hb h

theorem get?_eq_some_iff : m.get? k = some v ↔ (k, v) ∈ m.entries := by
  rw [get?, Option.map_eq_some_iff]
  constructor
  · intro h
    obtain ⟨e, he, rfl⟩ := h
    have hk := List.find?_some he
    rw [decide_eq_true_eq] at hk
    rw [← hk]
    exact mem_of_find?_eq_some he
  · intro h
    cases hfind : m.entries.find? (fun e => e.1 = k) with
    | none => exact absurd (decide_eq_true rfl) (List.find?_eq_none.mp hfind _ h)
    | some e =>
      have hk := List.find?_some hfind
      rw [decide_eq_true_eq] at hk
      have heq := eq_of_mem (mem_of_find?_eq_some hfind) h hk
      exact ⟨e, rfl, by rw [heq]⟩

theorem mem_entries_insert : e ∈ (m.insert k v).entries ↔ e = (k, v) ∨ e.1 ≠ k ∧ e ∈ m.entries := by
  change e ∈ m.entries.filter _ ++ (k, v) :: m.entries.filter _ ↔ _
  rw [mem_append, mem_cons, mem_filter, mem_filter, decide_eq_true_eq, decide_eq_true_eq]
  constructor
  · intro h
    rcases h with ⟨he, hlt⟩ | h | ⟨he, hlt⟩
    · exact Or.inr ⟨hlt.ne, he⟩
    · exact Or.inl h
    · exact Or.inr ⟨hlt.ne', he⟩
  · intro h
    rcases h with h | ⟨hne, he⟩
    · exact Or.inr (Or.inl h)
    · rcases lt_or_gt_of_ne hne with hlt | hlt
      · exact Or.inl ⟨he, hlt⟩
      · exact Or.inr (Or.inr ⟨he, hlt⟩)

theorem get?_insert (m : OrderedMap κ ν) (k k' : κ) (v : ν) :
    (m.insert k v).get? k' = if k' = k then some v else m.get? k' := by
  apply Option.ext
  intro w
  rw [get?_eq_some_iff, mem_entries_insert]
  split_ifs with h
  · subst h
    simp only [Prod.mk.injEq, true_and, ne_eq, not_true_eq_false, false_and, or_false,
      Option.some.injEq, eq_comm]
  · rw [get?_eq_some_iff]
    simp only [Prod.mk.injEq, h, false_and, ne_eq, not_false_eq_true, true_and, false_or]

theorem mem_entries_filter {keep : κ → Bool} :
    e ∈ (m.filter keep).entries ↔ e ∈ m.entries ∧ keep e.1 = true := mem_filter

theorem get?_filter (m : OrderedMap κ ν) (keep : κ → Bool) (k : κ) :
    (m.filter keep).get? k = if keep k then m.get? k else none := by
  apply Option.ext
  intro v
  rw [get?_eq_some_iff, mem_entries_filter]
  split_ifs with h
  · rw [get?_eq_some_iff]
    simp only [h, and_true]
  · simp only [h, Bool.false_eq_true, and_false]

theorem get?_erase (m : OrderedMap κ ν) (k k' : κ) :
    (m.erase k).get? k' = if k' = k then none else m.get? k' := by
  rw [erase, get?_filter]
  by_cases h : k' = k
  · rw [if_pos h, if_neg (by simpa using h)]
  · rw [if_neg h, if_pos (by simpa using h)]

theorem get?_retain (m : OrderedMap κ ν) (keep : ν → Bool) (k : κ) :
    (m.retain keep).get? k = (m.get? k).filter keep := by
  apply Option.ext
  intro v
  rw [get?_eq_some_iff, Option.filter_eq_some_iff, get?_eq_some_iff]
  exact mem_filter

theorem ext_get? {m' : OrderedMap κ ν} (h : ∀ k, m.get? k = m'.get? k) : m = m' := by
  obtain ⟨entries, hsorted⟩ := m
  obtain ⟨entries', hsorted'⟩ := m'
  have hmem : ∀ e, e ∈ entries ↔ e ∈ entries' := by
    intro e
    have hkey := h e.1
    constructor
    · intro he
      exact get?_eq_some_iff.mp (hkey ▸ get?_eq_some_iff.mpr he)
    · intro he
      exact get?_eq_some_iff.mp (hkey.symm ▸ get?_eq_some_iff.mpr he)
  have hperm : entries.Perm entries' := (perm_ext_iff_of_nodup
    (hsorted.imp (fun hlt heq => hlt.ne (congrArg Prod.fst heq)))
    (hsorted'.imp (fun hlt heq => hlt.ne (congrArg Prod.fst heq)))).mpr hmem
  have heq := hperm.eq_of_pairwise (fun a b _ _ hab hba => absurd hab (lt_asymm hba)) hsorted hsorted'
  subst heq
  rfl

theorem get?_foldl_erase (m : OrderedMap κ ν) (keys : List κ) (k : κ) :
    (keys.foldl erase m).get? k = if k ∈ keys then none else m.get? k := by
  induction keys generalizing m with
  | nil => simp
  | cons key keys ih =>
    rw [foldl_cons, ih, get?_erase]
    by_cases hkey : k = key
    · simp [hkey]
    · simp [hkey]

theorem get?_foldl_insert_list {entries : List (κ × ν)} (h : entries.Pairwise (fun a b => a.1 < b.1))
    (m : OrderedMap κ ν) (k : κ) :
    (entries.foldl (fun m e => m.insert e.1 e.2) m).get? k =
      ((entries.find? (fun e => e.1 = k)).map Prod.snd).or (m.get? k) := by
  induction entries generalizing m with
  | nil => rfl
  | cons e entries ih =>
    obtain ⟨hfirst, hrest⟩ := pairwise_cons.mp h
    rw [foldl_cons, ih hrest, get?_insert]
    by_cases hk : k = e.1
    · have hnone : entries.find? (fun e' => e'.1 = k) = none := by
        rw [List.find?_eq_none]
        intro e' he'
        rw [decide_eq_true_eq, hk]
        exact (hfirst e' he').ne'
      rw [hnone, if_pos hk, List.find?_cons_of_pos (by simp [hk])]
      rfl
    · rw [if_neg hk, List.find?_cons_of_neg (by simpa using Ne.symm hk)]

theorem get?_foldl_insert (fields m : OrderedMap κ ν) (k : κ) :
    (fields.entries.foldl (fun m e => m.insert e.1 e.2) m).get? k =
      (fields.get? k).or (m.get? k) := get?_foldl_insert_list fields.sorted m k

theorem length_filter_lt {keep : κ → Bool} (he : e ∈ m.entries) (hdrop : keep e.1 = false) :
    (m.filter keep).length < m.length := by
  apply length_filter_lt_length_iff_exists.mpr
  exact ⟨e, he, by rw [hdrop]; exact Bool.false_ne_true⟩

theorem isEmpty_iff : m.isEmpty = true ↔ ∀ e, e ∉ m.entries := by
  rw [isEmpty, List.isEmpty_iff, eq_nil_iff_forall_not_mem]

theorem mem_keys_iff : k ∈ m.keys ↔ ∃ v, m.get? k = some v := by
  rw [keys, List.mem_map]
  constructor
  · intro h
    obtain ⟨e, he, rfl⟩ := h
    exact ⟨e.2, get?_eq_some_iff.mpr he⟩
  · intro h
    obtain ⟨v, hv⟩ := h
    exact ⟨(k, v), get?_eq_some_iff.mp hv, rfl⟩

theorem entries_nodup (m : OrderedMap κ ν) : m.entries.Nodup := List.Nodup.of_map _ m.keys_nodup

theorem mem_entries_erase : e ∈ (m.erase k).entries ↔ e ∈ m.entries ∧ e.1 ≠ k := by
  rw [erase, mem_entries_filter, decide_eq_true_eq]

theorem entries_perm_erase (h : m.get? k = some v) :
    m.entries.Perm ((k, v) :: (m.erase k).entries) := by
  have hmem := get?_eq_some_iff.mp h
  have hnew : (k, v) ∉ (m.erase k).entries := fun hk => (mem_entries_erase.mp hk).2 rfl
  refine (perm_ext_iff_of_nodup m.entries_nodup
    (nodup_cons.mpr ⟨hnew, (m.erase k).entries_nodup⟩)).mpr (fun e => ?_)
  rw [mem_cons, mem_entries_erase]
  constructor
  · intro he
    by_cases hk : e.1 = k
    · exact Or.inl (eq_of_mem he hmem hk)
    · exact Or.inr ⟨he, hk⟩
  · intro he
    rcases he with rfl | he
    · exact hmem
    · exact he.1

theorem entries_insert_perm (m : OrderedMap κ ν) (k : κ) (v : ν) :
    (m.insert k v).entries.Perm ((k, v) :: (m.erase k).entries) := by
  have hnew : (k, v) ∉ (m.erase k).entries := fun hk => (mem_entries_erase.mp hk).2 rfl
  refine (perm_ext_iff_of_nodup (m.insert k v).entries_nodup
    (nodup_cons.mpr ⟨hnew, (m.erase k).entries_nodup⟩)).mpr (fun e => ?_)
  rw [mem_entries_insert, mem_cons, mem_entries_erase, and_comm]

theorem keys_perm_erase (h : m.get? k = some v) : m.keys.Perm (k :: (m.erase k).keys) :=
  (entries_perm_erase h).map Prod.fst

theorem keys_insert_of_mem {old : ν} (h : m.get? k = some old) (v : ν) :
    (m.insert k v).keys.Perm m.keys :=
  ((entries_insert_perm m k v).map Prod.fst).trans (keys_perm_erase h).symm

theorem keys_insert_of_not_mem (h : k ∉ m.keys) (v : ν) :
    (m.insert k v).keys.Perm (k :: m.keys) := by
  have hsame : (m.erase k).entries = m.entries := by
    refine filter_eq_self.mpr (fun e he => ?_)
    rw [decide_eq_true_eq]
    rintro rfl
    exact h (List.mem_map_of_mem he)
  have hperm := (entries_insert_perm m k v).map Prod.fst
  rw [hsame] at hperm
  exact hperm

theorem sum_erase (h : m.get? k = some v) (f : ν → ℕ) :
    (m.entries.map (fun e => f e.2)).sum =
      f v + ((m.erase k).entries.map (fun e => f e.2)).sum := by
  rw [((entries_perm_erase h).map _).sum_eq, map_cons, sum_cons]

theorem sum_insert (m : OrderedMap κ ν) (k : κ) (v : ν) (f : ν → ℕ) :
    ((m.insert k v).entries.map (fun e => f e.2)).sum + (m.get? k).elim 0 f =
      (m.entries.map (fun e => f e.2)).sum + f v := by
  rw [((entries_insert_perm m k v).map _).sum_eq, map_cons, sum_cons]
  cases hget : m.get? k with
  | none =>
    have hsame : (m.erase k).entries = m.entries := by
      refine filter_eq_self.mpr (fun e he => ?_)
      rw [decide_eq_true_eq]
      rintro rfl
      rw [get?_eq_some_iff.mpr he] at hget
      cases hget
    rw [hsame, Option.elim_none]
    dsimp only
    omega
  | some old =>
    rw [sum_erase hget, Option.elim_some]
    dsimp only
    omega

theorem entries_insert_last {front : List (κ × ν)} (h : m.entries = front ++ [(k, v)]) (w : ν) :
    (m.insert k w).entries = front ++ [(k, w)] := by
  have hsorted := m.sorted
  rw [h, pairwise_append] at hsorted
  have hlt : ∀ e ∈ front, e.1 < k := fun e he => hsorted.2.2 e he (k, v) (mem_singleton_self _)
  have hbelow : m.entries.filter (fun e => e.1 < k) = front := by
    rw [h, filter_append, filter_eq_self.mpr (fun e he => by simpa using hlt e he)]
    simp
  have habove : m.entries.filter (fun e => k < e.1) = [] := by
    rw [h, filter_append, append_eq_nil_iff, filter_eq_nil_iff]
    refine ⟨fun e he => ?_, by simp⟩
    simpa using (hlt e he).le
  change m.entries.filter _ ++ (k, w) :: m.entries.filter _ = _
  rw [hbelow, habove]

theorem entries_insert_behind (h : ∀ e ∈ m.entries, e.1 < k) (w : ν) :
    (m.insert k w).entries = m.entries ++ [(k, w)] := by
  have hbelow : m.entries.filter (fun e => e.1 < k) = m.entries :=
    filter_eq_self.mpr (fun e he => by simpa using h e he)
  have habove : m.entries.filter (fun e => k < e.1) = [] := by
    rw [filter_eq_nil_iff]
    intro e he
    simpa using (h e he).le
  change m.entries.filter _ ++ (k, w) :: m.entries.filter _ = _
  rw [hbelow, habove]

theorem entries_filter_behind [DecidableEq κ] {front rest : List (κ × ν)}
    (h : m.entries = front ++ rest) :
    (m.filter (fun k => k ∉ front.map Prod.fst)).entries = rest := by
  have hnodup := m.keys_nodup
  rw [keys, h, map_append, nodup_append] at hnodup
  change m.entries.filter _ = _
  rw [h, filter_append, filter_eq_nil_iff.mpr, filter_eq_self.mpr, nil_append]
  · intro e he
    rw [decide_eq_true_eq]
    intro hmem
    exact hnodup.2.2 e.1 hmem e.1 (List.mem_map_of_mem he) rfl
  · intro e he
    simpa using ⟨e.2, he⟩

/-! ## Lengths -/

theorem length_retain_le (m : OrderedMap κ ν) (keep : ν → Bool) :
    (m.retain keep).length ≤ m.length := length_filter_le _ _

theorem retain_eq_self {keep : ν → Bool} (h : m.length ≤ (m.retain keep).length) :
    m.retain keep = m := by
  have hkept : m.entries.filter (fun e => keep e.2) = m.entries :=
    filter_eq_self.mpr (length_filter_eq_length_iff.mp (Nat.le_antisymm (length_filter_le _ _) h))
  unfold retain
  congr 1

theorem length_insert_of_mem (h : m.get? k = some v) (w : ν) :
    (m.insert k w).length = m.length := by
  have hinsert := (entries_insert_perm m k w).length_eq
  have herase := (entries_perm_erase h).length_eq
  rw [length_cons] at hinsert herase
  unfold length
  omega

theorem length_insert_le (m : OrderedMap κ ν) (k : κ) (w : ν) :
    (m.insert k w).length ≤ m.length + 1 := by
  have hinsert := (entries_insert_perm m k w).length_eq
  have herase : (m.erase k).entries.length ≤ m.entries.length := length_filter_le _ _
  rw [length_cons] at hinsert
  unfold length
  omega

theorem length_eq_of_keys {μ : Type*} {m' : OrderedMap κ μ}
    (h : ∀ k, (m.get? k).isSome = (m'.get? k).isSome) : m.length = m'.length := by
  have hkeys : ∀ k, k ∈ m.keys ↔ k ∈ m'.keys := by
    intro k
    rw [mem_keys_iff, mem_keys_iff, ← Option.isSome_iff_exists, ← Option.isSome_iff_exists, h]
  have hperm := (perm_ext_iff_of_nodup m.keys_nodup m'.keys_nodup).mpr hkeys
  simpa only [keys, length_map, length] using hperm.length_eq

end OrderedMap

end Sipnab
