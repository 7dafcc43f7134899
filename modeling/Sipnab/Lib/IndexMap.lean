import Mathlib

/-!
# Maps in insertion order

A finite map that remembers the order its keys were first inserted in. Writing to a key it holds
keeps the key's place; a new key goes to the end.
-/

namespace Sipnab

open List

structure IndexMap (κ ν : Type*) where
  entries : List (κ × ν)
  nodup : (entries.map Prod.fst).Nodup
  deriving DecidableEq

namespace IndexMap

variable {κ ν ω α : Type*}

variable {m : IndexMap κ ν} {k : κ} {v : ν}

@[ext] theorem ext {m' : IndexMap κ ν} (h : m.entries = m'.entries) : m = m' := by
  cases m
  cases m'
  congr

def empty : IndexMap κ ν := ⟨[], nodup_nil⟩

def keys (m : IndexMap κ ν) : List κ := m.entries.map Prod.fst

def values (m : IndexMap κ ν) : List ν := m.entries.map Prod.snd

def length (m : IndexMap κ ν) : ℕ := m.entries.length

def dropFirst (m : IndexMap κ ν) (n : ℕ) : IndexMap κ ν :=
  ⟨m.entries.drop n, m.nodup.sublist ((drop_sublist n m.entries).map Prod.fst)⟩

def mapValues (m : IndexMap κ ν) (f : κ → ν → ω) : IndexMap κ ω :=
  ⟨m.entries.map (fun e => (e.1, f e.1 e.2)), by
    have hkeys : (m.entries.map (fun e => (e.1, f e.1 e.2))).map Prod.fst =
        m.entries.map Prod.fst := by simp
    rw [hkeys]
    exact m.nodup⟩

def filter (m : IndexMap κ ν) (keep : κ × ν → Bool) : IndexMap κ ν :=
  ⟨m.entries.filter keep, m.nodup.sublist (filter_sublist.map Prod.fst)⟩

def sortBy (m : IndexMap κ ν) (le : κ × ν → κ × ν → Bool) : IndexMap κ ν :=
  ⟨m.entries.mergeSort le, ((mergeSort_perm m.entries le).map Prod.fst).nodup_iff.mpr m.nodup⟩

@[simp] theorem keys_empty : (empty : IndexMap κ ν).keys = [] := rfl

@[simp] theorem length_empty : (empty : IndexMap κ ν).length = 0 := rfl

@[simp] theorem length_dropFirst (m : IndexMap κ ν) (n : ℕ) :
    (m.dropFirst n).length = m.length - n := length_drop

@[simp] theorem length_mapValues (m : IndexMap κ ν) (f : κ → ν → ω) :
    (m.mapValues f).length = m.length := by simp [mapValues, length]

theorem values_sortBy_perm (m : IndexMap κ ν) (le : κ × ν → κ × ν → Bool) :
    (m.sortBy le).values.Perm m.values := (mergeSort_perm m.entries le).map Prod.snd

@[simp] theorem length_sortBy (m : IndexMap κ ν) (le : κ × ν → κ × ν → Bool) :
    (m.sortBy le).length = m.length := (mergeSort_perm m.entries le).length_eq

theorem keys_nodup (m : IndexMap κ ν) : m.keys.Nodup := m.nodup

theorem entries_nodup (m : IndexMap κ ν) : m.entries.Nodup := List.Nodup.of_map Prod.fst m.nodup

theorem mem_keys_of_mem_entries (h : (k, v) ∈ m.entries) : k ∈ m.keys := List.mem_map_of_mem h

theorem keys_sublist_of_dropFirst (m : IndexMap κ ν) (n : ℕ) :
    (m.dropFirst n).keys.Sublist m.keys := (drop_sublist n m.entries).map Prod.fst

theorem values_sublist_of_dropFirst (m : IndexMap κ ν) (n : ℕ) :
    (m.dropFirst n).values.Sublist m.values := (drop_sublist n m.entries).map Prod.snd

variable [DecidableEq κ]

def get? (m : IndexMap κ ν) (k : κ) : Option ν :=
  (m.entries.find? (fun e => e.1 = k)).map Prod.snd

def alter (m : IndexMap κ ν) (k : κ) (f : Option ν → ν) : IndexMap κ ν :=
  if h : k ∈ m.keys then
    ⟨m.entries.map (fun e => if e.1 = k then (e.1, f (some e.2)) else e), by
      have hkeys : (m.entries.map (fun e => if e.1 = k then (e.1, f (some e.2)) else e)).map
          Prod.fst = m.entries.map Prod.fst := by
        rw [List.map_map]
        refine map_congr_left (fun e _ => ?_)
        by_cases he : e.1 = k <;> simp [he]
      rw [hkeys]
      exact m.nodup⟩
  else
    ⟨m.entries ++ [(k, f none)], by
      rw [map_append, nodup_append]
      refine ⟨m.nodup, by simp, ?_⟩
      intro a ha b hb
      rw [map_singleton, mem_singleton] at hb
      obtain rfl : b = k := hb
      exact fun hab => h (hab ▸ ha)⟩

def insert (m : IndexMap κ ν) (k : κ) (v : ν) : IndexMap κ ν := m.alter k (fun _ => v)

theorem get?_eq_some_iff : m.get? k = some v ↔ (k, v) ∈ m.entries := by
  constructor
  · intro h
    obtain ⟨⟨k', v'⟩, hfind, rfl⟩ := Option.map_eq_some_iff.mp h
    have hk : k' = k := by simpa using List.find?_some hfind
    exact hk ▸ mem_of_find?_eq_some hfind
  · intro h
    obtain ⟨⟨k', v'⟩, hfind⟩ : ∃ e, m.entries.find? (fun e => e.1 = k) = some e := by
      rw [← Option.isSome_iff_exists, List.find?_isSome]
      exact ⟨(k, v), h, by simp⟩
    have hk : k' = k := by simpa using List.find?_some hfind
    have hmem := mem_of_find?_eq_some hfind
    have hsame : (k', v') = (k, v) := inj_on_of_nodup_map m.nodup hmem h hk
    rw [get?, hfind, hsame]
    rfl

theorem get?_eq_none_iff : m.get? k = none ↔ k ∉ m.keys := by
  rw [get?, Option.map_eq_none_iff, List.find?_eq_none, keys, List.mem_map]
  constructor
  · rintro h ⟨e, he, rfl⟩
    exact h e he (by simp)
  · intro h e he hk
    exact h ⟨e, he, by simpa using hk⟩

theorem get?_mapValues (m : IndexMap κ ν) (f : κ → ν → ω) (k : κ) :
    (m.mapValues f).get? k = (m.get? k).map (f k) := by
  apply Option.ext
  intro w
  rw [get?_eq_some_iff, Option.map_eq_some_iff]
  constructor
  · intro h
    obtain ⟨⟨k', v⟩, he, heq⟩ := List.mem_map.mp h
    obtain ⟨rfl, rfl⟩ := Prod.mk.inj heq
    exact ⟨v, get?_eq_some_iff.mpr he, rfl⟩
  · rintro ⟨v, hv, rfl⟩
    exact List.mem_map.mpr ⟨(k, v), get?_eq_some_iff.mp hv, rfl⟩

theorem get?_of_get?_dropFirst {n : ℕ} (h : (m.dropFirst n).get? k = some v) : m.get? k = some v :=
  get?_eq_some_iff.mpr (mem_of_mem_drop (get?_eq_some_iff.mp h))

theorem get?_dropFirst_one {first : κ} {rest : List (κ × ν)} (h : m.entries = (first, v) :: rest)
    (k : κ) : (m.dropFirst 1).get? k = if k = first then none else m.get? k := by
  have hnodup := m.nodup
  rw [h, map_cons, nodup_cons] at hnodup
  have hdropped : (m.dropFirst 1).entries = m.entries.drop 1 := rfl
  rw [get?, get?, hdropped, h, drop_succ_cons, drop_zero, List.find?_cons]
  by_cases hk : k = first
  · have hnone : rest.find? (fun e => e.1 = k) = none := by
      rw [List.find?_eq_none]
      intro e he heq
      exact hnodup.1 (List.mem_map.mpr ⟨e, he, (of_decide_eq_true heq).trans hk⟩)
    rw [if_pos hk, hnone]
    rfl
  · rw [if_neg hk, decide_eq_false (fun heq : first = k => hk heq.symm)]

theorem get?_of_get?_filter {keep : κ × ν → Bool} (h : (m.filter keep).get? k = some v) :
    m.get? k = some v :=
  get?_eq_some_iff.mpr (mem_filter.mp (get?_eq_some_iff.mp h)).1

theorem get?_filter_key (m : IndexMap κ ν) (keep : κ → Bool) (k : κ) :
    (m.filter (fun e => keep e.1)).get? k = if keep k then m.get? k else none := by
  apply Option.ext
  intro v
  rw [get?_eq_some_iff, filter, mem_filter]
  split_ifs with h
  · rw [get?_eq_some_iff]
    simp only [h, and_true]
  · simp only [h, Bool.false_eq_true, and_false]

theorem entries_alter_of_not_mem (h : k ∉ m.keys) (f : Option ν → ν) :
    (m.alter k f).entries = m.entries ++ [(k, f none)] := by
  rw [alter, dif_neg h]

theorem entries_alter_of_mem (h : k ∈ m.keys) (f : Option ν → ν) :
    (m.alter k f).entries = m.entries.map (fun e => if e.1 = k then (e.1, f (some e.2)) else e) := by
  rw [alter, dif_pos h]

theorem get?_alter_of_mem (hv : m.get? k = some v) (k' : κ) (f : Option ν → ν) :
    (m.alter k f).get? k' = if k' = k then some (f (some v)) else m.get? k' := by
  have hmem : (k, v) ∈ m.entries := get?_eq_some_iff.mp hv
  have hk : k ∈ m.keys := mem_keys_of_mem_entries hmem
  by_cases hk' : k' = k
  · rw [if_pos hk', get?_eq_some_iff, entries_alter_of_mem hk, List.mem_map]
    exact ⟨(k, v), hmem, by simp [hk']⟩
  · rw [if_neg hk']
    refine Option.ext (fun w => ?_)
    rw [get?_eq_some_iff, get?_eq_some_iff, entries_alter_of_mem hk, List.mem_map]
    constructor
    · rintro ⟨e, he, heq⟩
      by_cases hek : e.1 = k
      · rw [if_pos hek] at heq
        exact absurd (hek ▸ (congrArg Prod.fst heq).symm) hk'
      · rw [if_neg hek] at heq
        exact heq ▸ he
    · intro he
      exact ⟨(k', w), he, by simp [hk']⟩

theorem get?_alter_of_not_mem (hnone : m.get? k = none) (k' : κ) (f : Option ν → ν) :
    (m.alter k f).get? k' = if k' = k then some (f none) else m.get? k' := by
  have hk : k ∉ m.keys := get?_eq_none_iff.mp hnone
  by_cases hk' : k' = k
  · rw [if_pos hk', get?_eq_some_iff, entries_alter_of_not_mem hk, hk']
    exact mem_append_right _ (mem_singleton_self _)
  · rw [if_neg hk']
    refine Option.ext (fun w => ?_)
    rw [get?_eq_some_iff, get?_eq_some_iff, entries_alter_of_not_mem hk, mem_append,
      mem_singleton, Prod.mk.injEq]
    exact ⟨fun h => h.elim id (fun he => absurd he.1 hk'), Or.inl⟩

theorem get?_alter (m : IndexMap κ ν) (k k' : κ) (f : Option ν → ν) :
    (m.alter k f).get? k' = if k' = k then some (f (m.get? k)) else m.get? k' := by
  cases hv : m.get? k with
  | none => exact get?_alter_of_not_mem hv k' f
  | some v => exact get?_alter_of_mem hv k' f

theorem get?_insert (m : IndexMap κ ν) (k k' : κ) (v : ν) :
    (m.insert k v).get? k' = if k' = k then some v else m.get? k' := by
  rw [insert, get?_alter]

theorem keys_alter_of_mem (h : k ∈ m.keys) (f : Option ν → ν) : (m.alter k f).keys = m.keys := by
  rw [keys, entries_alter_of_mem h, List.map_map]
  refine map_congr_left (fun e _ => ?_)
  by_cases he : e.1 = k <;> simp [he]

theorem keys_alter_of_not_mem (h : k ∉ m.keys) (f : Option ν → ν) :
    (m.alter k f).keys = m.keys ++ [k] := by
  rw [keys, entries_alter_of_not_mem h, map_append]
  rfl

theorem mem_keys_alter (m : IndexMap κ ν) (k k' : κ) (f : Option ν → ν) :
    k' ∈ (m.alter k f).keys ↔ k' ∈ m.keys ∨ k' = k := by
  by_cases h : k ∈ m.keys
  · rw [keys_alter_of_mem h]
    exact ⟨Or.inl, fun hor => hor.elim id (fun he => he ▸ h)⟩
  · rw [keys_alter_of_not_mem h, mem_append, mem_singleton]

theorem length_alter_of_not_mem (h : k ∉ m.keys) (f : Option ν → ν) :
    (m.alter k f).length = m.length + 1 := by
  rw [length, entries_alter_of_not_mem h, length_append]
  rfl

theorem length_alter_of_mem (h : k ∈ m.keys) (f : Option ν → ν) :
    (m.alter k f).length = m.length := by
  rw [length, entries_alter_of_mem h, length_map]
  rfl

theorem values_insert_of_not_mem (h : k ∉ m.keys) (v : ν) :
    (m.insert k v).values = m.values ++ [v] := by
  rw [values, insert, entries_alter_of_not_mem h, map_append]
  rfl

theorem map_values_insert {old : ν} (hold : m.get? k = some old) (v : ν) (g : ν → ω)
    (hg : g v = g old) : (m.insert k v).values.map g = m.values.map g := by
  have hmem : (k, old) ∈ m.entries := get?_eq_some_iff.mp hold
  rw [values, insert, entries_alter_of_mem (mem_keys_of_mem_entries hmem), values, List.map_map,
    List.map_map, List.map_map]
  refine map_congr_left (fun e he => ?_)
  by_cases hek : e.1 = k
  · have hsame : e = (k, old) := inj_on_of_nodup_map m.nodup he hmem hek
    simp [hsame, hg]
  · simp [hek]

theorem get?_foldl_alter (key : α → κ) (step : Option ν → α → ν) (xs : List α)
    (m : IndexMap κ ν) (k : κ) :
    (xs.foldl (fun m x => m.alter (key x) (fun v => step v x)) m).get? k =
      (xs.filter (fun x => key x = k)).foldl (fun v x => some (step v x)) (m.get? k) := by
  induction xs generalizing m with
  | nil => rfl
  | cons x xs ih =>
    rw [foldl_cons, ih, get?_alter]
    by_cases hk : key x = k
    · rw [if_pos hk.symm, filter_cons_of_pos (by simpa using hk), foldl_cons, hk]
    · rw [if_neg (Ne.symm hk), filter_cons_of_neg (by simpa using hk)]

theorem sum_alter {M : Type*} [AddCommMonoid M] (m : IndexMap κ ν) (k : κ) (f : Option ν → ν)
    (g : ν → M) (a : M) (hnone : g (f none) = a) (hsome : ∀ v, g (f (some v)) = g v + a) :
    ((m.alter k f).values.map g).sum = (m.values.map g).sum + a := by
  by_cases hk : k ∈ m.keys
  · have hsum : ∀ es : List (κ × ν), (es.map Prod.fst).Nodup → k ∈ es.map Prod.fst →
        ((es.map (fun e => if e.1 = k then (e.1, f (some e.2)) else e)).map
          (fun e => g e.2)).sum = (es.map (fun e => g e.2)).sum + a := by
      intro es
      induction es with
      | nil =>
        intro _ hmem
        cases hmem
      | cons e es ih =>
        intro hnodup hmem
        rw [map_cons, nodup_cons] at hnodup
        by_cases he : e.1 = k
        · have hrest : es.map (fun e => if e.1 = k then (e.1, f (some e.2)) else e) = es := by
            refine (map_congr_left (fun e' he' => ?_)).trans es.map_id
            have hne : e'.1 ≠ k := by
              intro h
              exact hnodup.1 (by rw [he, ← h]; exact List.mem_map_of_mem he')
            rw [if_neg hne]
            rfl
          rw [map_cons, hrest, if_pos he, map_cons, sum_cons, map_cons,
            sum_cons, hsome, add_right_comm]
        · have htail : k ∈ es.map Prod.fst := (mem_cons.mp hmem).resolve_left (fun h => he h.symm)
          rw [map_cons, if_neg he, map_cons, sum_cons, ih hnodup.2 htail,
            map_cons, sum_cons, add_assoc]
    have htotal := hsum m.entries m.nodup hk
    rw [List.map_map] at htotal
    rw [values, entries_alter_of_mem hk, values, List.map_map, List.map_map, List.map_map]
    exact htotal
  · rw [values, entries_alter_of_not_mem hk, values, map_append, map_append,
      sum_append, map_singleton, map_singleton, sum_singleton, hnone]

theorem entries_filter_key (m : IndexMap κ ν) (k : κ) :
    m.entries.filter (fun e => e.1 = k) = (m.get? k).toList.map (fun v => (k, v)) := by
  cases hv : m.get? k with
  | none =>
    have hk : k ∉ m.keys := get?_eq_none_iff.mp hv
    refine filter_eq_nil_iff.mpr (fun e he => ?_)
    simp only [decide_eq_true_eq]
    exact fun hek => hk (hek ▸ List.mem_map_of_mem he)
  | some v =>
    have hmem : (k, v) ∈ m.entries := get?_eq_some_iff.mp hv
    have hnodup := m.entries_nodup.filter (fun e => decide (e.1 = k))
    refine perm_singleton.mp ((perm_ext_iff_of_nodup hnodup (nodup_singleton _)).mpr (fun e => ?_))
    rw [mem_filter, mem_singleton, decide_eq_true_eq]
    constructor
    · rintro ⟨he, hek⟩
      exact inj_on_of_nodup_map m.nodup he hmem hek
    · rintro rfl
      exact ⟨hmem, rfl⟩

end IndexMap

end Sipnab
