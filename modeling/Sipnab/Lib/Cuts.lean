import Mathlib

/-!
# Sequences cut into pieces

The pieces of a sequence start at the lengths of what precedes them. Where no piece is empty, later
pieces start later. A property of every element together with what precedes it is a property of
every cut.
-/

namespace Sipnab

open List

variable {α : Type*}

/-- Where piece `k` starts; past the last piece, where the sequence ends. -/
def cutOffset (pieces : List (List α)) (k : ℕ) : ℕ := (pieces.take k).flatten.length

variable {pieces : List (List α)} {i j n : ℕ} {pattern : List α}

theorem flatten_take_succ {k : ℕ} {piece : List α} (h : pieces[k]? = some piece) :
    (pieces.take (k + 1)).flatten = (pieces.take k).flatten ++ piece := by
  rw [take_add_one, h, flatten_append, Option.toList_some, flatten_singleton]

theorem cutOffset_succ {k : ℕ} {piece : List α} (h : pieces[k]? = some piece) :
    cutOffset pieces (k + 1) = cutOffset pieces k + piece.length := by
  rw [cutOffset, flatten_take_succ h, length_append, cutOffset]

theorem prefix_flatten_take (pieces : List (List α)) (k : ℕ) :
    (pieces.take k).flatten <+: pieces.flatten := by
  refine ⟨(pieces.drop k).flatten, ?_⟩
  rw [← flatten_append, take_append_drop]

theorem cutOffset_le (pieces : List (List α)) (k : ℕ) :
    cutOffset pieces k ≤ pieces.flatten.length := (prefix_flatten_take pieces k).length_le

theorem cutOffset_mono (pieces : List (List α)) (h : i ≤ j) :
    cutOffset pieces i ≤ cutOffset pieces j := by
  induction j, h using Nat.le_induction with
  | base => exact Nat.le_refl _
  | succ j _ ih =>
    cases hpiece : pieces[j]? with
    | none =>
      have hend := List.getElem?_eq_none_iff.mp hpiece
      have hsame : cutOffset pieces (j + 1) = cutOffset pieces j := by
        rw [cutOffset, cutOffset, take_of_length_le hend, take_of_length_le (by omega)]
      rw [hsame]
      exact ih
    | some piece =>
      rw [cutOffset_succ hpiece]
      omega

section

variable (hne : ∀ piece ∈ pieces, piece ≠ [])
include hne

theorem cutOffset_lt (hij : i < j) (hj : j ≤ pieces.length) :
    cutOffset pieces i < cutOffset pieces j := by
  obtain ⟨piece, hpiece⟩ : ∃ piece, pieces[i]? = some piece :=
    ⟨_, List.getElem?_eq_getElem (by omega)⟩
  have hpos := length_pos_of_ne_nil (hne piece (mem_of_getElem? hpiece))
  have hmono := cutOffset_mono pieces (Nat.succ_le_of_lt hij)
  rw [cutOffset_succ hpiece] at hmono
  omega

theorem cutOffset_lt_iff (hj : j ≤ pieces.length) :
    cutOffset pieces i < cutOffset pieces j ↔ i < j := by
  constructor
  · intro h
    by_contra hij
    have hmono := cutOffset_mono pieces (Nat.le_of_not_lt hij)
    omega
  · intro h
    exact cutOffset_lt hne h hj

theorem cutOffset_inj (hi : i ≤ pieces.length) (hj : j ≤ pieces.length) :
    cutOffset pieces i = cutOffset pieces j ↔ i = j := by
  have hlt := cutOffset_lt_iff hne (i := i) hj
  have hgt := cutOffset_lt_iff hne (i := j) hi
  omega

end

theorem exists_cut_of_lt (h : n < pieces.flatten.length) :
    ∃ k < pieces.length, cutOffset pieces k ≤ n ∧ n < cutOffset pieces (k + 1) := by
  induction pieces generalizing n with
  | nil => simp at h
  | cons piece pieces ih =>
    have hstep : ∀ k, cutOffset (piece :: pieces) (k + 1) = piece.length + cutOffset pieces k := by
      intro k
      rw [cutOffset, take_succ_cons, flatten_cons, length_append, cutOffset]
    rw [flatten_cons, length_append] at h
    by_cases hn : n < piece.length
    · refine ⟨0, Nat.succ_pos _, Nat.zero_le _, ?_⟩
      rw [hstep]
      omega
    · obtain ⟨k, hk, hlow, hhigh⟩ := ih (n := n - piece.length) (by omega)
      refine ⟨k + 1, Nat.succ_lt_succ hk, ?_, ?_⟩
      · rw [hstep]
        omega
      · rw [hstep]
        omega

theorem concat_eq_append_cons_iff {ms : List α} {x m : α} {pre post : List α} :
    ms ++ [x] = pre ++ m :: post ↔
      (∃ rest, post = rest ++ [x] ∧ ms = pre ++ m :: rest) ∨ (post = [] ∧ ms = pre ∧ x = m) := by
  rcases eq_nil_or_concat post with rfl | ⟨rest, last, rfl⟩
  · constructor
    · intro h
      obtain ⟨hpre, hlast⟩ := append_inj' h rfl
      exact Or.inr ⟨rfl, hpre, by simpa using hlast⟩
    · rintro (⟨rest, hnil, -⟩ | ⟨-, rfl, rfl⟩)
      · simp at hnil
      · rfl
  · rw [concat_eq_append, ← cons_append, ← append_assoc]
    constructor
    · intro h
      obtain ⟨hpre, hlast⟩ := append_inj' h rfl
      obtain rfl : x = last := by simpa using hlast
      exact Or.inl ⟨rest, rfl, hpre⟩
    · rintro (⟨rest', hrest, rfl⟩ | ⟨hnil, -⟩)
      · obtain ⟨rfl, hlast⟩ := append_inj' hrest rfl
        obtain rfl : last = x := by simpa using hlast
        rfl
      · simp at hnil

/-- Every element has the property where it stands, behind the elements before it. -/
def Stepwise (P : List α → α → Prop) (xs : List α) : Prop :=
  ∀ before x after, xs = before ++ x :: after → P before x

variable {P : List α → α → Prop} {xs : List α} {x : α}

theorem stepwise_nil : Stepwise P [] := by
  intro before x after h
  simp at h

theorem Stepwise.of_append {ys : List α} (h : Stepwise P (xs ++ ys)) : Stepwise P xs := by
  intro before y after hsplit
  apply h before y (after ++ ys)
  rw [hsplit, append_assoc, cons_append]

theorem stepwise_concat : Stepwise P (xs ++ [x]) ↔ Stepwise P xs ∧ P xs x := by
  constructor
  · intro h
    exact ⟨h.of_append, h xs x [] rfl⟩
  · rintro ⟨hbefore, hlast⟩ before y after hsplit
    rcases concat_eq_append_cons_iff.mp hsplit with ⟨rest, -, hrest⟩ | ⟨-, rfl, rfl⟩
    · exact hbefore before y rest hrest
    · exact hlast

theorem stepwise_iff_take : Stepwise P xs ↔ ∀ i : Fin xs.length, P (xs.take i) xs[i] := by
  constructor
  · intro h i
    apply h (xs.take i) xs[i] (xs.drop (i + 1))
    exact (take_append_drop i xs).symm.trans (by rw [drop_eq_getElem_cons i.isLt]; rfl)
  · intro h before x after hsplit
    subst hsplit
    have hstep := h ⟨before.length, by simp⟩
    simpa using hstep

instance [∀ before x, Decidable (P before x)] : Decidable (Stepwise P xs) :=
  decidable_of_iff _ stepwise_iff_take.symm

theorem take_append_of_isPrefix_drop {data : List α} {d : ℕ} (h : data <+: xs.drop d) :
    xs.take d ++ data = xs.take (d + data.length) := by
  have hdata : data = (xs.drop d).take data.length := prefix_iff_eq_take.mp h
  rw [take_add, ← hdata]

def findInfix [DecidableEq α] (pattern : List α) : List α → Option ℕ
  | [] => if pattern.isEmpty then some 0 else none
  | x :: xs =>
    if pattern.isPrefixOf (x :: xs) then some 0 else (findInfix pattern xs).map (· + 1)

theorem findInfix_eq_some_iff [DecidableEq α] :
    findInfix pattern xs = some i ↔
      i ≤ xs.length ∧ pattern <+: xs.drop i ∧ ∀ j < i, ¬ pattern <+: xs.drop j := by
  induction xs generalizing i with
  | nil =>
    rw [findInfix]
    split_ifs with hempty
    · rw [List.isEmpty_iff] at hempty
      subst hempty
      constructor
      · intro h
        rw [← Option.some.inj h]
        exact ⟨Nat.le_refl _, nil_prefix, fun j hj => absurd hj (Nat.not_lt_zero j)⟩
      · rintro ⟨hle, -, -⟩
        rw [Nat.le_zero.mp hle]
    · refine iff_of_false (fun h => by cases h) ?_
      rintro ⟨-, hisPrefix, -⟩
      rw [drop_nil, prefix_nil] at hisPrefix
      exact absurd (List.isEmpty_iff.mpr hisPrefix) hempty
  | cons x xs ih =>
    rw [findInfix]
    split_ifs with hisPrefix
    · rw [ isPrefixOf_iff_prefix] at hisPrefix
      constructor
      · intro h
        rw [← Option.some.inj h]
        exact ⟨Nat.zero_le _, hisPrefix, fun j hj => absurd hj (Nat.not_lt_zero j)⟩
      · rintro ⟨-, -, hfirst⟩
        by_contra hne
        have hpos : 0 < i := Nat.pos_of_ne_zero (fun hi => hne (by rw [hi]))
        exact hfirst 0 hpos hisPrefix
    · rw [ isPrefixOf_iff_prefix] at hisPrefix
      rw [Option.map_eq_some_iff]
      constructor
      · rintro ⟨k, hk, rfl⟩
        obtain ⟨hle, hfound, hfirst⟩ := ih.mp hk
        refine ⟨Nat.succ_le_succ hle, hfound, ?_⟩
        intro j hj
        cases j with
        | zero => exact hisPrefix
        | succ j => exact hfirst j (Nat.lt_of_succ_lt_succ hj)
      · rintro ⟨hle, hfound, hfirst⟩
        cases i with
        | zero => exact absurd hfound hisPrefix
        | succ i =>
          refine ⟨i, ih.mpr ⟨Nat.le_of_succ_le_succ hle, hfound, ?_⟩, rfl⟩
          exact fun j hj => hfirst (j + 1) (Nat.succ_lt_succ hj)

theorem findInfix_eq_none_iff [DecidableEq α] :
    findInfix pattern xs = none ↔ ∀ i, ¬ pattern <+: xs.drop i := by
  induction xs with
  | nil =>
    rw [findInfix]
    split_ifs with hempty
    · rw [List.isEmpty_iff] at hempty
      subst hempty
      exact iff_of_false (fun h => by cases h) (fun h => h 0 nil_prefix)
    · refine iff_of_true rfl ?_
      intro i hisPrefix
      rw [drop_nil, prefix_nil] at hisPrefix
      exact hempty (List.isEmpty_iff.mpr hisPrefix)
  | cons x xs ih =>
    rw [findInfix]
    split_ifs with hisPrefix
    · rw [ isPrefixOf_iff_prefix] at hisPrefix
      exact iff_of_false (fun h => by cases h) (fun h => h 0 hisPrefix)
    · rw [ isPrefixOf_iff_prefix] at hisPrefix
      rw [Option.map_eq_none_iff, ih]
      constructor
      · intro h i
        cases i with
        | zero => exact hisPrefix
        | succ i => exact h i
      · exact fun h i => h (i + 1)

theorem findInfix_append [DecidableEq α] (h : findInfix pattern xs = some i) (more : List α) :
    findInfix pattern (xs ++ more) = some i := by
  obtain ⟨hle, hhere, hfirst⟩ := findInfix_eq_some_iff.mp h
  refine findInfix_eq_some_iff.mpr ⟨?_, ?_, fun j hj hearlier => hfirst j hj ?_⟩
  · rw [length_append]
    omega
  · rw [drop_append_of_le_length hle]
    exact hhere.trans (prefix_append _ _)
  · -- an earlier place in the longer list would lie in the shorter one too
    rw [drop_append_of_le_length (by omega)] at hearlier
    have hlength := hhere.length_le
    rw [length_drop] at hlength
    refine prefix_of_prefix_length_le hearlier (prefix_append _ _) ?_
    rw [length_drop]
    omega

theorem length_le_of_findInfix [DecidableEq α] (h : findInfix pattern xs = some i) :
    i + pattern.length ≤ xs.length := by
  obtain ⟨hle, hhere, -⟩ := findInfix_eq_some_iff.mp h
  have hlength := hhere.length_le
  rw [length_drop] at hlength
  omega

theorem lt_of_findInfix_append [DecidableEq α] {more : List α}
    (hnone : findInfix pattern xs = none) (h : findInfix pattern (xs ++ more) = some i) :
    xs.length < i + pattern.length := by
  by_contra hle
  obtain ⟨-, hhere, -⟩ := findInfix_eq_some_iff.mp h
  refine findInfix_eq_none_iff.mp hnone i ?_
  rw [drop_append_of_le_length (by omega)] at hhere
  refine prefix_of_prefix_length_le hhere (prefix_append _ _) ?_
  rw [length_drop]
  omega

theorem findInfix_take [DecidableEq α] (h : findInfix pattern xs = some i)
    (hn : i + pattern.length ≤ n) : findInfix pattern (xs.take n) = some i := by
  have hlength := length_le_of_findInfix h
  rw [← take_append_drop n xs] at h
  cases htake : findInfix pattern (xs.take n) with
  | none =>
    have hlt := lt_of_findInfix_append htake h
    rw [length_take] at hlt
    omega
  | some j =>
    rw [findInfix_append htake] at h
    rw [Option.some.inj h]

theorem findInfix_take_eq_none [DecidableEq α] (h : findInfix pattern xs = some i)
    (hn : n < i + pattern.length) : findInfix pattern (xs.take n) = none := by
  cases htake : findInfix pattern (xs.take n) with
  | none => rfl
  | some j =>
    have hlength := length_le_of_findInfix htake
    rw [← take_append_drop n xs, findInfix_append htake] at h
    rw [Option.some.inj h, length_take] at hlength
    omega

end Sipnab
