import Sipnab.Lib.KWayMerge

/-!
# A buffer that sheds its oldest elements in batches

Adding to a buffer at its cap first drops a whole batch from the front. What such a buffer holds
after a sequence of additions is a suffix of the sequence whose length depends on the sequence's
length alone.

Several buffers fed shares of a sequence, their survivors added in order to one more buffer, end
up with what a single buffer keeps exactly when none of them has shed an element the single buffer
keeps.
-/

namespace Sipnab

open List

structure Rotation where
  cap : ℕ
  batch : ℕ
  batch_pos : 0 < batch
  batch_le : batch ≤ cap

namespace Rotation

variable {α : Type*} (r : Rotation)

def add (xs : List α) (x : α) : List α :=
  (if r.cap ≤ xs.length then xs.drop r.batch else xs) ++ [x]

def kept : ℕ → ℕ
  | 0 => 0
  | n + 1 => (if r.cap ≤ kept n then kept n - r.batch else kept n) + 1

def survivors (xs : List α) : List α := xs.drop (xs.length - r.kept xs.length)

theorem kept_le (n : ℕ) : r.kept n ≤ n ∧ r.kept n ≤ r.cap := by
  have hpos := r.batch_pos
  have hle := r.batch_le
  induction n with
  | zero => exact ⟨le_refl _, Nat.zero_le _⟩
  | succ n ih =>
    rw [kept]
    split_ifs <;> omega

theorem kept_of_le {n : ℕ} (h : n ≤ r.cap) : r.kept n = n := by
  induction n with
  | zero => rfl
  | succ n ih =>
    have hn := ih (by omega)
    rw [kept, hn, if_neg (by omega)]

theorem cap_lt_kept_add {n : ℕ} (h : r.cap ≤ n) : r.cap < r.kept n + r.batch := by
  have hpos := r.batch_pos
  induction n, h using Nat.le_induction with
  | base =>
    rw [r.kept_of_le (le_refl _)]
    omega
  | succ n _ ih =>
    have hle := r.kept_le n
    rw [kept]
    split_ifs <;> omega

theorem exists_shed (n : ℕ) : ∃ j, n = r.kept n + r.batch * j := by
  have hle := r.batch_le
  induction n with
  | zero => exact ⟨0, rfl⟩
  | succ n ih =>
    obtain ⟨j, hj⟩ := ih
    rw [kept]
    split_ifs with hfull
    · refine ⟨j + 1, ?_⟩
      rw [Nat.mul_add, Nat.mul_one]
      omega
    · exact ⟨j, by omega⟩

theorem eq_of_shed {x y j k : ℕ} (hx : x ≤ r.cap) (hx' : r.cap < x + r.batch) (hy : y ≤ r.cap)
    (hy' : r.cap < y + r.batch) (h : x + r.batch * j = y + r.batch * k) : x = y := by
  have hmod : x % r.batch = y % r.batch := by
    rw [← Nat.add_mul_mod_self_left x r.batch j, h, Nat.add_mul_mod_self_left]
  have hxy : x ≡ y [MOD r.batch] := hmod
  rcases Nat.le_total x y with hle | hle
  · have hdvd := (Nat.modEq_iff_dvd' hle).mp hxy
    have hzero := Nat.eq_zero_of_dvd_of_lt hdvd (by omega)
    omega
  · have hdvd := (Nat.modEq_iff_dvd' hle).mp hxy.symm
    have hzero := Nat.eq_zero_of_dvd_of_lt hdvd (by omega)
    omega

theorem kept_eq_of_shed {n u j : ℕ} (hn : n = u + r.batch * j) (hu : r.kept n ≤ u) :
    r.kept u = r.kept n := by
  obtain ⟨k, hk⟩ := r.exists_shed n
  obtain ⟨l, hl⟩ := r.exists_shed u
  have hun := r.kept_le u
  have hnn := r.kept_le n
  rcases Nat.lt_or_ge r.cap n with hlarge | hsmall
  · have hlow := r.cap_lt_kept_add hlarge.le
    have hlowu : r.cap < r.kept u + r.batch := by
      rcases Nat.lt_or_ge r.cap u with hularge | husmall
      · exact r.cap_lt_kept_add hularge.le
      · rw [r.kept_of_le husmall]
        omega
    refine r.eq_of_shed (j := l + j) (k := k) hun.2 hlowu hnn.2 hlow ?_
    rw [Nat.mul_add]
    omega
  · have hkn := r.kept_of_le hsmall
    have hsame : u = n := by
      rw [hkn] at hu
      omega
    rw [hsame]

theorem length_survivors (xs : List α) : (r.survivors xs).length = r.kept xs.length := by
  have hle := (r.kept_le xs.length).1
  rw [survivors, length_drop]
  omega

theorem survivors_suffix (xs : List α) : r.survivors xs <:+ xs := drop_suffix _ xs

theorem foldl_add (xs : List α) : xs.foldl r.add [] = r.survivors xs := by
  induction xs using List.reverseRecOn with
  | nil => rfl
  | append_singleton xs x ih =>
    have hle := (r.kept_le xs.length).1
    have hlength := r.length_survivors xs
    rw [foldl_append, ih, foldl_cons, foldl_nil, add, hlength, survivors, survivors,
      length_append, length_singleton, kept]
    have hbatch := r.batch_le
    split_ifs with hfull
    · rw [drop_drop, drop_append_of_le_length (by omega)]
      congr 2
      omega
    · rw [drop_append_of_le_length (by omega)]
      congr 2
      omega

theorem suffix_survivors {xs ys : List α} (hys : ys <:+ xs) (h : ys.length ≤ r.kept xs.length) :
    ys <:+ r.survivors xs := by
  rw [← r.length_survivors xs] at h
  exact suffix_of_suffix_length_le hys (r.survivors_suffix xs) h

section Shares
variable [DecidableEq α] (assign : α → ℕ) (xs : List α)

def pooled : List α := xs.filter (fun x => x ∈ r.survivors (share assign xs (assign x)))

variable {assign xs}

theorem filter_mem_suffix {ys zs : List α} (hnodup : zs.Nodup) (h : ys <:+ zs) :
    zs.filter (fun x => x ∈ ys) = ys := by
  obtain ⟨pre, rfl⟩ := h
  have hdisjoint := nodup_append.mp hnodup
  rw [filter_append]
  have hpre : pre.filter (fun x => x ∈ ys) = [] := by
    refine filter_eq_nil_iff.mpr (fun x hx => ?_)
    simp only [decide_eq_true_eq]
    exact fun hmem => hdisjoint.2.2 x hx x hmem rfl
  have hys : ys.filter (fun x => x ∈ ys) = ys := filter_eq_self.mpr (fun x hx => by simpa using hx)
  rw [hpre, hys, nil_append]

theorem share_pooled (hnodup : xs.Nodup) (i : ℕ) :
    share assign (r.pooled assign xs) i = r.survivors (share assign xs i) := by
  rw [← filter_mem_suffix (hnodup.filter _) (r.survivors_suffix (share assign xs i)), share, pooled,
    share, List.filter_filter, List.filter_filter]
  refine filter_congr (fun x _ => ?_)
  by_cases hx : assign x = i
  · simp [hx, share]
  · simp [hx]

omit [DecidableEq α] in
theorem sum_shed (assign : α → ℕ) (xs : List α) (n : ℕ) :
    ∃ j, ((List.range n).map (fun i => (share assign xs i).length)).sum =
      ((List.range n).map (fun i => r.kept (share assign xs i).length)).sum + r.batch * j := by
  induction n with
  | zero => exact ⟨0, rfl⟩
  | succ n ih =>
    obtain ⟨j, hj⟩ := ih
    obtain ⟨k, hk⟩ := r.exists_shed (share assign xs n).length
    refine ⟨j + k, ?_⟩
    rw [range_succ, map_append, sum_append, map_append, sum_append,
      map_singleton, map_singleton, sum_singleton, sum_singleton, Nat.mul_add]
    omega

theorem exists_pooled_shed (hnodup : xs.Nodup) {n : ℕ} (hassign : ∀ x ∈ xs, assign x < n) :
    ∃ j, xs.length = (r.pooled assign xs).length + r.batch * j := by
  obtain ⟨j, hj⟩ := r.sum_shed assign xs n
  have hlength : ∀ ys : List α, (∀ y ∈ ys, assign y < n) → ys.length =
      ((List.range n).map (fun i => (share assign ys i).length)).sum := by
    intro ys hys
    rw [← (shares_perm assign ys n hys).length_eq, length_flatten, List.map_map]
    rfl
  have hpooled := hlength (r.pooled assign xs) (fun x hx => hassign x (mem_of_mem_filter hx))
  simp only [r.share_pooled hnodup, r.length_survivors] at hpooled
  exact ⟨j, by rw [hlength xs hassign, hj, hpooled]⟩

/-- The pooled survivors keep what a single buffer keeps exactly when no buffer has shed one of
those elements. -/
theorem pooled_survivors_iff (hnodup : xs.Nodup) {n : ℕ} (hassign : ∀ x ∈ xs, assign x < n) :
    (∀ x, x ∈ r.survivors (r.pooled assign xs) ↔ x ∈ r.survivors xs) ↔
      ∀ i, (share assign (r.survivors xs) i).length ≤ r.kept (share assign xs i).length := by
  obtain ⟨pre, hpre⟩ := r.survivors_suffix xs
  have hshare : ∀ i, share assign (r.survivors xs) i <:+ share assign xs i := by
    intro i
    refine ⟨share assign pre i, ?_⟩
    rw [share, share, ← filter_append, hpre]
    rfl
  constructor
  · intro hsame i
    have hsub : share assign (r.survivors xs) i ⊆ r.survivors (share assign xs i) := by
      intro x hx
      obtain ⟨hmem, hi⟩ := mem_filter.mp hx
      have hpool := (r.survivors_suffix _).subset ((hsame x).mpr hmem)
      have hheld := (mem_filter.mp hpool).2
      rw [decide_eq_true_eq] at hi hheld
      rwa [hi] at hheld
    have hnodup' : (share assign (r.survivors xs) i).Nodup :=
      (hnodup.sublist (r.survivors_suffix xs).sublist).filter _
    rw [← r.length_survivors]
    exact (subperm_of_subset hnodup' hsub).length_le
  · intro hfew
    have hall : ∀ x ∈ r.survivors xs, x ∈ r.survivors (share assign xs (assign x)) := by
      intro x hx
      refine (r.suffix_survivors (hshare (assign x)) (hfew (assign x))).subset ?_
      exact mem_filter.mpr ⟨hx, by simp⟩
    have hpooled : r.survivors xs <:+ r.pooled assign xs := by
      refine ⟨pre.filter (fun x => x ∈ r.survivors (share assign xs (assign x))), ?_⟩
      have hself : (r.survivors xs).filter
          (fun x => x ∈ r.survivors (share assign xs (assign x))) = r.survivors xs :=
        filter_eq_self.mpr (fun x hx => by simpa using hall x hx)
      conv_lhs => rw [← hself]
      rw [← filter_append, hpre]
      rfl
    obtain ⟨j, hj⟩ := r.exists_pooled_shed hnodup hassign
    have hlength := hpooled.length_le
    rw [r.length_survivors] at hlength
    have hkept := r.kept_eq_of_shed hj hlength
    have hsuffix := r.suffix_survivors hpooled (by rw [r.length_survivors, hkept])
    have hequal : r.survivors xs = r.survivors (r.pooled assign xs) :=
      hsuffix.eq_of_length (by rw [r.length_survivors, r.length_survivors, hkept])
    intro x
    rw [hequal]

end Shares

end Rotation

end Sipnab
