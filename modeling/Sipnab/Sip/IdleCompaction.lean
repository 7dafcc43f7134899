import Sipnab.Sip.DialogStore

/-!
# Compaction and the outcome of a dialog

Compaction keeps the first response for each status code and `CSeq` method, so that every final code
survives. What it does not keep is the presence of an `INVITE` in a dialog of another method, and on
that presence the final status depends too.
-/

namespace Sipnab

open List Option

/-! ## Kept positions -/

namespace DialogStore

variable {α : Type*} {i : ℕ} {dialogMethod : SipMethod}

theorem retainAt_sublist (i : ℕ) (keep : List ℕ) (xs : List α) :
    (retainAt i keep xs).Sublist xs := by
  induction xs generalizing i keep with
  | nil => cases keep <;> exact List.Sublist.refl _
  | cons x xs ih =>
    cases keep with
    | nil => exact (ih _ _).cons x
    | cons k ks =>
      rw [retainAt]
      split_ifs
      · exact (ih _ _).cons_cons x
      · exact (ih _ _).cons x

theorem retainAt_nil (i : ℕ) (xs : List α) : retainAt i [] xs = [] := by
  induction xs generalizing i with
  | nil => rfl
  | cons x xs ih => exact ih (i + 1)

/-- Positions in ascending order that all lie in the list. -/
structure Ascending (i n : ℕ) (keep : List ℕ) : Prop where
  sorted : keep.Pairwise (· < ·)
  range : ∀ k ∈ keep, i ≤ k ∧ k < i + n

theorem Ascending.tail {i n k : ℕ} {ks : List ℕ} (h : Ascending i (n + 1) (k :: ks)) (hk : k = i) :
    Ascending (i + 1) n ks := by
  refine ⟨h.sorted.of_cons, fun j hj => ?_⟩
  have hlt := rel_of_pairwise_cons h.sorted hj
  have hrange := h.range j (mem_cons_of_mem k hj)
  omega

theorem Ascending.skip {i n k : ℕ} {ks : List ℕ} (h : Ascending i (n + 1) (k :: ks)) (hk : k ≠ i) :
    Ascending (i + 1) n (k :: ks) := by
  refine ⟨h.sorted, fun j hj => ?_⟩
  have hfirst := h.range k mem_cons_self
  have hrange := h.range j hj
  rcases mem_cons.mp hj with rfl | hj
  · omega
  · have hlt := rel_of_pairwise_cons h.sorted hj
    omega

variable {keep : List ℕ} {budget : ℕ} (messages : List SipMessage)

theorem length_retainAt {xs : List α} (h : Ascending i xs.length keep) :
    (retainAt i keep xs).length = keep.length := by
  induction xs generalizing i keep with
  | nil =>
    cases keep with
    | nil => rfl
    | cons k ks =>
      have hrange := h.range k mem_cons_self
      simp only [length_nil] at hrange
      omega
  | cons x xs ih =>
    cases keep with
    | nil => simp [retainAt_nil]
    | cons k ks =>
      rw [retainAt]
      split_ifs with hk
      · rw [length_cons, ih (h.tail hk), length_cons]
      · exact ih (h.skip hk)

theorem mem_retainAt {xs : List α} {x : α} (h : Ascending i xs.length keep) :
    x ∈ retainAt i keep xs ↔ ∃ k ∈ keep, xs[k - i]? = some x := by
  induction xs generalizing i keep with
  | nil => simp [retainAt]
  | cons y ys ih =>
    cases keep with
    | nil => simp [retainAt_nil]
    | cons k ks =>
      -- behind the first position an index counts from one further
      have hshift (j : ℕ) (hj : i < j) : (y :: ys)[j - i]? = ys[j - (i + 1)]? := by
        rw [show j - i = j - (i + 1) + 1 by omega, List.getElem?_cons_succ]
      rw [retainAt]
      split_ifs with hk
      · rw [mem_cons, ih (h.tail hk)]
        constructor
        · rintro (rfl | ⟨j, hj, hx⟩)
          · exact ⟨k, mem_cons_self, by simp [hk]⟩
          · have hlt := rel_of_pairwise_cons h.sorted hj
            exact ⟨j, mem_cons_of_mem k hj, by rw [hshift j (by omega), hx]⟩
        · rintro ⟨j, hj, hx⟩
          rcases mem_cons.mp hj with rfl | hj
          · left
            simpa [hk] using hx.symm
          · have hlt := rel_of_pairwise_cons h.sorted hj
            exact .inr ⟨j, hj, by rw [← hshift j (by omega), hx]⟩
      · rw [ih (h.skip hk)]
        have hrange := fun j hj => ((h.skip hk).range j hj).1
        constructor
        · rintro ⟨j, hj, hx⟩
          exact ⟨j, hj, by rw [hshift j (by have := hrange j hj; omega), hx]⟩
        · rintro ⟨j, hj, hx⟩
          exact ⟨j, hj, by rw [← hshift j (by have := hrange j hj; omega), hx]⟩

/-! ## The budget filled from the end -/

def fillStep (budget : ℕ) (keep : Finset ℕ) (idx : ℕ) : Finset ℕ :=
  if budget ≤ keep.card then keep else insert idx keep

/-- The positions are filled downwards to a threshold: above it all are kept, and it is as low as
the budget allows. -/
theorem fill_eq (budget n : ℕ) (s : Finset ℕ) :
    ∃ t ≤ n, (List.range n).reverse.foldl (fillStep budget) s = s ∪ Finset.Ico t n ∧
      (0 < t → budget ≤ (s ∪ Finset.Ico t n).card) ∧
      (t < n → (s ∪ Finset.Ico (t + 1) n).card < budget) := by
  induction n generalizing s with
  | zero => exact ⟨0, le_rfl, by simp, by simp, by simp⟩
  | succ n ih =>
    rw [range_succ, reverse_append, reverse_singleton, singleton_append, foldl_cons]
    by_cases hfull : budget ≤ s.card
    · -- a full set stays as it is
      have hstay : ∀ l : List ℕ, l.foldl (fillStep budget) s = s := by
        intro l
        induction l with
        | nil => rfl
        | cons a l ihl => rw [foldl_cons, fillStep, if_pos hfull, ihl]
      refine ⟨n + 1, le_rfl, ?_, ?_, by simp⟩
      · rw [fillStep, if_pos hfull, hstay, Finset.Ico_self, Finset.union_empty]
      · intro _
        rwa [Finset.Ico_self, Finset.union_empty]
    · obtain ⟨t, ht, heq, hlow, hhigh⟩ := ih (insert n s)
      have hmove (k : ℕ) (hk : k ≤ n) :
          insert n s ∪ Finset.Ico k n = s ∪ Finset.Ico k (n + 1) := by
        rw [Finset.insert_union, ← Finset.union_insert, Finset.insert_Ico_right_eq_Ico_add_one hk]
      refine ⟨t, by omega, ?_, ?_, ?_⟩
      · rw [fillStep, if_neg hfull, heq, hmove t ht]
      · intro hpos
        rw [← hmove t ht]
        exact hlow hpos
      · intro _
        rcases Nat.lt_or_ge t n with hlt | hge
        · rw [← hmove (t + 1) hlt]
          exact hhigh hlt
        · rw [show t + 1 = n + 1 by omega, Finset.Ico_self, Finset.union_empty]
          omega

/-! ## Anchors -/

/-- What `retained_indices` tells the responses of a dialog apart by. -/
def outcomeKey (m : SipMessage) : ℕ × String :=
  (m.statusCode.getD 0, (m.cseq.map Prod.snd).getD "")

def outcomeAnchors (messages : List SipMessage) (dialogMethod : SipMethod) : List ℕ :=
  (messages.zipIdx.foldl (AnchorScan.visit dialogMethod) {}).anchors

/-- The scan behind the first messages of a dialog: its anchors are positions in ascending order,
and a response that carries the outcome has one with its key. -/
structure Scanned (dialogMethod : SipMethod) (done : List SipMessage) (a : AnchorScan) : Prop where
  anchors : a.anchors.Sublist (List.range done.length)
  seen : ∀ key ∈ a.seenResponses, ∃ j ∈ a.anchors, ∃ m, done[j]? = some m ∧
    m.isRequest = false ∧ outcomeKey m = key
  covered : ∀ m ∈ done, m.isRequest = false → carriesDialogOutcome m dialogMethod = true →
    outcomeKey m ∈ a.seenResponses

theorem Scanned.visit {done : List SipMessage} {a : AnchorScan} (h : Scanned dialogMethod done a)
    (m : SipMessage) :
    Scanned dialogMethod (done ++ [m]) (a.visit dialogMethod (m, done.length)) := by
  have hrange : List.range (done ++ [m]).length = List.range done.length ++ [done.length] := by
    rw [length_append, length_singleton, range_succ]
  have hkeep : a.anchors.Sublist (List.range (done ++ [m]).length) := by
    rw [hrange]
    exact h.anchors.trans (sublist_append_left _ _)
  have hpush : (a.anchors ++ [done.length]).Sublist (List.range (done ++ [m]).length) := by
    rw [hrange]
    exact h.anchors.append (List.Sublist.refl _)
  -- earlier messages stay where they were
  have hseen (anchors : List ℕ) (hsub : a.anchors ⊆ anchors) : ∀ key ∈ a.seenResponses,
      ∃ j ∈ anchors, ∃ m', (done ++ [m])[j]? = some m' ∧ m'.isRequest = false ∧
        outcomeKey m' = key := by
    intro key hkey
    obtain ⟨j, hj, m', hm', hresponse, heq⟩ := h.seen key hkey
    refine ⟨j, hsub hj, m', ?_, hresponse, heq⟩
    rw [List.getElem?_append_left (List.getElem?_eq_some_iff.mp hm').1, hm']
  have hcovered (seen : List (ℕ × String)) (hsub : a.seenResponses ⊆ seen)
      (hnew : m.isRequest = false → carriesDialogOutcome m dialogMethod = true →
        outcomeKey m ∈ seen) :
      ∀ m' ∈ done ++ [m], m'.isRequest = false → carriesDialogOutcome m' dialogMethod = true →
        outcomeKey m' ∈ seen := by
    intro m' hm' hresponse hcarries
    rcases mem_append.mp hm' with hm' | hm'
    · exact hsub (h.covered m' hm' hresponse hcarries)
    · obtain rfl := mem_singleton.mp hm'
      exact hnew hresponse hcarries
  have happend := subset_append_left a.anchors [done.length]
  unfold AnchorScan.visit
  dsimp only
  by_cases hcarries : carriesDialogOutcome m dialogMethod = false
  · rw [if_pos hcarries]
    refine ⟨hkeep, hseen _ (List.Subset.refl _), hcovered _ (List.Subset.refl _) ?_⟩
    intro _ htrue
    exact absurd htrue (by simp [hcarries])
  rw [if_neg hcarries]
  by_cases hrequest : m.isRequest = true
  · rw [if_pos hrequest]
    have hnew (seen : List (ℕ × String)) : m.isRequest = false →
        carriesDialogOutcome m dialogMethod = true → outcomeKey m ∈ seen := by
      intro hresponse
      exact absurd hresponse (by simp [hrequest])
    have hstay : Scanned dialogMethod (done ++ [m]) a :=
      ⟨hkeep, hseen _ (List.Subset.refl _), hcovered _ (List.Subset.refl _) (hnew _)⟩
    split
    · exact hstay
    · split_ifs
      · exact hstay
      · exact ⟨hpush, hseen _ happend, hcovered _ (List.Subset.refl _) (hnew _)⟩
      · exact hstay
      · exact ⟨hpush, hseen _ happend, hcovered _ (List.Subset.refl _) (hnew _)⟩
  · have hresponse : m.isRequest = false := Bool.not_eq_true _ ▸ hrequest
    rw [if_neg hrequest]
    change Scanned dialogMethod (done ++ [m])
      (if outcomeKey m ∈ a.seenResponses then a
      else { a with
        seenResponses := a.seenResponses ++ [outcomeKey m]
        anchors := a.anchors ++ [done.length] })
    by_cases hknown : outcomeKey m ∈ a.seenResponses
    · rw [if_pos hknown]
      exact ⟨hkeep, hseen _ (List.Subset.refl _),
        hcovered _ (List.Subset.refl _) (fun _ _ => hknown)⟩
    · rw [if_neg hknown]
      refine ⟨hpush, fun key hkey => ?_, hcovered _ (subset_append_left _ _)
        (fun _ _ => mem_append_right _ (mem_singleton.mpr rfl))⟩
      rcases mem_append.mp hkey with hkey | hkey
      · exact hseen _ happend key hkey
      · obtain rfl := mem_singleton.mp hkey
        exact ⟨done.length, mem_append_right _ (mem_singleton.mpr rfl), m,
          List.getElem?_concat_length, hresponse, rfl⟩

theorem scanned (dialogMethod : SipMethod) :
    Scanned dialogMethod messages (messages.zipIdx.foldl (AnchorScan.visit dialogMethod) {}) := by
  induction messages using List.reverseRecOn with
  | nil => exact ⟨List.Sublist.refl _, by simp, by simp⟩
  | append_singleton done m ih =>
    rw [zipIdx_append, foldl_append]
    simpa using ih.visit m

/-- A position that is kept: an anchor, or one that together with all behind it and the anchors is
within the budget. -/
def Kept (messages : List SipMessage) (dialogMethod : SipMethod) (budget i : ℕ) : Prop :=
  i ∈ outcomeAnchors messages dialogMethod ∨
    ((outcomeAnchors messages dialogMethod).toFinset ∪
      Finset.Ico (i + 1) messages.length).card < budget

theorem outcomeAnchors_subset (dialogMethod : SipMethod) :
    (outcomeAnchors messages dialogMethod).toFinset ⊆ Finset.range messages.length := by
  intro i hi
  have hmem := (scanned messages dialogMethod).anchors.subset (List.mem_toFinset.mp hi)
  exact Finset.mem_range.mpr (mem_range.mp hmem)

theorem kept_of_short {messages : List SipMessage} (hshort : messages.length ≤ budget)
    (hi : i < messages.length) : Kept messages dialogMethod budget i := by
  by_cases hanchor : i ∈ outcomeAnchors messages dialogMethod
  · exact .inl hanchor
  · have hsub : (outcomeAnchors messages dialogMethod).toFinset ∪
        Finset.Ico (i + 1) messages.length ⊆ (Finset.range messages.length).erase i := by
      intro j hj
      rcases Finset.mem_union.mp hj with hj | hj
      · refine Finset.mem_erase.mpr ⟨?_, outcomeAnchors_subset messages dialogMethod hj⟩
        exact fun heq => hanchor (heq ▸ List.mem_toFinset.mp hj)
      · have hrange := Finset.mem_Ico.mp hj
        exact Finset.mem_erase.mpr ⟨by omega, Finset.mem_range.mpr hrange.2⟩
    have hcard := Finset.card_le_card hsub
    rw [Finset.card_erase_of_mem (Finset.mem_range.mpr hi), Finset.card_range] at hcard
    exact .inr (by omega)

theorem retainedIndices_spec {messages : List SipMessage} (hlong : budget < messages.length)
    (hfits : (outcomeAnchors messages dialogMethod).length ≤ budget) :
    ∃ keep, retainedIndices messages dialogMethod budget = some keep ∧
      Ascending 0 messages.length keep ∧ keep.length = budget ∧
      ∀ i < messages.length, (i ∈ keep ↔ Kept messages dialogMethod budget i) := by
  set n := messages.length
  set anchors := outcomeAnchors messages dialogMethod with hanchors
  have hrange : anchors.toFinset ⊆ Finset.range n := outcomeAnchors_subset messages dialogMethod
  have hcard : anchors.toFinset.card ≤ budget := (toFinset_card_le anchors).trans hfits
  obtain ⟨t, htn, heq, hlow, hhigh⟩ := fill_eq budget n anchors.toFinset
  set kept := anchors.toFinset ∪ Finset.Ico t n with hkept
  have hretained : retainedIndices messages dialogMethod budget = some (kept.sort (· ≤ ·)) := by
    unfold retainedIndices
    rw [if_neg (Nat.not_le.mpr hlong), ← heq]
    exact if_neg (Nat.not_lt.mpr hfits)
  have hsub : kept ⊆ Finset.range n := by
    refine Finset.union_subset hrange (fun i hi => ?_)
    exact Finset.mem_range.mpr (Finset.mem_Ico.mp hi).2
  -- with every position kept there would be more than the budget
  have hpos : 0 < t := by
    by_contra hzero
    obtain rfl : t = 0 := by omega
    have hless : (anchors.toFinset ∪ Finset.Ico 1 n).card < budget := hhigh (by omega)
    have hmany := Finset.card_le_card
      (Finset.subset_union_right : Finset.Ico 1 n ⊆ anchors.toFinset ∪ Finset.Ico 1 n)
    rw [Nat.card_Ico] at hmany
    omega
  have hbudget : kept.card = budget := by
    refine Nat.le_antisymm ?_ (hlow hpos)
    rcases Nat.lt_or_ge t n with hlt | hge
    · have hless := hhigh hlt
      have hone : kept = insert t (anchors.toFinset ∪ Finset.Ico (t + 1) n) := by
        rw [hkept, ← Finset.union_insert, Finset.insert_Ico_add_one_left_eq_Ico hlt]
      have hle := Finset.card_insert_le t (anchors.toFinset ∪ Finset.Ico (t + 1) n)
      rw [hone]
      omega
    · rw [hkept, Finset.Ico_eq_empty (by omega), Finset.union_empty]
      exact hcard
  refine ⟨kept.sort (· ≤ ·), hretained, ⟨kept.sortedLT_sort.pairwise, fun i hi => ?_⟩, ?_, ?_⟩
  · have hmem := Finset.mem_range.mp (hsub ((Finset.mem_sort _).mp hi))
    omega
  · rw [Finset.length_sort, hbudget]
  · intro i hi
    have hthreshold : t ≤ i ↔ (anchors.toFinset ∪ Finset.Ico (i + 1) n).card < budget := by
      constructor
      · intro hle
        have hsubset := Finset.union_subset_union (Finset.Subset.refl anchors.toFinset)
          (Finset.Ico_subset_Ico (Nat.succ_le_succ hle) le_rfl : Finset.Ico (i + 1) n ⊆ _)
        exact (Finset.card_le_card hsubset).trans_lt (hhigh (by omega))
      · intro hless
        by_contra hgt
        have hsubset := Finset.union_subset_union (Finset.Subset.refl anchors.toFinset)
          (Finset.Ico_subset_Ico (show i + 1 ≤ t by omega) le_rfl : Finset.Ico t n ⊆ _)
        have hmany := (hlow hpos).trans (Finset.card_le_card hsubset)
        omega
    rw [Finset.mem_sort, hkept, Finset.mem_union, List.mem_toFinset, Finset.mem_Ico, Kept,
      ← hthreshold]
    simp only [hi, and_true, hanchors]

end DialogStore

/-! ## The final code -/

variable (codes : List ℕ)

theorem foldl_raiseTo_some (best : ℕ) :
    codes.foldl raiseTo (some best) = some (codes.foldl max best) := by
  induction codes generalizing best with
  | nil => rfl
  | cons c codes ih => exact ih (max best c)

theorem foldl_raiseTo : codes.foldl raiseTo none = codes.max? := by
  cases codes with
  | nil => rfl
  | cons c codes => exact foldl_raiseTo_some codes c

theorem max?_congr {cs ds : List ℕ} (h : ∀ c, c ∈ cs ↔ c ∈ ds) : cs.max? = ds.max? := by
  cases hmax : ds.max? with
  | none =>
    rw [List.max?_eq_none_iff] at hmax ⊢
    subst hmax
    exact eq_nil_iff_forall_not_mem.mpr (fun c hc => not_mem_nil ((h c).mp hc))
  | some best =>
    rw [List.max?_eq_some_iff] at hmax ⊢
    exact ⟨(h best).mpr hmax.1, fun c hc => hmax.2 c ((h c).mp hc)⟩

namespace FinalCodeFold

theorem foldl_observe (codes : List ℕ) (f : FinalCodeFold) :
    codes.foldl observe f =
      { max2xx := (codes.filter (fun c => 200 ≤ c ∧ c < 300)).foldl raiseTo f.max2xx
        maxNonAuth :=
          (codes.filter (fun c => 200 ≤ c ∧ c ≠ 401 ∧ c ≠ 407)).foldl raiseTo f.maxNonAuth
        maxAny := (codes.filter (fun c => 200 ≤ c)).foldl raiseTo f.maxAny } := by
  induction codes generalizing f with
  | nil => rfl
  | cons c codes ih =>
    rw [foldl_cons, ih]
    by_cases hfinal : c < 200
    · have hsmall : ¬200 ≤ c := by omega
      simp [observe, hfinal, hsmall]
    · have hlarge : 200 ≤ c := by omega
      by_cases h2xx : c < 300 <;> by_cases hauth : c ≠ 401 ∧ c ≠ 407 <;>
        simp [observe, hfinal, hlarge, h2xx, hauth]

theorem outcome_congr {cs ds : List ℕ} (h : ∀ c, 200 ≤ c → (c ∈ cs ↔ c ∈ ds)) :
    (cs.foldl observe {}).outcome = (ds.foldl observe {}).outcome := by
  have hfilter (p : ℕ → Prop) [DecidablePred p] (hp : ∀ c, p c → 200 ≤ c) :
      (cs.filter p).foldl raiseTo none = (ds.filter p).foldl raiseTo none := by
    rw [foldl_raiseTo, foldl_raiseTo]
    refine max?_congr (fun c => ?_)
    simp only [mem_filter, decide_eq_true_eq]
    exact and_congr_left (fun hc => h c (hp c hc))
  rw [foldl_observe, foldl_observe]
  simp only [outcome]
  rw [hfilter (fun c => 200 ≤ c ∧ c < 300) (fun c hc => hc.1),
    hfilter (fun c => 200 ≤ c ∧ c ≠ 401 ∧ c ≠ 407) (fun c hc => hc.1),
    hfilter (fun c => 200 ≤ c) (fun c hc => hc)]

theorem outcome_eq_none_iff {codes : List ℕ} :
    (codes.foldl observe {}).outcome = none ↔ ∀ c ∈ codes, c < 200 := by
  rw [foldl_observe]
  simp only [outcome, foldl_raiseTo, or_eq_none_iff, List.max?_eq_none_iff,
    filter_eq_nil_iff, decide_eq_true_eq]
  constructor
  · rintro ⟨-, hany⟩ c hc
    have := hany c hc
    omega
  · intro h
    refine ⟨⟨?_, ?_⟩, ?_⟩ <;> intro c hc <;> have := h c hc <;> omega

end FinalCodeFold

/-! ## Compacted dialogs -/

theorem Text.ne_nil_of_mem_splitWhitespace {s word : List Char}
    (h : word ∈ Text.splitWhitespace s) : word ≠ [] := by
  induction s with
  | nil => exact absurd h not_mem_nil
  | cons c s ih =>
    rw [Text.splitWhitespace.eq_def] at h
    dsimp only at h
    split_ifs at h with hblank
    · exact ih h
    · split at h
      · rw [mem_singleton.mp h]
        exact cons_ne_nil _ _
      · split_ifs at h with hnext
        · rcases mem_cons.mp h with rfl | h
          · exact cons_ne_nil _ _
          · exact ih h
        · split at h
          · rw [mem_singleton.mp h]
            exact cons_ne_nil _ _
          · rename_i word' rest hwords
            rcases mem_cons.mp h with rfl | h
            · exact cons_ne_nil _ _
            · exact ih (hwords ▸ mem_cons_of_mem word' h)

theorem SipMessage.cseq_name_ne_empty {m : SipMessage} {name : String}
    (h : m.cseq.map Prod.snd = some name) : name ≠ "" := by
  obtain ⟨⟨num, name'⟩, hcseq, rfl⟩ := map_eq_some_iff.mp h
  unfold SipMessage.cseq at hcseq
  split at hcseq
  · rename_i number method rest hwords
    obtain ⟨value, -, hsplit⟩ := map_eq_some_iff.mp hwords
    obtain ⟨n, -, hpair⟩ := map_eq_some_iff.mp hcseq
    have hword : method ≠ [] := Text.ne_nil_of_mem_splitWhitespace
      (hsplit ▸ mem_cons_of_mem _ mem_cons_self)
    intro hempty
    have hname : String.ofList method = "" := (Prod.mk.inj hpair).2.trans hempty
    exact hword (by simpa using congrArg String.toList hname)
  · cases hcseq

namespace SipDialog

def compactTo (budget : ℕ) (d : SipDialog) : SipDialog :=
  match DialogStore.retainedIndices d.messages d.method budget with
  | none => d
  | some keep => { d with messages := DialogStore.retainAt 0 keep d.messages }

theorem compactTo_method (budget : ℕ) (d : SipDialog) : (d.compactTo budget).method = d.method := by
  unfold compactTo
  split <;> rfl

def holdsInvite (messages : List SipMessage) : Prop :=
  ∃ m ∈ messages, m.cseq.map Prod.snd = some "INVITE"

/-- If the dialog holds an `INVITE` and has a final answer to its own method, one message of an
`INVITE` is kept. -/
def InviteStays (budget : ℕ) (d : SipDialog) : Prop :=
  holdsInvite d.messages → (∃ code ∈ responseCodes d.messages d.method.asStr, 200 ≤ code) →
    ∃ i m, d.messages[i]? = some m ∧ m.cseq.map Prod.snd = some "INVITE" ∧
      DialogStore.Kept d.messages d.method budget i

variable {budget : ℕ} {d : SipDialog}

theorem compactTo_of_short (h : d.messages.length ≤ budget) : d.compactTo budget = d := by
  unfold compactTo DialogStore.retainedIndices
  rw [if_pos h]

section

variable (hfits : (DialogStore.outcomeAnchors d.messages d.method).length ≤ budget)
include hfits

theorem compactTo_messages (hlong : budget < d.messages.length) :
    (d.compactTo budget).messages.Sublist d.messages ∧
      (d.compactTo budget).messages.length = budget ∧
      ∀ m, m ∈ (d.compactTo budget).messages ↔
        ∃ i, d.messages[i]? = some m ∧ DialogStore.Kept d.messages d.method budget i := by
  obtain ⟨keep, hkeep, hascending, hlength, hmem⟩ := DialogStore.retainedIndices_spec hlong hfits
  have hmessages : (d.compactTo budget).messages = DialogStore.retainAt 0 keep d.messages := by
    unfold compactTo
    rw [hkeep]
  rw [hmessages]
  refine ⟨DialogStore.retainAt_sublist 0 keep _,
    (DialogStore.length_retainAt hascending).trans hlength, fun m => ?_⟩
  rw [DialogStore.mem_retainAt hascending]
  constructor
  · rintro ⟨i, hi, hm⟩
    have hlt := (hascending.range i hi).2
    exact ⟨i, hm, (hmem i (by omega)).mp hi⟩
  · rintro ⟨i, hm, hi⟩
    exact ⟨i, (hmem i (List.getElem?_eq_some_iff.mp hm).1).mpr hi, hm⟩

theorem responseCodes_compactTo (hlong : budget < d.messages.length) (method : String) (code : ℕ)
    (hfinal : 200 ≤ code) :
    code ∈ responseCodes (d.compactTo budget).messages method ↔
      code ∈ responseCodes d.messages method := by
  obtain ⟨hsub, -, hmem⟩ := compactTo_messages hfits hlong
  simp only [responseCodes, mem_filterMap]
  constructor
  · rintro ⟨m, hm, hcode⟩
    exact ⟨m, hsub.subset hm, hcode⟩
  · rintro ⟨m, hm, hcode⟩
    split_ifs at hcode with hm'
    obtain ⟨hresponse, hname⟩ := hm'
    have hcarries : DialogStore.carriesDialogOutcome m d.method = true := by
      simp [DialogStore.carriesDialogOutcome, hresponse, hcode, hfinal]
    have hscan := DialogStore.scanned d.messages d.method
    obtain ⟨j, hj, m', hm', hresponse', hkey⟩ :=
      hscan.seen _ (hscan.covered m hm hresponse hcarries)
    refine ⟨m', (hmem m').mpr ⟨j, hm', .inl hj⟩, ?_⟩
    -- the keys agree, and neither of their defaults can stand for a value
    obtain ⟨hstatus, hmethod⟩ := Prod.mk.inj hkey
    rw [hcode, getD_some] at hstatus
    rw [hname, getD_some] at hmethod
    have hcode' : m'.statusCode = some code := by
      cases h : m'.statusCode with
      | none =>
        rw [h, getD_none] at hstatus
        omega
      | some c => rw [← hstatus, h, getD_some]
    have hname' : m'.cseq.map Prod.snd = some method := by
      cases h : m'.cseq.map Prod.snd with
      | none =>
        rw [h, getD_none] at hmethod
        exact absurd hmethod.symm (SipMessage.cseq_name_ne_empty hname)
      | some name => rw [← hmethod, h, getD_some]
    rw [if_pos ⟨hresponse', hname'⟩, hcode']

end

theorem finalStatusCode_eq (d : SipDialog) [Decidable (holdsInvite d.messages)] :
    d.finalStatusCode = ((responseCodes d.messages
      (if holdsInvite d.messages then "INVITE" else d.method.asStr)).foldl
        FinalCodeFold.observe {}).outcome := by
  have hany : (d.messages.any (fun m => m.cseq.map Prod.snd = some "INVITE") = true) ↔
      holdsInvite d.messages := by simp [holdsInvite]
  unfold finalStatusCode
  by_cases h : holdsInvite d.messages
  · rw [if_pos h, if_pos (hany.mpr h)]
  · rw [if_neg h, if_neg (fun hn => h (hany.mp hn))]

theorem finalStatusCode_compactTo_iff
    (hfits : (DialogStore.outcomeAnchors d.messages d.method).length ≤ budget)
    (hlong : budget < d.messages.length) :
    (d.compactTo budget).finalStatusCode = d.finalStatusCode ↔ InviteStays budget d := by
  classical
  obtain ⟨hsub, -, hmem⟩ := compactTo_messages hfits hlong
  have hcodes (method : String) : ((responseCodes (d.compactTo budget).messages method).foldl
      FinalCodeFold.observe {}).outcome =
        ((responseCodes d.messages method).foldl FinalCodeFold.observe {}).outcome :=
    FinalCodeFold.outcome_congr (fun c hc => responseCodes_compactTo hfits hlong method c hc)
  have hstays : holdsInvite (d.compactTo budget).messages ↔ ∃ i m, d.messages[i]? = some m ∧
      m.cseq.map Prod.snd = some "INVITE" ∧ DialogStore.Kept d.messages d.method budget i := by
    simp only [holdsInvite, hmem]
    exact ⟨fun ⟨m, ⟨i, hm, hi⟩, hname⟩ => ⟨i, m, hm, hname, hi⟩,
      fun ⟨i, m, hm, hname, hi⟩ => ⟨m, ⟨i, hm, hi⟩, hname⟩⟩
  rw [finalStatusCode_eq, finalStatusCode_eq, compactTo_method, hcodes]
  by_cases hkept : holdsInvite (d.compactTo budget).messages
  · have hheld : holdsInvite d.messages := by
      obtain ⟨m, hm, hname⟩ := hkept
      exact ⟨m, hsub.subset hm, hname⟩
    rw [if_pos hkept, if_pos hheld]
    exact iff_of_true rfl (fun _ _ => hstays.mp hkept)
  · rw [if_neg hkept]
    by_cases hheld : holdsInvite d.messages
    · -- a final answer to the INVITE would have been kept
      have hnone : ∀ c ∈ responseCodes d.messages "INVITE", c < 200 := by
        intro c hc
        by_contra hfinal
        have hc' := (responseCodes_compactTo hfits hlong "INVITE" c (by omega)).mpr hc
        obtain ⟨m, hm, hcode⟩ := mem_filterMap.mp hc'
        split_ifs at hcode with hname
        exact hkept ⟨m, hm, hname.2⟩
      rw [if_pos hheld, FinalCodeFold.outcome_eq_none_iff.mpr hnone,
        FinalCodeFold.outcome_eq_none_iff]
      constructor
      · rintro hown - ⟨code, hcode, hfinal⟩
        have := hown code hcode
        omega
      · intro hstay c hc
        by_contra hfinal
        exact hkept (hstays.mpr (hstay hheld ⟨c, hc, by omega⟩))
    · rw [if_neg hheld]
      exact iff_of_true rfl (fun h => absurd h hheld)

structure KeepsOutcome (budget : ℕ) (d : SipDialog) : Prop where
  status : (d.compactTo budget).finalStatusCode = d.finalStatusCode
  order : (d.compactTo budget).messages.Sublist d.messages
  count : (d.compactTo budget).messages.length = min budget d.messages.length
  again : (d.compactTo budget).compactTo budget = d.compactTo budget

/-- With room for all anchors, compaction keeps the outcome exactly if an `INVITE` stays in a dialog
that it decides the outcome of. -/
theorem compaction_keeps_outcome_iff (budget : ℕ) (d : SipDialog)
    (hfits : (DialogStore.outcomeAnchors d.messages d.method).length ≤ budget) :
    KeepsOutcome budget d ↔ InviteStays budget d := by
  rcases Nat.lt_or_ge budget d.messages.length with hlong | hshort
  · obtain ⟨hsub, hlength, -⟩ := compactTo_messages hfits hlong
    rw [← finalStatusCode_compactTo_iff hfits hlong]
    refine ⟨KeepsOutcome.status, fun hstatus => ⟨hstatus, hsub, ?_, ?_⟩⟩
    · rw [hlength, Nat.min_eq_left hlong.le]
    · exact compactTo_of_short hlength.le
  · have hsame := compactTo_of_short hshort
    refine iff_of_true ⟨?_, ?_, ?_, ?_⟩ ?_
    · rw [hsame]
    · rw [hsame]
    · rw [hsame, Nat.min_eq_right hshort]
    · rw [hsame, hsame]
    · rintro ⟨m, hm, hname⟩ -
      obtain ⟨i, hi, hget⟩ := mem_iff_getElem.mp hm
      refine ⟨i, m, by rw [List.getElem?_eq_getElem hi, hget], hname, ?_⟩
      exact DialogStore.kept_of_short hshort hi

section
open SipMessage (plainRequest plainResponse)

/-- A registration behind which a call is still ringing. -/
def ringingBehindRegister : List SipMessage :=
  [plainRequest "a" 1 .register "z1" "", plainRequest "a" 2 .invite "z2" "",
    plainResponse "a" 200 1 .register "z1", plainResponse "a" 180 2 .invite "z2",
    plainRequest "a" 3 .options "z3" ""]

theorem dialogOf_ringingBehindRegister :
    ∃ d, dialogOf .bodiless 10 ringingBehindRegister = some d ∧
      DialogStore.outcomeAnchors d.messages d.method = [0, 2] ∧
      d.messages.map (fun m => m.cseq.map Prod.snd) =
        [some "REGISTER", some "INVITE", some "REGISTER", some "INVITE", some "OPTIONS"] ∧
      responseCodes d.messages d.method.asStr = [200] := by
  have hfacts : (dialogOf .bodiless 10 ringingBehindRegister).map (fun d =>
      (DialogStore.outcomeAnchors d.messages d.method,
        d.messages.map (fun m => m.cseq.map Prod.snd),
        responseCodes d.messages d.method.asStr)) =
      some ([0, 2], [some "REGISTER", some "INVITE", some "REGISTER", some "INVITE",
        some "OPTIONS"], [200]) := by
    decide +kernel
  obtain ⟨d, hd, heq⟩ := map_eq_some_iff.mp hfacts
  simp only [Prod.mk.injEq] at heq
  exact ⟨d, hd, heq⟩

theorem getElem?_of_names {messages : List SipMessage} {names : List (Option String)} {i : ℕ}
    {name : Option String} (h : messages.map (fun m => m.cseq.map Prod.snd) = names)
    (hi : names[i]? = some name) : ∃ m, messages[i]? = some m ∧ m.cseq.map Prod.snd = name := by
  rw [← h, List.getElem?_map] at hi
  exact map_eq_some_iff.mp hi

/-- The call rang, so the dialog had no final status; without its messages it has the one of the
registration. -/
theorem not_kept_behind_register :
    ∃ d, dialogOf .bodiless 10 ringingBehindRegister = some d ∧
      (DialogStore.outcomeAnchors d.messages d.method).length ≤ 3 ∧ ¬KeepsOutcome 3 d := by
  obtain ⟨d, hd, hanchors, hnames, hcodes⟩ := dialogOf_ringingBehindRegister
  have hlength : d.messages.length = 5 := by simpa using congrArg List.length hnames
  have hfits : (DialogStore.outcomeAnchors d.messages d.method).length ≤ 3 := by
    rw [hanchors]
    decide
  have hheld : holdsInvite d.messages := by
    obtain ⟨m, hm, hinvite⟩ := getElem?_of_names (i := 1) hnames rfl
    exact ⟨m, mem_of_getElem? hm, hinvite⟩
  refine ⟨d, hd, hfits, fun h => ?_⟩
  have hstays := (finalStatusCode_compactTo_iff hfits (by omega)).mp h.status
  obtain ⟨i, m, hm, hinvite, hkept⟩ := hstays hheld ⟨200, by rw [hcodes]; simp, le_rfl⟩
  have hi := (List.getElem?_eq_some_iff.mp hm).1
  have hname : [some "REGISTER", some "INVITE", some "REGISTER", some "INVITE",
      some "OPTIONS"][i]? = some (some "INVITE") := by
    rw [← hnames, List.getElem?_map, hm, map_some, hinvite]
  rw [DialogStore.Kept, hanchors, hlength] at hkept
  rw [hlength] at hi
  interval_cases i <;> revert hname hkept <;> decide

/-- With one message more in the budget the ringing stays. -/
theorem compaction_keeps_outcome_iff_ringing :
    ∃ d, dialogOf .bodiless 10 ringingBehindRegister = some d ∧ KeepsOutcome 4 d := by
  obtain ⟨d, hd, hanchors, hnames, -⟩ := dialogOf_ringingBehindRegister
  have hlength : d.messages.length = 5 := by simpa using congrArg List.length hnames
  refine ⟨d, hd, (compaction_keeps_outcome_iff 4 d (by rw [hanchors]; decide)).mpr ?_⟩
  intro _ _
  obtain ⟨m, hm, hinvite⟩ := getElem?_of_names (i := 3) hnames rfl
  refine ⟨3, m, hm, hinvite, .inr ?_⟩
  rw [hanchors, hlength]
  decide

end

end SipDialog

end Sipnab
