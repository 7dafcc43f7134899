import Sipnab.Sip.DialogStore

/-!
# Replaying the fragments of one dialog

A worker that saw part of a dialog's messages stores them with the retransmissions it noticed
marked. Replaying the stored messages of all workers in read order gives the dialog that the whole
sequence gives: a mark a worker made is one the replay makes as well, because the earlier copy the
worker saw comes earlier in read order too.
-/

namespace Sipnab

open List

def seenKeys (ms : List SipMessage) : Finset String := (ms.filterMap SipMessage.seenCseqKey).toFinset

theorem seenKeys_append (ms ms' : List SipMessage) :
    seenKeys (ms ++ ms') = seenKeys ms ∪ seenKeys ms' := by
  rw [seenKeys, filterMap_append, toFinset_append]
  rfl

theorem seenKeys_singleton (m : SipMessage) : seenKeys [m] = m.seenCseqKey.toFinset := by
  cases h : m.seenCseqKey <;> simp [seenKeys, h]

theorem seenKeys_cons (m : SipMessage) (ms : List SipMessage) :
    seenKeys (m :: ms) = m.seenCseqKey.toFinset ∪ seenKeys ms := by
  rw [← seenKeys_singleton, ← seenKeys_append]
  rfl

theorem seenKeys_mono {ms ms' : List SipMessage} (h : ms ⊆ ms') : seenKeys ms ⊆ seenKeys ms' := by
  intro key hkey
  rw [seenKeys, List.mem_toFinset, mem_filterMap] at hkey ⊢
  obtain ⟨m, hm, hk⟩ := hkey
  exact ⟨m, h hm, hk⟩

variable {m l : SipMessage} {seen : Finset String} {rd : BodyReaders} {cap : ℕ}

theorem isSeen_seenKeys {ms : List SipMessage} :
    isSeen (seenKeys ms) m ↔ ∃ x ∈ ms, x.seenCseqKey = m.seenCseqKey ∧ m.seenCseqKey ≠ none := by
  constructor
  · rintro ⟨key, hkey, hmem⟩
    rw [seenKeys, List.mem_toFinset, mem_filterMap] at hmem
    obtain ⟨x, hx, hxkey⟩ := hmem
    have hm : m.seenCseqKey = some key := hkey
    exact ⟨x, hx, by rw [hxkey, hm], by rw [hm]; exact Option.some_ne_none key⟩
  · rintro ⟨x, hx, hsame, hsome⟩
    obtain ⟨key, hkey⟩ := Option.ne_none_iff_exists'.mp hsome
    refine ⟨key, hkey, ?_⟩
    rw [seenKeys, List.mem_toFinset, mem_filterMap]
    exact ⟨x, hx, by rw [hsame, hkey]⟩

/-- The messages as a dialog that had already seen `seen` stores them. -/
def markRepeats (seen : Finset String) : List SipMessage → List SipMessage
  | [] => []
  | m :: ms =>
    (if isSeen seen m then m.marked else m) :: markRepeats (seen ∪ m.seenCseqKey.toFinset) ms

theorem markRepeats_unmarked (seen : Finset String) (ms : List SipMessage) :
    (markRepeats seen ms).map SipMessage.unmarked = ms.map SipMessage.unmarked := by
  induction ms generalizing seen with
  | nil => rfl
  | cons m ms ih =>
    rw [markRepeats, map_cons, ih, map_cons]
    congr 1
    split_ifs <;> rfl

theorem union_toFinset_of_isSeen (h : isSeen seen m) : seen ∪ m.seenCseqKey.toFinset = seen := by
  obtain ⟨key, hkey, hmem⟩ := h
  have hm : m.seenCseqKey = some key := hkey
  rw [hm]
  simpa using hmem

/-- A run within its limits stores every message, repeats marked, and remembers every identity. -/
theorem run_stored (rd : BodyReaders) (cap : ℕ) (d : SipDialog) (ms : List SipMessage)
    (hcap : d.messages.length + ms.length ≤ cap)
    (hseen : (d.seenCseq ∪ seenKeys ms).card < maxSeenCseqPerDialog) :
    (ms.foldl (advanceDialog rd cap) d).messages = d.messages ++ markRepeats d.seenCseq ms ∧
      (ms.foldl (advanceDialog rd cap) d).seenCseq = d.seenCseq ∪ seenKeys ms := by
  induction ms generalizing d with
  | nil => simp [markRepeats, seenKeys]
  | cons m ms ih =>
    rw [length_cons] at hcap
    have hroom : d.messages.length < cap := by omega
    rw [seenKeys_cons, ← Finset.union_assoc] at hseen
    have hfew : d.seenCseq.card < maxSeenCseqPerDialog := by
      refine lt_of_le_of_lt (Finset.card_le_card ?_) hseen
      exact Finset.subset_union_left.trans Finset.subset_union_left
    have hstep : (advanceDialog rd cap d m).messages =
        d.messages ++ [if isSeen d.seenCseq m then m.marked else m] ∧
        (advanceDialog rd cap d m).seenCseq = d.seenCseq ∪ m.seenCseqKey.toFinset := by
      unfold advanceDialog
      split_ifs with hrepeat
      · exact ⟨if_pos hroom, (union_toFinset_of_isSeen hrepeat).symm⟩
      · refine ⟨?_, ?_⟩
        · simp only [takeMessage_messages]
          exact if_pos hroom
        · simp only [takeMessage_seenCseq]
          exact if_pos hfew
    have hnext := ih (advanceDialog rd cap d m)
      (by rw [hstep.1, length_append, length_singleton]; omega)
      (by rw [hstep.2]; exact hseen)
    rw [foldl_cons, hnext.1, hnext.2, hstep.1, hstep.2, markRepeats, seenKeys_cons,
      Finset.union_assoc, append_assoc]
    exact ⟨rfl, rfl⟩

/-- `ls` is `ms` with marks that a dialog that had already seen `seen` makes as well. -/
def Remarked (seen : Finset String) : List SipMessage → List SipMessage → Prop
  | [], [] => True
  | l :: ls, m :: ms =>
    l.unmarked = m.unmarked ∧ (l = m ∨ isSeen seen m) ∧
      Remarked (seen ∪ m.seenCseqKey.toFinset) ls ms
  | _, _ => False

theorem eq_of_unmarked_eq (h : l.unmarked = m.unmarked) :
    l.marked = m.marked ∧ l.seenCseqKey = m.seenCseqKey ∧ l.cseqKey = m.cseqKey ∧
      l.timestamp = m.timestamp := by
  have hmark : ∀ x : SipMessage, x.marked = x.unmarked.marked := fun _ => rfl
  have hseen : ∀ x : SipMessage, x.seenCseqKey = x.unmarked.seenCseqKey := fun _ => rfl
  have hkey : ∀ x : SipMessage, x.cseqKey = x.unmarked.cseqKey := fun _ => rfl
  have htime : ∀ x : SipMessage, x.timestamp = x.unmarked.timestamp := fun _ => rfl
  rw [hmark l, hmark m, hseen l, hseen m, hkey l, hkey m, htime l, htime m, h]
  exact ⟨rfl, rfl, rfl, rfl⟩

theorem isSeen_congr (h : l.seenCseqKey = m.seenCseqKey) : isSeen seen l ↔ isSeen seen m := by
  unfold isSeen
  rw [h]

theorem Remarked.run {rd : BodyReaders} {cap : ℕ} {d : SipDialog} {ls ms : List SipMessage}
    (h : Remarked d.seenCseq ls ms)
    (hseen : (d.seenCseq ∪ seenKeys ms).card < maxSeenCseqPerDialog) :
    ls.foldl (advanceDialog rd cap) d = ms.foldl (advanceDialog rd cap) d := by
  induction ls generalizing d ms with
  | nil =>
    cases ms with
    | nil => rfl
    | cons m ms => exact h.elim
  | cons l ls ih =>
    cases ms with
    | nil => exact h.elim
    | cons m ms =>
      obtain ⟨hunmarked, hmark, hrest⟩ := h
      obtain ⟨hmarked, hkey, hcount, htime⟩ := eq_of_unmarked_eq hunmarked
      have hstep : advanceDialog rd cap d l = advanceDialog rd cap d m := by
        rcases hmark with rfl | hrepeat
        · rfl
        · have hrepeat' : isSeen d.seenCseq l := (isSeen_congr hkey).mpr hrepeat
          unfold advanceDialog
          simp only [if_pos hrepeat, if_pos hrepeat', hmarked, hcount, htime]
      rw [seenKeys_cons, ← Finset.union_assoc] at hseen
      have hnextSeen : (advanceDialog rd cap d m).seenCseq =
          d.seenCseq ∪ m.seenCseqKey.toFinset := by
        have hfew : d.seenCseq.card < maxSeenCseqPerDialog := by
          refine lt_of_le_of_lt (Finset.card_le_card ?_) hseen
          exact Finset.subset_union_left.trans Finset.subset_union_left
        unfold advanceDialog
        split_ifs with hrepeat
        · exact (union_toFinset_of_isSeen hrepeat).symm
        · simp only [takeMessage_seenCseq]
          exact if_pos hfew
      rw [foldl_cons, foldl_cons, hstep]
      exact ih (hnextSeen.symm ▸ hrest) (by rw [hnextSeen]; exact hseen)

theorem not_isSeen_empty (m : SipMessage) : ¬ isSeen ∅ m := by
  rintro ⟨key, -, hmem⟩
  simp at hmem

theorem dialogOf_stored {ms : List SipMessage} {d : SipDialog} (hd : dialogOf rd cap ms = some d)
    (hcap : ms.length ≤ cap) (hseen : (seenKeys ms).card < maxSeenCseqPerDialog) :
    d.messages = markRepeats ∅ ms := by
  cases ms with
  | nil => cases hd
  | cons m ms =>
    obtain ⟨d₀, hopen, rfl⟩ := Option.map_eq_some_iff.mp hd
    obtain ⟨-, -, hkeys, hfirst⟩ := tracks_openDialog hopen
    rw [length_cons] at hcap
    rw [seenKeys_cons] at hseen
    have hrun := run_stored rd cap d₀ ms (by rw [hfirst, length_singleton]; omega)
      (by rw [hkeys]; exact hseen)
    rw [hrun.1, hfirst, markRepeats, if_neg (not_isSeen_empty m), hkeys, Finset.empty_union]
    rfl

theorem dialogOf_remarked {ls ms : List SipMessage} (h : Remarked ∅ ls ms)
    (hseen : (seenKeys ms).card < maxSeenCseqPerDialog) :
    dialogOf rd cap ls = dialogOf rd cap ms := by
  cases ls with
  | nil =>
    cases ms with
    | nil => rfl
    | cons m ms => exact h.elim
  | cons l ls =>
    cases ms with
    | nil => exact h.elim
    | cons m ms =>
      obtain ⟨-, hmark, hrest⟩ := h
      obtain rfl := hmark.resolve_right (not_isSeen_empty m)
      rw [dialogOf, dialogOf]
      cases hopen : openDialog rd l with
      | none => rfl
      | some d =>
        obtain ⟨-, -, hkeys, -⟩ := tracks_openDialog hopen
        rw [Finset.empty_union, ← hkeys] at hrest
        rw [seenKeys_cons, ← hkeys] at hseen
        rw [Option.map_some, Option.map_some, hrest.run hseen]

section ReadOrder
variable {κ : Type*} [LinearOrder κ] {readPosition : Option FrameRef → DateTime → κ}

/-- `l` is the message `m` of `ms`, its mark backed by an earlier copy in `ms`. -/
def Noted (readPosition : Option FrameRef → DateTime → κ) (ms : List SipMessage)
    (l m : SipMessage) : Prop :=
  l.unmarked = m.unmarked ∧
    (l = m ∨ ∃ x ∈ ms, messagePosition readPosition x < messagePosition readPosition m ∧
      x.seenCseqKey = m.seenCseqKey ∧ m.seenCseqKey ≠ none)

variable {ms : List SipMessage} {l : SipMessage} (pre : List SipMessage)

theorem Noted.mono {ms' : List SipMessage} {m : SipMessage} (h : Noted readPosition ms l m)
    (hsub : ms ⊆ ms') : Noted readPosition ms' l m := by
  refine ⟨h.1, h.2.imp_right ?_⟩
  rintro ⟨x, hx, hrest⟩
  exact ⟨x, hsub hx, hrest⟩

omit [LinearOrder κ] in
theorem messagePosition_unmarked (m : SipMessage) :
    messagePosition readPosition m.unmarked = messagePosition readPosition m := rfl

def Ordered (readPosition : Option FrameRef → DateTime → κ) (ms : List SipMessage) : Prop :=
  ms.Pairwise (fun a b => messagePosition readPosition a < messagePosition readPosition b)

theorem Ordered.eq_of_position (h : Ordered readPosition ms) {a b : SipMessage} (ha : a ∈ ms)
    (hb : b ∈ ms) (hab : messagePosition readPosition a = messagePosition readPosition b) :
    a = b := by
  have hnodup : (ms.map (messagePosition readPosition)).Nodup :=
    pairwise_map.mpr (h.imp (fun hlt => hlt.ne))
  exact inj_on_of_nodup_map hnodup ha hb hab

theorem noted_of_mem_markRepeats (ms : List SipMessage) (h : Ordered readPosition (pre ++ ms))
    (hl : l ∈ markRepeats (seenKeys pre) ms) : ∃ m ∈ ms, Noted readPosition (pre ++ ms) l m := by
  induction ms generalizing pre with
  | nil => cases hl
  | cons m ms ih =>
    rw [markRepeats, mem_cons] at hl
    rcases hl with rfl | hl
    · refine ⟨m, mem_cons_self, ?_⟩
      split_ifs with hrepeat
      · obtain ⟨x, hx, hkey⟩ := isSeen_seenKeys.mp hrepeat
        have hlt := (pairwise_append.mp h).2.2 x hx m mem_cons_self
        exact ⟨rfl, Or.inr ⟨x, mem_append_left _ hx, hlt, hkey⟩⟩
      · exact ⟨rfl, Or.inl rfl⟩
    · rw [append_cons] at h ⊢
      rw [← seenKeys_singleton, ← seenKeys_append] at hl
      obtain ⟨m', hm', hnoted⟩ := ih (pre ++ [m]) h hl
      exact ⟨m', mem_cons_of_mem m hm', hnoted⟩

theorem remarked_of_noted (ls ms : List SipMessage) (h : Ordered readPosition (pre ++ ms))
    (hsame : ls.map SipMessage.unmarked = ms.map SipMessage.unmarked)
    (hnoted : ∀ l ∈ ls, ∃ m ∈ pre ++ ms, Noted readPosition (pre ++ ms) l m) :
    Remarked (seenKeys pre) ls ms := by
  induction ms generalizing pre ls with
  | nil =>
    obtain rfl : ls = [] := by simpa using hsame
    trivial
  | cons m ms ih =>
    cases ls with
    | nil => simp at hsame
    | cons l ls =>
      obtain ⟨hl, hls⟩ := List.cons.inj hsame
      refine ⟨hl, ?_, ?_⟩
      · obtain ⟨m', hm', hmark⟩ := hnoted l mem_cons_self
        have hposition : messagePosition readPosition m' = messagePosition readPosition m := by
          rw [← messagePosition_unmarked m', ← hmark.1, hl, messagePosition_unmarked]
        obtain rfl := h.eq_of_position hm' (by simp) hposition
        refine hmark.2.imp_right ?_
        rintro ⟨x, hx, hlt, hkey⟩
        refine isSeen_seenKeys.mpr ⟨x, ?_, hkey⟩
        rcases mem_append.mp hx with hx | hx
        · exact hx
        · have hle : messagePosition readPosition m' ≤ messagePosition readPosition x := by
            rcases mem_cons.mp hx with rfl | hx
            · exact le_refl _
            · have htail := (pairwise_append.mp h).2.1
              exact (rel_of_pairwise_cons htail hx).le
          exact absurd hlt (not_lt.mpr hle)
      · rw [← seenKeys_singleton, ← seenKeys_append]
        rw [append_cons] at h hnoted
        exact ih (pre ++ [m]) ls h hls (fun l' hl' => hnoted l' (mem_cons_of_mem l hl'))

/-! ## The fragments of several workers -/

theorem eq_nil_of_dialogOf_eq_none {rd : BodyReaders} {cap : ℕ}
    (hopens : ∀ m ∈ ms, (SipDialog.new m).isSome = true) (hnone : dialogOf rd cap ms = none) :
    ms = [] := by
  cases ms with
  | nil => rfl
  | cons m ms =>
    have hm := hopens m mem_cons_self
    rw [dialogOf, Option.map_eq_none_iff, openDialog, Option.map_eq_none_iff] at hnone
    rw [hnone] at hm
    cases hm

omit [LinearOrder κ] in
theorem markRepeats_positions (seen : Finset String) (ms : List SipMessage) :
    (markRepeats seen ms).map (messagePosition readPosition) =
      ms.map (messagePosition readPosition) := by
  have hmap : ∀ xs : List SipMessage, xs.map (messagePosition readPosition) =
      (xs.map SipMessage.unmarked).map (messagePosition readPosition) := by
    intro xs
    rw [List.map_map]
    rfl
  rw [hmap, markRepeats_unmarked, ← hmap]

section Shares
variable (env : StoreEnv) (assign : SipMessage → ℕ) (n : ℕ) (ms : List SipMessage)

def fragmentsOf : List SipDialog :=
  (List.range n).filterMap
    (fun i => dialogOf env.readers env.maxMessagesPerDialog (share assign ms i))

variable {env assign n ms}

theorem dialogOf_share_stored {i : ℕ} {f : SipDialog}
    (hd : dialogOf env.readers env.maxMessagesPerDialog (share assign ms i) = some f)
    (hcap : ms.length ≤ env.maxMessagesPerDialog)
    (hseen : (seenKeys ms).card < maxSeenCseqPerDialog) :
    f.messages = markRepeats ∅ (share assign ms i) := by
  have hlength : (share assign ms i).length ≤ ms.length := length_filter_le _ _
  refine dialogOf_stored hd (by omega) ?_
  exact lt_of_le_of_lt (Finset.card_le_card (seenKeys_mono (share_subset assign ms i))) hseen

theorem fragmentsOf_messages (hcap : ms.length ≤ env.maxMessagesPerDialog)
    (hseen : (seenKeys ms).card < maxSeenCseqPerDialog)
    (hopens : ∀ m ∈ ms, (SipDialog.new m).isSome = true) :
    ((fragmentsOf env assign n ms).map SipDialog.messages).flatten =
      ((List.range n).map (fun i => markRepeats ∅ (share assign ms i))).flatten := by
  unfold fragmentsOf
  induction List.range n with
  | nil => rfl
  | cons i is ih =>
    rw [filterMap_cons, map_cons, flatten_cons, ← ih]
    cases hd : dialogOf env.readers env.maxMessagesPerDialog (share assign ms i) with
    | none =>
      have hempty : share assign ms i = [] :=
        eq_nil_of_dialogOf_eq_none (fun m hm => hopens m (share_subset assign ms i hm)) hd
      rw [hempty]
      rfl
    | some d =>
      rw [map_cons, flatten_cons, dialogOf_share_stored hd hcap hseen]

theorem inReadOrder_perm (fragments : List SipDialog) :
    (inReadOrder readPosition fragments).Perm (fragments.map SipDialog.messages).flatten := by
  refine (mergeLanes_perm _).trans ?_
  refine (mergeSort_perm _ _).flatten.trans (List.Perm.of_eq ?_)
  exact flatten_filter_not_isEmpty

theorem inReadOrder_pairwise (hord : Ordered readPosition ms)
    (hcap : ms.length ≤ env.maxMessagesPerDialog)
    (hseen : (seenKeys ms).card < maxSeenCseqPerDialog) :
    (inReadOrder readPosition (fragmentsOf env assign n ms)).Pairwise
      (fun a b => messagePosition readPosition a ≤ messagePosition readPosition b) := by
  refine mergeLanes_pairwise _ (fun lane hlane => ?_)
  have hlane' := mem_of_mem_filter ((mergeSort_perm _ _).mem_iff.mp hlane)
  obtain ⟨f, hf, rfl⟩ := List.mem_map.mp hlane'
  obtain ⟨i, -, hd⟩ := mem_filterMap.mp hf
  rw [dialogOf_share_stored hd hcap hseen]
  have hshare : ((share assign ms i).map (messagePosition readPosition)).Pairwise (· ≤ ·) :=
    pairwise_map.mpr ((hord.sublist filter_sublist).imp (fun hlt => hlt.le))
  rw [← markRepeats_positions ∅] at hshare
  exact pairwise_map.mp hshare

theorem inReadOrder_unmarked (hord : Ordered readPosition ms) (hassign : ∀ m ∈ ms, assign m < n)
    (hcap : ms.length ≤ env.maxMessagesPerDialog)
    (hseen : (seenKeys ms).card < maxSeenCseqPerDialog)
    (hopens : ∀ m ∈ ms, (SipDialog.new m).isSome = true) :
    (inReadOrder readPosition (fragmentsOf env assign n ms)).map SipMessage.unmarked =
      ms.map SipMessage.unmarked := by
  have hperm : ((inReadOrder readPosition (fragmentsOf env assign n ms)).map
      SipMessage.unmarked).Perm (ms.map SipMessage.unmarked) := by
    have hflat : (((List.range n).map (fun i => markRepeats ∅ (share assign ms i))).flatten).map
        SipMessage.unmarked =
          (((List.range n).map (fun i => share assign ms i)).flatten).map SipMessage.unmarked := by
      rw [map_flatten, map_flatten, List.map_map, List.map_map]
      congr 1
      exact map_congr_left (fun i _ => markRepeats_unmarked ∅ (share assign ms i))
    refine ((inReadOrder_perm _).map SipMessage.unmarked).trans ?_
    rw [fragmentsOf_messages hcap hseen hopens, hflat]
    exact (shares_perm assign ms n hassign).map SipMessage.unmarked
  have hmerged : ((inReadOrder readPosition (fragmentsOf env assign n ms)).map
      SipMessage.unmarked).Pairwise
        (fun a b => messagePosition readPosition a ≤ messagePosition readPosition b) :=
    pairwise_map.mpr (inReadOrder_pairwise hord hcap hseen)
  have hwhole : (ms.map SipMessage.unmarked).Pairwise
      (fun a b => messagePosition readPosition a ≤ messagePosition readPosition b) :=
    pairwise_map.mpr (hord.imp (fun hlt => hlt.le))
  refine hperm.eq_of_pairwise (fun a b ha hb hab hba => ?_) hmerged hwhole
  obtain ⟨x, hx, rfl⟩ := List.mem_map.mp (hperm.mem_iff.mp ha)
  obtain ⟨y, hy, rfl⟩ := List.mem_map.mp hb
  rw [hord.eq_of_position hx hy (le_antisymm hab hba)]

theorem dialogOf_inReadOrder (hord : Ordered readPosition ms) (hassign : ∀ m ∈ ms, assign m < n)
    (hcap : ms.length ≤ env.maxMessagesPerDialog)
    (hseen : (seenKeys ms).card < maxSeenCseqPerDialog)
    (hopens : ∀ m ∈ ms, (SipDialog.new m).isSome = true) (rd : BodyReaders) (cap : ℕ) :
    dialogOf rd cap (inReadOrder readPosition (fragmentsOf env assign n ms)) =
      dialogOf rd cap ms := by
  refine dialogOf_remarked ?_ hseen
  refine remarked_of_noted [] _ ms hord
    (inReadOrder_unmarked hord hassign hcap hseen hopens) (fun l hl => ?_)
  have hflat := (inReadOrder_perm _).mem_iff.mp hl
  rw [fragmentsOf_messages hcap hseen hopens, mem_flatten] at hflat
  obtain ⟨lane, hlane, hmem⟩ := hflat
  obtain ⟨i, -, rfl⟩ := List.mem_map.mp hlane
  obtain ⟨m, hm, hnoted⟩ := noted_of_mem_markRepeats [] (share assign ms i)
    (hord.sublist filter_sublist) hmem
  exact ⟨m, share_subset assign ms i hm, hnoted.mono (share_subset assign ms i)⟩

theorem dialogOf_of_single {d : SipDialog} (hassign : ∀ m ∈ ms, assign m < n)
    (hopens : ∀ m ∈ ms, (SipDialog.new m).isSome = true)
    (hsingle : fragmentsOf env assign n ms = [d]) :
    dialogOf env.readers env.maxMessagesPerDialog ms = some d := by
  obtain ⟨before, i, after, hrange, hbefore, hd, hafter⟩ := filterMap_eq_cons_iff.mp hsingle
  rw [filterMap_eq_nil_iff] at hafter
  have hall : share assign ms i = ms := by
    refine filter_eq_self.mpr (fun m hm => decide_eq_true ?_)
    have hmem : assign m ∈ before ++ i :: after := by
      rw [← hrange]
      exact mem_range.mpr (hassign m hm)
    have hown : m ∈ share assign ms (assign m) := mem_filter.mpr ⟨hm, by simp⟩
    have hnone : ¬ dialogOf env.readers env.maxMessagesPerDialog (share assign ms (assign m)) =
        none := by
      intro hnone
      have hnil := eq_nil_of_dialogOf_eq_none
        (fun x hx => hopens x (share_subset assign ms (assign m) hx)) hnone
      rw [hnil] at hown
      cases hown
    rcases mem_append.mp hmem with hin | hin
    · exact absurd (hbefore _ hin) hnone
    · rcases mem_cons.mp hin with heq | hin
      · exact heq
      · exact absurd (hafter _ hin) hnone
  rw [hall] at hd
  exact hd

end Shares

end ReadOrder

end Sipnab
