import Sipnab.Sip.StoreLedger
import Sipnab.Sip.DialogReplay

/-!
# Merged stores and the store of a single run

A store that never reaches its cap holds, for each key, the dialog of the messages under that key,
in the order of their first messages. Merging the stores of workers that each received a share of
a sequence gives the store that one worker builds of the whole sequence, whatever the shares.
-/

namespace Sipnab

open List Option

section Joined
variable {κ : Type*} [LinearOrder κ] {readPosition : Option FrameRef → DateTime → κ}
  {env : StoreEnv} {assign : SipMessage → ℕ} {n : ℕ} {ms : List SipMessage}

theorem joinedDialog_fragmentsOf (hord : Ordered readPosition ms)
    (hassign : ∀ m ∈ ms, assign m < n) (hcap : ms.length < env.maxMessagesPerDialog)
    (hseen : (seenKeys ms).card < maxSeenCseqPerDialog)
    (hopens : ∀ m ∈ ms, (SipDialog.new m).isSome = true) :
    joinedDialog env readPosition (fragmentsOf env assign n ms) =
      dialogOf env.readers env.maxMessagesPerDialog ms := by
  have hreplay := dialogOf_inReadOrder hord hassign hcap.le hseen hopens env.readers
    env.maxMessagesPerDialog
  have htails : (fragmentsOf env assign n ms).filter
      (fun f => env.maxMessagesPerDialog ≤ f.messages.length) = [] := by
    refine filter_eq_nil_iff.mpr (fun f hf => ?_)
    obtain ⟨i, -, hd⟩ := mem_filterMap.mp hf
    have hlength : f.messages.length ≤ ms.length := by
      have hunmarked := congrArg List.length (markRepeats_unmarked ∅ (share assign ms i))
      rw [length_map, length_map] at hunmarked
      rw [dialogOf_share_stored hd hcap.le hseen, hunmarked]
      exact length_filter_le _ _
    simp only [decide_eq_true_eq, not_le]
    omega
  have hrebuild : rebuildInReadOrder env readPosition (fragmentsOf env assign n ms) =
      dialogOf env.readers env.maxMessagesPerDialog ms := by
    unfold rebuildInReadOrder
    simp only [hreplay, htails, map_nil]
    cases hd : dialogOf env.readers env.maxMessagesPerDialog ms with
    | some d => rfl
    | none =>
      have hnil := eq_nil_of_dialogOf_eq_none hopens hd
      have hnone : fragmentsOf env assign n ms = [] :=
        filterMap_eq_nil_iff.mpr (fun i _ => by rw [hnil]; rfl)
      rw [hnone]
      rfl
  unfold joinedDialog
  split
  · next d hsingle => exact (dialogOf_of_single hassign hopens hsingle).symm
  · exact hrebuild

end Joined

/-! ## A store below its cap -/

def DialogStore.feed (env : StoreEnv) (s : DialogStore) (ms : List SipMessage) : DialogStore :=
  ms.foldl (DialogStore.processMessage env) s

def messagesOf (tracking : DialogTracking) (key : String) (ms : List SipMessage) :
    List SipMessage :=
  ms.filter (fun m => DialogStore.lookupKey tracking m = some key)

def keysOf (tracking : DialogTracking) (ms : List SipMessage) : Finset String :=
  (ms.filterMap (DialogStore.lookupKey tracking)).toFinset

theorem mem_keysOf {tracking : DialogTracking} {ms : List SipMessage} {key : String} :
    key ∈ keysOf tracking ms ↔ messagesOf tracking key ms ≠ [] := by
  rw [keysOf, List.mem_toFinset, mem_filterMap, Ne, messagesOf, filter_eq_nil_iff]
  simp only [decide_eq_true_eq, not_forall, not_not]
  exact ⟨fun ⟨m, hm, hkey⟩ => ⟨m, hm, hkey⟩, fun ⟨m, hm, hkey⟩ => ⟨m, hm, hkey⟩⟩

/-- A store no message has reached, open to every message. -/
structure Fresh (tracking : DialogTracking) (s : DialogStore) : Prop where
  dialogs_eq : s.dialogs = .empty
  opened_eq : s.dialogsOpenedByMethod = 0
  evicted_eq : s.capacityDialogsEvicted = 0
  tracking_eq : s.tracking = tracking
  admission_eq : s.admission = none

section Feed
variable {κ : Type*} [LinearOrder κ] (readPosition : Option FrameRef → DateTime → κ)
  (env : StoreEnv) (tracking : DialogTracking)

/-- The first message under `a` was read before the first under `b`. -/
def Before (ms : List SipMessage) (a b : String) : Prop :=
  ∃ x y, (messagesOf tracking a ms).head? = some x ∧ (messagesOf tracking b ms).head? = some y ∧
    messagePosition readPosition x < messagePosition readPosition y

/-- The store holds exactly the dialogs of the messages, in the order their keys came up. -/
structure Holds (s : DialogStore) (ms : List SipMessage) : Prop where
  tracking_eq : s.tracking = tracking
  admission_eq : s.admission = none
  evicted_eq : s.capacityDialogsEvicted = 0
  get?_eq : ∀ key, s.dialogs.get? key =
    dialogOf env.readers env.maxMessagesPerDialog (messagesOf tracking key ms)
  order : s.dialogs.keys.Pairwise (Before readPosition tracking ms)

variable {s : DialogStore} {m : SipMessage}

theorem Fresh.holds (h : Fresh tracking s) : Holds readPosition env tracking s [] :=
  ⟨h.tracking_eq, h.admission_eq, h.evicted_eq, fun key => by rw [h.dialogs_eq]; rfl,
    by rw [h.dialogs_eq]; exact List.Pairwise.nil⟩

variable {readPosition env tracking}

theorem dialogOf_concat {rd : BodyReaders} {cap : ℕ} {ms : List SipMessage} {d : SipDialog}
    (hd : dialogOf rd cap ms = some d) (m : SipMessage) :
    dialogOf rd cap (ms ++ [m]) = some (advanceDialog rd cap d m) := by
  cases ms with
  | nil => cases hd
  | cons first ms =>
    obtain ⟨d₀, hopen, rfl⟩ := map_eq_some_iff.mp hd
    rw [cons_append, dialogOf, hopen, map_some, foldl_append]
    rfl

theorem messagesOf_concat (key : String) (ms : List SipMessage) (m : SipMessage) :
    messagesOf tracking key (ms ++ [m]) = messagesOf tracking key ms ++
      if DialogStore.lookupKey tracking m = some key then [m] else [] := by
  rw [messagesOf, filter_append]
  congr 1
  by_cases hkey : DialogStore.lookupKey tracking m = some key <;> simp [hkey]

theorem messagesOf_concat_self {key : String} (hkey : DialogStore.lookupKey tracking m = some key)
    (ms : List SipMessage) :
    messagesOf tracking key (ms ++ [m]) = messagesOf tracking key ms ++ [m] := by
  rw [messagesOf_concat, if_pos hkey]

theorem messagesOf_concat_other {key k : String}
    (hkey : DialogStore.lookupKey tracking m = some key) (hk : k ≠ key) (ms : List SipMessage) :
    messagesOf tracking k (ms ++ [m]) = messagesOf tracking k ms := by
  have hne : DialogStore.lookupKey tracking m ≠ some k := by
    rw [hkey]
    exact fun heq => hk (some.inj heq).symm
  rw [messagesOf_concat, if_neg hne, append_nil]

theorem Before.concat {ms : List SipMessage} {a b : String}
    (h : Before readPosition tracking ms a b) (m : SipMessage) :
    Before readPosition tracking (ms ++ [m]) a b := by
  obtain ⟨x, y, hx, hy, hlt⟩ := h
  refine ⟨x, y, ?_, ?_, hlt⟩
  · rw [messagesOf_concat, List.head?_append, hx]
    rfl
  · rw [messagesOf_concat, List.head?_append, hy]
    rfl

theorem DialogStore.openNew_room {rd : BodyReaders} {d : SipDialog}
    (hroom : s.dialogs.length < s.maxDialogs) (hopen : openDialog rd m = some d) (key : String) :
    s.openNew rd key m =
      { s with
        dialogsOpenedByMethod := d.method.asStr ::ₘ s.dialogsOpenedByMethod
        dialogs := s.dialogs.insert key d } := by
  have hfull : ¬ s.maxDialogs ≤ s.dialogs.length := by omega
  simp only [DialogStore.openNew, DialogStore.makeRoom, hfull, false_and, if_false, hopen]

theorem lookupKey_of_opens (hopens : (SipDialog.new m).isSome = true) (tracking : DialogTracking) :
    ∃ key, DialogStore.lookupKey tracking m = some key := by
  rw [← isSome_iff_exists, DialogStore.lookupKey_isSome]
  cases h : m.callId with
  | none => simp [SipDialog.new, h] at hopens
  | some callId => rfl

theorem card_keys_toFinset (s : DialogStore) :
    s.dialogs.keys.toFinset.card = s.dialogs.length := by
  rw [toFinset_card_of_nodup s.dialogs.keys_nodup, IndexMap.keys, length_map]
  rfl

section Holds
variable {s : DialogStore} {ms : List SipMessage} {m : SipMessage} {key : String}

section

variable (h : Holds readPosition env tracking s ms)
include h

theorem Holds.messagesOf_ne_nil (hkey : key ∈ s.dialogs.keys) :
    messagesOf tracking key ms ≠ [] := by
  intro hnil
  have hnone : s.dialogs.get? key = none := by
    rw [h.get?_eq, hnil]
    rfl
  exact IndexMap.get?_eq_none_iff.mp hnone hkey

theorem Holds.length_le : s.dialogs.length ≤ (keysOf tracking ms).card := by
  rw [← card_keys_toFinset]
  apply Finset.card_le_card
  intro k hk
  exact mem_keysOf.mpr (h.messagesOf_ne_nil (List.mem_toFinset.mp hk))

theorem Holds.length_lt (hnew : s.dialogs.get? key = none)
    (hkey : DialogStore.lookupKey tracking m = some key) :
    s.dialogs.length < (keysOf tracking (ms ++ [m])).card := by
  have hnot : key ∉ s.dialogs.keys.toFinset := by
    rw [List.mem_toFinset]
    exact IndexMap.get?_eq_none_iff.mp hnew
  have hsub : insert key s.dialogs.keys.toFinset ⊆ keysOf tracking (ms ++ [m]) := by
    intro k hk
    rw [mem_keysOf, messagesOf_concat]
    rcases Finset.mem_insert.mp hk with rfl | hk
    · simp [hkey]
    · intro hnil
      exact h.messagesOf_ne_nil (List.mem_toFinset.mp hk) (append_eq_nil_iff.mp hnil).1
  have hcard := Finset.card_le_card hsub
  rw [Finset.card_insert_of_notMem hnot, card_keys_toFinset] at hcard
  omega

theorem Holds.advance (hkey : DialogStore.lookupKey tracking m = some key) {d : SipDialog}
    (hd : s.dialogs.get? key = some d) :
    Holds readPosition env tracking (s.processMessage env m) (ms ++ [m]) ∧
      (s.processMessage env m).maxDialogs = s.maxDialogs := by
  have hmem : key ∈ s.dialogs.keys :=
    IndexMap.mem_keys_of_mem_entries (IndexMap.get?_eq_some_iff.mp hd)
  rw [DialogStore.processMessage_held (h.tracking_eq ▸ hkey) hd]
  refine ⟨⟨by simpa using h.tracking_eq, by simpa using h.admission_eq,
    by simpa using h.evicted_eq, ?_, ?_⟩, by simp⟩
  · intro k
    dsimp only
    rw [IndexMap.insert, IndexMap.get?_alter]
    split_ifs with hk
    · rw [hk, messagesOf_concat_self hkey]
      exact (dialogOf_concat ((h.get?_eq key).symm.trans hd) m).symm
    · rw [messagesOf_concat_other hkey hk, h.get?_eq]
  · dsimp only
    rw [IndexMap.insert, IndexMap.keys_alter_of_mem hmem]
    exact h.order.imp (fun hbefore => hbefore.concat m)

theorem Holds.openNew (hkey : DialogStore.lookupKey tracking m = some key)
    (hd : s.dialogs.get? key = none) (hnil : messagesOf tracking key ms = [])
    (hroom : s.dialogs.length < s.maxDialogs) {d : SipDialog}
    (hopen : openDialog env.readers m = some d)
    (hlast : ∀ x ∈ ms, messagePosition readPosition x < messagePosition readPosition m) :
    Holds readPosition env tracking (s.processMessage env m) (ms ++ [m]) ∧
      (s.processMessage env m).maxDialogs = s.maxDialogs := by
  have hroom' : (s.touch m.timestamp).dialogs.length < (s.touch m.timestamp).maxDialogs := by
    rw [DialogStore.touch_dialogs, DialogStore.touch_maxDialogs]
    exact hroom
  have hrefuses : ¬ s.refuses m := by
    rintro ⟨admits, hadmits, -⟩
    rw [h.admission_eq] at hadmits
    cases hadmits
  rw [DialogStore.processMessage_unheld (h.tracking_eq ▸ hkey) hd, if_neg hrefuses,
    DialogStore.openNew_room hroom' hopen]
  refine ⟨⟨by simpa using h.tracking_eq, by simpa using h.admission_eq,
    by simpa using h.evicted_eq, ?_, ?_⟩, by simp⟩
  · intro k
    simp only [DialogStore.touch_dialogs]
    rw [IndexMap.insert, IndexMap.get?_alter]
    split_ifs with hk
    · rw [hk, messagesOf_concat_self hkey, hnil, nil_append, dialogOf, hopen]
      rfl
    · rw [messagesOf_concat_other hkey hk, h.get?_eq]
  · simp only [DialogStore.touch_dialogs]
    rw [IndexMap.insert, IndexMap.keys_alter_of_not_mem (IndexMap.get?_eq_none_iff.mp hd),
      pairwise_append]
    refine ⟨h.order.imp (fun hbefore => hbefore.concat m), pairwise_singleton _ _, ?_⟩
    intro a ha b hb
    obtain rfl := mem_singleton.mp hb
    obtain ⟨x, rest, hx⟩ := exists_cons_of_ne_nil (h.messagesOf_ne_nil ha)
    have hxmem : x ∈ ms := mem_of_mem_filter (hx ▸ mem_cons_self)
    refine ⟨x, m, ?_, ?_, hlast x hxmem⟩
    · rw [messagesOf_concat, hx]
      rfl
    · rw [messagesOf_concat_self hkey, hnil]
      rfl

theorem Holds.processMessage (hord : Ordered readPosition (ms ++ [m]))
    (hopens : ∀ x ∈ ms ++ [m], (SipDialog.new x).isSome = true)
    (hcap : (keysOf tracking (ms ++ [m])).card < s.maxDialogs) :
    Holds readPosition env tracking (s.processMessage env m) (ms ++ [m]) ∧
      (s.processMessage env m).maxDialogs = s.maxDialogs := by
  rw [forall_mem_append, forall_mem_singleton] at hopens
  obtain ⟨key, hkey⟩ := lookupKey_of_opens hopens.2 tracking
  cases hd : s.dialogs.get? key with
  | some d => exact h.advance hkey hd
  | none =>
    have hnil : messagesOf tracking key ms = [] :=
      eq_nil_of_dialogOf_eq_none (fun x hx => hopens.1 x (mem_of_mem_filter hx))
        ((h.get?_eq key).symm.trans hd)
    obtain ⟨d₀, hd₀⟩ := isSome_iff_exists.mp hopens.2
    have hopen : openDialog env.readers m = some (takeMessage env.readers d₀ m) := by
      rw [openDialog, hd₀, map_some]
    apply h.openNew hkey hd hnil ((h.length_lt hd hkey).trans hcap) hopen
    intro x hx
    exact (pairwise_append.mp hord).2.2 x hx m (mem_singleton_self m)

end

end Holds

theorem Holds.feed (hs : Fresh tracking s) (ms : List SipMessage) (hord : Ordered readPosition ms)
    (hopens : ∀ m ∈ ms, (SipDialog.new m).isSome = true)
    (hcap : (keysOf tracking ms).card < s.maxDialogs) :
    Holds readPosition env tracking (s.feed env ms) ms ∧
      (s.feed env ms).maxDialogs = s.maxDialogs := by
  induction ms using List.reverseRecOn with
  | nil => exact ⟨hs.holds readPosition env tracking, rfl⟩
  | append_singleton ms m ih =>
    have hfewer : keysOf tracking ms ⊆ keysOf tracking (ms ++ [m]) := by
      intro k hk
      rw [keysOf, filterMap_append, toFinset_append]
      exact Finset.mem_union_left _ hk
    obtain ⟨hholds, hmax⟩ := ih (hord.sublist (sublist_append_left ms [m]))
      (fun x hx => hopens x (mem_append_left _ hx))
      (lt_of_le_of_lt (Finset.card_le_card hfewer) hcap)
    have hstep := hholds.processMessage hord hopens (by rw [hmax]; exact hcap)
    rw [DialogStore.feed, foldl_append, foldl_cons, foldl_nil]
    exact ⟨hstep.1, hstep.2.trans hmax⟩

end Feed

/-! ## The merge -/

theorem gatherFragments_get? (stores : List DialogStore) (key : String) :
    (gatherFragments stores).get? key =
      if stores.filterMap (fun s => s.dialogs.get? key) = [] then none
      else some (stores.filterMap (fun s => s.dialogs.get? key)) := by
  have hfold : ∀ (es : List (String × SipDialog)) (parts : List SipDialog),
      es.foldl (fun v e => some (v.getD [] ++ [e.2])) (some parts) =
        some (parts ++ es.map Prod.snd) := by
    intro es
    induction es with
    | nil => simp
    | cons e es ih =>
      intro parts
      rw [foldl_cons, getD_some, ih, append_assoc]
      rfl
  have hcollect : (stores.flatMap (fun s => s.dialogs.entries)).filter (fun e => e.1 = key) =
      (stores.filterMap (fun s => s.dialogs.get? key)).map (fun d => (key, d)) := by
    induction stores with
    | nil => rfl
    | cons s stores ih =>
      rw [flatMap_cons, filter_append, ih, IndexMap.entries_filter_key, filterMap_cons]
      cases s.dialogs.get? key <;> rfl
  rw [gatherFragments, IndexMap.get?_foldl_alter Prod.fst (fun v e => v.getD [] ++ [e.2]), hcollect]
  cases hparts : stores.filterMap (fun s => s.dialogs.get? key) with
  | nil => rfl
  | cons d ds =>
    rw [if_neg (cons_ne_nil d ds), map_cons, foldl_cons]
    exact (hfold _ [d]).trans (by simp)

section Merge
variable {κ : Type*} [LinearOrder κ] {readPosition : Option FrameRef → DateTime → κ}
  {env : StoreEnv} {tracking : DialogTracking}

theorem fragments_ne_nil {parts : List SipDialog} {d : SipDialog}
    (h : joinedDialog env readPosition parts = some d) : parts ≠ [] := by
  rintro rfl
  have hnone : joinedDialog env readPosition [] = none := rebuildInReadOrder_nil env readPosition
  rw [hnone] at h
  cases h

theorem mem_positioned_iff (stores : List DialogStore) (p : Positioned κ) :
    p ∈ (gatherFragments stores).entries.filterMap (positionEntry env readPosition) ↔
      joinedDialog env readPosition (stores.filterMap (fun s => s.dialogs.get? p.2.1)) =
          some p.2.2 ∧ p.1 = firstPosition readPosition p.2.2 := by
  have hget := gatherFragments_get? stores p.2.1
  rw [mem_filterMap]
  constructor
  · intro h
    obtain ⟨⟨key, parts⟩, hmem, hp⟩ := h
    obtain ⟨d, hd, rfl⟩ := map_eq_some_iff.mp hp
    rw [IndexMap.get?_eq_some_iff.mpr hmem] at hget
    split_ifs at hget
    rw [← some.inj hget]
    exact ⟨hd, rfl⟩
  · intro h
    obtain ⟨hd, hp⟩ := h
    rw [if_neg (fragments_ne_nil hd)] at hget
    refine ⟨(p.2.1, _), IndexMap.get?_eq_some_iff.mp hget, ?_⟩
    rw [positionEntry, hd, map_some, ← hp]

theorem positionedLe_trans (a b c : Positioned κ) (hab : positionedLe a b = true)
    (hbc : positionedLe b c = true) : positionedLe a c = true := by
  obtain ⟨pa, _⟩ := a
  obtain ⟨pb, _⟩ := b
  obtain ⟨pc, _⟩ := c
  cases pa <;> cases pb <;> cases pc <;> simp_all [positionedLe]
  exact hab.trans hbc

theorem positionedLe_total (a b : Positioned κ) :
    (positionedLe a b || positionedLe b a) = true := by
  obtain ⟨pa, _⟩ := a
  obtain ⟨pb, _⟩ := b
  cases pa <;> cases pb <;> simp [positionedLe, le_total]

theorem mergeSort_positioned {ps qs : List (Positioned κ)} (hperm : ps.Perm qs)
    (hqs : qs.Pairwise (fun a b => positionedLe a b = true ∧ ¬ positionedLe b a = true)) :
    ps.mergeSort positionedLe = qs := by
  have hsorted : (ps.mergeSort positionedLe).Pairwise (fun a b => positionedLe a b = true) :=
    pairwise_mergeSort positionedLe_trans positionedLe_total ps
  have hperm' := (mergeSort_perm ps positionedLe).trans hperm
  refine hperm'.eq_of_pairwise (fun a b ha hb hab hba => ?_) hsorted (hqs.imp And.left)
  obtain ⟨i, hi, rfl⟩ := getElem_of_mem (hperm'.mem_iff.mp ha)
  obtain ⟨j, hj, rfl⟩ := getElem_of_mem hb
  rcases lt_trichotomy i j with hij | rfl | hij
  · exact absurd hba (pairwise_iff_getElem.mp hqs i j hi hj hij).2
  · rfl
  · exact absurd hab (pairwise_iff_getElem.mp hqs j i hj hi hij).2

omit [LinearOrder κ] in
theorem admitMerged_room (ps : List (Positioned κ)) (s : DialogStore)
    (hroom : s.dialogs.length + ps.length ≤ s.maxDialogs)
    (hnodup : (ps.map (fun p => p.2.1)).Nodup)
    (hfresh : ∀ key ∈ ps.map (fun p => p.2.1), key ∉ s.dialogs.keys) :
    (ps.foldl admitMerged s).dialogs.entries = s.dialogs.entries ++ ps.map Prod.snd ∧
      (ps.foldl admitMerged s).capacityDialogsEvicted = s.capacityDialogsEvicted := by
  induction ps generalizing s with
  | nil => simp
  | cons p ps ih =>
    obtain ⟨position, key, d⟩ := p
    have hnodup' := nodup_cons.mp hnodup
    have hfresh' := forall_mem_cons.mp hfresh
    rw [length_cons] at hroom
    have hfull : ¬ s.maxDialogs ≤ s.dialogs.length := by omega
    have hadmits : admitMerged s (position, key, d) =
        { s with dialogs := s.dialogs.insert key d } := by
      simp [admitMerged, DialogStore.makeRoom, hfull]
    have hlength : (s.dialogs.insert key d).length = s.dialogs.length + 1 :=
      IndexMap.length_alter_of_not_mem hfresh'.1 _
    have hnext := ih { s with dialogs := s.dialogs.insert key d } (by dsimp only; omega)
      hnodup'.2 (by
        intro other hother hheld
        rcases (IndexMap.mem_keys_alter s.dialogs key other _).mp hheld with hheld | rfl
        · exact hfresh'.2 other hother hheld
        · exact hnodup'.1 hother)
    rw [foldl_cons, hadmits, hnext.1, hnext.2]
    refine ⟨?_, rfl⟩
    dsimp only
    rw [IndexMap.insert, IndexMap.entries_alter_of_not_mem hfresh'.1, append_assoc]
    rfl

omit [LinearOrder κ] in
theorem firstPosition_dialogOf {ms : List SipMessage} {d : SipDialog}
    (hd : dialogOf env.readers env.maxMessagesPerDialog ms = some d)
    (hcap : ms.length ≤ env.maxMessagesPerDialog)
    (hseen : (seenKeys ms).card < maxSeenCseqPerDialog) :
    firstPosition readPosition d = ms.head?.map (messagePosition readPosition) := by
  rw [firstPosition, dialogOf_stored hd hcap hseen, ← List.head?_map, markRepeats_positions,
    List.head?_map]

theorem share_messagesOf (assign : SipMessage → ℕ) (ms : List SipMessage) (key : String) (i : ℕ) :
    messagesOf tracking key (share assign ms i) = share assign (messagesOf tracking key ms) i := by
  unfold messagesOf share
  rw [List.filter_filter, List.filter_filter]
  exact filter_congr (fun m _ => Bool.and_comm _ _)

/-- What the merge is run on: a target and the stores of the workers, each fed its share. -/
structure Dealt (readPosition : Option FrameRef → DateTime → κ) (env : StoreEnv)
    (tracking : DialogTracking) (target : DialogStore) (workers : ℕ → DialogStore)
    (assign : SipMessage → ℕ) (n : ℕ) (ms : List SipMessage) : Prop where
  target_fresh : Fresh tracking target
  workers_fresh : ∀ i < n, Fresh tracking (workers i)
  ordered : Ordered readPosition ms
  opens : ∀ m ∈ ms, (SipDialog.new m).isSome = true
  assigned : ∀ m ∈ ms, assign m < n
  target_room : (keysOf tracking ms).card < target.maxDialogs
  workers_room : ∀ i < n, (keysOf tracking (share assign ms i)).card < (workers i).maxDialogs
  messages_room : ∀ key, (messagesOf tracking key ms).length < env.maxMessagesPerDialog
  seen_room : ∀ key, (seenKeys (messagesOf tracking key ms)).card < maxSeenCseqPerDialog

section Dealt
variable {target : DialogStore} {workers : ℕ → DialogStore} {assign : SipMessage → ℕ} {n : ℕ}
  {ms : List SipMessage}

def workerStores (env : StoreEnv) (workers : ℕ → DialogStore) (assign : SipMessage → ℕ) (n : ℕ)
    (ms : List SipMessage) : List DialogStore :=
  (List.range n).map (fun i => (workers i).feed env (share assign ms i))

section

variable (h : Dealt readPosition env tracking target workers assign n ms)
include h

theorem Dealt.worker_holds {i : ℕ} (hi : i < n) :
    Holds readPosition env tracking ((workers i).feed env (share assign ms i))
      (share assign ms i) :=
  (Holds.feed (h.workers_fresh i hi) (share assign ms i)
    (h.ordered.sublist filter_sublist) (fun m hm => h.opens m (share_subset assign ms i hm))
    (h.workers_room i hi)).1

theorem Dealt.fragments (key : String) :
    (target :: workerStores env workers assign n ms).filterMap (fun s => s.dialogs.get? key) =
      fragmentsOf env assign n (messagesOf tracking key ms) := by
  have htarget : target.dialogs.get? key = none := by rw [h.target_fresh.dialogs_eq]; rfl
  rw [filterMap_cons, htarget, workerStores, filterMap_map, fragmentsOf]
  refine filterMap_congr (fun i hi => ?_)
  rw [← share_messagesOf]
  exact (h.worker_holds (mem_range.mp hi)).get?_eq key

theorem Dealt.joined (key : String) :
    joinedDialog env readPosition (fragmentsOf env assign n (messagesOf tracking key ms)) =
      dialogOf env.readers env.maxMessagesPerDialog (messagesOf tracking key ms) :=
  joinedDialog_fragmentsOf (h.ordered.sublist filter_sublist)
    (fun m hm => h.assigned m (mem_of_mem_filter hm)) (h.messages_room key) (h.seen_room key)
    (fun m hm => h.opens m (mem_of_mem_filter hm))

theorem Dealt.mem_positioned (p : Positioned κ) :
    p ∈ (gatherFragments (target :: workerStores env workers assign n ms)).entries.filterMap
        (positionEntry env readPosition) ↔
      dialogOf env.readers env.maxMessagesPerDialog (messagesOf tracking p.2.1 ms) =
          some p.2.2 ∧ p.1 = firstPosition readPosition p.2.2 := by
  rw [mem_positioned_iff, h.fragments, h.joined]

end

theorem merge_eq (env : StoreEnv) (readPosition : Option FrameRef → DateTime → κ)
    (s : DialogStore) (others : List DialogStore) :
    ∃ opened, s.merge env readPosition others =
      (((gatherFragments (s :: others)).entries.filterMap
        (positionEntry env readPosition)).mergeSort positionedLe).foldl admitMerged
          { mergeCounters s others with dialogsOpenedByMethod := opened } := by
  have hsnd := joinFragments_foldl_snd env readPosition (gatherFragments (s :: others)).entries
    ((mergeCounters s others).dialogsOpenedByMethod, [])
  rw [nil_append] at hsnd
  rw [← hsnd]
  exact ⟨_, rfl⟩

/-- The dialogs of a store with the positions the merge sorts by. -/
def positionedEntries (readPosition : Option FrameRef → DateTime → κ) (s : DialogStore) :
    List (Positioned κ) :=
  s.dialogs.entries.map (fun e => (firstPosition readPosition e.2, e.1, e.2))

variable {s : DialogStore}

theorem Dealt.positioned_perm (h : Dealt readPosition env tracking target workers assign n ms)
    (hs : Holds readPosition env tracking s ms) :
    ((gatherFragments (target :: workerStores env workers assign n ms)).entries.filterMap
        (positionEntry env readPosition)).Perm (positionedEntries readPosition s) := by
  have hnodup : ((gatherFragments (target :: workerStores env workers assign n ms)).entries.filterMap
      (positionEntry env readPosition)).Nodup :=
    List.Nodup.of_map _ ((gatherFragments _).nodup.sublist (positionEntry_keys env readPosition _))
  have hnodup' : (positionedEntries readPosition s).Nodup := by
    refine List.Nodup.of_map Prod.snd ?_
    rw [positionedEntries, List.map_map]
    exact (List.map_id s.dialogs.entries).symm ▸ s.dialogs.entries_nodup
  refine (perm_ext_iff_of_nodup hnodup hnodup').mpr (fun p => ?_)
  rw [h.mem_positioned, ← hs.get?_eq, IndexMap.get?_eq_some_iff, positionedEntries, List.mem_map]
  constructor
  · rintro ⟨hmem, hp⟩
    exact ⟨(p.2.1, p.2.2), hmem, by rw [← hp]⟩
  · rintro ⟨e, he, rfl⟩
    exact ⟨he, rfl⟩

theorem Dealt.positioned_pairwise (h : Dealt readPosition env tracking target workers assign n ms)
    (hs : Holds readPosition env tracking s ms) :
    (positionedEntries readPosition s).Pairwise
      (fun a b => positionedLe a b = true ∧ ¬ positionedLe b a = true) := by
  have hposition : ∀ e ∈ s.dialogs.entries, firstPosition readPosition e.2 =
      (messagesOf tracking e.1 ms).head?.map (messagePosition readPosition) := by
    intro e he
    have hd := IndexMap.get?_eq_some_iff.mpr he
    rw [hs.get?_eq] at hd
    exact firstPosition_dialogOf hd (h.messages_room e.1).le (h.seen_room e.1)
  rw [positionedEntries, pairwise_map]
  refine List.Pairwise.imp_of_mem ?_ (pairwise_map.mp hs.order)
  rintro a b ha hb ⟨x, y, hx, hy, hlt⟩
  rw [hposition a ha, hposition b hb, hx, hy]
  simp [positionedLe, hlt, hlt.le]

theorem Fresh.balanced (hs : Fresh tracking s) (hcap : 0 < s.maxDialogs) : Balanced s := by
  refine ⟨hcap, by rw [hs.dialogs_eq]; exact Nat.zero_le _, ⟨?_, ?_⟩⟩
  · rw [DialogStore.totalDialogsOpened, hs.opened_eq, hs.dialogs_eq, hs.evicted_eq]
    rfl
  · rw [hs.dialogs_eq, hs.opened_eq]
    exact le_refl _

theorem Balanced.feed (hs : Balanced s) (env : StoreEnv) (ms : List SipMessage) :
    Balanced (s.feed env ms) := by
  induction ms generalizing s with
  | nil => exact hs
  | cons m ms ih => exact ih (hs.processMessage env m)

theorem Balanced.opened_eq (hs : Balanced s) (hevicted : s.capacityDialogsEvicted = 0) :
    s.dialogsOpenedByMethod = methodNames s.dialogs.values := by
  have hbalance := hs.ledger.balance
  have hcovered := hs.ledger.covered
  rw [add_zero] at hcovered
  refine (Multiset.eq_of_le_of_card_le hcovered ?_).symm
  have hlength : s.dialogs.values.length = s.dialogs.length := length_map _
  rw [card_methodNames, hlength]
  rw [DialogStore.totalDialogsOpened, Multiset.card_zero] at hbalance
  omega

theorem Dealt.merge_entries (h : Dealt readPosition env tracking target workers assign n ms)
    (hs : Holds readPosition env tracking s ms) :
    (target.merge env readPosition (workerStores env workers assign n ms)).dialogs = s.dialogs ∧
      (target.merge env readPosition
        (workerStores env workers assign n ms)).capacityDialogsEvicted = 0 := by
  obtain ⟨opened, hmerge⟩ := merge_eq env readPosition target
    (workerStores env workers assign n ms)
  have hlength : (positionedEntries readPosition s).length = s.dialogs.length := length_map _
  have hkeys : (positionedEntries readPosition s).map (fun p => p.2.1) = s.dialogs.keys := by
    rw [positionedEntries, List.map_map]
    rfl
  have hsnd : (positionedEntries readPosition s).map Prod.snd = s.dialogs.entries := by
    rw [positionedEntries, List.map_map]
    exact List.map_id s.dialogs.entries
  have hevicted : (mergeCounters target
      (workerStores env workers assign n ms)).capacityDialogsEvicted = 0 := by
    have hzero : ∀ x ∈ (workerStores env workers assign n ms).map
        DialogStore.capacityDialogsEvicted, x = 0 := by
      intro x hx
      obtain ⟨w, hw, rfl⟩ := List.mem_map.mp hx
      obtain ⟨i, hi, rfl⟩ := List.mem_map.mp hw
      exact (h.worker_holds (mem_range.mp hi)).evicted_eq
    rw [mergeCounters]
    dsimp only
    rw [h.target_fresh.evicted_eq, sum_eq_zero hzero, add_zero]
  have hroom : 0 + (positionedEntries readPosition s).length ≤ target.maxDialogs := by
    have htarget := h.target_room
    have hfew := hs.length_le
    omega
  rw [mergeSort_positioned (h.positioned_perm hs) (h.positioned_pairwise hs)] at hmerge
  have hadmits := admitMerged_room (positionedEntries readPosition s)
    { mergeCounters target (workerStores env workers assign n ms) with
      dialogsOpenedByMethod := opened } hroom
    (by rw [hkeys]; exact s.dialogs.keys_nodup)
    (by
      intro key _ hheld
      cases hheld)
  rw [← hmerge] at hadmits
  refine ⟨IndexMap.ext ?_, hadmits.2.trans hevicted⟩
  rw [hadmits.1, hsnd]
  rfl

/-- Below every limit, merging the workers' stores gives the dialogs and the counts of one store
fed the whole sequence, whatever share of it each worker received. -/
theorem merge_eq_single_run (readPosition : Option FrameRef → DateTime → κ) (env : StoreEnv)
    (tracking : DialogTracking) (serial target : DialogStore) (workers : ℕ → DialogStore)
    (assign : SipMessage → ℕ) (n : ℕ) (ms : List SipMessage)
    (hserial : Fresh tracking serial) (hroom : (keysOf tracking ms).card < serial.maxDialogs)
    (h : Dealt readPosition env tracking target workers assign n ms) :
    let merged := target.merge env readPosition (workerStores env workers assign n ms)
    merged.dialogs = (serial.feed env ms).dialogs ∧
      merged.dialogsOpenedByMethod = (serial.feed env ms).dialogsOpenedByMethod := by
  intro merged
  obtain ⟨hholds, -⟩ := Holds.feed hserial ms h.ordered h.opens hroom
  obtain ⟨hdialogs, hevicted⟩ := h.merge_entries hholds
  have hserialBalanced := (hserial.balanced (Nat.zero_lt_of_lt hroom)).feed env ms
  have htarget := h.target_fresh.balanced (Nat.zero_lt_of_lt h.target_room)
  have hworkers : ∀ o ∈ workerStores env workers assign n ms, Balanced o := by
    intro o ho
    obtain ⟨i, hi, rfl⟩ := List.mem_map.mp ho
    have hi := mem_range.mp hi
    exact ((h.workers_fresh i hi).balanced (Nat.zero_lt_of_lt (h.workers_room i hi))).feed env _
  have hmerged : Balanced merged := htarget.merge env readPosition hworkers
  refine ⟨hdialogs, ?_⟩
  rw [hmerged.opened_eq hevicted, hserialBalanced.opened_eq hholds.evicted_eq, hdialogs]

end Dealt

end Merge

section
open SipMessage (plainRequest plainResponse)

def frameOrdinal (frame : Option FrameRef) (_ : DateTime) : ℕ := frame.elim 0 FrameRef.ordinal

def SipMessage.atFrame (m : SipMessage) (ordinal : ℕ) : SipMessage :=
  { m with frame := some ⟨"calls.pcap", ordinal⟩ }

/-- An INVITE on both sides of a proxy, its repeat, and a second call. -/
def twoCalls : List SipMessage :=
  [(plainRequest "a" 1 .invite "z1" "").atFrame 0, (plainRequest "a" 1 .invite "z2" "").atFrame 1,
    (plainRequest "a" 1 .invite "z1" "").atFrame 2, (plainRequest "b" 1 .invite "z3" "").atFrame 3]

/-- Two workers that receive every other message give the two calls in order. -/
theorem merge_eq_single_run_two :
    ((DialogStore.merge (.plain 10) frameOrdinal { maxDialogs := 5, rotate := true }
      (workerStores (.plain 10) (fun _ => { maxDialogs := 5, rotate := true })
        (fun m => frameOrdinal m.frame m.timestamp % 2) 2 twoCalls)).dialogs.keys) = ["a", "b"] := by
  have hfresh : Fresh .callId { maxDialogs := 5, rotate := true } := ⟨rfl, rfl, rfl, rfl, rfl⟩
  have hfew : ∀ key, (messagesOf .callId key twoCalls).length ≤ 4 :=
    fun key => length_filter_le _ twoCalls
  have hmerge := merge_eq_single_run frameOrdinal (.plain 10) .callId
    { maxDialogs := 5, rotate := true } { maxDialogs := 5, rotate := true }
    (fun _ => { maxDialogs := 5, rotate := true })
    (fun m => frameOrdinal m.frame m.timestamp % 2) 2 twoCalls hfresh (by decide)
    { target_fresh := hfresh
      workers_fresh := fun _ _ => hfresh
      ordered := by unfold Ordered; decide
      opens := by decide
      assigned := fun m _ => Nat.mod_lt _ (by decide)
      target_room := by decide
      workers_room := by decide
      messages_room := fun key => lt_of_le_of_lt (hfew key) (by decide)
      seen_room := fun key => by
        have hcard := toFinset_card_le
          ((messagesOf .callId key twoCalls).filterMap SipMessage.seenCseqKey)
        have hlength := length_filterMap_le SipMessage.seenCseqKey
          (messagesOf .callId key twoCalls)
        have hkey := hfew key
        rw [seenKeys, maxSeenCseqPerDialog]
        omega }
  rw [hmerge.1]
  decide

end

end Sipnab
