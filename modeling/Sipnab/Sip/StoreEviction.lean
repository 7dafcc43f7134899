import Sipnab.Lib.RotatingBuffer
import Sipnab.Sip.StoreReplay

/-!
# Which dialogs a rotating store keeps

A rotating store fed messages of distinct keys is a rotating buffer of the dialogs they open.
Workers shed batches against their own shares and the merge sheds batches against the union, so
the merged store keeps what a single store keeps exactly when no worker has shed one of the
dialogs the single store keeps.
-/

namespace Sipnab

open List Option DialogStore

def storeRotation (maxDialogs : ℕ) (hcap : 1 ≤ maxDialogs) : Rotation where
  cap := maxDialogs
  batch := DialogStore.evictionBatch maxDialogs
  batch_pos := evictionBatch_pos maxDialogs
  batch_le := by
    unfold DialogStore.evictionBatch
    omega

variable {α β : Type*} {s : DialogStore} {maxDialogs : ℕ} (r : Rotation)

theorem Rotation.map_foldl_add (f : α → β) (xs acc : List α) :
    (xs.foldl r.add acc).map f = (xs.map f).foldl r.add (acc.map f) := by
  induction xs generalizing acc with
  | nil => rfl
  | cons x xs ih =>
    rw [foldl_cons, ih, map_cons, foldl_cons]
    congr 1
    unfold Rotation.add
    rw [map_append, length_map, apply_ite (List.map f), map_drop]
    rfl

theorem Rotation.survivors_map (f : α → β) (xs : List α) :
    r.survivors (xs.map f) = (r.survivors xs).map f := by
  rw [← r.foldl_add, ← r.foldl_add, r.map_foldl_add]
  rfl

section Entries
variable (env : StoreEnv) (tracking : DialogTracking)

def entryOf (m : SipMessage) : Option (String × SipDialog) := do
  let key ← DialogStore.lookupKey tracking m
  let d ← openDialog env.readers m
  some (key, d)

variable {env tracking}

variable {m : SipMessage}

theorem entryOf_eq_some {e : String × SipDialog} (h : entryOf env tracking m = some e) :
    DialogStore.lookupKey tracking m = some e.1 ∧ openDialog env.readers m = some e.2 := by
  obtain ⟨key, hkey, h⟩ := bind_eq_some_iff.mp h
  obtain ⟨d, hd, h⟩ := bind_eq_some_iff.mp h
  obtain rfl := some.inj h
  exact ⟨hkey, hd⟩

theorem entryOf_of_opens (h : (SipDialog.new m).isSome = true) :
    ∃ e, entryOf env tracking m = some e := by
  obtain ⟨key, hkey⟩ := lookupKey_of_opens h tracking
  obtain ⟨d₀, hd₀⟩ := isSome_iff_exists.mp h
  refine ⟨(key, takeMessage env.readers d₀ m), ?_⟩
  rw [entryOf, hkey, openDialog, hd₀]
  rfl

end Entries

structure Rotates (s : DialogStore) (maxDialogs : ℕ) : Prop where
  cap_eq : s.maxDialogs = maxDialogs
  rotate_eq : s.rotate = true

theorem makeRoom_insert_entries (hs : Rotates s maxDialogs) (hcap : 1 ≤ maxDialogs) {key : String}
    (hkey : key ∉ s.dialogs.keys) (d : SipDialog) :
    (s.makeRoom.dialogs.insert key d).entries =
      (storeRotation maxDialogs hcap).add s.dialogs.entries (key, d) := by
  have hnew : key ∉ s.makeRoom.dialogs.keys := fun hmem => hkey (keys_makeRoom_subset s hmem)
  rw [IndexMap.insert, IndexMap.entries_alter_of_not_mem hnew, Rotation.add]
  congr 1
  unfold DialogStore.makeRoom
  rw [hs.cap_eq]
  split_ifs with hfull hlong hlong
  · rw [DialogStore.evictOldest, hs.cap_eq]
    dsimp only [IndexMap.dropFirst]
    rcases Nat.le_total (DialogStore.evictionBatch maxDialogs) s.dialogs.length with hle | hle
    · rw [Nat.min_eq_left hle]
      rfl
    · rw [Nat.min_eq_right hle, IndexMap.length, drop_length]
      exact (drop_eq_nil_of_le hle).symm
  · exact absurd hfull hlong
  · exact absurd hlong hfull
  · rfl

theorem DialogStore.openNew_rotating {rd : BodyReaders} {m : SipMessage} {d : SipDialog}
    (hrotate : s.rotate = true) (hopen : openDialog rd m = some d) (key : String) :
    s.openNew rd key m =
      { s.makeRoom with
        dialogsOpenedByMethod := d.method.asStr ::ₘ s.makeRoom.dialogsOpenedByMethod
        dialogs := s.makeRoom.dialogs.insert key d } := by
  have hdrop : ¬ (s.maxDialogs ≤ s.dialogs.length ∧ s.rotate = false) := by simp [hrotate]
  simp only [DialogStore.openNew, if_neg hdrop, hopen]

theorem DialogStore.makeRoom_config (s : DialogStore) :
    s.makeRoom.maxDialogs = s.maxDialogs ∧ s.makeRoom.rotate = s.rotate ∧
      s.makeRoom.tracking = s.tracking ∧ s.makeRoom.admission = s.admission := by
  unfold DialogStore.makeRoom
  split_ifs <;> exact ⟨rfl, rfl, rfl, rfl⟩

section Feed
variable {env : StoreEnv} {tracking : DialogTracking} {maxDialogs : ℕ}

/-- The store is the rotating buffer of the dialogs opened. -/
structure Buffers (env : StoreEnv) (tracking : DialogTracking) (maxDialogs : ℕ)
    (hcap : 1 ≤ maxDialogs) (s : DialogStore) (ms : List SipMessage) : Prop where
  tracking_eq : s.tracking = tracking
  admission_eq : s.admission = none
  rotates : Rotates s maxDialogs
  entries_eq : s.dialogs.entries.map some =
    (storeRotation maxDialogs hcap).survivors (ms.map (entryOf env tracking))

variable {s : DialogStore}

variable {ms : List SipMessage}

theorem Buffers.exists_message {hcap : 1 ≤ maxDialogs}
    (h : Buffers env tracking maxDialogs hcap s ms) {key : String} {d : SipDialog}
    (hd : (key, d) ∈ s.dialogs.entries) :
    ∃ m ∈ (storeRotation maxDialogs hcap).survivors ms, entryOf env tracking m = some (key, d) := by
  have hmem : some (key, d) ∈ s.dialogs.entries.map some := List.mem_map_of_mem hd
  rw [h.entries_eq, Rotation.survivors_map] at hmem
  exact List.mem_map.mp hmem

theorem Buffers.processMessage {hcap : 1 ≤ maxDialogs} {m : SipMessage}
    (h : Buffers env tracking maxDialogs hcap s ms) (hopens : (SipDialog.new m).isSome = true)
    (hnew : ∀ x ∈ ms, DialogStore.lookupKey tracking x ≠ DialogStore.lookupKey tracking m) :
    Buffers env tracking maxDialogs hcap (s.processMessage env m) (ms ++ [m]) := by
  obtain ⟨⟨key, d⟩, hentry⟩ : ∃ e, entryOf env tracking m = some e := entryOf_of_opens hopens
  obtain ⟨hkey, hopen⟩ := entryOf_eq_some hentry
  have hkey' : DialogStore.lookupKey s.tracking m = some key := by rw [h.tracking_eq, hkey]
  have hfresh : key ∉ s.dialogs.keys := by
    intro hmem
    obtain ⟨⟨key', d'⟩, hd', hsame⟩ := List.mem_map.mp hmem
    obtain ⟨x, hx, hxentry⟩ := h.exists_message hd'
    have hxkey := (entryOf_eq_some hxentry).1
    refine hnew x ((Rotation.survivors_suffix _ ms).subset hx) ?_
    rw [hxkey, hkey]
    exact congrArg some hsame
  have hrefuses : ¬ s.refuses m := by
    rintro ⟨admits, hadmits, -⟩
    rw [h.admission_eq] at hadmits
    cases hadmits
  have hrotates : Rotates (s.touch m.timestamp) maxDialogs :=
    ⟨by simpa using h.rotates.cap_eq, by simpa using h.rotates.rotate_eq⟩
  have hfresh' : key ∉ (s.touch m.timestamp).dialogs.keys := by simpa using hfresh
  have hentries := makeRoom_insert_entries hrotates hcap hfresh' d
  obtain ⟨hmax, hrotate, htracking, hadmission⟩ := (s.touch m.timestamp).makeRoom_config
  rw [processMessage_unheld hkey' (IndexMap.get?_eq_none_iff.mpr hfresh),
    if_neg hrefuses, openNew_rotating hrotates.rotate_eq hopen]
  refine ⟨?_, ?_, ⟨?_, ?_⟩, ?_⟩
  · exact htracking.trans (by simpa using h.tracking_eq)
  · exact hadmission.trans (by simpa using h.admission_eq)
  · exact hmax.trans hrotates.cap_eq
  · exact hrotate.trans hrotates.rotate_eq
  · dsimp only
    have hadd := (storeRotation maxDialogs hcap).map_foldl_add some [(key, d)] s.dialogs.entries
    rw [touch_dialogs] at hentries
    rw [hentries, map_append, map_singleton, hentry, ← Rotation.foldl_add,
      foldl_append, Rotation.foldl_add, ← h.entries_eq]
    exact hadd

theorem Fresh.buffers {hcap : 1 ≤ maxDialogs} (hs : Fresh tracking s) (hr : Rotates s maxDialogs)
    (ms : List SipMessage) (hopens : ∀ m ∈ ms, (SipDialog.new m).isSome = true)
    (hkeys : (ms.map (DialogStore.lookupKey tracking)).Nodup) :
    Buffers env tracking maxDialogs hcap (s.feed env ms) ms := by
  induction ms using List.reverseRecOn with
  | nil =>
    refine ⟨hs.tracking_eq, hs.admission_eq, hr, ?_⟩
    rw [DialogStore.feed, foldl_nil, hs.dialogs_eq]
    rfl
  | append_singleton ms m ih =>
    rw [forall_mem_append, forall_mem_singleton] at hopens
    rw [map_append, map_singleton, nodup_append] at hkeys
    have hholds := ih hopens.1 hkeys.1
    rw [DialogStore.feed, foldl_append, foldl_cons, foldl_nil]
    refine hholds.processMessage hopens.2 (fun x hx => ?_)
    exact hkeys.2.2 _ (List.mem_map_of_mem hx) _ (mem_singleton_self _)

end Feed

/-! ## Merging rotating stores -/

section Merge
variable {κ : Type*} [LinearOrder κ] {readPosition : Option FrameRef → DateTime → κ}
  {env : StoreEnv} {tracking : DialogTracking} {maxDialogs : ℕ}
  {target : DialogStore} {workers : ℕ → DialogStore} {assign : SipMessage → ℕ} {n : ℕ}
  {ms : List SipMessage}

/-- Rotating stores of one cap, each fed its share of opening messages of distinct keys. -/
structure Sharded (readPosition : Option FrameRef → DateTime → κ) (tracking : DialogTracking)
    (maxDialogs : ℕ) (target : DialogStore) (workers : ℕ → DialogStore)
    (assign : SipMessage → ℕ) (n : ℕ) (ms : List SipMessage) : Prop where
  cap_pos : 1 ≤ maxDialogs
  target_fresh : Fresh tracking target
  target_rotates : Rotates target maxDialogs
  workers_fresh : ∀ i < n, Fresh tracking (workers i)
  workers_rotate : ∀ i < n, Rotates (workers i) maxDialogs
  ordered : Ordered readPosition ms
  opens : ∀ m ∈ ms, (SipDialog.new m).isSome = true
  distinct : (ms.map (DialogStore.lookupKey tracking)).Nodup
  assigned : ∀ m ∈ ms, assign m < n

theorem Sharded.nodup (h : Sharded readPosition tracking maxDialogs target workers assign n ms) :
    ms.Nodup := List.Nodup.of_map _ h.distinct

variable {key : String} {d : SipDialog} {m : SipMessage}

theorem Sharded.eq_of_entry
    (h : Sharded readPosition tracking maxDialogs target workers assign n ms) {x y : SipMessage}
    (hx : x ∈ ms) (hy : y ∈ ms) {d' : SipDialog}
    (hxentry : entryOf env tracking x = some (key, d))
    (hyentry : entryOf env tracking y = some (key, d')) : x = y := by
  refine inj_on_of_nodup_map h.distinct hx hy ?_
  rw [(entryOf_eq_some hxentry).1, (entryOf_eq_some hyentry).1]

variable {i : ℕ}

theorem Sharded.worker_buffers
    (h : Sharded readPosition tracking maxDialogs target workers assign n ms) (hi : i < n) :
    Buffers env tracking maxDialogs h.cap_pos ((workers i).feed env (share assign ms i))
      (share assign ms i) :=
  (h.workers_fresh i hi).buffers (h.workers_rotate i hi) (share assign ms i)
    (fun m hm => h.opens m (share_subset assign ms i hm))
    (h.distinct.sublist (filter_sublist.map _))

def Sharded.held (h : Sharded readPosition tracking maxDialogs target workers assign n ms) :
    List SipMessage :=
  (storeRotation maxDialogs h.cap_pos).pooled assign ms

section

variable (h : Sharded readPosition tracking maxDialogs target workers assign n ms)
include h

theorem Sharded.worker_get? (hi : i < n) :
    ((workers i).feed env (share assign ms i)).dialogs.get? key = some d ↔
      ∃ m ∈ h.held, assign m = i ∧ entryOf env tracking m = some (key, d) := by
  have hbuffers : Buffers env tracking maxDialogs h.cap_pos
      ((workers i).feed env (share assign ms i)) (share assign ms i) := h.worker_buffers hi
  have hheld : ∀ m, m ∈ (storeRotation maxDialogs h.cap_pos).survivors (share assign ms i) ↔
      m ∈ h.held ∧ assign m = i := by
    intro m
    rw [← Rotation.share_pooled _ h.nodup, share, mem_filter, decide_eq_true_eq]
    rfl
  rw [IndexMap.get?_eq_some_iff]
  constructor
  · intro hmem
    obtain ⟨m, hm, hentry⟩ := hbuffers.exists_message hmem
    obtain ⟨hm, hassign⟩ := (hheld m).mp hm
    exact ⟨m, hm, hassign, hentry⟩
  · rintro ⟨m, hm, hassign, hentry⟩
    have hsome : some (key, d) ∈ ((workers i).feed env (share assign ms i)).dialogs.entries.map
        some := by
      rw [hbuffers.entries_eq, Rotation.survivors_map, ← hentry]
      exact List.mem_map_of_mem ((hheld m).mpr ⟨hm, hassign⟩)
    obtain ⟨e, he, heq⟩ := List.mem_map.mp hsome
    exact some.inj heq ▸ he

theorem Sharded.mem_of_held (hm : m ∈ h.held) : m ∈ ms := mem_of_mem_filter hm

theorem Sharded.fragments (hm : m ∈ h.held) (hentry : entryOf env tracking m = some (key, d)) :
    (target :: workerStores env workers assign n ms).filterMap (fun s => s.dialogs.get? key) =
      [d] := by
  have htarget : target.dialogs.get? key = none := by rw [h.target_fresh.dialogs_eq]; rfl
  have hi := h.assigned m (h.mem_of_held hm)
  have hown := (h.worker_get? hi).mpr ⟨m, hm, rfl, hentry⟩
  have hothers : ∀ j ∈ List.range n, j ≠ assign m →
      ((workers j).feed env (share assign ms j)).dialogs.get? key = none := by
    intro j hj hne
    rw [eq_none_iff_forall_ne_some]
    intro d' hd'
    obtain ⟨m', hm', hassign, hentry'⟩ := (h.worker_get? (mem_range.mp hj)).mp hd'
    obtain rfl := h.eq_of_entry (h.mem_of_held hm') (h.mem_of_held hm) hentry' hentry
    exact hne hassign.symm
  obtain ⟨before, after, hrange⟩ := mem_iff_append.mp (mem_range.mpr hi)
  have hnodup : (before ++ assign m :: after).Nodup := hrange ▸ nodup_range
  have hapart := nodup_append.mp hnodup
  rw [filterMap_cons, htarget, workerStores, filterMap_map]
  dsimp only
  refine filterMap_eq_cons_iff.mpr ⟨before, assign m, after, hrange, ?_, hown, ?_⟩
  · intro j hj
    refine hothers j (hrange ▸ mem_append_left _ hj) (fun heq => ?_)
    exact hapart.2.2 j hj (assign m) mem_cons_self heq
  · refine filterMap_eq_nil_iff.mpr (fun j hj => ?_)
    refine hothers j (hrange ▸ mem_append_right _ (mem_cons_of_mem _ hj)) ?_
    rintro rfl
    exact (nodup_cons.mp hapart.2.1).1 hj

end

/-- Where the dialog a message opens stands in the merge. -/
def positionOf (readPosition : Option FrameRef → DateTime → κ) (env : StoreEnv)
    (tracking : DialogTracking) (m : SipMessage) : Option (Positioned κ) :=
  (entryOf env tracking m).map (fun e => (some (messagePosition readPosition m), e.1, e.2))

omit [LinearOrder κ] in
theorem firstPosition_of_open {rd : BodyReaders} (h : openDialog rd m = some d) :
    firstPosition readPosition d = some (messagePosition readPosition m) := by
  obtain ⟨-, -, -, hmessages⟩ := tracks_openDialog h
  rw [firstPosition, hmessages]
  rfl

theorem Sharded.mem_positioned
    (h : Sharded readPosition tracking maxDialogs target workers assign n ms)
    (p : Positioned κ) :
    p ∈ (gatherFragments (target :: workerStores env workers assign n ms)).entries.filterMap
        (positionEntry env readPosition) ↔
      ∃ m ∈ h.held, positionOf readPosition env tracking m = some p := by
  rw [mem_positioned_iff]
  constructor
  · rintro ⟨hjoined, hp⟩
    obtain ⟨d, hd⟩ := exists_mem_of_ne_nil _ (fragments_ne_nil hjoined)
    obtain ⟨s, hs, hsd⟩ := mem_filterMap.mp hd
    rcases mem_cons.mp hs with rfl | hs
    · rw [h.target_fresh.dialogs_eq] at hsd
      cases hsd
    · obtain ⟨i, hi, rfl⟩ := List.mem_map.mp hs
      obtain ⟨m, hm, -, hentry⟩ := (h.worker_get? (mem_range.mp hi)).mp hsd
      rw [h.fragments hm hentry, joinedDialog, Option.some.injEq] at hjoined
      refine ⟨m, hm, ?_⟩
      rw [positionOf, hentry, map_some, Option.some.injEq,
        ← firstPosition_of_open (entryOf_eq_some hentry).2, hjoined, ← hp]
  · rintro ⟨m, hm, hp⟩
    obtain ⟨⟨key, d⟩, hentry, rfl⟩ := map_eq_some_iff.mp hp
    rw [h.fragments hm hentry]
    exact ⟨rfl, (firstPosition_of_open (entryOf_eq_some hentry).2).symm⟩

theorem Sharded.mergeSort_eq
    (h : Sharded readPosition tracking maxDialogs target workers assign n ms) :
    ((gatherFragments (target :: workerStores env workers assign n ms)).entries.filterMap
        (positionEntry env readPosition)).mergeSort positionedLe =
      h.held.filterMap (positionOf readPosition env tracking) := by
  have hordered : h.held.Pairwise (fun a b =>
      messagePosition readPosition a < messagePosition readPosition b) :=
    h.ordered.sublist filter_sublist
  have hstrict : (h.held.filterMap (positionOf readPosition env tracking)).Pairwise
      (fun a b => positionedLe a b = true ∧ ¬ positionedLe b a = true) := by
    rw [pairwise_filterMap]
    refine hordered.imp ?_
    intro x y hlt p hp q hq
    obtain ⟨e, -, rfl⟩ := map_eq_some_iff.mp hp
    obtain ⟨e', -, rfl⟩ := map_eq_some_iff.mp hq
    simp [positionedLe, hlt, hlt.le]
  have hnodup : ((gatherFragments (target :: workerStores env workers assign n ms)).entries.filterMap
      (positionEntry env readPosition)).Nodup :=
    List.Nodup.of_map _ ((gatherFragments _).nodup.sublist (positionEntry_keys env readPosition _))
  have hnodup' : (h.held.filterMap (positionOf readPosition env tracking)).Nodup := by
    refine hstrict.imp ?_
    rintro a b ⟨hle, hnot⟩ rfl
    exact hnot hle
  refine mergeSort_positioned ((perm_ext_iff_of_nodup hnodup hnodup').mpr (fun p => ?_)) hstrict
  rw [h.mem_positioned, mem_filterMap]

omit [LinearOrder κ] in
theorem admitMerged_rotating (hcap : 1 ≤ maxDialogs) (ps : List (Positioned κ)) (s : DialogStore)
    (hs : Rotates s maxDialogs) (hnodup : (ps.map (fun p => p.2.1)).Nodup)
    (hfresh : ∀ key ∈ ps.map (fun p => p.2.1), key ∉ s.dialogs.keys) :
    (ps.foldl admitMerged s).dialogs.entries =
      (ps.map Prod.snd).foldl (storeRotation maxDialogs hcap).add s.dialogs.entries := by
  induction ps generalizing s with
  | nil => rfl
  | cons p ps ih =>
    obtain ⟨position, key, d⟩ := p
    have hnodup' := nodup_cons.mp hnodup
    have hfresh' := forall_mem_cons.mp hfresh
    have hadmits : admitMerged s (position, key, d) =
        { s.makeRoom with dialogs := s.makeRoom.dialogs.insert key d } := by
      simp [admitMerged, hs.rotate_eq]
    obtain ⟨hmax, hrotate, -, -⟩ := s.makeRoom_config
    have hentries := makeRoom_insert_entries hs hcap hfresh'.1 d
    have hnext := ih { s.makeRoom with dialogs := s.makeRoom.dialogs.insert key d }
      ⟨hmax.trans hs.cap_eq, hrotate.trans hs.rotate_eq⟩ hnodup'.2 (by
        intro other hother hheld
        rcases (IndexMap.mem_keys_alter s.makeRoom.dialogs key other _).mp hheld with hheld | rfl
        · exact hfresh'.2 other hother (keys_makeRoom_subset s hheld)
        · exact hnodup'.1 hother)
    rw [foldl_cons, hadmits, hnext, map_cons, foldl_cons]
    dsimp only
    rw [hentries]

omit [LinearOrder κ] in
theorem positionOf_entries (readPosition : Option FrameRef → DateTime → κ) (env : StoreEnv)
    (tracking : DialogTracking) (xs : List SipMessage)
    (hopens : ∀ m ∈ xs, (SipDialog.new m).isSome = true) :
    ((xs.filterMap (positionOf readPosition env tracking)).map Prod.snd).map some =
      xs.map (entryOf env tracking) := by
  induction xs with
  | nil => rfl
  | cons m xs ih =>
    obtain ⟨hm, hxs⟩ := forall_mem_cons.mp hopens
    obtain ⟨e, he⟩ : ∃ e, entryOf env tracking m = some e := entryOf_of_opens hm
    have hp : positionOf readPosition env tracking m =
        some (some (messagePosition readPosition m), e.1, e.2) := by
      rw [positionOf, he, map_some]
    rw [filterMap_cons, hp, map_cons, map_cons, map_cons, he, ← ih hxs]

theorem Sharded.merge_entries
    (h : Sharded readPosition tracking maxDialogs target workers assign n ms) :
    (target.merge env readPosition (workerStores env workers assign n ms)).dialogs.entries.map
        some =
      ((storeRotation maxDialogs h.cap_pos).survivors h.held).map (entryOf env tracking) := by
  obtain ⟨opened, hmerge⟩ := merge_eq env readPosition target (workerStores env workers assign n ms)
  have hkeys := positionEntry_keys env readPosition
    (gatherFragments (target :: workerStores env workers assign n ms)).entries
  have hperm := (mergeSort_perm ((gatherFragments
    (target :: workerStores env workers assign n ms)).entries.filterMap
      (positionEntry env readPosition)) positionedLe).map (fun p => p.2.1)
  have hnodup := hperm.nodup_iff.mpr ((gatherFragments _).nodup.sublist hkeys)
  rw [h.mergeSort_eq] at hmerge hnodup
  have hadmits := admitMerged_rotating h.cap_pos
    (h.held.filterMap (positionOf readPosition env tracking))
    { mergeCounters target (workerStores env workers assign n ms) with
      dialogsOpenedByMethod := opened }
    ⟨h.target_rotates.cap_eq, h.target_rotates.rotate_eq⟩ hnodup (by
      intro key _ hheld
      cases hheld)
  have hsome := positionOf_entries readPosition env tracking h.held
    (fun m hm => h.opens m (h.mem_of_held hm))
  rw [hmerge, hadmits, Rotation.map_foldl_add, hsome, ← Rotation.survivors_map, ← Rotation.foldl_add]
  rfl

theorem mem_keys_of_entries {s : DialogStore} {xs : List SipMessage}
    (hentries : s.dialogs.entries.map some = xs.map (entryOf env tracking))
    (hopens : ∀ m ∈ xs, (SipDialog.new m).isSome = true) (key : String) :
    key ∈ s.dialogs.keys ↔ ∃ m ∈ xs, DialogStore.lookupKey tracking m = some key := by
  constructor
  · intro hkey
    obtain ⟨⟨key', d⟩, he, rfl⟩ := List.mem_map.mp hkey
    have hmem : some (key', d) ∈ xs.map (entryOf env tracking) := hentries ▸ List.mem_map_of_mem he
    obtain ⟨m, hm, hentry⟩ := List.mem_map.mp hmem
    exact ⟨m, hm, (entryOf_eq_some hentry).1⟩
  · rintro ⟨m, hm, hkey⟩
    obtain ⟨e, hentry⟩ : ∃ e, entryOf env tracking m = some e := entryOf_of_opens (hopens m hm)
    have hmem : some e ∈ s.dialogs.entries.map some := by
      rw [hentries, ← hentry]
      exact List.mem_map_of_mem hm
    obtain ⟨e', he', heq⟩ := List.mem_map.mp hmem
    obtain rfl := some.inj heq
    have hsame : e'.1 = key := some.inj ((entryOf_eq_some hentry).1.symm.trans hkey)
    exact hsame ▸ List.mem_map_of_mem he'

/-- Each worker still holds every message of its share that a single store keeps. -/
def NoneShed (maxDialogs : ℕ) (hcap : 1 ≤ maxDialogs) (assign : SipMessage → ℕ)
    (ms : List SipMessage) : Prop :=
  ∀ i, (share assign ((storeRotation maxDialogs hcap).survivors ms) i).length ≤
    (storeRotation maxDialogs hcap).kept (share assign ms i).length

theorem Sharded.merge_keys_iff
    (h : Sharded readPosition tracking maxDialogs target workers assign n ms)
    {serial : DialogStore} (hserial : Fresh tracking serial) (hrotates : Rotates serial maxDialogs) :
    (∀ key, key ∈ (target.merge env readPosition
        (workerStores env workers assign n ms)).dialogs.keys ↔
      key ∈ (serial.feed env ms).dialogs.keys) ↔ NoneShed maxDialogs h.cap_pos assign ms := by
  have hbuffers : Buffers env tracking maxDialogs h.cap_pos (serial.feed env ms) ms :=
    hserial.buffers hrotates ms h.opens h.distinct
  have hserialEntries := hbuffers.entries_eq
  rw [Rotation.survivors_map] at hserialEntries
  have hheld : (storeRotation maxDialogs h.cap_pos).survivors h.held ⊆ ms :=
    fun m hm => h.mem_of_held ((Rotation.survivors_suffix _ _).subset hm)
  have hkept : (storeRotation maxDialogs h.cap_pos).survivors ms ⊆ ms :=
    (Rotation.survivors_suffix _ ms).subset
  have hmergedEntries : (target.merge env readPosition
      (workerStores env workers assign n ms)).dialogs.entries.map some =
        ((storeRotation maxDialogs h.cap_pos).survivors h.held).map (entryOf env tracking) :=
    h.merge_entries
  have hmerged := mem_keys_of_entries hmergedEntries (fun m hm => h.opens m (hheld hm))
  have hsingle := mem_keys_of_entries hserialEntries (fun m hm => h.opens m (hkept hm))
  rw [NoneShed, ← Rotation.pooled_survivors_iff _ h.nodup h.assigned]
  constructor
  · intro hsame m
    have hback : ∀ xs ys : List SipMessage, xs ⊆ ms → ys ⊆ ms →
        (∀ key, (∃ x ∈ xs, DialogStore.lookupKey tracking x = some key) →
          ∃ y ∈ ys, DialogStore.lookupKey tracking y = some key) → ∀ x ∈ xs, x ∈ ys := by
      intro xs ys hxs hys hkeys x hx
      obtain ⟨key, hkey⟩ := lookupKey_of_opens (h.opens x (hxs hx)) tracking
      obtain ⟨y, hy, hykey⟩ := hkeys key ⟨x, hx, hkey⟩
      obtain rfl := inj_on_of_nodup_map h.distinct (hxs hx) (hys hy) (hkey.trans hykey.symm)
      exact hy
    constructor
    · exact hback _ _ hheld hkept
        (fun key hx => (hsingle key).mp ((hsame key).mp ((hmerged key).mpr hx))) m
    · exact hback _ _ hkept hheld
        (fun key hx => (hmerged key).mp ((hsame key).mpr ((hsingle key).mpr hx))) m
  · intro hsame key
    rw [hmerged, hsingle]
    exact exists_congr (fun m => and_congr_left (fun _ => hsame m))

/-- Merging rotating workers keeps the keys a single rotating store keeps exactly when no worker
has shed a message the single store keeps. -/
theorem merge_keeps_single_run_iff (readPosition : Option FrameRef → DateTime → κ)
    (env : StoreEnv) (tracking : DialogTracking) (maxDialogs : ℕ) (serial target : DialogStore)
    (workers : ℕ → DialogStore) (assign : SipMessage → ℕ) (n : ℕ) (ms : List SipMessage)
    (hserial : Fresh tracking serial) (hrotates : Rotates serial maxDialogs)
    (h : Sharded readPosition tracking maxDialogs target workers assign n ms) :
    (∀ key, key ∈ (target.merge env readPosition
        (workerStores env workers assign n ms)).dialogs.keys ↔
      key ∈ (serial.feed env ms).dialogs.keys) ↔ NoneShed maxDialogs h.cap_pos assign ms :=
  h.merge_keys_iff hserial hrotates

end Merge

theorem noneShed_of_small (hcap : 1 ≤ maxDialogs) (hsmall : maxDialogs < 200)
    (assign : SipMessage → ℕ) (ms : List SipMessage) : NoneShed maxDialogs hcap assign ms := by
  intro i
  have hbatch : (storeRotation maxDialogs hcap).batch = 1 := by
    dsimp only [storeRotation, DialogStore.evictionBatch]
    omega
  have hlength := length_filter_le (fun m => decide (assign m = i))
    ((storeRotation maxDialogs hcap).survivors ms)
  have hkept := (storeRotation maxDialogs hcap).kept_le ms.length
  have hfewer : (share assign ((storeRotation maxDialogs hcap).survivors ms) i).length ≤
      (share assign ms i).length :=
    ((Rotation.survivors_suffix _ ms).sublist.filter _).length_le
  rw [Rotation.length_survivors] at hlength
  rcases Nat.le_total (share assign ms i).length (storeRotation maxDialogs hcap).cap with hle | hle
  · rw [Rotation.kept_of_le _ hle]
    exact hfewer
  · have hlow := Rotation.cap_lt_kept_add _ hle
    rw [hbatch] at hlow
    unfold share at hlow hfewer ⊢
    omega

section
open SipMessage (plainRequest)

/-- Two calls and a cap of one, a worker for each. -/
theorem merge_keeps_single_run_iff_small :
    let ms := [(plainRequest "a" 1 .invite "z1" "").atFrame 0,
      (plainRequest "b" 1 .invite "z2" "").atFrame 1]
    let assign := fun m : SipMessage => frameOrdinal m.frame m.timestamp
    ∀ key, key ∈ (DialogStore.merge (.plain 10) frameOrdinal { maxDialogs := 1, rotate := true }
        (workerStores (.plain 10) (fun _ => { maxDialogs := 1, rotate := true }) assign 2
          ms)).dialogs.keys ↔
      key ∈ (DialogStore.feed (.plain 10) { maxDialogs := 1, rotate := true } ms).dialogs.keys := by
  intro ms assign
  have hfresh : Fresh .callId { maxDialogs := 1, rotate := true } := ⟨rfl, rfl, rfl, rfl, rfl⟩
  have hrotates : Rotates { maxDialogs := 1, rotate := true } 1 := ⟨rfl, rfl⟩
  refine (merge_keeps_single_run_iff frameOrdinal (.plain 10) .callId 1 _ _ _ assign 2 ms hfresh
    hrotates
    { cap_pos := by decide
      target_fresh := hfresh
      target_rotates := hrotates
      workers_fresh := fun _ _ => hfresh
      workers_rotate := fun _ _ => hrotates
      ordered := by unfold Ordered; decide
      opens := by decide
      distinct := by decide
      assigned := by decide }).mpr ?_
  exact noneShed_of_small _ (by decide) assign ms

/-- The `i`-th of a run of calls with Call-IDs of different lengths. -/
def numberedCall (i : ℕ) : SipMessage :=
  (plainRequest (String.ofList (List.replicate (i + 1) 'a')) 1 .invite "z1" "").atFrame i

variable (i : ℕ)

theorem numberedCall_callId :
    (numberedCall i).callId = some (String.ofList (List.replicate (i + 1) 'a')) := by
  have hvia : Text.eqIgnoreAsciiCase "Via".toList "Call-ID".toList = false := by decide
  have hfrom : Text.eqIgnoreAsciiCase "From".toList "Call-ID".toList = false := by decide
  have hto : Text.eqIgnoreAsciiCase "To".toList "Call-ID".toList = false := by decide
  have hcallId : Text.eqIgnoreAsciiCase "Call-ID".toList "Call-ID".toList = true := by decide
  simp only [numberedCall, SipMessage.atFrame, SipMessage.callId, SipMessage.header,
    SipMessage.plainRequest, List.find?_cons, hvia, hfrom, hto, hcallId, map_some]

theorem numberedCall_opens : (SipDialog.new (numberedCall i)).isSome = true := by
  rw [SipDialog.new, numberedCall_callId]
  rfl

def firstApart (m : SipMessage) : ℕ := if frameOrdinal m.frame m.timestamp = 0 then 1 else 0

theorem numberedCall_injective : Function.Injective (fun i => (numberedCall i).callId) := by
  intro i j hij
  dsimp only at hij
  rw [numberedCall_callId, numberedCall_callId] at hij
  have hlist := congrArg String.toList (some.inj hij)
  rw [String.toList_ofList, String.toList_ofList] at hlist
  have hlength := congrArg List.length hlist
  rw [length_replicate, length_replicate] at hlength
  omega

theorem firstApart_lt (m : SipMessage) : firstApart m < 2 := by
  unfold firstApart
  split_ifs <;> omega

theorem sharded_numberedCall {maxDialogs : ℕ} (hcap : 1 ≤ maxDialogs) (count : ℕ) :
    Sharded frameOrdinal .callId maxDialogs { maxDialogs := maxDialogs, rotate := true }
      (fun _ => { maxDialogs := maxDialogs, rotate := true }) firstApart 2
      ((List.range count).map numberedCall) := by
  have hfresh : Fresh .callId { maxDialogs := maxDialogs, rotate := true } :=
    ⟨rfl, rfl, rfl, rfl, rfl⟩
  have hrotates : Rotates { maxDialogs := maxDialogs, rotate := true } maxDialogs := ⟨rfl, rfl⟩
  refine ⟨hcap, hfresh, hrotates, fun _ _ => hfresh, fun _ _ => hrotates, ?_, ?_, ?_, ?_⟩
  · exact pairwise_map.mpr pairwise_lt_range
  · intro m hm
    obtain ⟨i, -, rfl⟩ := List.mem_map.mp hm
    exact numberedCall_opens i
  · rw [List.map_map]
    exact nodup_range.map numberedCall_injective
  · exact fun m _ => firstApart_lt m

/-- Of 202 calls under a cap of 200, the worker that received the last 201 has shed one that a
single store keeps. -/
theorem merge_keeps_other_keys : let ms := (List.range 202).map numberedCall
    ¬ ∀ key, key ∈ (DialogStore.merge (.plain 10) frameOrdinal
          { maxDialogs := 200, rotate := true }
          (workerStores (.plain 10) (fun _ => { maxDialogs := 200, rotate := true }) firstApart 2
            ms)).dialogs.keys ↔
        key ∈ (DialogStore.feed (.plain 10) { maxDialogs := 200, rotate := true } ms).dialogs.keys := by
  intro ms
  have hsharded : Sharded frameOrdinal .callId 200 { maxDialogs := 200, rotate := true }
      (fun _ => { maxDialogs := 200, rotate := true }) firstApart 2 ms :=
    sharded_numberedCall (by decide) 202
  rw [hsharded.merge_keys_iff hsharded.target_fresh hsharded.target_rotates]
  intro hnone
  have hzero := hnone 0
  have hcap := (storeRotation 200 hsharded.cap_pos).kept_of_le (n := 200) (le_refl _)
  have hlast : (storeRotation 200 hsharded.cap_pos).kept 201 = 199 := by
    rw [Rotation.kept, hcap]
    rfl
  have hall : (storeRotation 200 hsharded.cap_pos).kept 202 = 200 := by
    rw [Rotation.kept, hlast]
    rfl
  have hshare : (share firstApart ms 0).length = 201 := by
    rw [share, List.filter_map, length_map]
    decide +kernel
  have hshed : (share firstApart ((storeRotation 200 hsharded.cap_pos).survivors ms) 0).length =
      200 := by
    rw [Rotation.survivors, length_map, length_range, hall, ← map_drop, share,
      List.filter_map, length_map]
    decide +kernel
  rw [hshare, hshed, hlast] at hzero
  omega

end

end Sipnab
