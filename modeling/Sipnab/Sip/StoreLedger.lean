import Sipnab.Sip.StoreCapacity

/-!
# The store's books over whole runs

A `Ledger` balances the dialogs counted as opened against those held, those evicted and those
still to be put in. Every operation keeps it: a message, a compaction, a reordering, and a merge,
whose fragments are taken out of the counts one by one and put back once a key.
-/

namespace Sipnab

open List IndexMap

def methodNames (ds : List SipDialog) : Multiset String :=
  ↑(ds.map (fun d => d.method.asStr))

theorem methodNames_append (ds ds' : List SipDialog) :
    methodNames (ds ++ ds') = methodNames ds + methodNames ds' := by
  rw [methodNames, map_append, ← Multiset.coe_add]
  rfl

theorem card_methodNames (ds : List SipDialog) : (methodNames ds).card = ds.length := by
  simp [methodNames]

/-- The books of a store while dialogs opened under the methods `pending` are still to be put
in. -/
structure Ledger (s : DialogStore) (pending : Multiset String) : Prop where
  balance : s.totalDialogsOpened = s.dialogs.length + s.capacityDialogsEvicted + pending.card
  covered : methodNames s.dialogs.values + pending ≤ s.dialogsOpenedByMethod

variable {s : DialogStore} {pending : Multiset String} {key : String} {d : SipDialog}

theorem Ledger.evictOldest (h : Ledger s pending) : Ledger s.evictOldest pending := by
  have hbalance := h.balance
  refine ⟨?_, ?_⟩
  · simp only [DialogStore.totalDialogsOpened, DialogStore.evictOldest,
      length_dropFirst] at hbalance ⊢
    omega
  · have hfewer : methodNames s.evictOldest.dialogs.values ≤ methodNames s.dialogs.values :=
      Multiset.coe_le.mpr ((values_sublist_of_dropFirst s.dialogs _).map _).subperm
    exact (add_le_add_left hfewer pending).trans h.covered

theorem Ledger.insert_new (h : Ledger s (d.method.asStr ::ₘ pending))
    (hkey : key ∉ s.dialogs.keys) :
    Ledger { s with dialogs := s.dialogs.insert key d } pending := by
  have hbalance := h.balance
  have hcovered := h.covered
  have hlength : (s.dialogs.insert key d).length = s.dialogs.length + 1 :=
    length_alter_of_not_mem hkey _
  refine ⟨?_, ?_⟩
  · simp only [DialogStore.totalDialogsOpened, Multiset.card_cons, hlength] at hbalance ⊢
    omega
  · have hvalues : methodNames (s.dialogs.insert key d).values + pending =
        methodNames s.dialogs.values + (d.method.asStr ::ₘ pending) := by
      rw [values_insert_of_not_mem hkey, methodNames_append, add_assoc]
      rfl
    rw [hvalues]
    exact hcovered

theorem Ledger.forget {method : String} (h : Ledger s (method ::ₘ pending)) (dropped : ℕ) :
    Ledger { s with
      capacityDialogsDropped := dropped
      dialogsOpenedByMethod := forgetOpened s.dialogsOpenedByMethod method } pending := by
  have hbalance := h.balance
  have hcovered := h.covered
  have hmem : method ∈ s.dialogsOpenedByMethod := Multiset.mem_of_le hcovered (by simp)
  have hcard := Multiset.card_erase_add_one hmem
  refine ⟨?_, ?_⟩
  · simp only [DialogStore.totalDialogsOpened, Multiset.card_cons, forgetOpened] at hbalance ⊢
    omega
  · rw [Multiset.add_cons] at hcovered
    have herase := Multiset.erase_le_erase method hcovered
    rwa [Multiset.erase_cons_head] at herase

theorem advanceDialog_insert_methodNames {d' : SipDialog} (hd : s.dialogs.get? key = some d)
    (hmethod : d'.method = d.method) :
    methodNames (s.dialogs.insert key d').values = methodNames s.dialogs.values := by
  have hvalues := map_values_insert hd d' (fun d => d.method.asStr) (by rw [hmethod])
  unfold methodNames
  rw [hvalues]

structure Balanced (s : DialogStore) : Prop where
  cap_pos : 1 ≤ s.maxDialogs
  room : s.dialogs.length ≤ s.maxDialogs
  ledger : Ledger s 0

theorem length_makeRoom_lt (hcap : 1 ≤ s.maxDialogs) (hroom : s.dialogs.length ≤ s.maxDialogs) :
    s.makeRoom.dialogs.length < s.maxDialogs := by
  have hbatch := DialogStore.evictionBatch_pos s.maxDialogs
  unfold DialogStore.makeRoom
  split_ifs with hfull
  · simp only [DialogStore.evictOldest, length_dropFirst]
    omega
  · omega

theorem Ledger.makeRoom (h : Ledger s pending) : Ledger s.makeRoom pending := by
  unfold DialogStore.makeRoom
  split_ifs with hfull
  · exact h.evictOldest
  · exact h

theorem maxDialogs_makeRoom (s : DialogStore) : s.makeRoom.maxDialogs = s.maxDialogs := by
  unfold DialogStore.makeRoom
  split_ifs <;> rfl

theorem keys_makeRoom_subset (s : DialogStore) :
    s.makeRoom.dialogs.keys ⊆ s.dialogs.keys := by
  unfold DialogStore.makeRoom
  split_ifs with hfull
  · exact (keys_sublist_of_dropFirst s.dialogs _).subset
  · exact List.Subset.refl _

theorem Balanced.congr {s' : DialogStore} (h : Balanced s) (hdialogs : s'.dialogs = s.dialogs)
    (hmax : s'.maxDialogs = s.maxDialogs)
    (hopened : s'.dialogsOpenedByMethod = s.dialogsOpenedByMethod)
    (hevicted : s'.capacityDialogsEvicted = s.capacityDialogsEvicted) : Balanced s' := by
  refine ⟨hmax ▸ h.cap_pos, by rw [hdialogs, hmax]; exact h.room, ?_, ?_⟩
  · rw [DialogStore.totalDialogsOpened, hopened, hdialogs, hevicted]
    exact h.ledger.balance
  · rw [hdialogs, hopened]
    exact h.ledger.covered

theorem Balanced.touch (h : Balanced s) (now : DateTime) :
    Balanced (s.touch now) := h.congr (by simp) (by simp) (by simp) (by simp)

theorem Ledger.openNew (h : Ledger s 0) (hkey : key ∉ s.dialogs.keys) :
    Ledger { s with
      dialogsOpenedByMethod := d.method.asStr ::ₘ s.dialogsOpenedByMethod
      dialogs := s.dialogs.insert key d } 0 := by
  have hpending : Ledger { s with
      dialogsOpenedByMethod := d.method.asStr ::ₘ s.dialogsOpenedByMethod }
        (d.method.asStr ::ₘ 0) := by
    have hbalance := h.balance
    have hcovered := h.covered
    refine ⟨?_, ?_⟩
    · simp only [DialogStore.totalDialogsOpened, Multiset.card_cons, Multiset.card_zero]
        at hbalance ⊢
      omega
    · rw [Multiset.add_cons]
      exact (Multiset.cons_le_cons_iff _).mpr hcovered
  exact hpending.insert_new hkey

theorem Balanced.openNew (h : Balanced s) (rd : BodyReaders) (hkey : key ∉ s.dialogs.keys)
    (m : SipMessage) : Balanced (s.openNew rd key m) := by
  unfold DialogStore.openNew
  split_ifs with hdrop
  · exact h.congr rfl rfl rfl rfl
  · have hroom := length_makeRoom_lt h.cap_pos h.room
    have hledger := h.ledger.makeRoom
    have hkeys := keys_makeRoom_subset s
    have hmax := maxDialogs_makeRoom s
    generalize s.makeRoom = s' at hroom hledger hkeys hmax
    have hcap : 1 ≤ s'.maxDialogs := hmax ▸ h.cap_pos
    rw [← hmax] at hroom
    cases openDialog rd m with
    | none => exact ⟨hcap, hroom.le, hledger⟩
    | some d =>
      have hnew : key ∉ s'.dialogs.keys := fun hmem => hkey (hkeys hmem)
      have hlength : (s'.dialogs.insert key d).length = s'.dialogs.length + 1 :=
        length_alter_of_not_mem hnew _
      have hroom' : (s'.dialogs.insert key d).length ≤ s'.maxDialogs := by omega
      exact ⟨hcap, hroom', hledger.openNew hnew⟩

theorem Balanced.insert_held (h : Balanced s) {d' : SipDialog} (hd : s.dialogs.get? key = some d)
    (hmethod : d'.method = d.method) : Balanced { s with dialogs := s.dialogs.insert key d' } := by
  have hkey : key ∈ s.dialogs.keys := mem_keys_of_mem_entries (IndexMap.get?_eq_some_iff.mp hd)
  have hlength : (s.dialogs.insert key d').length = s.dialogs.length := length_alter_of_mem hkey _
  have hbalance := h.ledger.balance
  have hroom := h.room
  refine ⟨h.cap_pos, by dsimp only; omega, ?_, ?_⟩
  · simp only [DialogStore.totalDialogsOpened, hlength] at hbalance ⊢
    omega
  · rw [advanceDialog_insert_methodNames hd hmethod]
    exact h.ledger.covered

theorem Balanced.processMessage (h : Balanced s) (env : StoreEnv) (m : SipMessage) :
    Balanced (s.processMessage env m) := by
  have htouch := h.touch m.timestamp
  cases hkey : DialogStore.lookupKey s.tracking m with
  | none =>
    rw [DialogStore.processMessage_keyless hkey]
    exact htouch
  | some key =>
    cases hd : s.dialogs.get? key with
    | some d =>
      have hd' : (s.touch m.timestamp).dialogs.get? key = some d := by
        rwa [DialogStore.touch_dialogs]
      rw [DialogStore.processMessage_held hkey hd, ← DialogStore.touch_dialogs s m.timestamp]
      exact htouch.insert_held hd' (advanceDialog_method _ _ d m)
    | none =>
      rw [DialogStore.processMessage_unheld hkey hd]
      split_ifs with hrefused
      · exact htouch
      · refine htouch.openNew env.readers ?_ m
        rw [DialogStore.touch_dialogs]
        exact IndexMap.get?_eq_none_iff.mp hd

theorem compactDialog_method (env : StoreEnv) (now : DateTime) (d : SipDialog) :
    (DialogStore.compactDialog env now d).method = d.method := by
  unfold DialogStore.compactDialog
  split_ifs
  · rfl
  · split <;> rfl

theorem Balanced.compactIdle (h : Balanced s) (env : StoreEnv) (now : DateTime) :
    Balanced (s.compactIdle env now).1 := by
  have hnames : methodNames (s.dialogs.mapValues
      (fun _ d => DialogStore.compactDialog env now d)).values = methodNames s.dialogs.values := by
    simp [methodNames, IndexMap.values, IndexMap.mapValues, compactDialog_method, Function.comp_def]
  refine ⟨h.cap_pos, ?_, ?_, ?_⟩
  · simpa [DialogStore.compactIdle] using h.room
  · simpa [DialogStore.compactIdle, DialogStore.totalDialogsOpened] using h.ledger.balance
  · simp only [DialogStore.compactIdle, hnames]
    exact h.ledger.covered

theorem Balanced.sortDialogsByKey {κ : Type*} [LinearOrder κ] (h : Balanced s)
    (key : SipDialog → κ) : Balanced (s.sortDialogsByKey key) := by
  have hnames : methodNames (s.sortDialogsByKey key).dialogs.values =
      methodNames s.dialogs.values :=
    Multiset.coe_eq_coe.mpr ((values_sortBy_perm s.dialogs _).map _)
  refine ⟨h.cap_pos, ?_, ?_, ?_⟩
  · simpa [DialogStore.sortDialogsByKey] using h.room
  · simpa [DialogStore.sortDialogsByKey, DialogStore.totalDialogsOpened] using h.ledger.balance
  · rw [hnames]
    exact h.ledger.covered

/-! ## Merging -/

section Merge
variable {κ : Type*} [LinearOrder κ] (env : StoreEnv) (readPosition : Option FrameRef → DateTime → κ)

def joinedDialog (parts : List SipDialog) : Option SipDialog :=
  match parts with
  | [d] => some d
  | parts => rebuildInReadOrder env readPosition parts

def positionEntry (e : String × List SipDialog) : Option (Positioned κ) :=
  (joinedDialog env readPosition e.2).map (fun d => (firstPosition readPosition d, e.1, d))

variable (out : List (Positioned κ)) (es : List (String × List SipDialog))

variable (acc : Multiset String × List (Positioned κ))

theorem joinFragments_foldl_snd :
    (es.foldl (joinFragments env readPosition) acc).2 =
      acc.2 ++ es.filterMap (positionEntry env readPosition) := by
  induction es generalizing acc with
  | nil => simp
  | cons e es ih =>
    have hstep : (joinFragments env readPosition acc e).2 =
        acc.2 ++ (positionEntry env readPosition e).toList := by
      obtain ⟨key, _ | ⟨d, _ | ⟨d', ds⟩⟩⟩ := e
      · cases h : rebuildInReadOrder env readPosition [] <;>
          simp [joinFragments, positionEntry, joinedDialog, h]
      · rfl
      · cases h : rebuildInReadOrder env readPosition (d :: d' :: ds) <;>
          simp [joinFragments, positionEntry, joinedDialog, h]
    rw [foldl_cons, ih, hstep, filterMap_cons]
    cases positionEntry env readPosition e <;> simp

theorem rebuildInReadOrder_isSome {parts : List SipDialog} (hparts : parts ≠ []) :
    (rebuildInReadOrder env readPosition parts).isSome = true := by
  cases parts with
  | nil => exact absurd rfl hparts
  | cons f fs =>
    unfold rebuildInReadOrder
    dsimp only
    split <;> rfl

theorem foldl_forgetOpened (parts : List SipDialog) (opened rest : Multiset String)
    (hcover : methodNames parts + rest ≤ opened) :
    rest ≤ parts.foldl (fun opened part => forgetOpened opened part.method.asStr) opened ∧
      (parts.foldl (fun opened part => forgetOpened opened part.method.asStr) opened).card +
        parts.length = opened.card := by
  induction parts generalizing opened with
  | nil => simpa [methodNames] using hcover
  | cons part parts ih =>
    have hcons : part.method.asStr ::ₘ (methodNames parts + rest) ≤ opened := by
      rw [← Multiset.cons_add]
      exact hcover
    have hmem : part.method.asStr ∈ opened := Multiset.mem_of_le hcons (by simp)
    have hcard := Multiset.card_erase_add_one hmem
    have herase := Multiset.erase_le_erase part.method.asStr hcons
    rw [Multiset.erase_cons_head] at herase
    obtain ⟨hrest, hlength⟩ := ih (opened.erase part.method.asStr) herase
    exact ⟨hrest, by rw [foldl_cons, length_cons, forgetOpened]; omega⟩

theorem rebuildInReadOrder_nil : rebuildInReadOrder env readPosition [] = none := by
  simp [rebuildInReadOrder, inReadOrder, mergeLanes, popAll, dialogOf]

/-- The methods of the dialogs joined so far and of the fragments still to be joined. -/
def joinMethods (out : List (Positioned κ)) (es : List (String × List SipDialog)) :
    Multiset String :=
  methodNames (out.map (fun p => p.2.2)) + (es.map (fun e => methodNames e.2)).sum

omit [LinearOrder κ] in
theorem joinMethods_single (p : Option κ) (key : String) (d : SipDialog)
    (es : List (String × List SipDialog)) :
    joinMethods (out ++ [(p, key, d)]) es = joinMethods out ((key, [d]) :: es) := by
  unfold joinMethods
  rw [map_append, methodNames_append, add_assoc]
  rfl

omit [LinearOrder κ] in
theorem joinMethods_cons (key : String) (parts : List SipDialog)
    (es : List (String × List SipDialog)) :
    joinMethods out ((key, parts) :: es) = methodNames parts + joinMethods out es := by
  unfold joinMethods
  rw [map_cons, sum_cons]
  exact add_left_comm _ _ _

omit [LinearOrder κ] in
theorem joinMethods_concat (position : Option κ) (key : String) (d : SipDialog)
    (es : List (String × List SipDialog)) :
    joinMethods (out ++ [(position, key, d)]) es = d.method.asStr ::ₘ joinMethods out es := by
  rw [joinMethods_single, joinMethods_cons]
  rfl

omit [LinearOrder κ] in
theorem forgetFragments_counts {opened : Multiset String} {out : List (Positioned κ)}
    {key : String} {parts : List SipDialog} {es : List (String × List SipDialog)} {evicted : ℕ}
    (hcover : joinMethods out ((key, parts) :: es) ≤ opened)
    (hcard : opened.card = evicted + (joinMethods out ((key, parts) :: es)).card)
    (position : Option κ) (d : SipDialog) :
    joinMethods (out ++ [(position, key, d)]) es ≤ d.method.asStr ::ₘ
        parts.foldl (fun opened part => forgetOpened opened part.method.asStr) opened ∧
      (d.method.asStr ::ₘ
          parts.foldl (fun opened part => forgetOpened opened part.method.asStr) opened).card =
        evicted + (joinMethods (out ++ [(position, key, d)]) es).card := by
  rw [joinMethods_cons] at hcover hcard
  obtain ⟨hrest, hlength⟩ := foldl_forgetOpened parts opened (joinMethods out es) hcover
  rw [joinMethods_concat]
  refine ⟨(Multiset.cons_le_cons_iff _).mpr hrest, ?_⟩
  rw [Multiset.card_add, card_methodNames] at hcard
  simp only [Multiset.card_cons]
  omega

/-- One key: the counts cover the dialogs joined and the fragments left, and lose nothing but the
fragments replaced. -/
theorem joinFragments_counts (e : String × List SipDialog) (es : List (String × List SipDialog))
    (evicted : ℕ) (hcover : joinMethods acc.2 (e :: es) ≤ acc.1)
    (hcard : acc.1.card = evicted + (joinMethods acc.2 (e :: es)).card) :
    joinMethods (joinFragments env readPosition acc e).2 es ≤
        (joinFragments env readPosition acc e).1 ∧
      (joinFragments env readPosition acc e).1.card =
        evicted + (joinMethods (joinFragments env readPosition acc e).2 es).card := by
  obtain ⟨opened, out⟩ := acc
  obtain ⟨key, parts⟩ := e
  match parts, hcover, hcard with
  | [], hcover, hcard =>
    have hjoin : joinFragments env readPosition (opened, out) (key, []) = (opened, out) := by
      simp [joinFragments, rebuildInReadOrder_nil]
    have hnone : joinMethods out ((key, []) :: es) = joinMethods out es := by
      simp [joinMethods, methodNames]
    rw [hnone] at hcover hcard
    rw [hjoin]
    exact ⟨hcover, hcard⟩
  | [d], hcover, hcard =>
    rw [← joinMethods_single out (firstPosition readPosition d)] at hcover hcard
    exact ⟨hcover, hcard⟩
  | d :: d' :: ds, hcover, hcard =>
    have hsome := rebuildInReadOrder_isSome env readPosition (cons_ne_nil d (d' :: ds))
    obtain ⟨joined, hjoined⟩ := Option.isSome_iff_exists.mp hsome
    have hjoin : joinFragments env readPosition (opened, out) (key, d :: d' :: ds) =
        (joined.method.asStr ::ₘ (d :: d' :: ds).foldl
            (fun opened part => forgetOpened opened part.method.asStr) opened,
          out ++ [(firstPosition readPosition joined, key, joined)]) := by
      simp [joinFragments, hjoined]
    rw [hjoin]
    exact forgetFragments_counts hcover hcard _ joined

theorem joinFragments_foldl_counts (evicted : ℕ) (hcover : joinMethods acc.2 es ≤ acc.1)
    (hcard : acc.1.card = evicted + (joinMethods acc.2 es).card) :
    joinMethods (es.foldl (joinFragments env readPosition) acc).2 [] ≤
        (es.foldl (joinFragments env readPosition) acc).1 ∧
      (es.foldl (joinFragments env readPosition) acc).1.card =
        evicted + (joinMethods (es.foldl (joinFragments env readPosition) acc).2 []).card := by
  induction es generalizing acc with
  | nil => exact ⟨hcover, hcard⟩
  | cons e es ih =>
    obtain ⟨hcover', hcard'⟩ := joinFragments_counts env readPosition acc e es evicted hcover hcard
    exact ih (joinFragments env readPosition acc e) hcover' hcard'

/-- What is known of a store while the merged dialogs `ps` are still to be admitted. -/
structure Admitting (s : DialogStore) (ps : List (Positioned κ)) : Prop where
  cap_pos : 1 ≤ s.maxDialogs
  room : s.dialogs.length ≤ s.maxDialogs
  ledger : Ledger s (methodNames (ps.map (fun p => p.2.2)))
  nodup : (ps.map (fun p => p.2.1)).Nodup
  fresh : ∀ key ∈ ps.map (fun p => p.2.1), key ∉ s.dialogs.keys

omit [LinearOrder κ] in
theorem Admitting.step {s : DialogStore} {p : Positioned κ} {ps : List (Positioned κ)}
    (h : Admitting s (p :: ps)) : Admitting (admitMerged s p) ps := by
  obtain ⟨position, key, d⟩ := p
  have hledger : Ledger s (d.method.asStr ::ₘ methodNames (ps.map (fun p => p.2.2))) := h.ledger
  have hnodup := nodup_cons.mp h.nodup
  have hfresh := forall_mem_cons.mp h.fresh
  unfold admitMerged
  dsimp only
  split_ifs with hdrop
  · exact ⟨h.cap_pos, h.room, hledger.forget _, hnodup.2, hfresh.2⟩
  · have hroom := length_makeRoom_lt h.cap_pos h.room
    have hmade := hledger.makeRoom
    have hkeys := keys_makeRoom_subset s
    have hmax := maxDialogs_makeRoom s
    generalize s.makeRoom = s' at hroom hmade hkeys hmax
    have hnew : key ∉ s'.dialogs.keys := fun hmem => hfresh.1 (hkeys hmem)
    have hlength : (s'.dialogs.insert key d).length = s'.dialogs.length + 1 :=
      length_alter_of_not_mem hnew _
    refine ⟨hmax ▸ h.cap_pos, ?_, hmade.insert_new hnew, hnodup.2, ?_⟩
    · dsimp only
      omega
    · intro other hother hheld
      rcases (mem_keys_alter s'.dialogs key other _).mp hheld with hheld | rfl
      · exact hfresh.2 other hother (hkeys hheld)
      · exact hnodup.1 hother

omit [LinearOrder κ] in
theorem Admitting.run {s : DialogStore} {ps : List (Positioned κ)} (h : Admitting s ps) :
    Balanced (ps.foldl admitMerged s) := by
  induction ps generalizing s with
  | nil => exact ⟨h.cap_pos, h.room, h.ledger⟩
  | cons p ps ih => exact ih h.step

theorem gatherFragments_methods (stores : List DialogStore) :
    ((gatherFragments stores).values.map methodNames).sum =
      (stores.map (fun s => methodNames s.dialogs.values)).sum := by
  have hfold : ∀ (es : List (String × SipDialog)) (m : IndexMap String (List SipDialog)),
      ((es.foldl (fun fragments e => fragments.alter e.1 (fun parts => parts.getD [] ++ [e.2]))
        m).values.map methodNames).sum = (m.values.map methodNames).sum +
          methodNames (es.map Prod.snd) := by
    intro es
    induction es with
    | nil =>
      intro m
      simp [methodNames]
    | cons e es ih =>
      intro m
      have hadd := sum_alter m e.1 (fun parts => parts.getD [] ++ [e.2]) methodNames
        (methodNames [e.2]) rfl (fun parts => methodNames_append parts [e.2])
      rw [foldl_cons, ih, hadd, add_assoc, ← methodNames_append]
      rfl
  rw [gatherFragments, hfold]
  have hall : ∀ stores : List DialogStore,
      methodNames ((stores.flatMap (fun s => s.dialogs.entries)).map Prod.snd) =
        (stores.map (fun s => methodNames s.dialogs.values)).sum := by
    intro stores
    induction stores with
    | nil => rfl
    | cons s stores ih =>
      rw [flatMap_cons, map_append, methodNames_append, ih]
      rfl
  rw [hall]
  simp [IndexMap.values, IndexMap.empty]

theorem positionEntry_keys :
    ((es.filterMap (positionEntry env readPosition)).map (fun p => p.2.1)).Sublist
      (es.map Prod.fst) := by
  induction es with
  | nil => exact List.Sublist.refl []
  | cons e es ih =>
    rw [filterMap_cons, map_cons]
    cases h : positionEntry env readPosition e with
    | none => exact ih.cons e.1
    | some p =>
      obtain ⟨d, -, rfl⟩ := Option.map_eq_some_iff.mp h
      exact ih.cons_cons e.1

theorem balanced_sum (stores : List DialogStore) (h : ∀ s ∈ stores, Balanced s) :
    (stores.map (fun s => methodNames s.dialogs.values)).sum ≤
        (stores.map DialogStore.dialogsOpenedByMethod).sum ∧
      (stores.map DialogStore.dialogsOpenedByMethod).sum.card =
        (stores.map DialogStore.capacityDialogsEvicted).sum +
          (stores.map (fun s => methodNames s.dialogs.values)).sum.card := by
  induction stores with
  | nil => exact ⟨le_refl _, rfl⟩
  | cons s stores ih =>
    obtain ⟨hs, hstores⟩ := forall_mem_cons.mp h
    obtain ⟨hcover, hcard⟩ := ih hstores
    have hbalance := hs.ledger.balance
    have hcovered := hs.ledger.covered
    rw [add_zero] at hcovered
    refine ⟨add_le_add hcovered hcover, ?_⟩
    simp only [map_cons, sum_cons, Multiset.card_add, card_methodNames]
    have hlength : s.dialogs.values.length = s.dialogs.length := length_map _
    rw [DialogStore.totalDialogsOpened, Multiset.card_zero] at hbalance
    omega

theorem Balanced.merge {s : DialogStore} {others : List DialogStore} (hs : Balanced s)
    (hothers : ∀ o ∈ others, Balanced o) : Balanced (s.merge env readPosition others) := by
  obtain ⟨hcover, hcard⟩ := balanced_sum (s :: others) (forall_mem_cons.mpr ⟨hs, hothers⟩)
  have hmethods : joinMethods ([] : List (Positioned κ)) (gatherFragments (s :: others)).entries =
      ((s :: others).map (fun s => methodNames s.dialogs.values)).sum := by
    rw [← gatherFragments_methods, joinMethods, IndexMap.values, List.map_map]
    exact zero_add _
  obtain ⟨hcover', hcard'⟩ := joinFragments_foldl_counts env readPosition
    (gatherFragments (s :: others)).entries
    ((mergeCounters s others).dialogsOpenedByMethod, [])
    (mergeCounters s others).capacityDialogsEvicted
    (hmethods ▸ hcover) (hmethods ▸ hcard)
  have hsnd := joinFragments_foldl_snd env readPosition (gatherFragments (s :: others)).entries
    ((mergeCounters s others).dialogsOpenedByMethod, [])
  unfold DialogStore.merge
  dsimp only
  generalize hjoined : (gatherFragments (s :: others)).entries.foldl (joinFragments env readPosition)
    ((mergeCounters s others).dialogsOpenedByMethod, []) = joined at hcover' hcard' hsnd
  have hperm := mergeSort_perm joined.2 positionedLe
  have hnames : methodNames ((joined.2.mergeSort positionedLe).map (fun p => p.2.2)) =
      joinMethods joined.2 [] := by
    rw [joinMethods, map_nil, sum_nil, add_zero]
    exact Multiset.coe_eq_coe.mpr ((hperm.map _).map _)
  refine Admitting.run ⟨hs.cap_pos, Nat.zero_le _, ⟨?_, ?_⟩, ?_, ?_⟩
  · rw [hnames, DialogStore.totalDialogsOpened, hcard']
    exact (congrArg (· + _) (Nat.zero_add _)).symm
  · rw [hnames]
    exact (zero_add (joinMethods joined.2 [])).le.trans hcover'
  · rw [(hperm.map (fun p => p.2.1)).nodup_iff, hsnd]
    exact (gatherFragments (s :: others)).nodup.sublist (positionEntry_keys env readPosition _)
  · intro key _ hheld
    cases hheld

end Merge

/-! ## Every reachable store -/

/-- The stores that runs of messages, compactions, reorderings and merges build from empty
ones. -/
inductive Reachable (env : StoreEnv) : DialogStore → Prop
  | empty (s : DialogStore) : s.dialogs = .empty → s.dialogsOpenedByMethod = 0 →
      s.capacityDialogsEvicted = 0 → 1 ≤ s.maxDialogs → Reachable env s
  | process {s : DialogStore} (m : SipMessage) : Reachable env s →
      Reachable env (s.processMessage env m)
  | compact {s : DialogStore} (now : DateTime) : Reachable env s →
      Reachable env (s.compactIdle env now).1
  | sort {s : DialogStore} {κ : Type} [LinearOrder κ] (key : SipDialog → κ) : Reachable env s →
      Reachable env (s.sortDialogsByKey key)
  | merge {s : DialogStore} {κ : Type} [LinearOrder κ]
      (readPosition : Option FrameRef → DateTime → κ) (others : List DialogStore) :
      Reachable env s → (∀ o ∈ others, Reachable env o) →
      Reachable env (s.merge env readPosition others)

theorem Reachable.balanced {env : StoreEnv} (h : Reachable env s) : Balanced s := by
  induction h with
  | empty s hdialogs hopened hevicted hcap =>
    refine ⟨hcap, by rw [hdialogs]; exact Nat.zero_le _, ⟨?_, ?_⟩⟩
    · rw [DialogStore.totalDialogsOpened, hopened, hdialogs, hevicted]
      rfl
    · rw [hdialogs, hopened]
      exact le_refl _
  | process m _ ih => exact ih.processMessage env m
  | compact now _ ih => exact ih.compactIdle env now
  | sort key _ ih => exact ih.sortDialogsByKey key
  | merge readPosition others _ _ ih ihothers => exact ih.merge env readPosition ihothers

/-- Every reachable store is within its cap, every dialog counted as opened is held or counted as
evicted, and each method's count covers the dialogs held under it. -/
theorem reachable_store_balances (env : StoreEnv) (s : DialogStore) (h : Reachable env s) :
    s.dialogs.length ≤ s.maxDialogs ∧
      s.totalDialogsOpened = s.dialogs.length + s.capacityDialogsEvicted ∧
      ∀ method, (s.dialogs.values.filter (fun d => d.method.asStr = method)).length ≤
        s.dialogsOpenedByMethod.count method := by
  have hs := h.balanced
  refine ⟨hs.room, by simpa using hs.ledger.balance, fun method => ?_⟩
  have hcovered := hs.ledger.covered
  rw [add_zero] at hcovered
  refine le_trans (le_of_eq ?_) (Multiset.count_le_of_le method hcovered)
  rw [methodNames, Multiset.coe_count, List.count, countP_map, countP_eq_length_filter]
  rfl

/-- Two workers that opened one call each, merged under a cap of one. -/
theorem reachable_store_balances_merged :
    let worker := fun callId => DialogStore.processMessage (.plain 10)
      { maxDialogs := 1, rotate := true } (SipMessage.plainRequest callId 1 .invite "z1" "")
    let merged := DialogStore.merge (.plain 10) (fun _ timestamp => timestamp)
      { maxDialogs := 1, rotate := true } [worker "a", worker "b"]
    merged.dialogs.length ≤ merged.maxDialogs ∧
      merged.totalDialogsOpened = merged.dialogs.length + merged.capacityDialogsEvicted := by
  intro worker merged
  have hempty : Reachable (.plain 10) { maxDialogs := 1, rotate := true } :=
    .empty _ rfl rfl rfl (by decide)
  have hworkers : ∀ o ∈ [worker "a", worker "b"], Reachable (.plain 10) o := by
    intro o ho
    rcases mem_pair.mp ho with rfl | rfl <;> exact .process _ hempty
  have hmerged := reachable_store_balances (.plain 10) merged (.merge _ _ hempty hworkers)
  exact ⟨hmerged.1, hmerged.2.1⟩

end Sipnab
