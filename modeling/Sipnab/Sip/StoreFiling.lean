import Sipnab.Sip.StoreReplay

/-!
# Dialogs are found under their Call-IDs

A store that tracks by Call-ID files a dialog under its Call-ID, one that tracks by branch under
the Call-ID, a line feed and the branch. A Call-ID read from a header is one line, so the key tells
it, and looking a held Call-ID up finds a dialog of that Call-ID.
-/

namespace Sipnab

open List Option DialogStore

open DialogStore (lookupKey)

def Names (tracking : DialogTracking) (key callId : String) : Prop :=
  key = callId ∨ tracking = .branch ∧ ∃ branch, key = callId ++ "\n" ++ branch

def OneLine (callId : String) : Prop := '\n' ∉ callId.toList

variable {tracking : DialogTracking} {key : String} {m : SipMessage} {s : DialogStore}
  (env : StoreEnv)

theorem takeWhile_toList_of_names {callId : String} (h : Names tracking key callId)
    (hline : OneLine callId) : key.toList.takeWhile (· ≠ '\n') = callId.toList := by
  have hall : ∀ c ∈ callId.toList, decide (c ≠ '\n') = true := by
    intro c hc
    rw [decide_eq_true_eq]
    intro hfeed
    exact hline (hfeed ▸ hc)
  rcases h with rfl | ⟨-, branch, rfl⟩
  · rw [takeWhile_eq_self_iff]
    exact hall
  · rw [String.toList_append, String.toList_append, append_assoc, takeWhile_append_of_pos hall]
    exact append_nil _

theorem Names.callId_eq {a b : String} (ha : Names tracking key a) (hb : Names tracking key b)
    (hlinea : OneLine a) (hlineb : OneLine b) : a = b := by
  have htake := (takeWhile_toList_of_names ha hlinea).symm.trans
    (takeWhile_toList_of_names hb hlineb)
  exact String.toList_inj.mp htake

theorem names_of_lookupKey (h : lookupKey tracking m = some key) :
    ∃ callId, m.callId = some callId ∧ Names tracking key callId := by
  cases hcallId : m.callId with
  | none =>
    have hsome := lookupKey_isSome tracking m
    rw [h, hcallId] at hsome
    cases hsome
  | some callId =>
    refine ⟨callId, rfl, ?_⟩
    cases tracking with
    | callId =>
      rw [lookupKey, hcallId] at h
      exact Or.inl (some.inj h).symm
    | branch =>
      rw [lookupKey, DialogStore.trackingKey, hcallId, map_some, some_or] at h
      have hkey := some.inj h
      cases hbranch : m.topViaBranch with
      | none =>
        rw [hbranch] at hkey
        exact Or.inl hkey.symm
      | some branch =>
        rw [hbranch] at hkey
        dsimp only at hkey
        split_ifs at hkey
        · exact Or.inl hkey.symm
        · exact Or.inr ⟨rfl, branch, hkey.symm⟩

/-! ## What a dialog keeps -/

theorem takeMessage_callId (rd : BodyReaders) (d : SipDialog) (m : SipMessage) :
    (takeMessage rd d m).callId = d.callId := by
  simp only [takeMessage, applyMessageDerived, updateState]
  split_ifs <;> rfl

theorem advanceDialog_callId (rd : BodyReaders) (cap : ℕ) (d : SipDialog) (m : SipMessage) :
    (advanceDialog rd cap d m).callId = d.callId := by
  rw [advanceDialog]
  split_ifs
  · rfl
  · exact takeMessage_callId rd _ m

theorem openDialog_callId {rd : BodyReaders} {d : SipDialog} (h : openDialog rd m = some d) :
    m.callId = some d.callId := by
  obtain ⟨d₀, hnew, rfl⟩ := map_eq_some_iff.mp h
  rw [SipDialog.new] at hnew
  obtain ⟨callId, hcallId, hnew⟩ := bind_eq_some_iff.mp hnew
  obtain ⟨method, -, hd⟩ := bind_eq_some_iff.mp hnew
  rw [takeMessage_callId, ← some.inj hd, hcallId]

theorem dialogOf_callId {rd : BodyReaders} {cap : ℕ} {ms : List SipMessage} {d : SipDialog}
    (h : dialogOf rd cap (m :: ms) = some d) : m.callId = some d.callId := by
  obtain ⟨d₀, hopen, rfl⟩ := map_eq_some_iff.mp h
  rw [openDialog_callId hopen]
  congr 1
  clear hopen h
  induction ms generalizing d₀ with
  | nil => rfl
  | cons m' ms ih => rw [foldl_cons, ← ih, advanceDialog_callId]

theorem forall_callId_of_unmarked {xs ys : List SipMessage} {callId : String}
    (h : xs.map SipMessage.unmarked = ys.map SipMessage.unmarked)
    (hys : ∀ m ∈ ys, m.callId = some callId) : ∀ m ∈ xs, m.callId = some callId := by
  intro m hm
  have hmem := List.mem_map_of_mem (f := SipMessage.unmarked) hm
  rw [h] at hmem
  obtain ⟨m', hm', heq⟩ := List.mem_map.mp hmem
  have hcallId : m.unmarked.callId = m'.unmarked.callId := by rw [heq]
  exact hcallId.trans (hys m' hm')

/-! ## Filed dialogs -/

/-- A dialog is under a key that names its Call-ID, one line, and holds messages of it alone. -/
structure FiledUnder (tracking : DialogTracking) (key : String) (d : SipDialog) : Prop where
  names : Names tracking key d.callId
  oneLine : OneLine d.callId
  messages : ∀ m ∈ d.messages, m.callId = some d.callId

section Filed
variable {tracking : DialogTracking} {key : String} {d : SipDialog}

theorem FiledUnder.congr (h : FiledUnder tracking key d) {d' : SipDialog}
    (hcallId : d'.callId = d.callId) (hmessages : d'.messages ⊆ d.messages) :
    FiledUnder tracking key d' := by
  constructor
  case names => exact hcallId ▸ h.names
  case oneLine => exact hcallId ▸ h.oneLine
  case messages =>
    intro m hm
    rw [hcallId]
    exact h.messages m (hmessages hm)

theorem FiledUnder.opened {rd : BodyReaders} {m : SipMessage}
    (hkey : lookupKey tracking m = some key) (hline : ∀ callId ∈ m.callId, OneLine callId)
    (hopen : openDialog rd m = some d) : FiledUnder tracking key d := by
  have hcallId := openDialog_callId hopen
  obtain ⟨callId, hm, hnames⟩ := names_of_lookupKey hkey
  rw [hcallId] at hm
  obtain rfl := some.inj hm
  obtain ⟨-, -, -, hmessages⟩ := tracks_openDialog hopen
  refine ⟨hnames, hline _ hcallId, ?_⟩
  intro m' hm'
  rw [hmessages, mem_singleton] at hm'
  rw [hm', hcallId]

theorem FiledUnder.advanced (h : FiledUnder tracking key d) (rd : BodyReaders) (cap : ℕ)
    {m : SipMessage} (hkey : lookupKey tracking m = some key)
    (hline : ∀ callId ∈ m.callId, OneLine callId) :
    FiledUnder tracking key (advanceDialog rd cap d m) := by
  obtain ⟨callId, hm, hnames⟩ := names_of_lookupKey hkey
  have hsame : callId = d.callId := hnames.callId_eq h.names (hline _ hm) h.oneLine
  constructor
  case names =>
    rw [advanceDialog_callId]
    exact h.names
  case oneLine =>
    rw [advanceDialog_callId]
    exact h.oneLine
  case messages =>
    rw [advanceDialog_callId]
    apply forall_callId_of_unmarked (advanceDialog_messages rd cap d m)
    intro m' hm'
    rcases mem_append.mp hm' with hm' | hm'
    · exact h.messages m' hm'
    · rw [mem_singleton.mp (mem_of_mem_take hm'), hm, hsame]

theorem retainAt_subset {α : Type*} (i : ℕ) (keep : List ℕ) (xs : List α) :
    DialogStore.retainAt i keep xs ⊆ xs := by
  induction xs generalizing i keep with
  | nil => cases keep <;> exact List.Subset.refl _
  | cons x xs ih =>
    cases keep with
    | nil => exact subset_cons_of_subset x (ih _ _)
    | cons k ks =>
      rw [DialogStore.retainAt]
      split_ifs
      · exact cons_subset_cons x (ih _ _)
      · exact subset_cons_of_subset x (ih _ _)

theorem FiledUnder.compacted (h : FiledUnder tracking key d) (env : StoreEnv) (now : DateTime) :
    FiledUnder tracking key (DialogStore.compactDialog env now d) := by
  rw [DialogStore.compactDialog]
  split_ifs
  · exact h
  · cases DialogStore.retainedIndices d.messages d.method env.keepMessagesPerIdleDialog with
    | none => exact h
    | some keep => exact h.congr rfl (retainAt_subset 0 keep _)

end Filed

theorem UnkeptTail.foldAll_fields (tails : List UnkeptTail) (d : SipDialog) :
    (UnkeptTail.foldAll env tails d).callId = d.callId ∧
      (UnkeptTail.foldAll env tails d).messages = d.messages := by
  have hfold : (tails.foldl (UnkeptTail.fold env) d).callId = d.callId ∧
      (tails.foldl (UnkeptTail.fold env) d).messages = d.messages := by
    induction tails generalizing d with
    | nil => exact ⟨rfl, rfl⟩
    | cons tail tails ih => exact ih (UnkeptTail.fold env d tail)
  rw [UnkeptTail.foldAll]
  split_ifs
  · exact ⟨rfl, rfl⟩
  · exact hfold

section Merge
variable {κ : Type*} [LinearOrder κ] {readPosition : Option FrameRef → DateTime → κ}
  {env : StoreEnv} {tracking : DialogTracking} {key : String} {parts : List SipDialog}
  {d : SipDialog}

section

variable (hparts : ∀ part ∈ parts, FiledUnder tracking key part)
include hparts

theorem FiledUnder.replayed
    (h : dialogOf env.readers env.maxMessagesPerDialog (inReadOrder readPosition parts) = some d) :
    FiledUnder tracking key d := by
  have hmem : ∀ m ∈ inReadOrder readPosition parts, ∃ part ∈ parts, m.callId = some part.callId := by
    intro m hm
    obtain ⟨ms, hms, hm⟩ := mem_flatten.mp ((inReadOrder_perm parts).mem_iff.mp hm)
    obtain ⟨part, hpart, rfl⟩ := List.mem_map.mp hms
    exact ⟨part, hpart, (hparts part hpart).messages m hm⟩
  cases hms : inReadOrder readPosition parts with
  | nil =>
    rw [hms] at h
    cases h
  | cons m ms =>
    rw [hms] at h hmem
    obtain ⟨part, hpart, hm⟩ := hmem m mem_cons_self
    rw [dialogOf_callId h] at hm
    have hcallId : d.callId = part.callId := some.inj hm
    have hpart := hparts part hpart
    refine ⟨hcallId ▸ hpart.names, hcallId ▸ hpart.oneLine, ?_⟩
    apply forall_callId_of_unmarked (dialogOf_messages h)
    intro m' hm'
    obtain ⟨part', hpart', hm'⟩ := hmem m' (mem_of_mem_take hm')
    have hpart' := hparts part' hpart'
    rw [hm', hcallId, hpart'.names.callId_eq hpart.names hpart'.oneLine hpart.oneLine]

theorem FiledUnder.rebuilt (h : rebuildInReadOrder env readPosition parts = some d) :
    FiledUnder tracking key d := by
  rw [rebuildInReadOrder] at h
  cases hof : dialogOf env.readers env.maxMessagesPerDialog (inReadOrder readPosition parts) with
  | none =>
    rw [hof] at h
    obtain ⟨part, hpart, rfl⟩ := map_eq_some_iff.mp h
    exact (hparts part (mem_of_mem_head? hpart)).congr rfl (nil_subset _)
  | some d₀ =>
    rw [hof] at h
    obtain ⟨hcallId, hmessages⟩ := UnkeptTail.foldAll_fields env
      ((parts.filter (fun f => env.maxMessagesPerDialog ≤ f.messages.length)).map
        UnkeptTail.ofDialog) d₀
    rw [← some.inj h]
    exact (FiledUnder.replayed hparts hof).congr hcallId (hmessages ▸ List.Subset.refl _)

theorem FiledUnder.joined (h : joinedDialog env readPosition parts = some d) :
    FiledUnder tracking key d := by
  match parts, h, hparts with
  | [], h, hparts => exact .rebuilt hparts h
  | [part], h, hparts =>
    rw [← some.inj h]
    exact hparts part mem_cons_self
  | _ :: _ :: _, h, hparts => exact .rebuilt hparts h

end

end Merge

/-! ## Filed stores -/

def WellFiled (s : DialogStore) : Prop :=
  ∀ e ∈ s.dialogs.entries, FiledUnder s.tracking e.1 e.2

section Store
variable {s : DialogStore}

variable {key : String} {κ : Type*}

theorem WellFiled.get (h : WellFiled s) {d : SipDialog} (hd : s.dialogs.get? key = some d) :
    FiledUnder s.tracking key d :=
  h (key, d) (IndexMap.get?_eq_some_iff.mp hd)

theorem WellFiled.insert (h : WellFiled s) {d : SipDialog} (hd : FiledUnder s.tracking key d)
    {s' : DialogStore} (htracking : s'.tracking = s.tracking)
    (hdialogs : s'.dialogs = s.dialogs.insert key d) : WellFiled s' := by
  intro e he
  have hget := IndexMap.get?_eq_some_iff.mpr he
  rw [hdialogs, IndexMap.insert, IndexMap.get?_alter] at hget
  rw [htracking]
  split_ifs at hget with hkey
  · rw [← some.inj hget, hkey]
    exact hd
  · exact h.get hget

theorem WellFiled.subset (h : WellFiled s) {s' : DialogStore} (htracking : s'.tracking = s.tracking)
    (hentries : s'.dialogs.entries ⊆ s.dialogs.entries) : WellFiled s' := by
  intro e he
  rw [htracking]
  exact h e (hentries he)

theorem WellFiled.makeRoom (h : WellFiled s) : WellFiled s.makeRoom := by
  rw [DialogStore.makeRoom]
  split_ifs
  · exact h.subset rfl (drop_sublist _ _).subset
  · exact h

theorem tracking_makeRoom (s : DialogStore) : s.makeRoom.tracking = s.tracking := by
  rw [DialogStore.makeRoom]
  split_ifs <;> rfl

theorem WellFiled.openNew (h : WellFiled s) (rd : BodyReaders) {m : SipMessage}
    (hkey : lookupKey s.tracking m = some key) (hline : ∀ callId ∈ m.callId, OneLine callId) :
    WellFiled (s.openNew rd key m) := by
  rw [DialogStore.openNew]
  split_ifs
  · exact h
  · dsimp only
    cases hopen : openDialog rd m with
    | none => exact h.makeRoom
    | some d =>
      refine h.makeRoom.insert ?_ rfl rfl
      rw [tracking_makeRoom]
      exact .opened hkey hline hopen

theorem WellFiled.processMessage (h : WellFiled s) (env : StoreEnv) {m : SipMessage}
    (hline : ∀ callId ∈ m.callId, OneLine callId) : WellFiled (s.processMessage env m) := by
  have htouch : WellFiled (s.touch m.timestamp) := by
    apply h.subset (touch_tracking s m.timestamp)
    rw [touch_dialogs]
    exact List.Subset.refl _
  cases hkey : lookupKey s.tracking m with
  | none =>
    rw [processMessage_keyless hkey]
    exact htouch
  | some key =>
    cases hd : s.dialogs.get? key with
    | some d =>
      rw [processMessage_held hkey hd]
      exact h.insert ((h.get hd).advanced _ _ hkey hline) (touch_tracking s m.timestamp) rfl
    | none =>
      rw [processMessage_unheld hkey hd]
      split_ifs
      · exact htouch
      · apply htouch.openNew env.readers _ hline
        rw [touch_tracking]
        exact hkey

theorem WellFiled.compactIdle (h : WellFiled s) (env : StoreEnv) (now : DateTime) :
    WellFiled (s.compactIdle env now).1 := by
  intro e he
  obtain ⟨e', he', rfl⟩ := List.mem_map.mp he
  exact (h e' he').compacted env now

theorem WellFiled.sortDialogsByKey [LinearOrder κ] (h : WellFiled s) (key : SipDialog → κ) :
    WellFiled (s.sortDialogsByKey key) :=
  h.subset rfl (mergeSort_perm _ _).subset

theorem WellFiled.admitMerged {κ : Type*} (h : WellFiled s) {p : Positioned κ}
    (hp : FiledUnder s.tracking p.2.1 p.2.2) : WellFiled (admitMerged s p) := by
  obtain ⟨position, key, d⟩ := p
  rw [Sipnab.admitMerged]
  dsimp only
  split_ifs
  · exact h
  · refine h.makeRoom.insert ?_ rfl rfl
    rw [tracking_makeRoom]
    exact hp

theorem tracking_admitMerged (s : DialogStore) (p : Positioned κ) :
    (admitMerged s p).tracking = s.tracking := by
  obtain ⟨position, key, d⟩ := p
  rw [admitMerged]
  dsimp only
  split_ifs
  · rfl
  · exact tracking_makeRoom s

theorem WellFiled.foldl_admitMerged (ps : List (Positioned κ)) {s : DialogStore} (h : WellFiled s)
    (hps : ∀ p ∈ ps, FiledUnder s.tracking p.2.1 p.2.2) :
    WellFiled (ps.foldl Sipnab.admitMerged s) := by
  induction ps generalizing s with
  | nil => exact h
  | cons p ps ih =>
    rw [forall_mem_cons] at hps
    apply ih (h.admitMerged hps.1)
    rw [tracking_admitMerged]
    exact hps.2

theorem WellFiled.merge [LinearOrder κ] (h : WellFiled s) (env : StoreEnv)
    (readPosition : Option FrameRef → DateTime → κ) {others : List DialogStore}
    (hothers : ∀ o ∈ others, WellFiled o ∧ o.tracking = s.tracking) :
    WellFiled (s.merge env readPosition others) := by
  obtain ⟨opened, hmerge⟩ := merge_eq env readPosition s others
  rw [hmerge]
  apply WellFiled.foldl_admitMerged
  · intro e he
    exact absurd he not_mem_nil
  · intro p hp
    rw [mem_mergeSort, mem_positioned_iff] at hp
    apply FiledUnder.joined _ hp.1
    intro part hpart
    obtain ⟨o, ho, hheld⟩ := mem_filterMap.mp hpart
    rcases mem_cons.mp ho with rfl | ho
    · exact h.get hheld
    · have hfiled := (hothers o ho).1.get hheld
      rw [(hothers o ho).2] at hfiled
      exact hfiled

end Store

/-- The stores of one tracking mode that messages, compactions, reorderings, merges and changes to
anything but the dialogs build from empty ones. -/
inductive Grown (env : StoreEnv) (tracking : DialogTracking) : DialogStore → Prop
  | empty (s : DialogStore) : s.dialogs = .empty → s.tracking = tracking → Grown env tracking s
  | process {s : DialogStore} (m : SipMessage) : Grown env tracking s →
      (∀ callId ∈ m.callId, OneLine callId) → Grown env tracking (s.processMessage env m)
  | compact {s : DialogStore} (now : DateTime) : Grown env tracking s →
      Grown env tracking (s.compactIdle env now).1
  | sort {s : DialogStore} {κ : Type} [LinearOrder κ] (key : SipDialog → κ) :
      Grown env tracking s → Grown env tracking (s.sortDialogsByKey key)
  | merge {s : DialogStore} {κ : Type} [LinearOrder κ]
      (readPosition : Option FrameRef → DateTime → κ) (others : List DialogStore) :
      Grown env tracking s → (∀ o ∈ others, Grown env tracking o) →
      Grown env tracking (s.merge env readPosition others)
  | settings {s s' : DialogStore} : Grown env tracking s → s'.dialogs = s.dialogs →
      s'.tracking = s.tracking → Grown env tracking s'

theorem Grown.feed {env : StoreEnv} (h : Grown env tracking s) (ms : List SipMessage)
    (hline : ∀ m ∈ ms, ∀ callId ∈ m.callId, OneLine callId) :
    Grown env tracking (DialogStore.feed env s ms) := by
  induction ms generalizing s with
  | nil => exact h
  | cons m ms ih =>
    rw [forall_mem_cons] at hline
    exact ih (h.process m hline.1) hline.2

theorem tracking_processMessage (s : DialogStore) (m : SipMessage) :
    (s.processMessage env m).tracking = s.tracking := by
  cases hkey : lookupKey s.tracking m with
  | none => rw [processMessage_keyless hkey, touch_tracking]
  | some key =>
    cases hd : s.dialogs.get? key with
    | some d =>
      rw [processMessage_held hkey hd]
      exact touch_tracking s m.timestamp
    | none =>
      rw [processMessage_unheld hkey hd]
      split_ifs
      · exact touch_tracking s m.timestamp
      · rw [DialogStore.openNew]
        split_ifs
        · exact touch_tracking s m.timestamp
        · have hroom := (tracking_makeRoom (s.touch m.timestamp)).trans
            (touch_tracking s m.timestamp)
          cases openDialog env.readers m with
          | none => exact hroom
          | some d => exact hroom

theorem tracking_merge {κ : Type*} [LinearOrder κ] (readPosition : Option FrameRef → DateTime → κ)
    (s : DialogStore) (others : List DialogStore) :
    (s.merge env readPosition others).tracking = s.tracking := by
  obtain ⟨opened, hmerge⟩ := merge_eq env readPosition s others
  rw [hmerge]
  have hfold : ∀ (ps : List (Positioned κ)) (s : DialogStore),
      (ps.foldl admitMerged s).tracking = s.tracking := by
    intro ps
    induction ps with
    | nil => intro s; rfl
    | cons p ps ih =>
      intro s
      rw [foldl_cons, ih, tracking_admitMerged]
  rw [hfold]
  rfl

theorem Grown.wellFiled {env : StoreEnv} (h : Grown env tracking s) :
    WellFiled s ∧ s.tracking = tracking := by
  induction h with
  | empty s hdialogs htracking =>
    refine ⟨?_, htracking⟩
    intro e he
    rw [hdialogs] at he
    exact absurd he not_mem_nil
  | process m _ hline ih => exact ⟨ih.1.processMessage env hline, by rw [tracking_processMessage, ih.2]⟩
  | compact now _ ih => exact ⟨ih.1.compactIdle env now, ih.2⟩
  | sort key _ ih => exact ⟨ih.1.sortDialogsByKey key, ih.2⟩
  | merge readPosition others _ _ ih ihothers =>
    refine ⟨ih.1.merge env readPosition ?_, by rw [tracking_merge, ih.2]⟩
    intro o ho
    exact ⟨(ihothers o ho).1, (ihothers o ho).2.trans ih.2.symm⟩
  | settings _ hdialogs htracking ih =>
    exact ⟨ih.1.subset htracking (by rw [hdialogs]; exact List.Subset.refl _), htracking.trans ih.2⟩

/-! ## Looking a Call-ID up -/

theorem isPrefixOf_lineFeed {x : String} (h : (x ++ "\n").toList.isPrefixOf key.toList = true) :
    ∃ rest, key = x ++ "\n" ++ rest := by
  obtain ⟨rest, hrest⟩ := isPrefixOf_iff_prefix.mp h
  refine ⟨String.ofList rest, ?_⟩
  rw [← String.toList_inj, String.toList_append, String.toList_ofList, hrest]

theorem WellFiled.get_callId (h : WellFiled s) {held : SipDialog}
    (hheld : held ∈ s.dialogs.values) :
    ∃ d, s.get held.callId = some d ∧ d.callId = held.callId := by
  obtain ⟨⟨key, d₀⟩, he, rfl⟩ := List.mem_map.mp hheld
  have hfiled := h _ he
  dsimp only at hfiled ⊢
  rw [DialogStore.get]
  cases hget : s.dialogs.get? d₀.callId with
  | some d =>
    have hd := h.get hget
    exact ⟨d, rfl, hd.names.callId_eq (Or.inl rfl) hd.oneLine hfiled.oneLine⟩
  | none =>
    rcases hfiled.names with hkey | ⟨hbranch, branch, hkey⟩
    · rw [← hkey, IndexMap.get?_eq_some_iff.mpr he] at hget
      cases hget
    · rw [none_or, if_pos hbranch]
      have hisPrefix : (d₀.callId ++ "\n").toList.isPrefixOf key.toList = true := by
        rw [ isPrefixOf_iff_prefix, hkey]
        exact ⟨branch.toList, String.toList_append.symm⟩
      cases hfind : s.dialogs.entries.find?
          (fun e => (d₀.callId ++ "\n").toList.isPrefixOf e.1.toList) with
      | none => exact absurd hisPrefix (List.find?_eq_none.mp hfind _ he)
      | some e =>
        have hmatch := List.find?_some hfind
        obtain ⟨rest, hrest⟩ := isPrefixOf_lineFeed hmatch
        have hd := h e (mem_of_find?_eq_some hfind)
        exact ⟨e.2, rfl, hd.names.callId_eq (Or.inr ⟨hbranch, rest, hrest⟩) hd.oneLine
          hfiled.oneLine⟩

end Sipnab
