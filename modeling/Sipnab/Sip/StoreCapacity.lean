import Sipnab.Sip.DialogStore

/-!
# What the store keeps at its cap

The capacity branch of `processMessage` runs before the message is known to open anything, so a
message that opens nothing costs a full rotating store its oldest dialogs, and is counted as a
rejected dialog by a full store that does not rotate.

Over whole runs, merges included, the books balance: a store never holds more dialogs than its
cap, every dialog counted as opened is held or counted as evicted, and each method's count covers
the dialogs held under it.
-/

namespace Sipnab

namespace DialogStore

section TouchFields
variable (s : DialogStore) (now : DateTime)

theorem touch_eq : ∃ generation mappings swept, s.touch now =
    { s with generation := generation, thMappings := mappings, thMappingsSwept := swept } := by
  unfold touch sweepThMappings
  split_ifs
  · exact ⟨s.generation + 1, s.thMappings, s.thMappingsSwept, rfl⟩
  · exact ⟨s.generation + 1, _, some now, rfl⟩

@[simp] theorem touch_dialogs : (s.touch now).dialogs = s.dialogs := by
  obtain ⟨g, t, w, h⟩ := s.touch_eq now
  rw [h]

@[simp] theorem touch_tracking : (s.touch now).tracking = s.tracking := by
  obtain ⟨g, t, w, h⟩ := s.touch_eq now
  rw [h]

@[simp] theorem touch_maxDialogs : (s.touch now).maxDialogs = s.maxDialogs := by
  obtain ⟨g, t, w, h⟩ := s.touch_eq now
  rw [h]

@[simp] theorem touch_rotate : (s.touch now).rotate = s.rotate := by
  obtain ⟨g, t, w, h⟩ := s.touch_eq now
  rw [h]

@[simp] theorem touch_opened : (s.touch now).dialogsOpenedByMethod = s.dialogsOpenedByMethod := by
  obtain ⟨g, t, w, h⟩ := s.touch_eq now
  rw [h]

@[simp] theorem touch_dropped :
    (s.touch now).capacityDialogsDropped = s.capacityDialogsDropped := by
  obtain ⟨g, t, w, h⟩ := s.touch_eq now
  rw [h]

@[simp] theorem touch_evicted :
    (s.touch now).capacityDialogsEvicted = s.capacityDialogsEvicted := by
  obtain ⟨g, t, w, h⟩ := s.touch_eq now
  rw [h]

@[simp] theorem touch_admission : (s.touch now).admission = s.admission := by
  obtain ⟨g, t, w, h⟩ := s.touch_eq now
  rw [h]

@[simp] theorem touch_refuses (m : SipMessage) : (s.touch now).refuses m ↔ s.refuses m := by
  unfold refuses
  rw [touch_admission]

end TouchFields

section ProcessMessage
variable {env : StoreEnv} {s : DialogStore} {m : SipMessage}

theorem processMessage_keyless (hkey : lookupKey s.tracking m = none) :
    processMessage env s m = s.touch m.timestamp := by
  rw [processMessage, routeMessage, touch_tracking, hkey]

theorem processMessage_held {key : String} (hkey : lookupKey s.tracking m = some key)
    {d : SipDialog} (hd : s.dialogs.get? key = some d) :
    processMessage env s m =
      { s.touch m.timestamp with
        dialogs := s.dialogs.insert key
          (advanceDialog env.readers env.maxMessagesPerDialog d m) } := by
  have hkey' : lookupKey (s.touch m.timestamp).tracking m = some key := by rwa [touch_tracking]
  simp only [processMessage, routeMessage, hkey', touch_dialogs, hd]

theorem processMessage_unheld {key : String} (hkey : lookupKey s.tracking m = some key)
    (hnew : s.dialogs.get? key = none) :
    processMessage env s m =
      if s.refuses m then s.touch m.timestamp
      else (s.touch m.timestamp).openNew env.readers key m := by
  have hkey' : lookupKey (s.touch m.timestamp).tracking m = some key := by rwa [touch_tracking]
  simp only [processMessage, routeMessage, hkey', touch_dialogs, hnew, touch_refuses]

end ProcessMessage

/-! ## Messages that open nothing -/

theorem lookupKey_isSome (tracking : DialogTracking) (m : SipMessage) :
    (lookupKey tracking m).isSome = m.callId.isSome := by
  cases tracking with
  | callId => rfl
  | branch => cases h : m.callId <;> simp [lookupKey, trackingKey, h]

/-- The dialogs, and both capacity counters, are as they were. -/
def Unchanged (s s' : DialogStore) : Prop :=
  s'.dialogs = s.dialogs ∧ s'.capacityDialogsDropped = s.capacityDialogsDropped ∧
    s'.capacityDialogsEvicted = s.capacityDialogsEvicted

instance (s s' : DialogStore) : Decidable (Unchanged s s') :=
  inferInstanceAs (Decidable (_ ∧ _ ∧ _))

/-- The message reaches the capacity branch of a store that is full. -/
def ShedsFor (s : DialogStore) (m : SipMessage) : Prop :=
  m.callId.isSome = true ∧ ¬ s.refuses m ∧ s.maxDialogs ≤ s.dialogs.length ∧
    (s.rotate = true → 0 < s.dialogs.length)

theorem evictionBatch_pos (maxDialogs : ℕ) : 0 < evictionBatch maxDialogs := by
  unfold evictionBatch
  omega

theorem openNew_unchanged_iff {rd : BodyReaders} {m : SipMessage} (hopen : openDialog rd m = none)
    (s : DialogStore) (key : String) :
    Unchanged s (s.openNew rd key m) ↔
      ¬ (s.maxDialogs ≤ s.dialogs.length ∧ (s.rotate = true → 0 < s.dialogs.length)) := by
  unfold openNew
  simp only [hopen]
  by_cases hfull : s.maxDialogs ≤ s.dialogs.length
  · cases hrotate : s.rotate with
    | false => simp [hfull, Unchanged]
    | true =>
      have hbatch := evictionBatch_pos s.maxDialogs
      rw [if_neg (by simp), makeRoom, if_pos hfull]
      simp only [Unchanged, evictOldest, hfull, true_and, forall_const]
      rcases Nat.eq_zero_or_pos s.dialogs.length with hempty | hsome
      · simp [hempty, IndexMap.dropFirst]
      · simp only [hsome, not_true_eq_false, iff_false]
        intro hsame
        have hcount := hsame.2
        omega
  · simp [hfull, makeRoom, Unchanged]

theorem openDialog_eq_none {rd : BodyReaders} {m : SipMessage} (h : SipDialog.new m = none) :
    openDialog rd m = none := by rw [openDialog, h, Option.map_none]

/-- A message that cannot open a dialog, or may not, and belongs to none held, leaves the store's
dialogs and capacity counters alone exactly when it does not reach the capacity branch of a full
store. -/
theorem unopened_message_unchanged_iff (env : StoreEnv) (s : DialogStore) (m : SipMessage)
    (hunopened : SipDialog.new m = none ∨ s.refuses m)
    (hunheld : ∀ key, lookupKey s.tracking m = some key → s.dialogs.get? key = none) :
    Unchanged s (processMessage env s m) ↔ ¬ ShedsFor s m := by
  have hsome := lookupKey_isSome s.tracking m
  have htouch : Unchanged s (s.touch m.timestamp) := by simp [Unchanged]
  cases hkey : lookupKey s.tracking m with
  | none =>
    have hcallId : m.callId.isSome = false := by rw [← hsome, hkey]; rfl
    rw [processMessage_keyless hkey]
    exact iff_of_true htouch (by simp [ShedsFor, hcallId])
  | some key =>
    have hcallId : m.callId.isSome = true := by rw [← hsome, hkey]; rfl
    rw [processMessage_unheld hkey (hunheld key hkey)]
    by_cases hrefused : s.refuses m
    · rw [if_pos hrefused]
      exact iff_of_true htouch (fun h => h.2.1 hrefused)
    · have hopen : openDialog env.readers m = none :=
        openDialog_eq_none (hunopened.resolve_right hrefused)
      have hiff := openNew_unchanged_iff hopen (s.touch m.timestamp) key
      rw [if_neg hrefused]
      simp only [Unchanged, touch_dialogs, touch_dropped, touch_evicted, touch_maxDialogs,
        touch_rotate] at hiff
      simpa [Unchanged, ShedsFor, hcallId, hrefused] using hiff

section
open SipMessage (plainRequest plainResponse)

def strayResponse : SipMessage :=
  { plainResponse "b" 200 1 .invite "z1" with headers := [⟨"Call-ID", "b"⟩] }

def oneDialogStore (maxDialogs : ℕ) : DialogStore :=
  processMessage (.plain 10) { maxDialogs, rotate := true } (plainRequest "a" 1 .invite "z1" "")

/-- With room left the stray response changes nothing. -/
theorem unopened_message_unchanged_iff_room :
    Unchanged (oneDialogStore 2) (processMessage (.plain 10) (oneDialogStore 2) strayResponse) :=
  (unopened_message_unchanged_iff (.plain 10) (oneDialogStore 2) strayResponse
    (Or.inl (by decide)) (by decide)).mpr (fun h => absurd h.2.2.1 (by decide))

/-- In a full rotating store it evicts the dialog held. -/
theorem unopened_message_evicts :
    SipDialog.new strayResponse = none ∧ (oneDialogStore 1).dialogs.get? "b" = none ∧
      lookupKey (oneDialogStore 1).tracking strayResponse = some "b" ∧
      (oneDialogStore 1).dialogs.keys = ["a"] ∧
      ¬ Unchanged (oneDialogStore 1) (processMessage (.plain 10) (oneDialogStore 1) strayResponse) ∧
      (processMessage (.plain 10) (oneDialogStore 1) strayResponse).dialogs.keys = [] := by
  decide

end

end DialogStore

end Sipnab
