import Sipnab.Sip.StoreReplay

/-!
# Dialogs that a full store turns away

A store that does not rotate keeps its first dialogs and turns new ones away. It forgets them, so
that it counts each message of such a dialog, also the second one: the counter is the number of
dialogs turned away exactly when none of them comes twice.
-/

namespace Sipnab.DialogStore

def turnedAwayKey (s : DialogStore) (m : SipMessage) : Option String :=
  (lookupKey s.tracking m).filter (fun key =>
    (s.dialogs.get? key).isNone && decide (¬ s.refuses m) && s.maxDialogs ≤ s.dialogs.length)

/-- The keys of the messages that are turned away in a run, in order. -/
def turnedAway (env : StoreEnv) : DialogStore → List SipMessage → List String
  | _, [] => []
  | s, m :: ms => (s.turnedAwayKey m).toList ++ turnedAway env (processMessage env s m) ms

variable {env : StoreEnv} {s : DialogStore} {m : SipMessage}

theorem turnedAwayKey_of_unheld {key : String} (hkey : lookupKey s.tracking m = some key)
    (hnew : s.dialogs.get? key = none) (hrefused : ¬ s.refuses m) :
    s.turnedAwayKey m = if s.maxDialogs ≤ s.dialogs.length then some key else none := by
  rw [turnedAwayKey, hkey, Option.filter_some, hnew]
  simp [hrefused]

/-- One message through a store that does not rotate: the counter goes up when it is turned away. -/
theorem dropped_processMessage (env : StoreEnv) (hrotate : s.rotate = false) (m : SipMessage) :
    (processMessage env s m).rotate = false ∧
      (processMessage env s m).capacityDialogsDropped
        = s.capacityDialogsDropped + (s.turnedAwayKey m).toList.length := by
  cases hkey : lookupKey s.tracking m with
  | none =>
    rw [processMessage_keyless hkey, turnedAwayKey, hkey]
    exact ⟨by rw [touch_rotate, hrotate], by rw [touch_dropped]; rfl⟩
  | some key =>
    cases hget : s.dialogs.get? key with
    | some d =>
      rw [processMessage_held hkey hget, turnedAwayKey, hkey, Option.filter_some, hget]
      exact ⟨(touch_rotate s _).trans hrotate, touch_dropped s _⟩
    | none =>
      rw [processMessage_unheld hkey hget]
      by_cases hrefused : s.refuses m
      · rw [if_pos hrefused, turnedAwayKey, hkey, Option.filter_some]
        simp [hrefused, hrotate]
      · rw [if_neg hrefused, turnedAwayKey_of_unheld hkey hget hrefused, openNew, touch_maxDialogs,
          touch_dialogs, touch_rotate]
        by_cases hfull : s.maxDialogs ≤ s.dialogs.length
        · rw [if_pos ⟨hfull, hrotate⟩, if_pos hfull]
          exact ⟨hrotate, congrArg (· + 1) (touch_dropped s _)⟩
        · have hroom : (s.touch m.timestamp).makeRoom = s.touch m.timestamp := by
            rw [makeRoom, touch_maxDialogs, touch_dialogs, if_neg hfull]
          rw [if_neg (fun h => hfull h.1), if_neg hfull, hroom]
          cases openDialog env.readers m with
          | none => exact ⟨(touch_rotate s _).trans hrotate, touch_dropped s _⟩
          | some d => exact ⟨(touch_rotate s _).trans hrotate, touch_dropped s _⟩

/-- A run through a store that does not rotate: the counter goes up by the messages turned away. -/
theorem dropped_feed (ms : List SipMessage) (hrotate : s.rotate = false) :
    (s.feed env ms).capacityDialogsDropped
      = s.capacityDialogsDropped + (turnedAway env s ms).length := by
  induction ms generalizing s with
  | nil => rfl
  | cons m ms ih =>
    obtain ⟨hrotate', hdropped⟩ := dropped_processMessage env hrotate m
    rw [feed, List.foldl_cons, ← feed, ih hrotate', hdropped, turnedAway, List.length_append]
    omega

/-- Through a store that does not rotate, the counter goes up by the number of dialogs turned away
exactly when no dialog is turned away twice. -/
theorem dropped_counts_dialogs_iff (env : StoreEnv) (s : DialogStore) (ms : List SipMessage)
    (hrotate : s.rotate = false) :
    (s.feed env ms).capacityDialogsDropped
        = s.capacityDialogsDropped + (turnedAway env s ms).toFinset.card
      ↔ (turnedAway env s ms).Nodup := by
  have hcard : (turnedAway env s ms).toFinset.card = (turnedAway env s ms).length
      ↔ (turnedAway env s ms).Nodup := Multiset.toFinset_card_eq_card_iff_nodup
  rw [dropped_feed ms hrotate, Nat.add_left_cancel_iff, eq_comm]
  exact hcard

section
open SipMessage (plainRequest)

def keepsFirst : DialogStore :=
  processMessage (.plain 10) { maxDialogs := 1, rotate := false }
    (plainRequest "a" 1 .invite "z1" "")

/-- Two dialogs with a message each. -/
theorem dropped_counts_two_dialogs :
    (keepsFirst.feed (.plain 10)
        [plainRequest "b" 1 .invite "z2" "", plainRequest "c" 1 .invite "z3" ""]).capacityDialogsDropped
      = 0 + (turnedAway (.plain 10) keepsFirst
        [plainRequest "b" 1 .invite "z2" "", plainRequest "c" 1 .invite "z3" ""]).toFinset.card :=
  (dropped_counts_dialogs_iff (.plain 10) keepsFirst _ (by decide)).mpr (by decide)

/-- One dialog with two messages is counted twice. -/
theorem dropped_counts_dialog_twice :
    keepsFirst.rotate = false ∧ keepsFirst.maxDialogs ≤ keepsFirst.dialogs.length ∧
    keepsFirst.capacityDialogsDropped = 0 ∧
    (turnedAway (.plain 10) keepsFirst
      [plainRequest "b" 1 .invite "z2" "", plainRequest "b" 1 .ack "z3" ""]).toFinset.card = 1 ∧
    (keepsFirst.feed (.plain 10)
      [plainRequest "b" 1 .invite "z2" "", plainRequest "b" 1 .ack "z3" ""]).capacityDialogsDropped
      = 2 := by
  decide

end

end Sipnab.DialogStore
