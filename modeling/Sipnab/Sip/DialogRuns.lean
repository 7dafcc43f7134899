import Sipnab.Sip.CallSignals

/-!
# Runs of one dialog

A dialog is the result of its messages in the order they were processed, and only the first
sighting of each message counts. `Tracks` says so: the state is the transition table folded over
the first sightings, and the timing milestones of an INVITE dialog are functions of them.
-/

namespace Sipnab

open List Option

/-- The dialog a sequence of messages builds: the first opens it, the rest are folded in. -/
def dialogOf (rd : BodyReaders) (cap : ℕ) : List SipMessage → Option SipDialog
  | [] => none
  | m :: ms => (openDialog rd m).map (fun d => ms.foldl (advanceDialog rd cap) d)

/-- The messages of `ms` that are no retransmission, given the identities already seen. -/
def freshFrom (seen : Finset String) : List SipMessage → List SipMessage
  | [] => []
  | m :: ms =>
    if isSeen seen m then freshFrom seen ms else m :: freshFrom (remember seen m) ms

/-- The messages of a run that are no retransmission of an earlier one. -/
def firstSightings : List SipMessage → List SipMessage
  | [] => []
  | m :: ms => m :: freshFrom m.seenCseqKey.toFinset ms

/-- The number the timing recorder is pinned to: that of the first untagged INVITE. -/
def pinnedNumber (ms : List SipMessage) : Option ℕ :=
  (ms.find? (fun m => decide m.OpensCall)).bind SipMessage.cseqNumber

/-- Some `200` to an INVITE came while no number was pinned, or carries the pinned number. -/
def AnswerRecorded (ms : List SipMessage) : Prop :=
  ∃ (pre : List SipMessage) (ok : SipMessage), pre ++ [ok] <+: ms ∧ ok.IsInviteOk ∧
    (pinnedNumber pre = none ∨ ok.cseqNumber = pinnedNumber pre)

variable {rd : BodyReaders} (ms : List SipMessage)

theorem pinnedNumber_concat (m : SipMessage) :
    pinnedNumber (ms ++ [m]) =
      if (∀ x ∈ ms, ¬ x.OpensCall) ∧ m.OpensCall then m.cseqNumber else pinnedNumber ms := by
  unfold pinnedNumber
  rw [List.find?_append]
  cases hfind : ms.find? (fun m => decide m.OpensCall) with
  | some first =>
    have hmem := mem_of_find?_eq_some hfind
    have hopens : first.OpensCall := by simpa using List.find?_some hfind
    rw [if_neg (fun h => h.1 first hmem hopens)]
    rfl
  | none =>
    have hnone : ∀ x ∈ ms, ¬ x.OpensCall := by simpa using hfind
    by_cases hm : m.OpensCall
    · rw [if_pos ⟨hnone, hm⟩]
      simp [hm]
    · rw [if_neg (fun h => hm h.2)]
      simp [hm]

theorem answerRecorded_concat (m : SipMessage) :
    AnswerRecorded (ms ++ [m]) ↔ AnswerRecorded ms ∨
      m.IsInviteOk ∧ (pinnedNumber ms = none ∨ m.cseqNumber = pinnedNumber ms) := by
  constructor
  · rintro ⟨pre, ok, hpre, hok, hnum⟩
    rcases prefix_concat_iff.mp hpre with heq | hpre
    · obtain ⟨rfl, hsame⟩ := append_inj' heq rfl
      obtain rfl : ok = m := by simpa using hsame
      exact Or.inr ⟨hok, hnum⟩
    · exact Or.inl ⟨pre, ok, hpre, hok, hnum⟩
  · rintro (⟨pre, ok, hpre, hok, hnum⟩ | ⟨hok, hnum⟩)
    · exact ⟨pre, ok, hpre.trans (prefix_append ms [m]), hok, hnum⟩
    · exact ⟨ms, m, prefix_rfl, hok, hnum⟩

theorem foldl_updateState (d : SipDialog) (ms : List SipMessage) :
    (ms.foldl updateState d).state = ms.foldl (advanceState d.method) d.state := by
  induction ms generalizing d with
  | nil => rfl
  | cons m ms ih => exact ih (updateState d m)

/-- The dialog holds what the first sightings `ms` make of it. -/
structure Tracks (d : SipDialog) (ms : List SipMessage) : Prop where
  state : d.state = ms.foldl (advanceState d.method) (initialState d.method)
  sent : d.method = .invite → (d.timing.inviteSent = none ↔ ∀ m ∈ ms, ¬ m.OpensCall)
  pinned : d.method = .invite → d.timing.inviteCseq = pinnedNumber ms
  answered : d.method = .invite → (d.timing.answeredAt.isSome = true ↔ AnswerRecorded ms)

section TakeMessage
variable (rd : BodyReaders) (d : SipDialog) (m : SipMessage)

@[simp] theorem applyMessageDerived_state : (applyMessageDerived rd d m).state = d.state := by
  unfold applyMessageDerived
  split_ifs <;> rfl

@[simp] theorem applyMessageDerived_method : (applyMessageDerived rd d m).method = d.method := by
  unfold applyMessageDerived
  split_ifs <;> rfl

@[simp] theorem applyMessageDerived_timing : (applyMessageDerived rd d m).timing = d.timing := by
  unfold applyMessageDerived
  split_ifs <;> rfl

@[simp] theorem applyMessageDerived_seenCseq :
    (applyMessageDerived rd d m).seenCseq = d.seenCseq := by
  unfold applyMessageDerived
  split_ifs <;> rfl

@[simp] theorem applyMessageDerived_messages :
    (applyMessageDerived rd d m).messages = d.messages := by
  unfold applyMessageDerived
  split_ifs <;> rfl

@[simp] theorem takeMessage_state :
    (takeMessage rd d m).state = advanceState d.method d.state m := by
  simp [takeMessage, updateState]

@[simp] theorem takeMessage_method : (takeMessage rd d m).method = d.method := by
  simp [takeMessage, updateState]

@[simp] theorem takeMessage_timing :
    (takeMessage rd d m).timing = updateTiming d.timing m d.method := by
  simp [takeMessage, updateState]

@[simp] theorem takeMessage_seenCseq : (takeMessage rd d m).seenCseq = d.seenCseq := by
  simp [takeMessage, updateState]

@[simp] theorem takeMessage_messages : (takeMessage rd d m).messages = d.messages := by
  simp [takeMessage, updateState]

end TakeMessage

theorem Tracks.takeMessage {d : SipDialog} {ms : List SipMessage} (h : Tracks d ms)
    (rd : BodyReaders) (m : SipMessage) : Tracks (takeMessage rd d m) (ms ++ [m]) where
  state := by simp [h.state]
  sent := by
    intro hmethod
    rw [takeMessage_method] at hmethod
    rw [takeMessage_timing, hmethod, updateTiming_inviteSent, forall_mem_append,
      forall_mem_singleton, ← h.sent hmethod]
    by_cases hnone : d.timing.inviteSent = none <;> by_cases hm : m.OpensCall <;> simp [hnone, hm]
  pinned := by
    intro hmethod
    rw [takeMessage_method] at hmethod
    rw [takeMessage_timing, hmethod, updateTiming_inviteCseq, pinnedNumber_concat, h.pinned hmethod]
    simp only [h.sent hmethod]
  answered := by
    intro hmethod
    rw [takeMessage_method] at hmethod
    rw [takeMessage_timing, updateTiming_answeredAt_isSome, answerRecorded_concat,
      h.answered hmethod, h.pinned hmethod]

theorem tracks_new {m : SipMessage} {d : SipDialog} (h : SipDialog.new m = some d) :
    Tracks d [] ∧ m.openingMethod = some d.method ∧ d.seenCseq = m.seenCseqKey.toFinset ∧
      d.messages = [m] := by
  unfold SipDialog.new at h
  obtain ⟨callId, -, h⟩ := bind_eq_some_iff.mp h
  obtain ⟨method, hmethod, h⟩ := bind_eq_some_iff.mp h
  obtain rfl := (some.inj h).symm
  refine ⟨⟨rfl, fun _ => by simp, fun _ => rfl, fun _ => ?_⟩, hmethod, rfl, rfl⟩
  constructor
  · intro hsome
    cases hsome
  · rintro ⟨pre, ok, hpre, -⟩
    simp at hpre

theorem tracks_openDialog {m : SipMessage} {d : SipDialog} (h : openDialog rd m = some d) :
    Tracks d [m] ∧ m.openingMethod = some d.method ∧ d.seenCseq = m.seenCseqKey.toFinset ∧
      d.messages = [m] := by
  obtain ⟨d₀, hnew, rfl⟩ := map_eq_some_iff.mp h
  obtain ⟨htracks, hmethod, hseen, hmessages⟩ := tracks_new hnew
  exact ⟨htracks.takeMessage rd m, by simpa using hmethod, by simpa using hseen,
    by simpa using hmessages⟩

theorem advanceDialog_method (rd : BodyReaders) (cap : ℕ) (d : SipDialog) (m : SipMessage) :
    (advanceDialog rd cap d m).method = d.method := by
  unfold advanceDialog
  split_ifs <;> simp

theorem Tracks.advanceDialog {d : SipDialog} {ms : List SipMessage} (h : Tracks d ms)
    (rd : BodyReaders) (cap : ℕ) (m : SipMessage) :
    if isSeen d.seenCseq m then
      Tracks (advanceDialog rd cap d m) ms ∧ (advanceDialog rd cap d m).seenCseq = d.seenCseq
    else
      Tracks (advanceDialog rd cap d m) (ms ++ [m]) ∧
        (advanceDialog rd cap d m).seenCseq = remember d.seenCseq m := by
  by_cases hseen : isSeen d.seenCseq m
  · rw [if_pos hseen, Sipnab.advanceDialog, if_pos hseen]
    exact ⟨⟨h.state, h.sent, h.pinned, h.answered⟩, rfl⟩
  · rw [if_neg hseen, Sipnab.advanceDialog, if_neg hseen]
    have hkeep : Tracks { d with seenCseq := remember d.seenCseq m } ms :=
      ⟨h.state, h.sent, h.pinned, h.answered⟩
    obtain ⟨hstate, hsent, hpinned, hanswered⟩ := hkeep.takeMessage rd m
    exact ⟨⟨hstate, hsent, hpinned, hanswered⟩, by simp⟩

theorem Tracks.run {d : SipDialog} {ms : List SipMessage} (h : Tracks d ms) (rd : BodyReaders)
    (cap : ℕ) (run : List SipMessage) :
    Tracks (run.foldl (Sipnab.advanceDialog rd cap) d) (ms ++ freshFrom d.seenCseq run) ∧
      (run.foldl (Sipnab.advanceDialog rd cap) d).method = d.method := by
  induction run generalizing d ms with
  | nil => simpa [freshFrom] using h
  | cons m run ih =>
    have hstep := h.advanceDialog rd cap m
    rw [foldl_cons, freshFrom, ← advanceDialog_method rd cap d m]
    split_ifs at hstep ⊢ with hseen
    · rw [← hstep.2]
      exact ih hstep.1
    · rw [← hstep.2, append_cons]
      exact ih hstep.1

theorem tracks_dialogOf {cap : ℕ} {m : SipMessage} {ms : List SipMessage} {d : SipDialog}
    (h : dialogOf rd cap (m :: ms) = some d) :
    Tracks d (firstSightings (m :: ms)) ∧ m.openingMethod = some d.method := by
  obtain ⟨d₀, hopen, rfl⟩ := map_eq_some_iff.mp h
  obtain ⟨htracks, hmethod, hseen, -⟩ := tracks_openDialog hopen
  obtain ⟨hrun, hsame⟩ := htracks.run rd cap ms
  exact ⟨by simpa [firstSightings, hseen] using hrun, by rw [hsame, hmethod]⟩

theorem freshFrom_subset (seen : Finset String) (ms : List SipMessage) :
    freshFrom seen ms ⊆ ms := by
  induction ms generalizing seen with
  | nil => simp [freshFrom]
  | cons m ms ih =>
    rw [freshFrom]
    split_ifs with hseen
    · exact subset_cons_of_subset m (ih seen)
    · exact cons_subset_cons m (ih (remember seen m))

theorem firstSightings_subset : firstSightings ms ⊆ ms := by
  cases ms with
  | nil => simp [firstSightings]
  | cons m ms => exact cons_subset_cons m (freshFrom_subset m.seenCseqKey.toFinset ms)

/-! ## The stored messages -/

/-- A message without its retransmission mark, which is the only part a dialog rewrites. -/
def SipMessage.unmarked (m : SipMessage) : SipMessage := { m with isRetransmission := false }

theorem advanceDialog_messages (rd : BodyReaders) (cap : ℕ) (d : SipDialog) (m : SipMessage) :
    (advanceDialog rd cap d m).messages.map SipMessage.unmarked =
      (d.messages ++ [m].take (cap - d.messages.length)).map SipMessage.unmarked := by
  have hstore : ∀ x : SipMessage, storeMessage cap d.messages x =
      d.messages ++ [x].take (cap - d.messages.length) := by
    intro x
    unfold storeMessage
    split_ifs with hroom
    · rw [take_of_length_le (by simp; omega)]
    · rw [Nat.sub_eq_zero_of_le (by omega), take_zero, append_nil]
  unfold advanceDialog
  split_ifs with hseen
  · simp [hstore, map_take, SipMessage.unmarked, SipMessage.marked]
  · simp [hstore, takeMessage_messages]

theorem run_messages (rd : BodyReaders) (cap : ℕ) (d : SipDialog) (run : List SipMessage) :
    (run.foldl (advanceDialog rd cap) d).messages.map SipMessage.unmarked =
      (d.messages ++ run.take (cap - d.messages.length)).map SipMessage.unmarked := by
  induction run generalizing d with
  | nil => simp
  | cons m run ih =>
    have hstep := advanceDialog_messages rd cap d m
    have hlength : (advanceDialog rd cap d m).messages.length =
        d.messages.length + min (cap - d.messages.length) 1 := by
      simpa using congrArg List.length hstep
    rw [foldl_cons, ih, map_append, hstep, hlength, ← map_append]
    rcases Nat.eq_zero_or_pos (cap - d.messages.length) with hfull | hroom
    · simp [hfull]
    · obtain ⟨room, hroom⟩ := Nat.exists_eq_add_of_lt hroom
      have hnext : cap - (d.messages.length + min (cap - d.messages.length) 1) = room := by omega
      rw [hnext, hroom]
      simp

theorem dialogOf_messages {cap : ℕ} {m : SipMessage} {ms : List SipMessage} {d : SipDialog}
    (h : dialogOf rd cap (m :: ms) = some d) :
    d.messages.map SipMessage.unmarked = ((m :: ms).take (max cap 1)).map SipMessage.unmarked := by
  obtain ⟨d₀, hopen, rfl⟩ := map_eq_some_iff.mp h
  obtain ⟨-, -, -, hmessages⟩ := tracks_openDialog hopen
  have hroom : max cap 1 = cap - 1 + 1 := by omega
  rw [run_messages, hmessages, hroom, take_succ_cons]
  simp

def BodyReaders.bodiless : BodyReaders where
  sdp := fun _ => none
  metadataOf := fun _ => none

/-! ## The time of the answer -/

theorem isInviteOk_iff_of_answer {r : SipMessage} (hr : r.IsResponseTo .invite .success) :
    r.IsInviteOk ↔ r.statusCode = some 200 := by
  obtain ⟨hresp, hcseq, -⟩ := hr
  obtain ⟨⟨num, name⟩, hpair, hname⟩ := map_eq_some_iff.mp hcseq
  have hinvite : r.cseq.map Prod.snd = some "INVITE" := by
    simpa [hpair] using (SipMethod.parse_eq_invite_iff name).mp hname
  exact ⟨fun h => h.2.1, fun h => ⟨hresp, h, hinvite⟩⟩

/-- A first sighting of an answer leaves the answer timed exactly when an earlier one was recorded
or it is a `200` whose number is that of the first untagged INVITE. -/
theorem answer_timed_iff (rd : BodyReaders) (cap : ℕ) (m : SipMessage) (ms : List SipMessage)
    (d : SipDialog) (hd : dialogOf rd cap (m :: ms) = some d) (hinvite : m.IsRequestOf .invite)
    (r : SipMessage) (hfresh : ¬ isSeen d.seenCseq r) (hr : r.IsResponseTo .invite .success) :
    (advanceDialog rd cap d r).timing.answeredAt.isSome = true ↔
      AnswerRecorded (firstSightings (m :: ms)) ∨
        (r.statusCode = some 200 ∧ (pinnedNumber (firstSightings (m :: ms)) = none ∨
          r.cseqNumber = pinnedNumber (firstSightings (m :: ms)))) := by
  obtain ⟨htracks, hmethod⟩ := tracks_dialogOf hd
  have hd_invite : d.method = .invite := by
    simpa [SipMessage.openingMethod, hinvite.1, hinvite.2] using hmethod.symm
  have hstep := htracks.advanceDialog rd cap r
  rw [if_neg hfresh] at hstep
  have hsame : (advanceDialog rd cap d r).method = .invite := by
    rw [advanceDialog_method, hd_invite]
  rw [hstep.1.answered hsame, answerRecorded_concat, isInviteOk_iff_of_answer hr]

section
open SipMessage (plainRequest plainResponse)

/-- A call answered at its first INVITE is timed. -/
theorem answer_timed_iff_first :
    let d := (dialogOf .bodiless 10 [plainRequest "c" 1 .invite "z1" ""]).get (by decide)
    (advanceDialog .bodiless 10 d (plainResponse "c" 200 1 .invite "z1")).timing.answeredAt.isSome
      = true := by
  intro d
  exact (answer_timed_iff .bodiless 10 _ _ d (some_get _).symm (by decide) _ (by decide)
    (by decide)).mpr (Or.inr (by decide))

/-- A call answered at the INVITE that follows a challenge is up and has no answer time. -/
theorem challenged_answer_not_timed : let retry := plainRequest "c" 2 .invite "z2" ""
    let d := (dialogOf .bodiless 10 [plainRequest "c" 1 .invite "z1" "",
      plainResponse "c" 407 1 .invite "z1", retry]).get (by decide)
    let ok := plainResponse "c" 200 2 .invite "z2"
    retry.OpensCall ∧ retry.cseqNumber = ok.cseqNumber ∧ ok.IsResponseTo .invite .success ∧
      ¬ isSeen d.seenCseq ok ∧ d.state = .trying ∧
      (advanceDialog .bodiless 10 d ok).state = .inCall ∧
      (advanceDialog .bodiless 10 d ok).timing.answeredAt = none := by
  decide

end

end Sipnab
