import Sipnab.Lib.Cuts
import Sipnab.Sip.DialogRuns

/-!
# When an answered call stays up, and when an ended call stays ended

The transition table lets a CANCEL cancel a call in any state, and lets the first refusal of the
INVITE shut out a later answer. So a call whose INVITE was answered is up at the end of a run
exactly when the answer stands: no CANCEL follows it, and no refusal came before the first answer
or `487`, unless a CANCEL has reopened the call since. In the same way a call ended by a BYE comes
back exactly when a CANCEL after the BYE is followed by an answer.
-/

namespace Sipnab

open List

/-! ## The answer of a call -/

/-- No refusal of the INVITE comes before the first answer or `487`. -/
def Undisturbed (ms : List SipMessage) : Prop :=
  ∀ (pre : List SipMessage) (m : SipMessage) post, ms = pre ++ m :: post → m.Refuses →
    ∃ x ∈ pre, x.IsResponseTo .invite .success ∨ x.IsResponseTo .invite .canceled

/-- Nothing shuts out an answer: a CANCEL has reopened the call or no refusal came first. -/
def AnswerOpen (ms : List SipMessage) : Prop :=
  (∃ m ∈ ms, m.IsRequestOf .cancel) ∨ Undisturbed ms

def AnswerStands (ms : List SipMessage) : Prop :=
  ∃ (pre : List SipMessage) (ok : SipMessage) (post : List SipMessage),
    ms = pre ++ ok :: post ∧ ok.IsResponseTo .invite .success ∧ AnswerOpen pre ∧
    ∀ m ∈ post, ¬ m.IsRequestOf .cancel

theorem undisturbed_concat (ms : List SipMessage) (m : SipMessage) :
    Undisturbed (ms ++ [m]) ↔ Undisturbed ms ∧ (m.Refuses →
      ∃ x ∈ ms, x.IsResponseTo .invite .success ∨ x.IsResponseTo .invite .canceled) := by
  constructor
  · intro h
    refine ⟨fun pre r post hms hr => h pre r (post ++ [m]) (by simp [hms]) hr, ?_⟩
    exact fun hm => h ms m [] rfl hm
  · rintro ⟨hms, hm⟩ pre r post hsplit hr
    rcases concat_eq_append_cons_iff.mp hsplit with ⟨rest, -, hrest⟩ | ⟨-, rfl, rfl⟩
    · exact hms pre r rest hrest hr
    · exact hm hr

theorem answerStands_concat (ms : List SipMessage) (m : SipMessage) :
    AnswerStands (ms ++ [m]) ↔
      (m.IsResponseTo .invite .success ∧ AnswerOpen ms) ∨
        (AnswerStands ms ∧ ¬ m.IsRequestOf .cancel) := by
  constructor
  · rintro ⟨pre, ok, post, hsplit, hok, hopen, hpost⟩
    rcases concat_eq_append_cons_iff.mp hsplit with ⟨rest, rfl, hrest⟩ | ⟨-, rfl, rfl⟩
    · rw [forall_mem_append, forall_mem_singleton] at hpost
      exact Or.inr ⟨⟨pre, ok, rest, hrest, hok, hopen, hpost.1⟩, hpost.2⟩
    · exact Or.inl ⟨hok, hopen⟩
  · rintro (⟨hok, hopen⟩ | ⟨⟨pre, ok, post, rfl, hok, hopen, hpost⟩, hm⟩)
    · exact ⟨ms, m, [], rfl, hok, hopen, by simp⟩
    · refine ⟨pre, ok, post ++ [m], by simp, hok, hopen, ?_⟩
      rw [forall_mem_append, forall_mem_singleton]
      exact ⟨hpost, hm⟩

def Undecided (ms : List SipMessage) : Prop :=
  ∀ m ∈ ms, ¬ m.IsRequestOf .cancel ∧ ¬ m.IsResponseTo .invite .success ∧
    ¬ m.IsResponseTo .invite .canceled ∧ ¬ m.Refuses

theorem undecided_concat (ms : List SipMessage) (m : SipMessage) :
    Undecided (ms ++ [m]) ↔ Undecided ms ∧ ¬ m.IsRequestOf .cancel ∧
      ¬ m.IsResponseTo .invite .success ∧ ¬ m.IsResponseTo .invite .canceled ∧ ¬ m.Refuses := by
  unfold Undecided
  rw [forall_mem_append, forall_mem_singleton]

variable {ms : List SipMessage} {state : DialogState}

theorem Undecided.undisturbed (h : Undecided ms) : Undisturbed ms := by
  intro pre m post hms hm
  exact absurd hm (h m (by simp [hms])).2.2.2

theorem Undecided.answerOpen (h : Undecided ms) : AnswerOpen ms :=
  Or.inr h.undisturbed

theorem Undecided.not_answerOpen_concat (h : Undecided ms) {m : SipMessage} (hm : m.Refuses)
    (hcancel : ¬ m.IsRequestOf .cancel) : ¬ AnswerOpen (ms ++ [m]) := by
  rintro (⟨x, hx, hxcancel⟩ | hfirst)
  · rcases mem_append.mp hx with hx | hx
    · exact (h x hx).1 hxcancel
    · obtain rfl := mem_singleton.mp hx
      exact hcancel hxcancel
  · obtain ⟨x, hx, hdecides⟩ := ((undisturbed_concat ms m).mp hfirst).2 hm
    obtain ⟨-, hanswer, habandon, -⟩ := h x hx
    exact hdecides.elim hanswer habandon

theorem Undecided.not_answerStands (h : Undecided ms) : ¬ AnswerStands ms := by
  rintro ⟨pre, ok, post, rfl, hok, -⟩
  exact (h ok (by simp)).2.1 hok

/-- The call has an outcome that a later refusal cannot shut. -/
def SettledOpen (ms : List SipMessage) : Prop :=
  (∃ m ∈ ms, m.IsRequestOf .cancel) ∨
    (Undisturbed ms ∧ ∃ x ∈ ms, x.IsResponseTo .invite .success ∨ x.IsResponseTo .invite .canceled)

theorem SettledOpen.answerOpen (h : SettledOpen ms) : AnswerOpen ms :=
  h.imp_right And.left

theorem SettledOpen.concat (h : SettledOpen ms) (m : SipMessage) : SettledOpen (ms ++ [m]) := by
  rcases h with ⟨x, hx, hcancel⟩ | ⟨hfirst, x, hx, hdecides⟩
  · exact Or.inl ⟨x, mem_append_left [m] hx, hcancel⟩
  · refine Or.inr ⟨?_, x, mem_append_left [m] hx, hdecides⟩
    exact (undisturbed_concat ms m).mpr ⟨hfirst, fun _ => ⟨x, hx, hdecides⟩⟩

/-- What each state of an INVITE dialog without a BYE says about the messages behind it. -/
def Describes (ms : List SipMessage) : DialogState → Prop
  | .trying | .ringing => Undecided ms
  | .inCall | .transferring => AnswerStands ms
  | .canceled => ¬ AnswerStands ms ∧ SettledOpen ms
  | .failed | .redirected => ¬ AnswerStands ms ∧ ¬ AnswerOpen ms
  | _ => False

theorem Undecided.step (h : Undecided ms) (m : SipMessage)
    (hstate : state = .trying ∨ state = .ringing) (hbye : m.signal ≠ .bye)
    (hbyeAnswered : m.signal ≠ .byeAnswered) : Describes (ms ++ [m]) (m.signal.step state) := by
  have hopen := h.answerOpen
  have hstands := h.not_answerStands
  have hundecided := undecided_concat ms m
  have hconcat := answerStands_concat ms m
  rw [← m.signal_eq_cancel, ← m.signal_eq_answer] at hconcat
  rw [← m.signal_eq_cancel, ← m.signal_eq_answer, ← m.signal_eq_abandon, ← m.signal_refuses]
    at hundecided
  cases hsig : m.signal with
  | cancel =>
    refine ⟨by simp [hconcat, hstands, hsig], Or.inl ⟨m, by simp, ?_⟩⟩
    exact m.signal_eq_cancel.mp hsig
  | answer => rcases hstate with rfl | rfl <;> exact hconcat.mpr (Or.inl ⟨hsig, hopen⟩)
  | abandon =>
    have hcanceled : m.IsResponseTo .invite .canceled := m.signal_eq_abandon.mp hsig
    have hsettled : Describes (ms ++ [m]) .canceled := by
      refine ⟨by simp [hconcat, hstands, hsig], Or.inr ⟨?_, m, by simp, Or.inr hcanceled⟩⟩
      refine (undisturbed_concat ms m).mpr ⟨h.undisturbed, fun hrefuses => ?_⟩
      simp [← m.signal_refuses, hsig] at hrefuses
    rcases hstate with rfl | rfl <;> exact hsettled
  | redirect | refuse =>
    have hrefuses : m.Refuses := m.signal_refuses.mp (by simp [hsig])
    have hshut := h.not_answerOpen_concat hrefuses (by simp [← m.signal_eq_cancel, hsig])
    rcases hstate with rfl | rfl <;> exact ⟨by simp [hconcat, hstands, hsig], hshut⟩
  | bye => exact absurd hsig hbye
  | byeAnswered => exact absurd hsig hbyeAnswered
  | _ => rcases hstate with rfl | rfl <;> simpa [Describes, CallSignal.step, inviteUndecided,
      hundecided, hsig] using h

theorem AnswerStands.step (h : AnswerStands ms) (m : SipMessage) (hstate : state.Up)
    (hbye : m.signal ≠ .bye) (hbyeAnswered : m.signal ≠ .byeAnswered) :
    Describes (ms ++ [m]) (m.signal.step state) := by
  by_cases hsig : m.signal = .cancel
  · have hcancel : m.IsRequestOf .cancel := m.signal_eq_cancel.mp hsig
    rw [hsig]
    refine ⟨?_, Or.inl ⟨m, by simp, hcancel⟩⟩
    rw [answerStands_concat, ← m.signal_eq_answer]
    simp [hsig, hcancel]
  · have hcancel : ¬ m.IsRequestOf .cancel := fun hc => hsig (m.signal_eq_cancel.mpr hc)
    have hstands : AnswerStands (ms ++ [m]) := (answerStands_concat ms m).mpr (Or.inr ⟨h, hcancel⟩)
    have hup : (m.signal.step state).Up := by
      rcases hstate with rfl | rfl <;> revert hsig hbye hbyeAnswered <;>
        cases m.signal <;> decide
    rcases hup with hup | hup <;> rw [hup] <;> exact hstands

theorem SettledOpen.step (h : SettledOpen ms) (hdown : ¬ AnswerStands ms) (m : SipMessage)
    (hbye : m.signal ≠ .bye) : Describes (ms ++ [m]) (m.signal.step .canceled) := by
  have hconcat := answerStands_concat ms m
  rw [← m.signal_eq_answer] at hconcat
  by_cases hsig : m.signal = .answer
  · rw [hsig]
    exact hconcat.mpr (Or.inl ⟨hsig, h.answerOpen⟩)
  · have hstate : m.signal.step .canceled = .canceled := by
      revert hsig hbye
      cases m.signal <;> decide
    rw [hstate]
    exact ⟨by simp [hconcat, hsig, hdown], h.concat m⟩

theorem describes_step_shut (hshut : ¬ AnswerOpen ms) (hdown : ¬ AnswerStands ms) (m : SipMessage)
    (hstate : state = .failed ∨ state = .redirected) (hbye : m.signal ≠ .bye) :
    Describes (ms ++ [m]) (m.signal.step state) := by
  have hdown' : ¬ AnswerStands (ms ++ [m]) := by
    rw [answerStands_concat]
    exact fun hor => hor.elim (fun hok => hshut hok.2) (fun hup => hdown hup.1)
  by_cases hsig : m.signal = .cancel
  · rw [hsig]
    exact ⟨hdown', Or.inl ⟨m, by simp, m.signal_eq_cancel.mp hsig⟩⟩
  · have hkeep : m.signal.step state = state := by
      rcases hstate with rfl | rfl <;> revert hsig hbye <;> cases m.signal <;> decide
    have hshut' : ¬ AnswerOpen (ms ++ [m]) := by
      rintro (⟨x, hx, hcancel⟩ | hfirst)
      · rcases mem_append.mp hx with hx | hx
        · exact hshut (Or.inl ⟨x, hx, hcancel⟩)
        · obtain rfl := mem_singleton.mp hx
          exact hsig (x.signal_eq_cancel.mpr hcancel)
      · exact hshut (Or.inr ((undisturbed_concat ms m).mp hfirst).1)
    rw [hkeep]
    rcases hstate with rfl | rfl <;> exact ⟨hdown', hshut'⟩

theorem Describes.step (h : Describes ms state) (m : SipMessage) (hbye : m.signal ≠ .bye)
    (hbyeAnswered : m.signal ≠ .byeAnswered) : Describes (ms ++ [m]) (m.signal.step state) := by
  cases state with
  | trying => exact Undecided.step h m (Or.inl rfl) hbye hbyeAnswered
  | ringing => exact Undecided.step h m (Or.inr rfl) hbye hbyeAnswered
  | inCall => exact AnswerStands.step h m (Or.inl rfl) hbye hbyeAnswered
  | transferring => exact AnswerStands.step h m (Or.inr rfl) hbye hbyeAnswered
  | canceled => exact SettledOpen.step h.2 h.1 m hbye
  | failed => exact describes_step_shut h.2 h.1 m (Or.inl rfl) hbye
  | redirected => exact describes_step_shut h.2 h.1 m (Or.inr rfl) hbye
  | _ => exact h.elim

theorem describes_run (method : SipMethod) (hfamily : familyOfSeed method = .invite)
    (ms : List SipMessage) (hbye : ∀ m ∈ ms, ¬ m.IsRequestOf .bye)
    (hbyeAnswered : ∀ m ∈ ms, ¬ m.IsResponseTo .bye .success) :
    Describes ms (ms.foldl (advanceState method) .trying) := by
  induction ms using List.reverseRecOn with
  | nil => simp [Describes, Undecided]
  | append_singleton ms m ih =>
    rw [forall_mem_append, forall_mem_singleton] at hbye hbyeAnswered
    rw [foldl_append, foldl_cons, foldl_nil, advanceState_invite hfamily]
    refine (ih hbye.1 hbyeAnswered.1).step m ?_ ?_
    · exact fun hsig => hbye.2 (m.signal_eq_bye.mp hsig)
    · exact fun hsig => hbyeAnswered.2 (m.signal_eq_byeAnswered.mp hsig)

theorem Describes.up_iff (h : Describes ms state) : state.Up ↔ AnswerStands ms := by
  constructor
  · rintro (rfl | rfl) <;> exact h
  · intro hstands
    cases state with
    | trying | ringing => exact absurd hstands (Undecided.not_answerStands h)
    | inCall => exact Or.inl rfl
    | transferring => exact Or.inr rfl
    | canceled | failed | redirected => exact absurd hstands h.1
    | _ => exact h.elim

theorem initialState_of_invite {method : SipMethod} (hfamily : familyOfSeed method = .invite) :
    initialState method = .trying := by
  cases method <;> first | rfl | cases hfamily

/-- A call with an answered INVITE and no BYE is up at the end of its run exactly when the answer
stands; the final status code reports the answer whenever the dialog stored it. -/
theorem answered_call_up_iff (rd : BodyReaders) (cap : ℕ) (m : SipMessage) (ms : List SipMessage)
    (d : SipDialog) (hd : dialogOf rd cap (m :: ms) = some d)
    (hfamily : familyOfSeed d.method = .invite)
    (hbye : ∀ x ∈ m :: ms, ¬ x.IsRequestOf .bye)
    (hbyeAnswered : ∀ x ∈ m :: ms, ¬ x.IsResponseTo .bye .success) :
    (d.state.Up ↔ AnswerStands (firstSightings (m :: ms))) ∧
      ((∃ x ∈ (m :: ms).take (max cap 1), x.IsResponseTo .invite .success) →
        ∃ code, d.finalStatusCode = some code ∧ 200 ≤ code ∧ code ≤ 299) := by
  have hsubset := firstSightings_subset (m :: ms)
  obtain ⟨htracks, -⟩ := tracks_dialogOf hd
  constructor
  · rw [htracks.state, initialState_of_invite hfamily]
    refine (describes_run d.method hfamily _ ?_ ?_).up_iff
    · exact fun x hx => hbye x (hsubset hx)
    · exact fun x hx => hbyeAnswered x (hsubset hx)
  · rintro ⟨x, hx, hok⟩
    have hmem : x.unmarked ∈ d.messages.map SipMessage.unmarked := by
      rw [dialogOf_messages hd]
      exact List.mem_map_of_mem hx
    obtain ⟨y, hy, hxy⟩ := List.mem_map.mp hmem
    have hyok : y.unmarked.IsResponseTo .invite .success := hxy ▸ hok
    exact d.finalStatusCode_of_answer ⟨y, hy, hyok⟩

section
open SipMessage (plainRequest plainResponse)

/-- An answer that crosses a CANCEL still brings the call up. -/
theorem answered_call_up_iff_reopened :
    ((dialogOf .bodiless 10 [plainRequest "c" 1 .invite "z1" "", plainRequest "c" 1 .cancel "z1" "",
        plainResponse "c" 200 1 .invite "z1"]).get (by decide)).state.Up := by
  refine (answered_call_up_iff .bodiless 10 _ _ _ (Option.some_get _).symm
    (by decide) (by decide) (by decide)).1.mpr ?_
  refine ⟨[plainRequest "c" 1 .invite "z1" "", plainRequest "c" 1 .cancel "z1" ""],
    plainResponse "c" 200 1 .invite "z1", [], by decide, by decide, Or.inl ?_, by simp⟩
  exact ⟨plainRequest "c" 1 .cancel "z1" "", by decide, by decide⟩

/-- A CANCEL after the answer leaves the call Canceled under a final status of 200. -/
theorem answered_call_canceled :
    let run := [plainRequest "c" 1 .invite "z1" "", plainResponse "c" 200 1 .invite "z1",
      plainRequest "c" 1 .cancel "z1" ""]
    (∃ x ∈ run, x.IsResponseTo .invite .success) ∧ (∀ x ∈ run, ¬ x.IsRequestOf .bye) ∧
      (∀ x ∈ run, ¬ x.IsResponseTo .bye .success) ∧
      (dialogOf .bodiless 10 run).map (fun d => (familyOfSeed d.method, d.state, d.finalStatusCode)) =
        some (.invite, .canceled, some 200) := by
  decide

end

/-! ## The end of a call -/

def CancelPending (ms : List SipMessage) : Prop :=
  ∃ (pre : List SipMessage) (cancel : SipMessage) (post : List SipMessage),
    ms = pre ++ cancel :: post ∧ cancel.IsRequestOf .cancel ∧
    ∀ m ∈ post, ¬ m.IsRequestOf .bye

/-- An answer to the INVITE comes while a CANCEL is pending. -/
def Reopens (ms : List SipMessage) : Prop :=
  ∃ (pre : List SipMessage) (ok : SipMessage) (post : List SipMessage),
    ms = pre ++ ok :: post ∧ ok.IsResponseTo .invite .success ∧ CancelPending pre

theorem cancelPending_concat (ms : List SipMessage) (m : SipMessage) :
    CancelPending (ms ++ [m]) ↔
      m.IsRequestOf .cancel ∨ (CancelPending ms ∧ ¬ m.IsRequestOf .bye) := by
  constructor
  · rintro ⟨pre, cancel, post, hsplit, hcancel, hpost⟩
    rcases concat_eq_append_cons_iff.mp hsplit with ⟨rest, rfl, hrest⟩ | ⟨-, rfl, rfl⟩
    · rw [forall_mem_append, forall_mem_singleton] at hpost
      exact Or.inr ⟨⟨pre, cancel, rest, hrest, hcancel, hpost.1⟩, hpost.2⟩
    · exact Or.inl hcancel
  · rintro (hcancel | ⟨⟨pre, cancel, post, rfl, hcancel, hpost⟩, hm⟩)
    · exact ⟨ms, m, [], rfl, hcancel, by simp⟩
    · refine ⟨pre, cancel, post ++ [m], by simp, hcancel, ?_⟩
      rw [forall_mem_append, forall_mem_singleton]
      exact ⟨hpost, hm⟩

theorem reopens_concat (ms : List SipMessage) (m : SipMessage) :
    Reopens (ms ++ [m]) ↔ Reopens ms ∨ (m.IsResponseTo .invite .success ∧ CancelPending ms) := by
  constructor
  · rintro ⟨pre, ok, post, hsplit, hok, hpending⟩
    rcases concat_eq_append_cons_iff.mp hsplit with ⟨rest, -, hrest⟩ | ⟨-, rfl, rfl⟩
    · exact Or.inl ⟨pre, ok, rest, hrest, hok, hpending⟩
    · exact Or.inr ⟨hok, hpending⟩
  · rintro (⟨pre, ok, post, rfl, hok, hpending⟩ | ⟨hok, hpending⟩)
    · exact ⟨pre, ok, post ++ [m], by simp, hok, hpending⟩
    · exact ⟨ms, m, [], rfl, hok, hpending⟩

/-- What a state past a BYE says about the messages since: the call is canceled while a CANCEL is
pending, and completed else. -/
def EndedBy (ms : List SipMessage) : DialogState → Prop
  | .completed => ¬ CancelPending ms
  | .canceled => CancelPending ms
  | _ => False

theorem EndedBy.step (h : EndedBy ms state) (m : SipMessage)
    (hstill : ¬ (m.IsResponseTo .invite .success ∧ CancelPending ms)) :
    EndedBy (ms ++ [m]) (m.signal.step state) := by
  have hpending := cancelPending_concat ms m
  rw [← m.signal_eq_cancel, ← m.signal_eq_bye] at hpending
  rw [← m.signal_eq_answer] at hstill
  cases state with
  | completed =>
    have hnot : ¬ CancelPending ms := h
    cases hsig : m.signal with
    | cancel => exact hpending.mpr (Or.inl hsig)
    | bye => simp [EndedBy, hpending, hsig, CallSignal.step]
    | _ => simpa [EndedBy, hpending, hsig, CallSignal.step, inviteLive, inviteUndecided,
        inviteAnswerable] using hnot
  | canceled =>
    have hcancel : CancelPending ms := h
    cases hsig : m.signal with
    | bye => simp [EndedBy, hpending, hsig, CallSignal.step]
    | answer => exact absurd ⟨hsig, hcancel⟩ hstill
    | cancel => exact hpending.mpr (Or.inl hsig)
    | _ => simpa [EndedBy, hpending, hsig, CallSignal.step, inviteLive, inviteUndecided,
        inviteAnswerable] using hcancel
  | _ => exact h.elim

theorem EndedBy.not_live (h : EndedBy ms state) : inviteLive state = false := by
  cases state <;> first | rfl | exact h.elim

theorem EndedBy.live_of_answer (h : EndedBy ms state) {m : SipMessage}
    (hok : m.IsResponseTo .invite .success) (hpending : CancelPending ms) :
    inviteLive (m.signal.step state) = true := by
  rw [m.signal_eq_answer.mpr hok]
  cases state with
  | completed => exact absurd hpending h
  | canceled => rfl
  | _ => exact h.elim

theorem endedBy_run (method : SipMethod) (hfamily : familyOfSeed method = .invite)
    {bye : SipMessage} (hbye : bye.IsRequestOf .bye) (state : DialogState)
    (ms : List SipMessage) (hclosed : ¬ Reopens ms) :
    EndedBy ms (ms.foldl (advanceState method) (advanceState method state bye)) := by
  induction ms using List.reverseRecOn with
  | nil =>
    rw [foldl_nil, advanceState_invite hfamily, bye.signal_eq_bye.mpr hbye]
    rintro ⟨pre, cancel, post, hnil, -⟩
    simp at hnil
  | append_singleton ms m ih =>
    rw [reopens_concat, not_or] at hclosed
    rw [foldl_append, foldl_cons, foldl_nil, advanceState_invite hfamily _ m]
    exact (ih hclosed.1).step m hclosed.2

/-- A call ended by a BYE stays down through a run exactly when no answer to the INVITE comes
while a CANCEL sent after the last BYE is pending. -/
theorem ended_call_stays_down_iff (d : SipDialog) (hfamily : familyOfSeed d.method = .invite)
    (bye : SipMessage) (hbye : bye.IsRequestOf .bye) (ms : List SipMessage) :
    (∀ pre, pre <+: ms → inviteLive (pre.foldl updateState (updateState d bye)).state = false) ↔
      ¬ Reopens ms := by
  have hstate : ∀ pre : List SipMessage, (pre.foldl updateState (updateState d bye)).state =
      pre.foldl (advanceState d.method) (advanceState d.method d.state bye) :=
    fun pre => foldl_updateState (updateState d bye) pre
  simp only [hstate]
  induction ms using List.reverseRecOn with
  | nil =>
    have hclosed : ¬ Reopens [] := by
      rintro ⟨pre, ok, post, hnil, -⟩
      simp at hnil
    refine iff_of_true (fun pre hpre => ?_) hclosed
    obtain rfl := prefix_nil.mp hpre
    exact (endedBy_run d.method hfamily hbye d.state [] hclosed).not_live
  | append_singleton ms m ih =>
    constructor
    · intro hdown hreopens
      have hclosed := ih.mp (fun pre hpre => hdown pre (hpre.trans (prefix_append ms [m])))
      have hended := endedBy_run d.method hfamily hbye d.state ms hclosed
      rcases (reopens_concat ms m).mp hreopens with hearlier | ⟨hok, hpending⟩
      · exact hclosed hearlier
      · have hlive := hended.live_of_answer hok hpending
        have hdead := hdown (ms ++ [m]) prefix_rfl
        rw [foldl_append, foldl_cons, foldl_nil, advanceState_invite hfamily _ m, hlive] at hdead
        cases hdead
    · intro hclosed pre hpre
      rcases prefix_concat_iff.mp hpre with rfl | hpre
      · exact (endedBy_run d.method hfamily hbye d.state _ hclosed).not_live
      · rw [reopens_concat, not_or] at hclosed
        exact ih.mpr hclosed.1 pre hpre

section
open SipMessage (plainRequest plainResponse)

/-- A call in which nothing follows the BYE but its answer stays down. -/
theorem ended_call_stays_down_iff_answered :
    let d := (dialogOf .bodiless 10 [plainRequest "c" 1 .invite "z1" ""]).get (by decide)
    ∀ pre, pre <+: [plainResponse "c" 200 2 .bye "z2"] →
      inviteLive (pre.foldl updateState (updateState d (plainRequest "c" 2 .bye "z2" ""))).state =
        false := by
  intro d
  refine (ended_call_stays_down_iff d (by decide) _ (by decide) _).mpr ?_
  rintro ⟨pre, ok, post, hsplit, hok, -⟩
  have hmem : ok ∈ [plainResponse "c" 200 2 .bye "z2"] := by simp [hsplit]
  obtain rfl := mem_singleton.mp hmem
  revert hok
  decide

/-- A CANCEL and a `200` to the INVITE after the BYE bring the call up again. -/
theorem ended_call_reopened :
    let d := (dialogOf .bodiless 10 [plainRequest "c" 1 .invite "z1" ""]).get (by decide)
    familyOfSeed d.method = .invite ∧ (plainRequest "c" 2 .bye "z2" "").IsRequestOf .bye ∧
      ([plainRequest "c" 2 .bye "z2" "", plainRequest "c" 1 .cancel "z1" "",
        plainResponse "c" 200 1 .invite "z1"].foldl updateState d).state = .inCall := by
  decide

end

end Sipnab
