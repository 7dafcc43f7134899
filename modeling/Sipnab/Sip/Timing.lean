import Sipnab.Sip.Message

/-!
# Transaction timing of a dialog

The milestones a dialog's messages reach. Each is kept at its first sighting. The responses to
the INVITE are pinned to the `CSeq` number of the first INVITE sent outside a dialog.

`retransmitCounts` holds one copy of a `"number method"` key for each retransmission counted
under it, so the count of a key is its multiplicity.
-/

namespace Sipnab

structure DialogTiming where
  inviteSent : Option DateTime := none
  inviteCseq : Option ℕ := none
  tryingAt : Option DateTime := none
  ringingAt : Option DateTime := none
  answeredAt : Option DateTime := none
  byeSent : Option DateTime := none
  byeAnswered : Option DateTime := none
  retransmitCounts : Multiset String := 0
  referSentAt : Option DateTime := none
  transferCompletedAt : Option DateTime := none
  deriving DecidableEq

/-- An untagged INVITE: the request that opens a call rather than one inside it. -/
def SipMessage.OpensCall (m : SipMessage) : Prop :=
  m.isRequest = true ∧ m.method = some .invite ∧ m.toTag = none

instance (m : SipMessage) : Decidable m.OpensCall :=
  inferInstanceAs (Decidable (_ ∧ _ ∧ _))

def updateTimingRequest (t : DialogTiming) (m : SipMessage) (dialogMethod : SipMethod) :
    DialogTiming :=
  match m.method with
  | some .invite =>
    if dialogMethod = .invite ∧ t.inviteSent = none ∧ m.toTag = none then
      { t with inviteSent := some m.timestamp, inviteCseq := m.cseq.map Prod.fst }
    else t
  | some .bye => if t.byeSent = none then { t with byeSent := some m.timestamp } else t
  | some .refer => if t.referSentAt = none then { t with referSentAt := some m.timestamp } else t
  | some .notify =>
    if m.subscriptionState = some "terminated" ∧ t.transferCompletedAt = none then
      { t with transferCompletedAt := some m.timestamp }
    else t
  | _ => t

def updateTimingResponse (t : DialogTiming) (m : SipMessage) (code : ℕ) : DialogTiming :=
  let cseqNum := m.cseq.map Prod.fst
  let cseqMethod := (m.cseq.map Prod.snd).getD ""
  let isInitialInvite := t.inviteCseq = none ∨ cseqNum = t.inviteCseq
  if code = 100 ∧ cseqMethod = "INVITE" ∧ isInitialInvite ∧ t.tryingAt = none then
    { t with tryingAt := some m.timestamp }
  else if (code = 180 ∨ code = 183) ∧ cseqMethod = "INVITE" ∧ isInitialInvite ∧
      t.ringingAt = none then
    { t with ringingAt := some m.timestamp }
  else if code = 200 ∧ cseqMethod = "INVITE" ∧ isInitialInvite ∧ t.answeredAt = none then
    { t with answeredAt := some m.timestamp }
  else if code = 200 ∧ cseqMethod = "BYE" ∧ t.byeAnswered = none then
    { t with byeAnswered := some m.timestamp }
  else t

def updateTiming (t : DialogTiming) (m : SipMessage) (dialogMethod : SipMethod) : DialogTiming :=
  if m.isRequest then updateTimingRequest t m dialogMethod
  else match m.statusCode with
    | some code => updateTimingResponse t m code
    | none => t

/-- A `200` to an INVITE: the only code the recorder takes for an answer. -/
def SipMessage.IsInviteOk (m : SipMessage) : Prop :=
  m.isRequest = false ∧ m.statusCode = some 200 ∧ m.cseq.map Prod.snd = some "INVITE"

instance (m : SipMessage) : Decidable m.IsInviteOk :=
  inferInstanceAs (Decidable (_ ∧ _ ∧ _))

def SipMessage.cseqNumber (m : SipMessage) : Option ℕ := m.cseq.map Prod.fst

variable (t : DialogTiming) (m : SipMessage) (code : ℕ)

@[simp] theorem updateTimingRequest_answeredAt (method : SipMethod) :
    (updateTimingRequest t m method).answeredAt = t.answeredAt := by
  unfold updateTimingRequest
  split <;> (try split_ifs) <;> rfl

@[simp] theorem updateTimingResponse_inviteSent :
    (updateTimingResponse t m code).inviteSent = t.inviteSent := by
  unfold updateTimingResponse
  dsimp only
  split_ifs <;> rfl

@[simp] theorem updateTimingResponse_inviteCseq :
    (updateTimingResponse t m code).inviteCseq = t.inviteCseq := by
  unfold updateTimingResponse
  dsimp only
  split_ifs <;> rfl

theorem updateTimingRequest_invite (hreq : m.isRequest = true) :
    (updateTimingRequest t m .invite).inviteSent =
        (if t.inviteSent = none ∧ m.OpensCall then some m.timestamp else t.inviteSent) ∧
      (updateTimingRequest t m .invite).inviteCseq =
        (if t.inviteSent = none ∧ m.OpensCall then m.cseqNumber else t.inviteCseq) := by
  by_cases hmethod : m.method = some .invite
  · by_cases hopens : t.inviteSent = none ∧ m.toTag = none <;>
      simp [updateTimingRequest, SipMessage.OpensCall, SipMessage.cseqNumber, hreq, hmethod, hopens]
  · have hsame : (updateTimingRequest t m .invite).inviteSent = t.inviteSent ∧
        (updateTimingRequest t m .invite).inviteCseq = t.inviteCseq := by
      unfold updateTimingRequest
      split <;> first
        | exact absurd (by assumption) hmethod
        | (split_ifs <;> exact ⟨rfl, rfl⟩)
        | exact ⟨rfl, rfl⟩
    simpa [SipMessage.OpensCall, hmethod] using hsame

theorem updateTiming_inviteSent :
    (updateTiming t m .invite).inviteSent =
      if t.inviteSent = none ∧ m.OpensCall then some m.timestamp else t.inviteSent := by
  cases hreq : m.isRequest with
  | true => simpa [updateTiming, hreq] using (updateTimingRequest_invite t m hreq).1
  | false => cases hcode : m.statusCode <;> simp [updateTiming, SipMessage.OpensCall, hreq, hcode]

theorem updateTiming_inviteCseq :
    (updateTiming t m .invite).inviteCseq =
      if t.inviteSent = none ∧ m.OpensCall then m.cseqNumber else t.inviteCseq := by
  cases hreq : m.isRequest with
  | true => simpa [updateTiming, hreq] using (updateTimingRequest_invite t m hreq).2
  | false => cases hcode : m.statusCode <;> simp [updateTiming, SipMessage.OpensCall, hreq, hcode]

theorem updateTimingResponse_answeredAt :
    (updateTimingResponse t m code).answeredAt =
      if code = 200 ∧ (m.cseq.map Prod.snd).getD "" = "INVITE" ∧
          (t.inviteCseq = none ∨ m.cseqNumber = t.inviteCseq) ∧ t.answeredAt = none then
        some m.timestamp
      else t.answeredAt := by
  unfold updateTimingResponse SipMessage.cseqNumber
  dsimp only
  split_ifs with h100 h180 h200 hbye <;> first | rfl | omega

/-- The answer is recorded by the first `200` to an INVITE carrying the pinned number, or by the
first `200` to any INVITE while no number is pinned. -/
theorem updateTiming_answeredAt_isSome (method : SipMethod) :
    (updateTiming t m method).answeredAt.isSome = true ↔
      t.answeredAt.isSome = true ∨
        m.IsInviteOk ∧ (t.inviteCseq = none ∨ m.cseqNumber = t.inviteCseq) := by
  have hname : (m.cseq.map Prod.snd).getD "" = "INVITE" ↔ m.cseq.map Prod.snd = some "INVITE" := by
    cases m.cseq.map Prod.snd <;> simp
  unfold SipMessage.IsInviteOk
  cases hreq : m.isRequest with
  | true => simp [updateTiming, hreq]
  | false =>
    cases hcode : m.statusCode with
    | none => simp [updateTiming, hreq, hcode]
    | some code =>
      have hstep : updateTiming t m method = updateTimingResponse t m code := by
        simp [updateTiming, hreq, hcode]
      rw [hstep, updateTimingResponse_answeredAt]
      simp only [hname]
      cases hanswered : t.answeredAt with
      | some _ => simp
      | none =>
        split_ifs with hok
        · simp [hok.1, hok.2.1, hok.2.2.1]
        · simp only [Option.isSome_none, Bool.false_eq_true, Option.some.injEq, true_and, false_or,
            false_iff]
          tauto

end Sipnab
