import Sipnab.Sip.Message

/-!
# The dialog transition table

One total function from the dialog's family, the arriving message and the current state to a
cell: a move, or a no-change with its reason. The family comes from the method that opened the
dialog; a response is placed by the transaction its `CSeq` names.
-/

namespace Sipnab

inductive ResponseClass
  | provisional | success | redirect | challenge | canceled | declined | failure
  deriving DecidableEq

def responseClass (code : ℕ) : ResponseClass :=
  if 100 ≤ code ∧ code ≤ 199 then .provisional
  else if 200 ≤ code ∧ code ≤ 299 then .success
  else if 300 ≤ code ∧ code ≤ 399 then .redirect
  else if code = 401 ∨ code = 407 ∨ code = 494 then .challenge
  else if code = 487 then .canceled
  else if code = 486 ∨ code = 600 ∨ code = 603 ∨ code = 607 ∨ code = 608 then .declined
  else .failure

theorem responseClass_eq_success_iff (code : ℕ) :
    responseClass code = .success ↔ 200 ≤ code ∧ code ≤ 299 := by
  unfold responseClass
  split_ifs with h1 h2 h3 h4 h5 h6 <;> simp <;> omega

inductive DialogState
  | trying | ringing | inCall | completed | canceled | failed | redirected | registered
  | expired | pending | active | terminated | transferring
  deriving DecidableEq

inductive Family
  | invite | register | subscribe | standalone
  deriving DecidableEq

inductive Arrival
  | request (method : SipMethod) (subscriptionState : Option String)
  | response (cseqMethod : Option SipMethod) (code : ℕ) (grantedExpiry : Option ℕ)
  deriving DecidableEq

inductive Cell
  | to (state : DialogState)
  | stay (reason : String)
  deriving DecidableEq

def Cell.apply (state : DialogState) : Cell → DialogState
  | .to next => next
  | .stay _ => state

def familyOfSeed : SipMethod → Family
  | .invite | .ack | .bye | .cancel | .prack => .invite
  | .register => .register
  | .subscribe => .subscribe
  | .options | .notify | .publish | .info | .refer | .message | .update
  | .custom _ => .standalone

def inviteUndecided : DialogState → Bool
  | .trying | .ringing => true
  | .inCall | .completed | .canceled | .failed | .redirected | .registered | .expired
  | .pending | .active | .terminated | .transferring => false

def inviteLive : DialogState → Bool
  | .trying | .ringing | .inCall | .transferring => true
  | .completed | .canceled | .failed | .redirected | .registered | .expired | .pending
  | .active | .terminated => false

def inviteAnswerable : DialogState → Bool
  | .trying | .ringing | .canceled => true
  | .inCall | .completed | .failed | .redirected | .registered | .expired | .pending
  | .active | .terminated | .transferring => false

def requestCell (family : Family) (method : SipMethod) (subscriptionState : Option String)
    (state : DialogState) : Cell :=
  match family with
  | .invite =>
    match method with
    | .cancel => .to .canceled
    | .bye => .to .completed
    | .refer =>
      if state = .inCall then .to .transferring
      else .stay "a REFER outside an established call starts no transfer to show"
    | .notify =>
      if state = .transferring ∧ subscriptionState = some "terminated" then .to .inCall
      else .stay "a NOTIFY in an INVITE dialog reports event state, not call state"
    | .ack => .stay "an ACK confirms a final response already accounted for"
    | .invite | .update | .prack | .info =>
      .stay "a re-INVITE, UPDATE, PRACK or INFO renegotiates inside the call and does not end it"
    | .options | .message | .publish | .register | .subscribe | .custom _ =>
      .stay "this request opens its own transaction and decides no call"
  | .register =>
    .stay "a REGISTER dialog is decided by the registrar's answer, not by asking again"
  | .subscribe =>
    match method with
    | .notify =>
      -- The table strips the parameters once more; the caller already did.
      match subscriptionState.map (fun v => String.ofList (Text.trim (Text.firstPiece ';' v.toList)))
      with
      | some "pending" => .to .pending
      | some "terminated" => .to .terminated
      | _ => .to .active
    | .subscribe | .invite | .ack | .bye | .cancel | .register | .options | .prack | .publish
    | .info | .refer | .message | .update | .custom _ =>
      .stay "only a NOTIFY reports the state of a subscription"
  | .standalone => .stay "a dialog with no machine of its own is decided by its responses"

def inviteResponseCell (cls : ResponseClass) (code : ℕ) (state : DialogState) : Cell :=
  match cls with
  | .provisional =>
    if (code = 180 ∨ code = 183) ∧ inviteUndecided state then .to .ringing
    else .stay "a provisional response reports progress and decides no outcome"
  | .success =>
    if inviteAnswerable state then .to .inCall
    else .stay "the call already has an outcome; a later 2xx cannot re-answer it"
  | .canceled =>
    if inviteAnswerable state then .to .canceled
    else .stay "once a 2xx established the call a late 487 must not un-answer it"
  | .redirect =>
    if inviteUndecided state then .to .redirected
    else .stay "a redirect after the call was decided routes nothing"
  | .declined | .failure =>
    if inviteUndecided state then .to .failed
    else .stay "the call already has an outcome; a later failure cannot take it back"
  | .challenge => .stay "a challenge is intermediate: the caller retries with credentials"

def responseCell (family : Family) (cseqMethod : Option SipMethod) (code : ℕ)
    (grantedExpiry : Option ℕ) (state : DialogState) : Cell :=
  let cls := responseClass code
  match family with
  | .invite =>
    match cseqMethod with
    | some .invite => inviteResponseCell cls code state
    | some method =>
      if method = .bye ∧ cls = .success then
        if inviteLive state then .to .completed
        else .stay "the call already ended; the answer to its BYE adds nothing"
      else .stay ("this response answers a CANCEL, ACK, PRACK or failed BYE transaction, " ++
        "not the INVITE that decides the call")
    | none => .stay "a response with no CSeq names no transaction to attribute it to"
  | .register =>
    match cls with
    | .success => if grantedExpiry = some 0 then .to .expired else .to .registered
    | .redirect => .to .redirected
    | .declined | .failure => .to .failed
    | .challenge => .stay "a challenge is intermediate: the client re-registers with credentials"
    | .provisional => .stay "a provisional response binds nothing yet"
    | .canceled => .stay "a 487 ends an INVITE transaction; a REGISTER has none"
  | .subscribe =>
    match cls with
    | .success => if grantedExpiry = some 0 then .to .terminated else .to .active
    | .redirect => .to .redirected
    | .declined | .failure => .to .terminated
    | .challenge => .stay "a challenge is intermediate: the client re-subscribes with credentials"
    | .provisional => .stay "a provisional response establishes no subscription yet"
    | .canceled => .stay "a 487 ends an INVITE transaction; a subscription has none"
  | .standalone =>
    match cls with
    | .success => .to .completed
    | .redirect => .to .redirected
    | .declined | .failure => .to .failed
    | .challenge => .stay "a challenge is intermediate: the client retries with credentials"
    | .provisional => .stay "a provisional response settles nothing"
    | .canceled => .stay "a 487 ends an INVITE transaction; this dialog has none"

def transition (family : Family) (arrival : Arrival) (state : DialogState) : Cell :=
  match arrival with
  | .request method subscriptionState => requestCell family method subscriptionState state
  | .response cseqMethod code grantedExpiry =>
    responseCell family cseqMethod code grantedExpiry state

def next (family : Family) (state : DialogState) (arrival : Arrival) : DialogState :=
  (transition family arrival state).apply state

/-- The states in which a call is up: answered, or answered and being transferred. -/
def DialogState.Up (state : DialogState) : Prop := state = .inCall ∨ state = .transferring

instance (state : DialogState) : Decidable state.Up :=
  inferInstanceAs (Decidable (state = .inCall ∨ state = .transferring))

/-! ## The INVITE family by the signal a message gives -/

/-- What an arrival says to an INVITE dialog, whatever state the dialog is in. -/
inductive CallSignal
  | cancel | bye | byeAnswered | refer | transferEnd | ring | answer | abandon | redirect
  | refuse | idle
  deriving DecidableEq

def CallSignal.step (state : DialogState) : CallSignal → DialogState
  | .cancel => .canceled
  | .bye => .completed
  | .byeAnswered => if inviteLive state then .completed else state
  | .refer => if state = .inCall then .transferring else state
  | .transferEnd => if state = .transferring then .inCall else state
  | .ring => if inviteUndecided state then .ringing else state
  | .answer => if inviteAnswerable state then .inCall else state
  | .abandon => if inviteAnswerable state then .canceled else state
  | .redirect => if inviteUndecided state then .redirected else state
  | .refuse => if inviteUndecided state then .failed else state
  | .idle => state

def inviteResponseSignal (code : ℕ) : CallSignal :=
  match responseClass code with
  | .provisional => if code = 180 ∨ code = 183 then .ring else .idle
  | .success => .answer
  | .canceled => .abandon
  | .redirect => .redirect
  | .declined | .failure => .refuse
  | .challenge => .idle

def callSignal : Arrival → CallSignal
  | .request .cancel _ => .cancel
  | .request .bye _ => .bye
  | .request .refer _ => .refer
  | .request .notify (some "terminated") => .transferEnd
  | .request _ _ => .idle
  | .response (some .invite) code _ => inviteResponseSignal code
  | .response (some .bye) code _ => if responseClass code = .success then .byeAnswered else .idle
  | .response _ _ _ => .idle

theorem inviteResponseCell_apply (code : ℕ) (state : DialogState) :
    (inviteResponseCell (responseClass code) code state).apply state =
      (inviteResponseSignal code).step state := by
  unfold inviteResponseCell inviteResponseSignal
  cases responseClass code with
  | provisional =>
    by_cases hcode : code = 180 ∨ code = 183
    · cases hstate : inviteUndecided state <;> simp [hcode, hstate, Cell.apply, CallSignal.step]
    · simp [hcode, Cell.apply, CallSignal.step]
  | challenge => rfl
  | success | canceled =>
    cases hstate : inviteAnswerable state <;> simp [hstate, Cell.apply, CallSignal.step]
  | redirect | declined | failure =>
    cases hstate : inviteUndecided state <;> simp [hstate, Cell.apply, CallSignal.step]

theorem next_invite (state : DialogState) (arrival : Arrival) :
    next .invite state arrival = (callSignal arrival).step state := by
  unfold next
  cases arrival with
  | request method sub =>
    cases method with
    | refer =>
      simp only [transition, requestCell, callSignal, CallSignal.step]
      split_ifs <;> rfl
    | notify =>
      simp only [transition, requestCell]
      by_cases hsub : sub = some "terminated"
      · subst hsub
        by_cases hstate : state = .transferring <;>
          simp [hstate, callSignal, CallSignal.step, Cell.apply]
      · have hsignal : callSignal (.request .notify sub) = .idle := by
          unfold callSignal
          split <;> simp_all
        simp [hsub, hsignal, CallSignal.step, Cell.apply]
    | _ => rfl
  | response cseqMethod code expiry =>
    cases cseqMethod with
    | none => rfl
    | some method =>
      cases method with
      | invite => exact inviteResponseCell_apply code state
      | bye =>
        simp only [transition, responseCell, callSignal]
        by_cases hclass : responseClass code = .success
        · cases hlive : inviteLive state <;> simp [hclass, hlive, CallSignal.step, Cell.apply]
        · simp [hclass, CallSignal.step, Cell.apply]
      | _ => simp [transition, responseCell, callSignal, CallSignal.step, Cell.apply]

end Sipnab
