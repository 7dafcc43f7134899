import Sipnab.Sip.Dialog

/-!
# The signal a message gives an INVITE dialog

Each signal is named by the requests or responses that give it: a CANCEL, a BYE, a `2xx` to
either, a `487` or a refusal of the INVITE.
-/

namespace Sipnab

namespace SipMessage

theorem signal_request {m : SipMessage} (h : m.isRequest = true) :
    m.signal = m.method.elim .idle (fun method => callSignal (.request method m.subscriptionState))
    := by
  cases hmethod : m.method <;> simp [signal, arrival, h, hmethod]

theorem signal_response {m : SipMessage} (h : m.isRequest = false) :
    m.signal = m.statusCode.elim .idle
      (fun code => callSignal (.response m.cseqMethod code m.registrationExpiry)) := by
  cases hcode : m.statusCode <;> simp [signal, arrival, h, hcode]

theorem callSignal_response_invite (cseqMethod : Option SipMethod) (code : ℕ) (expiry : Option ℕ)
    (sig : CallSignal) (hsig : sig = .answer ∨ sig = .abandon ∨ sig = .redirect ∨ sig = .refuse) :
    callSignal (.response cseqMethod code expiry) = sig ↔
      cseqMethod = some .invite ∧ inviteResponseSignal code = sig := by
  cases cseqMethod with
  | none => rcases hsig with rfl | rfl | rfl | rfl <;> simp [callSignal]
  | some method =>
    cases method with
    | invite => simp [callSignal]
    | bye =>
      rcases hsig with rfl | rfl | rfl | rfl <;> simp only [callSignal] <;> split_ifs <;> simp
    | _ => rcases hsig with rfl | rfl | rfl | rfl <;> simp [callSignal]

variable (method : SipMethod) (m : SipMessage) (sub : Option String)

theorem callSignal_request_ne (sig : CallSignal)
    (hsig : sig = .answer ∨ sig = .abandon ∨ sig = .redirect ∨ sig = .refuse ∨
      sig = .byeAnswered) : callSignal (.request method sub) ≠ sig := by
  unfold callSignal
  rcases hsig with rfl | rfl | rfl | rfl | rfl <;> split <;> simp_all

theorem signal_eq_iff_response {m : SipMessage} {sig : CallSignal}
    (hsig : sig = .answer ∨ sig = .abandon ∨ sig = .redirect ∨ sig = .refuse) :
    m.signal = sig ↔ m.isRequest = false ∧ m.cseqMethod = some .invite ∧
      m.statusCode.map inviteResponseSignal = some sig := by
  cases hreq : m.isRequest with
  | true =>
    cases hmethod : m.method with
    | none => rcases hsig with rfl | rfl | rfl | rfl <;> simp [signal_request hreq, hmethod]
    | some method =>
      have hne := callSignal_request_ne method m.subscriptionState sig (by tauto)
      simp [signal_request hreq, hmethod, hne]
  | false =>
    cases hcode : m.statusCode with
    | none => rcases hsig with rfl | rfl | rfl | rfl <;> simp [signal_response hreq, hcode]
    | some code => simp [signal_response hreq, hcode, callSignal_response_invite _ _ _ _ hsig]

theorem signal_eq_answer : m.signal = .answer ↔ m.IsResponseTo .invite .success := by
  rw [signal_eq_iff_response (by tauto), IsResponseTo]
  cases m.statusCode with
  | none => simp
  | some code =>
    simp only [Option.map_some, Option.some.injEq, inviteResponseSignal]
    cases responseClass code <;> (try split_ifs) <;> simp

theorem signal_eq_abandon : m.signal = .abandon ↔ m.IsResponseTo .invite .canceled := by
  rw [signal_eq_iff_response (by tauto), IsResponseTo]
  cases m.statusCode with
  | none => simp
  | some code =>
    simp only [Option.map_some, Option.some.injEq, inviteResponseSignal]
    cases responseClass code <;> (try split_ifs) <;> simp

/-- A final response to the INVITE that turns the call away: a redirect or a failure, challenges
and `487` apart. -/
def Refuses (m : SipMessage) : Prop :=
  m.IsResponseTo .invite .redirect ∨ m.IsResponseTo .invite .declined ∨
    m.IsResponseTo .invite .failure

theorem signal_refuses : m.signal = .redirect ∨ m.signal = .refuse ↔ m.Refuses := by
  rw [signal_eq_iff_response (by tauto), signal_eq_iff_response (by tauto), Refuses,
    IsResponseTo, IsResponseTo, IsResponseTo]
  cases m.statusCode with
  | none => simp
  | some code =>
    simp only [Option.map_some, Option.some.injEq, inviteResponseSignal]
    cases responseClass code <;> (try split_ifs) <;> simp

theorem callSignal_request_eq_cancel :
    callSignal (.request method sub) = .cancel ↔ method = .cancel := by
  unfold callSignal
  split <;> simp_all

theorem callSignal_request_eq_bye : callSignal (.request method sub) = .bye ↔ method = .bye := by
  unfold callSignal
  split <;> simp_all

theorem callSignal_response_ne (cseqMethod : Option SipMethod) (code : ℕ) (expiry : Option ℕ) :
    callSignal (.response cseqMethod code expiry) ≠ .cancel ∧
      callSignal (.response cseqMethod code expiry) ≠ .bye := by
  have hinvite : inviteResponseSignal code ≠ .cancel ∧ inviteResponseSignal code ≠ .bye := by
    unfold inviteResponseSignal
    cases responseClass code <;> (try split_ifs) <;> simp
  unfold callSignal
  split <;> (try split_ifs) <;> simp_all

theorem signal_eq_cancel : m.signal = .cancel ↔ m.IsRequestOf .cancel := by
  unfold IsRequestOf
  cases hreq : m.isRequest with
  | true =>
    cases hmethod : m.method <;>
      simp [signal_request hreq, hmethod, callSignal_request_eq_cancel]
  | false => cases hcode : m.statusCode <;> simp [signal_response hreq, hcode, callSignal_response_ne]

theorem signal_eq_bye : m.signal = .bye ↔ m.IsRequestOf .bye := by
  unfold IsRequestOf
  cases hreq : m.isRequest with
  | true =>
    cases hmethod : m.method <;> simp [signal_request hreq, hmethod, callSignal_request_eq_bye]
  | false => cases hcode : m.statusCode <;> simp [signal_response hreq, hcode, callSignal_response_ne]

theorem signal_eq_byeAnswered : m.signal = .byeAnswered ↔ m.IsResponseTo .bye .success := by
  unfold IsResponseTo
  cases hreq : m.isRequest with
  | true =>
    cases hmethod : m.method with
    | none => simp [signal_request hreq, hmethod]
    | some method =>
      have hne := callSignal_request_ne method m.subscriptionState .byeAnswered (by tauto)
      simp [signal_request hreq, hmethod, hne]
  | false =>
    cases hcode : m.statusCode with
    | none => simp [signal_response hreq, hcode]
    | some code =>
      have hinvite : inviteResponseSignal code ≠ .byeAnswered := by
        unfold inviteResponseSignal
        cases responseClass code <;> (try split_ifs) <;> simp
      simp only [signal_response hreq, hcode, Option.elim_some, Option.map_some, Option.some.injEq]
      cases hmethod : m.cseqMethod with
      | none => simp [callSignal]
      | some method => cases method <;> simp [callSignal, hinvite]

end SipMessage

end Sipnab
