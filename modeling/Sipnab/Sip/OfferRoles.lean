import Sipnab.Sip.HoldResume

/-!
# Offers and answers on the timeline

The timeline labels each session description as an offer or an answer by the kind of its message
and by whether any offer came before. What a description is in truth depends on the exchange that is
open: an INVITE without one leaves the offer to a response, and the answer then comes in the PRACK
or the ACK.
-/

namespace Sipnab.OfferRoles

inductive Phase
  | quiet
  /-- An INVITE came without an offer; it is to come in a reliable response. -/
  | delayed
  /-- A request of the method carried an offer. -/
  | offered (method : SipMethod)
  /-- A response to the method carried the answer, and further ones may repeat it. -/
  | answered (method : SipMethod)
  /-- A reliable provisional response carried the offer; the answer is to come in the PRACK. -/
  | offeredReliable
  /-- A successful response carried the offer; the answer is to come in the ACK. -/
  | offeredFinal
  deriving DecidableEq

def isSuccess (m : SipMessage) : Bool := m.statusCode.any (fun code => 200 ≤ code && code < 300)

def isReliableProvisional (m : SipMessage) : Bool :=
  m.statusCode.any (fun code => 100 < code && code < 200) && (m.header "RSeq").isSome

def isFailure (m : SipMessage) : Bool := m.statusCode.any (fun code => 300 ≤ code)

/-- A message without a session description: an INVITE waits for an offer, and a refusal closes the
exchange it refuses. -/
def silentRule (phase : Phase) (m : SipMessage) : Option Phase :=
  if m.isRequest then
    if m.method = some .invite then
      match phase with
      | .quiet | .delayed | .answered _ => some .delayed
      | _ => none
    else some phase
  else if isFailure m then
    match phase with
    | .offered method => some (if m.cseqMethod = some method then .quiet else phase)
    | .delayed => some (if m.cseqMethod = some .invite then .quiet else phase)
    | _ => some phase
  else some phase

/-- A message with a session description: what is open behind it, and the role of the
description. -/
def bodyRule (phase : Phase) (m : SipMessage) : Option (Phase × OfferAnswer) :=
  if m.isRequest then
    match phase, m.method with
    | .quiet, some .invite | .answered _, some .invite => some (.offered .invite, .offer)
    | .quiet, some .update | .answered _, some .update => some (.offered .update, .offer)
    | .offeredReliable, some .prack => some (.quiet, .answer)
    | .offeredFinal, some .ack => some (.quiet, .answer)
    | _, _ => none
  else
    match phase with
    | .offered method | .answered method =>
      if m.cseqMethod = some method then some (.answered method, .answer) else none
    | .delayed =>
      if m.cseqMethod = some .invite then
        if isSuccess m then some (.offeredFinal, .offer)
        else if isReliableProvisional m then some (.offeredReliable, .offer)
        else none
      else none
    | _ => none

/-- The roles of the descriptions of a dialog, in order; nothing when a message breaks the rules. -/
def trueRoles (rd : BodyReaders) : Phase → List SipMessage → Option (List OfferAnswer)
  | _, [] => some []
  | phase, m :: ms =>
    if (rd.sdp m).isSome then
      (bodyRule phase m).bind (fun next => (trueRoles rd next.1 ms).map (next.2 :: ·))
    else (silentRule phase m).bind (fun next => trueRoles rd next ms)

/-- The labels the timeline gives the descriptions of a dialog, in order. -/
def labels (rd : BodyReaders) : List SdpExchange → List SipMessage → List OfferAnswer
  | _, [] => []
  | timeline, m :: ms =>
    ((trackSdp rd timeline m).drop timeline.length).map SdpExchange.direction
      ++ labels rd (trackMessage rd timeline m) ms

def isRefer (m : SipMessage) : Bool := m.isRequest && m.method == some .refer

/-- No PRACK carries an answer, and a response carries an offer only when nothing before it was a
description or a REFER. -/
def OffersFirst (rd : BodyReaders) : Bool → List SipMessage → Phase → Prop
  | _, [], _ => True
  | seen, m :: ms, phase =>
    if (rd.sdp m).isSome then
      ((m.isRequest = true → m.method ≠ some .prack) ∧
          (m.isRequest = false → phase = .delayed → seen = false)) ∧
        ∀ next, bodyRule phase m = some next → OffersFirst rd true ms next.1
    else ∀ next, silentRule phase m = some next → OffersFirst rd (seen || isRefer m) ms next

/-! ## One message -/

variable {rd : BodyReaders} {timeline : List SdpExchange} {phase : Phase} {m : SipMessage}

def hasOffer (timeline : List SdpExchange) : Bool := timeline.any (·.direction == .offer)

theorem labels_silent (h : rd.sdp m = none) (ms : List SipMessage) :
    labels rd timeline (m :: ms) = labels rd (trackMessage rd timeline m) ms := by
  rw [labels, trackSdp, h, List.drop_length]
  rfl

theorem labels_body {sdp : SdpSession} (h : rd.sdp m = some sdp) (ms : List SipMessage) :
    labels rd timeline (m :: ms)
      = determineOfferAnswer timeline m :: labels rd (trackMessage rd timeline m) ms := by
  rw [labels, trackSdp, h, List.drop_left]
  rfl

theorem hasOffer_trackTransfer (timeline : List SdpExchange) (m : SipMessage) :
    hasOffer (trackTransfer timeline m) = (hasOffer timeline || isRefer m) := by
  unfold trackTransfer isRefer
  by_cases hrequest : m.isRequest = true
  · by_cases hrefer : m.method = some .refer
    · have hnot : ¬ (m.isRequest = false ∨ m.method ≠ some .refer) := by
        rw [hrequest, hrefer]
        simp
      rw [if_neg hnot, hrequest, hrefer, hasOffer, List.any_append]
      rfl
    · rw [if_pos (Or.inr hrefer), beq_eq_false_iff_ne.mpr hrefer, Bool.and_false, Bool.or_false]
  · rw [Bool.not_eq_true] at hrequest
    rw [if_pos (Or.inl hrequest), hrequest, Bool.false_and, Bool.or_false]

theorem hasOffer_silent (h : rd.sdp m = none) :
    hasOffer (trackMessage rd timeline m) = (hasOffer timeline || isRefer m) := by
  rw [trackMessage, trackSdp, h, hasOffer_trackTransfer]

theorem hasOffer_body {sdp : SdpSession} (h : rd.sdp m = some sdp) :
    hasOffer (trackMessage rd timeline m)
      = (hasOffer timeline || determineOfferAnswer timeline m == .offer || isRefer m) := by
  rw [trackMessage, trackSdp, h, hasOffer_trackTransfer, hasOffer, List.any_append]
  simp [hasOffer]

def UnderWay : Phase → Prop
  | .quiet | .delayed => False
  | _ => True

theorem underWay_of_silentRule {next : Phase} (h : silentRule phase m = some next)
    (hunder : UnderWay next) : UnderWay phase := by
  unfold silentRule at h
  cases phase with
  | quiet =>
    split_ifs at h <;> cases h <;> exact hunder
  | delayed =>
    dsimp only at h
    split_ifs at h <;> cases h <;> exact hunder
  | offered method => trivial
  | answered method => trivial
  | offeredReliable => trivial
  | offeredFinal => trivial

theorem bodyRule_cases {next : Phase × OfferAnswer} (h : bodyRule phase m = some next) :
    (m.isRequest = true ∧ (m.method = some .invite ∨ m.method = some .update) ∧ next.2 = .offer) ∨
      (m.isRequest = true ∧ m.method = some .prack ∧ UnderWay phase ∧ next.2 = .answer) ∨
      (m.isRequest = true ∧ m.method = some .ack ∧ UnderWay phase ∧ next.2 = .answer) ∨
      (m.isRequest = false ∧ UnderWay phase ∧ next.2 = .answer) ∨
      (m.isRequest = false ∧ phase = .delayed ∧ next.2 = .offer) := by
  unfold bodyRule at h
  split at h
  case isTrue hrequest =>
    split at h
    case h_1 hmethod => cases h; exact Or.inl ⟨hrequest, Or.inl hmethod, rfl⟩
    case h_2 hmethod => cases h; exact Or.inl ⟨hrequest, Or.inl hmethod, rfl⟩
    case h_3 hmethod => cases h; exact Or.inl ⟨hrequest, Or.inr hmethod, rfl⟩
    case h_4 hmethod => cases h; exact Or.inl ⟨hrequest, Or.inr hmethod, rfl⟩
    case h_5 hmethod => cases h; exact Or.inr (Or.inl ⟨hrequest, hmethod, trivial, rfl⟩)
    case h_6 hmethod => cases h; exact Or.inr (Or.inr (Or.inl ⟨hrequest, hmethod, trivial, rfl⟩))
    case h_7 => cases h
  case isFalse hrequest =>
    rw [Bool.not_eq_true] at hrequest
    split at h
    case h_1 method =>
      split_ifs at h
      cases h
      exact Or.inr (Or.inr (Or.inr (Or.inl ⟨hrequest, trivial, rfl⟩)))
    case h_2 method =>
      split_ifs at h
      cases h
      exact Or.inr (Or.inr (Or.inr (Or.inl ⟨hrequest, trivial, rfl⟩)))
    case h_3 =>
      split_ifs at h <;> cases h <;>
        exact Or.inr (Or.inr (Or.inr (Or.inr ⟨hrequest, rfl, rfl⟩)))
    case h_4 => cases h

theorem label_of_bodyRule {next : Phase × OfferAnswer} (h : bodyRule phase m = some next)
    (hunder : UnderWay phase → hasOffer timeline = true) :
    (determineOfferAnswer timeline m = next.2 ↔
        (m.isRequest = true → m.method ≠ some .prack) ∧
          (m.isRequest = false → phase = .delayed → hasOffer timeline = false)) ∧
      (hasOffer timeline || determineOfferAnswer timeline m == .offer) = true := by
  unfold determineOfferAnswer
  rw [← hasOffer]
  obtain ⟨hrequest, hmethod, hrole⟩ | ⟨hrequest, hmethod, hphase, hrole⟩ |
    ⟨hrequest, hmethod, hphase, hrole⟩ | ⟨hrequest, hphase, hrole⟩ | ⟨hrequest, hphase, hrole⟩ :=
    bodyRule_cases h
  · have hack : m.method ≠ some .ack := by
      obtain hmethod | hmethod := hmethod <;> rw [hmethod] <;> decide
    have hprack : m.method ≠ some .prack := by
      obtain hmethod | hmethod := hmethod <;> rw [hmethod] <;> decide
    rw [if_pos hrequest, if_neg hack, hrole, hrequest]
    exact ⟨iff_of_true rfl ⟨fun _ => hprack, fun hfalse => (by cases hfalse)⟩, Bool.or_true _⟩
  · rw [if_pos hrequest, hmethod, if_neg (by decide), hrole, hrequest]
    exact ⟨iff_of_false (by decide) (fun hnot => hnot.1 rfl rfl), Bool.or_true _⟩
  · rw [if_pos hrequest, hmethod, if_pos rfl, hrole, hunder hphase, hrequest]
    exact ⟨iff_of_true rfl ⟨fun _ => (by decide), fun hfalse => (by cases hfalse)⟩, rfl⟩
  · have hnot : phase ≠ .delayed := by
      rintro rfl
      exact hphase
    rw [if_neg (by rw [hrequest]; decide), hunder hphase, if_pos rfl, hrole, hrequest]
    exact ⟨iff_of_true rfl ⟨fun hfalse => (by cases hfalse), fun _ hdelayed => absurd hdelayed hnot⟩,
      rfl⟩
  · rw [if_neg (by rw [hrequest]; decide), hrole, hrequest]
    cases hasOffer timeline with
    | true => exact ⟨iff_of_false (by decide) (fun hnot => (by cases hnot.2 rfl hphase)), rfl⟩
    | false => exact ⟨iff_of_true rfl ⟨fun hfalse => (by cases hfalse), fun _ _ => rfl⟩, rfl⟩

/-! ## A whole dialog -/

theorem labels_eq_iff (ms : List SipMessage) {roles : List OfferAnswer}
    (hroles : trueRoles rd phase ms = some roles)
    (hunder : UnderWay phase → hasOffer timeline = true) :
    labels rd timeline ms = roles ↔ OffersFirst rd (hasOffer timeline) ms phase := by
  induction ms generalizing timeline phase roles with
  | nil =>
    cases hroles
    exact iff_of_true rfl trivial
  | cons m ms ih =>
    rw [trueRoles] at hroles
    rw [OffersFirst]
    cases hsdp : rd.sdp m with
    | none =>
      rw [hsdp, if_neg (by decide), Option.bind_eq_some_iff] at hroles
      obtain ⟨next, hnext, hroles⟩ := hroles
      have hunder' : UnderWay next → hasOffer (trackMessage rd timeline m) = true := by
        intro hphase
        rw [hasOffer_silent hsdp, hunder (underWay_of_silentRule hnext hphase), Bool.true_or]
      rw [if_neg (by decide), labels_silent hsdp, ih hroles hunder', hasOffer_silent hsdp, hnext]
      exact ⟨fun hfirst next' heq => (by cases heq; exact hfirst), fun hall => hall next rfl⟩
    | some sdp =>
      rw [hsdp, if_pos Option.isSome_some, Option.bind_eq_some_iff] at hroles
      obtain ⟨next, hnext, hroles⟩ := hroles
      obtain ⟨rest, hrest, rfl⟩ := Option.map_eq_some_iff.mp hroles
      obtain ⟨hlabel, hoffer⟩ := label_of_bodyRule hnext hunder
      have hoffer' : hasOffer (trackMessage rd timeline m) = true := by
        rw [hasOffer_body hsdp, hoffer, Bool.true_or]
      rw [if_pos Option.isSome_some, labels_body hsdp, List.cons.injEq, hlabel,
        ih hrest (fun _ => hoffer'), hoffer', hnext]
      refine and_congr_right (fun _ => ?_)
      exact ⟨fun hfirst next' heq => (by cases heq; exact hfirst), fun hall => hall next rfl⟩

/-- In a dialog that follows the rules every description is labelled with its role exactly when no
PRACK carries an answer and a response carries an offer only as the first description, with no REFER
before it. -/
theorem labels_true_iff (rd : BodyReaders) (ms : List SipMessage) {roles : List OfferAnswer}
    (hroles : trueRoles rd .quiet ms = some roles) :
    labels rd [] ms = roles ↔ OffersFirst rd false ms .quiet :=
  labels_eq_iff ms hroles (fun hphase => absurd hphase id)

section
open SipMessage (plainRequest plainResponse)

def emptyReaders : BodyReaders where
  sdp m := if m.body.isEmpty then none else some ⟨none, none, []⟩
  metadataOf _ := none

def withBody (m : SipMessage) : SipMessage := { m with body := [118, 61] }

/-- A call with an offer in the INVITE, an answer twice, and an UPDATE. -/
def updatedCall : List SipMessage :=
  [withBody (plainRequest "c" 1 .invite "z1" ""), withBody (plainResponse "c" 183 1 .invite "z1"),
    withBody (plainResponse "c" 200 1 .invite "z1"), plainRequest "c" 1 .ack "z2" "",
    withBody (plainRequest "c" 2 .update "z3" ""), withBody (plainResponse "c" 200 2 .update "z3")]

theorem labels_true_updatedCall :
    labels emptyReaders [] updatedCall = [.offer, .answer, .answer, .offer, .answer] := by
  have hroles : trueRoles emptyReaders .quiet updatedCall
      = some [.offer, .answer, .answer, .offer, .answer] := by decide
  refine (labels_true_iff emptyReaders updatedCall hroles).mpr ?_
  refine ⟨by decide, fun next hnext => ?_⟩
  cases hnext
  refine ⟨by decide, fun next hnext => ?_⟩
  cases hnext
  refine ⟨by decide, fun next hnext => ?_⟩
  cases hnext
  intro next hnext
  cases hnext
  refine ⟨by decide, fun next hnext => ?_⟩
  cases hnext
  refine ⟨by decide, fun next hnext => ?_⟩
  cases hnext
  trivial

/-- The call again, with an INVITE without an offer in place of the UPDATE. -/
def delayedCall : List SipMessage :=
  [withBody (plainRequest "c" 1 .invite "z1" ""), withBody (plainResponse "c" 200 1 .invite "z1"),
    plainRequest "c" 1 .ack "z2" "", plainRequest "c" 2 .invite "z3" "",
    withBody (plainResponse "c" 200 2 .invite "z3"), withBody (plainRequest "c" 2 .ack "z4" "")]

/-- The second offer comes in a response and is labelled an answer. -/
theorem delayed_offer_labelled_answer :
    trueRoles emptyReaders .quiet delayedCall = some [.offer, .answer, .offer, .answer] ∧
      labels emptyReaders [] delayedCall = [.offer, .answer, .answer, .answer] := by
  decide

end

end Sipnab.OfferRoles
