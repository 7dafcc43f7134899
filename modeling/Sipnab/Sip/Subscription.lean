import Sipnab.Sip.DialogRuns

/-!
# When an ended subscription stays ended

In a SUBSCRIBE dialog the response half of the table reads the class of a response and not the
transaction it answers. A NOTIFY that ends the subscription is itself answered, and its `200`
grants no interval of zero, so the answer makes the subscription active again. A subscription
stays ended exactly as long as no such response arrives.
-/

namespace Sipnab

open List

/-- A request that tells the subscriber the subscription is over. -/
def SipMessage.EndsSubscription (m : SipMessage) : Prop :=
  m.IsRequestOf .notify ∧ m.subscriptionState = some "terminated"

instance (m : SipMessage) : Decidable m.EndsSubscription :=
  inferInstanceAs (Decidable (_ ∧ _))

/-- Nothing the subscriber asks, is granted or is told speaks of a subscription that goes on. -/
def SipMessage.KeepsEnded (m : SipMessage) : Prop :=
  ¬ m.IsRequestOf .subscribe ∧ ¬ m.IsResponseTo .subscribe .success ∧
    (m.IsRequestOf .notify → m.EndsSubscription)

instance (m : SipMessage) : Decidable m.KeepsEnded :=
  inferInstanceAs (Decidable (_ ∧ _ ∧ (_ → _)))

/-- A response, to whatever request, that the table takes for a live or moved subscription. -/
def SipMessage.RevivesSubscription (m : SipMessage) : Prop :=
  m.isRequest = false ∧
    (m.statusCode.map responseClass = some .redirect ∨
      (m.statusCode.map responseClass = some .success ∧ m.registrationExpiry ≠ some 0))

instance (m : SipMessage) : Decidable m.RevivesSubscription :=
  inferInstanceAs (Decidable (_ ∧ (_ ∨ (_ ∧ _))))

variable {method : SipMethod} {m : SipMessage}

section

variable (hfamily : familyOfSeed method = .subscribe)
include hfamily

theorem advanceState_endsSubscription (state : DialogState) (hm : m.EndsSubscription) :
    advanceState method state m = .terminated := by
  obtain ⟨⟨hreq, hmethod⟩, hsub⟩ := hm
  have hstrip : String.ofList (Text.trim (Text.firstPiece ';' "terminated".toList)) =
      "terminated" := by decide
  have harrival : m.arrival = some (.request .notify (some "terminated")) := by
    simp [SipMessage.arrival, hreq, hmethod, hsub]
  simp only [advanceState, harrival, next, hfamily, transition, requestCell, Option.map_some,
    hstrip, Cell.apply]

theorem advanceState_subscribe_request (state : DialogState) (hreq : m.isRequest = true)
    (hnotify : ¬ m.IsRequestOf .notify) : advanceState method state m = state := by
  cases hmethod : m.method with
  | none => simp [advanceState, SipMessage.arrival, hreq, hmethod]
  | some kind =>
    have hne : kind ≠ .notify := fun hk => hnotify ⟨hreq, by rw [hmethod, hk]⟩
    have harrival : m.arrival = some (.request kind m.subscriptionState) := by
      simp [SipMessage.arrival, hreq, hmethod]
    simp only [advanceState, harrival, next, hfamily, transition, requestCell]
    cases kind <;> first | rfl | exact absurd rfl hne

theorem advanceState_subscribe_response (hresp : m.isRequest = false) :
    advanceState method .terminated m = .terminated ↔ ¬ m.RevivesSubscription := by
  cases hcode : m.statusCode with
  | none => simp [advanceState, SipMessage.arrival, SipMessage.RevivesSubscription, hresp, hcode]
  | some code =>
    have harrival : m.arrival = some (.response m.cseqMethod code m.registrationExpiry) := by
      simp [SipMessage.arrival, hresp, hcode]
    simp only [advanceState, harrival, next, hfamily, transition, responseCell,
      SipMessage.RevivesSubscription, hresp, hcode, Option.map_some, Option.some.injEq]
    cases responseClass code with
    | success => by_cases hzero : m.registrationExpiry = some 0 <;> simp [hzero, Cell.apply]
    | _ => simp [Cell.apply]

theorem advanceState_keepsEnded (hm : m.KeepsEnded) :
    advanceState method .terminated m = .terminated ↔ ¬ m.RevivesSubscription := by
  cases hreq : m.isRequest with
  | false => exact advanceState_subscribe_response hfamily hreq
  | true =>
    have hrevives : ¬ m.RevivesSubscription := by simp [SipMessage.RevivesSubscription, hreq]
    refine iff_of_true ?_ hrevives
    by_cases hnotify : m.IsRequestOf .notify
    · exact advanceState_endsSubscription hfamily _ (hm.2.2 hnotify)
    · exact advanceState_subscribe_request hfamily _ hreq hnotify

end

/-- In a stretch that speaks of no further subscription, the subscription is over at every message
exactly when none of them is a `3xx`, or a `2xx` that grants no interval of zero. -/
theorem ended_subscription_stays_iff (d : SipDialog)
    (hfamily : familyOfSeed d.method = .subscribe) (notify : SipMessage)
    (hnotify : notify.EndsSubscription) (ms : List SipMessage)
    (hstretch : ∀ m ∈ ms, m.KeepsEnded) :
    (∀ pre, pre <+: ms → (pre.foldl updateState (updateState d notify)).state = .terminated) ↔
      ∀ m ∈ ms, ¬ m.RevivesSubscription := by
  have hstate : ∀ pre : List SipMessage, (pre.foldl updateState (updateState d notify)).state =
      pre.foldl (advanceState d.method) .terminated := by
    intro pre
    rw [foldl_updateState, ← advanceState_endsSubscription hfamily d.state hnotify]
    rfl
  simp only [hstate]
  induction ms using List.reverseRecOn with
  | nil => simp
  | append_singleton ms m ih =>
    rw [forall_mem_append, forall_mem_singleton] at hstretch
    have hkeep := advanceState_keepsEnded hfamily hstretch.2
    rw [forall_mem_append, forall_mem_singleton, ← hkeep]
    refine Iff.trans ?_ (and_congr_left' (ih hstretch.1))
    constructor
    · intro hall
      have hms := fun pre (hpre : pre <+: ms) => hall pre (hpre.trans (prefix_append ms [m]))
      refine ⟨hms, ?_⟩
      have hlast := hall (ms ++ [m]) prefix_rfl
      rwa [foldl_append, hms ms prefix_rfl] at hlast
    · rintro ⟨hms, hlast⟩ pre hpre
      rcases prefix_concat_iff.mp hpre with rfl | hpre
      · rw [foldl_append, hms ms prefix_rfl]
        exact hlast
      · exact hms pre hpre

section
open SipMessage (plainRequest plainResponse)

def endingNotify : SipMessage :=
  { plainRequest "s" 7 .notify "z7" ";tag=b" with
    headers := ⟨"Subscription-State", "terminated;reason=timeout"⟩ ::
      (plainRequest "s" 7 .notify "z7" ";tag=b").headers }

/-- A failure of the NOTIFY leaves the subscription over. -/
theorem ended_subscription_stays_iff_refused :
    let d := (dialogOf .bodiless 10 [plainRequest "s" 1 .subscribe "z1" ""]).get (by decide)
    ∀ pre, pre <+: [plainResponse "s" 481 7 .notify "z7"] →
      (pre.foldl updateState (updateState d endingNotify)).state = .terminated := by
  intro d
  exact (ended_subscription_stays_iff d (by decide) endingNotify (by decide) _
    (by decide)).mpr (by decide)

/-- The `200` to the NOTIFY that ended the subscription makes it active again. -/
theorem ended_subscription_revived :
    let d := (dialogOf .bodiless 10 [plainRequest "s" 1 .subscribe "z1" ""]).get (by decide)
    familyOfSeed d.method = .subscribe ∧ endingNotify.EndsSubscription ∧
      (plainResponse "s" 200 7 .notify "z7").KeepsEnded ∧
      (plainResponse "s" 200 7 .notify "z7").cseqMethod = some .notify ∧
      (updateState d endingNotify).state = .terminated ∧
      (updateState (updateState d endingNotify) (plainResponse "s" 200 7 .notify "z7")).state =
        .active := by
  decide

end

end Sipnab
