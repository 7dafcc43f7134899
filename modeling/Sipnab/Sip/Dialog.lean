import Sipnab.Sip.StateMachine
import Sipnab.Sip.Timing
import Sipnab.Sip.SdpTimeline

/-!
# Dialogs and the rule one message is folded in by

`openDialog` makes a dialog of its first message and `advanceDialog` folds in each later one. A
message whose `CSeq` identity the dialog has seen is a retransmission: it is counted, marked and
stored, and changes nothing else but the time of the last update.

`openDialog` and `advanceDialog` do not read the retransmission mark a message arrives with, and
the state they give a dialog is the transition table's. These are the facts every result on runs
starts from.
-/

namespace Sipnab

inductive RemoteTagBasis
  | noDialog | early | confirmed
  deriving DecidableEq

def RemoteTagBasis.rank : RemoteTagBasis → ℕ
  | .noDialog => 0
  | .early => 1
  | .confirmed => 2

structure SipDialog where
  callId : String
  fromUser : Option String
  toUser : Option String
  fromHost : Option String
  toHost : Option String
  fromUri : Option String
  toUri : Option String
  requestUri : Option String
  paiUser : Option String
  fromTag : Option String
  toTag : Option String
  toTagBasis : RemoteTagBasis
  fromDisplay : Option String
  toDisplay : Option String
  state : DialogState
  method : SipMethod
  messages : List SipMessage
  createdAt : DateTime
  updatedAt : DateTime
  tags : List String
  srcAddr : IpAddr
  dstAddr : IpAddr
  srcPort : ℕ
  firstFrame : Option FrameRef
  inputOrigin : Option InputOrigin
  dstPort : ℕ
  timing : DialogTiming
  sdpTimeline : List SdpExchange
  referTo : Option String
  siprecMetadata : Option SirecMetadata
  seenCseq : Finset String
  deriving DecidableEq

def maxSeenCseqPerDialog : ℕ := 4096

def remoteTagBasis (opening : SipMethod) (m : SipMessage) : RemoteTagBasis :=
  if m.isRequest then .noDialog
  else
    let answersOpening := m.cseqMethod = some opening
    match m.statusCode with
    | none => .noDialog
    | some code =>
      if 101 ≤ code ∧ code ≤ 199 ∧ answersOpening then .early
      else if 200 ≤ code ∧ code ≤ 299 ∧ answersOpening then .confirmed
      else .noDialog

def SipMessage.openingMethod (m : SipMessage) : Option SipMethod :=
  if m.isRequest then m.method else m.cseqMethod

def initialState : SipMethod → DialogState
  | .subscribe => .pending
  | _ => .trying

def SipDialog.new (m : SipMessage) : Option SipDialog := do
  let callId ← m.callId
  let method ← m.openingMethod
  some {
    callId
    fromUser := m.fromUser
    toUser := m.toUser
    fromHost := m.fromHost
    toHost := m.toHost
    fromUri := m.fromUri
    toUri := m.toUri
    requestUri := m.requestUri
    paiUser := m.paiUser
    fromTag := m.fromTag
    toTag := m.toTag
    toTagBasis := remoteTagBasis method m
    fromDisplay := m.fromDisplay
    toDisplay := m.toDisplay
    state := initialState method
    method
    messages := [m]
    createdAt := m.timestamp
    updatedAt := m.timestamp
    tags := []
    srcAddr := m.srcAddr
    dstAddr := m.dstAddr
    srcPort := m.srcPort
    firstFrame := m.frame
    inputOrigin := m.inputOrigin
    dstPort := m.dstPort
    timing := {}
    sdpTimeline := []
    referTo := none
    siprecMetadata := none
    seenCseq := m.seenCseqKey.toFinset }

/-- What a message is to the transition table; a message with neither a method nor a status is
nothing to it. -/
def SipMessage.arrival (m : SipMessage) : Option Arrival :=
  if m.isRequest then m.method.map (fun method => .request method m.subscriptionState)
  else m.statusCode.map (fun code => .response m.cseqMethod code m.registrationExpiry)

def advanceState (method : SipMethod) (state : DialogState) (m : SipMessage) : DialogState :=
  match m.arrival with
  | some arrival => next (familyOfSeed method) state arrival
  | none => state

/-- The remote tag after `m`: taken when none is held or when `m` is stronger evidence. A tag
equal to the local one names the caller and is never taken. -/
def advanceRemoteTag (d : SipDialog) (m : SipMessage) : Option String × RemoteTagBasis :=
  match m.toTag with
  | none => (d.toTag, d.toTagBasis)
  | some tag =>
    let basis := remoteTagBasis d.method m
    if d.fromTag ≠ some tag ∧ (d.toTag = none ∨ d.toTagBasis.rank < basis.rank) then
      (some tag, basis)
    else (d.toTag, d.toTagBasis)

def updateState (d : SipDialog) (m : SipMessage) : SipDialog :=
  { d with
    state := advanceState d.method d.state m
    toTag := (advanceRemoteTag d m).1
    toTagBasis := (advanceRemoteTag d m).2 }

def applyMessageDerived (rd : BodyReaders) (d : SipDialog) (m : SipMessage) : SipDialog :=
  let d := { d with sdpTimeline := trackSdp rd d.sdpTimeline m }
  let d :=
    if m.isRequest ∧ m.method = some .refer then
      { d with
        referTo := (m.header "Refer-To").or d.referTo
        sdpTimeline := trackTransfer d.sdpTimeline m }
    else d
  { d with siprecMetadata := (rd.metadataOf m).or d.siprecMetadata }

/-- The three updates every message that is not a retransmission makes. -/
def takeMessage (rd : BodyReaders) (d : SipDialog) (m : SipMessage) : SipDialog :=
  let d := updateState d m
  applyMessageDerived rd { d with timing := updateTiming d.timing m d.method } m

def openDialog (rd : BodyReaders) (m : SipMessage) : Option SipDialog :=
  (SipDialog.new m).map (fun d => takeMessage rd d m)

def storeMessage (cap : ℕ) (messages : List SipMessage) (m : SipMessage) : List SipMessage :=
  if messages.length < cap then messages ++ [m] else messages

def isSeen (seen : Finset String) (m : SipMessage) : Prop := ∃ k ∈ m.seenCseqKey, k ∈ seen

instance (seen : Finset String) (m : SipMessage) : Decidable (isSeen seen m) :=
  inferInstanceAs (Decidable (∃ k ∈ m.seenCseqKey, k ∈ seen))

def remember (seen : Finset String) (m : SipMessage) : Finset String :=
  if seen.card < maxSeenCseqPerDialog then seen ∪ m.seenCseqKey.toFinset else seen

def SipMessage.marked (m : SipMessage) : SipMessage := { m with isRetransmission := true }

def advanceDialog (rd : BodyReaders) (cap : ℕ) (d : SipDialog) (m : SipMessage) : SipDialog :=
  if isSeen d.seenCseq m then
    { d with
      timing := { d.timing with
        retransmitCounts := (m.cseqKey.elim 0 ({·})) + d.timing.retransmitCounts }
      messages := storeMessage cap d.messages m.marked
      updatedAt := m.timestamp }
  else
    let d := { d with seenCseq := remember d.seenCseq m }
    let d := takeMessage rd d m
    { d with
      messages := storeMessage cap d.messages m
      updatedAt := m.timestamp }

/-! ## The final status code -/

structure FinalCodeFold where
  max2xx : Option ℕ := none
  maxNonAuth : Option ℕ := none
  maxAny : Option ℕ := none

def raiseTo (best : Option ℕ) (code : ℕ) : Option ℕ := some (best.elim code (max · code))

def FinalCodeFold.observe (f : FinalCodeFold) (code : ℕ) : FinalCodeFold :=
  if code < 200 then f
  else {
    maxAny := raiseTo f.maxAny code
    maxNonAuth := if code ≠ 401 ∧ code ≠ 407 then raiseTo f.maxNonAuth code else f.maxNonAuth
    max2xx := if code < 300 then raiseTo f.max2xx code else f.max2xx }

def FinalCodeFold.outcome (f : FinalCodeFold) : Option ℕ := (f.max2xx.or f.maxNonAuth).or f.maxAny

def responseCodes (messages : List SipMessage) (method : String) : List ℕ :=
  messages.filterMap (fun m =>
    if m.isRequest = false ∧ m.cseq.map Prod.snd = some method then m.statusCode else none)

def SipDialog.finalStatusCode (d : SipDialog) : Option ℕ :=
  let foldOf := fun method => (responseCodes d.messages method).foldl FinalCodeFold.observe {}
  if d.messages.any (fun m => m.cseq.map Prod.snd = some "INVITE") then (foldOf "INVITE").outcome
  else (foldOf d.method.asStr).outcome

def FinalCodeFold.Answered (f : FinalCodeFold) : Prop :=
  ∃ code, f.max2xx = some code ∧ 200 ≤ code ∧ code ≤ 299

theorem FinalCodeFold.observe_max2xx (f : FinalCodeFold) (code : ℕ) :
    (f.observe code).max2xx =
      if 200 ≤ code ∧ code ≤ 299 then raiseTo f.max2xx code else f.max2xx := by
  unfold FinalCodeFold.observe
  split_ifs <;> first | rfl | omega

theorem FinalCodeFold.Answered.observe {f : FinalCodeFold} (hf : f.Answered) (code : ℕ) :
    (f.observe code).Answered := by
  obtain ⟨best, hbest, hlo, hhi⟩ := hf
  unfold FinalCodeFold.Answered
  rw [FinalCodeFold.observe_max2xx]
  split_ifs with hcode
  · exact ⟨max best code, by simp [hbest, raiseTo], by omega, by omega⟩
  · exact ⟨best, hbest, hlo, hhi⟩

theorem FinalCodeFold.answered_observe_2xx {f : FinalCodeFold} {code : ℕ}
    (hf : f.max2xx = none ∨ f.Answered) (hlo : 200 ≤ code) (hhi : code ≤ 299) :
    (f.observe code).Answered := by
  rcases hf with hf | hf
  · exact ⟨code, by rw [FinalCodeFold.observe_max2xx, if_pos ⟨hlo, hhi⟩, hf]; rfl, hlo, hhi⟩
  · exact hf.observe code

theorem FinalCodeFold.answered_foldl (codes : List ℕ) (f : FinalCodeFold)
    (hf : f.max2xx = none ∨ f.Answered)
    (hcodes : f.Answered ∨ ∃ code ∈ codes, 200 ≤ code ∧ code ≤ 299) :
    (codes.foldl FinalCodeFold.observe f).Answered := by
  induction codes generalizing f with
  | nil => simpa using hcodes
  | cons c codes ih =>
    have hnext : (f.observe c).max2xx = none ∨ (f.observe c).Answered := by
      by_cases hc : 200 ≤ c ∧ c ≤ 299
      · exact Or.inr (answered_observe_2xx hf hc.1 hc.2)
      · rcases hf with hf | hf
        · exact Or.inl (by rw [FinalCodeFold.observe_max2xx, if_neg hc, hf])
        · exact Or.inr (hf.observe c)
    refine ih (f.observe c) hnext ?_
    rcases hcodes with hf' | ⟨code, hmem, hlo, hhi⟩
    · exact Or.inl (hf'.observe c)
    · rcases List.mem_cons.mp hmem with rfl | hmem
      · exact Or.inl (answered_observe_2xx hf hlo hhi)
      · exact Or.inr ⟨code, hmem, hlo, hhi⟩

theorem FinalCodeFold.Answered.outcome {f : FinalCodeFold} (hf : f.Answered) :
    ∃ code, f.outcome = some code ∧ 200 ≤ code ∧ code ≤ 299 := by
  obtain ⟨code, hcode, hlo, hhi⟩ := hf
  exact ⟨code, by simp [FinalCodeFold.outcome, hcode], hlo, hhi⟩

/-! ## What arrives at a dialog -/

def SipMessage.IsRequestOf (m : SipMessage) (method : SipMethod) : Prop :=
  m.isRequest = true ∧ m.method = some method

def SipMessage.IsResponseTo (m : SipMessage) (method : SipMethod) (cls : ResponseClass) : Prop :=
  m.isRequest = false ∧ m.cseqMethod = some method ∧ m.statusCode.map responseClass = some cls

instance (m : SipMessage) (method : SipMethod) : Decidable (m.IsRequestOf method) :=
  inferInstanceAs (Decidable (_ ∧ _))

instance (m : SipMessage) (method : SipMethod) (cls : ResponseClass) :
    Decidable (m.IsResponseTo method cls) :=
  inferInstanceAs (Decidable (_ ∧ _ ∧ _))

theorem SipDialog.finalStatusCode_of_answer (d : SipDialog)
    (hanswer : ∃ m ∈ d.messages, m.IsResponseTo .invite .success) :
    ∃ code, d.finalStatusCode = some code ∧ 200 ≤ code ∧ code ≤ 299 := by
  obtain ⟨m, hm, hresp, hcseq, hclass⟩ := hanswer
  obtain ⟨code, hcode, hsuccess⟩ := Option.map_eq_some_iff.mp hclass
  obtain ⟨⟨num, name⟩, hpair, hname⟩ := Option.map_eq_some_iff.mp hcseq
  have hinvite : m.cseq.map Prod.snd = some "INVITE" := by
    simpa [hpair] using (SipMethod.parse_eq_invite_iff name).mp hname
  have hmem : code ∈ responseCodes d.messages "INVITE" :=
    List.mem_filterMap.mpr ⟨m, hm, by rw [if_pos ⟨hresp, hinvite⟩, hcode]⟩
  have hholds : d.messages.any (fun m => m.cseq.map Prod.snd = some "INVITE") = true :=
    List.any_eq_true.mpr ⟨m, hm, decide_eq_true hinvite⟩
  have hrange := (responseClass_eq_success_iff code).mp hsuccess
  have hfold := FinalCodeFold.answered_foldl (responseCodes d.messages "INVITE") {}
    (Or.inl rfl) (Or.inr ⟨code, hmem, hrange⟩)
  unfold SipDialog.finalStatusCode
  simpa only [hholds, if_true] using hfold.outcome

def SipMessage.signal (m : SipMessage) : CallSignal := m.arrival.elim .idle callSignal

theorem advanceState_invite {method : SipMethod} (hfamily : familyOfSeed method = .invite)
    (state : DialogState) (m : SipMessage) :
    advanceState method state m = m.signal.step state := by
  unfold advanceState SipMessage.signal
  cases m.arrival with
  | none => rfl
  | some arrival => simp only [hfamily, next_invite, Option.elim_some]

end Sipnab
