import Sipnab.Sip.Dialog

/-!
# Hold and resume on the timeline

The timeline compares each session description with the entry right before it, whoever sent that
entry and whatever it is. What a party means by a hold is a comparison of offers: an offer takes
the media from `sendrecv` to `sendonly` or `inactive`, and a later one takes it back. The two are
compared here over every dialog that follows offer and answer.
-/

namespace Sipnab

def trackMessage (rd : BodyReaders) (timeline : List SdpExchange) (m : SipMessage) :
    List SdpExchange :=
  trackTransfer (trackSdp rd timeline m) m

namespace HoldResume

/-- The part a message has in offer and answer. A REFER, like any message without a session
description, is silent. -/
inductive Role
  | offer | answer | silent
  deriving DecidableEq

/-- The direction of the media the timeline follows, the first of the body. -/
def bodyDirection (sdp : SdpSession) : SdpDirection :=
  match sdp.media with
  | [] => .sendRecv
  | first :: _ => first.direction

def Holds (direction : SdpDirection) : Prop := direction = .sendOnly ∨ direction = .inactive

instance (direction : SdpDirection) : Decidable (Holds direction) :=
  inferInstanceAs (Decidable (direction = .sendOnly ∨ direction = .inactive))

def Answers : SdpDirection → SdpDirection → Prop
  | .sendRecv, _ => True
  | .sendOnly, answer => answer = .recvOnly ∨ answer = .inactive
  | .recvOnly, answer => answer = .sendOnly ∨ answer = .inactive
  | .inactive, answer => answer = .inactive

/-- The dialog follows offer and answer; `pending` is the direction of an offer still to be
answered. -/
def FollowsOfferAnswer (rd : BodyReaders) : Option SdpDirection → List (Role × SipMessage) → Prop
  | _, [] => True
  | pending, (.offer, m) :: run =>
    pending = none ∧
      ∃ sdp, rd.sdp m = some sdp ∧ FollowsOfferAnswer rd (some (bodyDirection sdp)) run
  | pending, (.answer, m) :: run =>
    ∃ offered sdp, pending = some offered ∧ rd.sdp m = some sdp ∧
      Answers offered (bodyDirection sdp) ∧ FollowsOfferAnswer rd none run
  | pending, (.silent, m) :: run => rd.sdp m = none ∧ FollowsOfferAnswer rd pending run

/-- What the offers so far have made of the media. Media that was never `sendrecv`, or that an
offer of `recvonly` took, is neither active nor on hold. -/
inductive Media
  | idle | active | held
  deriving DecidableEq

def Media.afterOffer : Media → SdpDirection → Media
  | _, .sendRecv => .active
  | .active, .recvOnly => .idle
  | .active, .sendOnly | .active, .inactive => .held
  | s, _ => s

/-- An offer holds active media, or takes held media back. -/
def Media.offerMark : Media → SdpDirection → Option SdpEvent
  | .held, .sendRecv => some .resume
  | .active, .sendOnly | .active, .inactive => some .hold
  | _, _ => none

def mediaAfter (rd : BodyReaders) (s : Media) : Role × SipMessage → Media
  | (.offer, m) =>
    match rd.sdp m with
    | some sdp => s.afterOffer (bodyDirection sdp)
    | none => s
  | _ => s

def expectedMark (rd : BodyReaders) (s : Media) : Role × SipMessage → Option SdpEvent
  | (.offer, m) => (rd.sdp m).bind (fun sdp => s.offerMark (bodyDirection sdp))
  | _ => none

def isHoldMark : SdpEvent → Bool
  | .hold | .resume => true
  | _ => false

def holdMarks (timeline : List SdpExchange) : List SdpEvent :=
  (timeline.filterMap SdpExchange.event).filter isHoldMark

/-- Each message adds a hold or a resume to the timeline exactly when it is an offer that makes
one. -/
def RecordsHolds (rd : BodyReaders) : List SdpExchange → Media → List (Role × SipMessage) → Prop
  | _, _, [] => True
  | timeline, s, e :: run =>
    holdMarks (trackMessage rd timeline e.2) = holdMarks timeline ++ (expectedMark rd s e).toList ∧
      RecordsHolds rd (trackMessage rd timeline e.2) (mediaAfter rd s e) run

instance instDecidableRecordsHolds (rd : BodyReaders) :
    ∀ timeline s run, Decidable (RecordsHolds rd timeline s run)
  | _, _, [] => isTrue trivial
  | timeline, s, e :: run =>
    @instDecidableAnd _ _ inferInstance
      (instDecidableRecordsHolds rd (trackMessage rd timeline e.2) (mediaAfter rd s e) run)

def Alternates (marks : List SdpEvent) : Prop :=
  marks.head? ≠ some .resume ∧ marks.IsChain (· ≠ ·)

/-! ### Where the timeline reads offers right -/

def lastMode (timeline : List SdpExchange) : Option String :=
  timeline.getLast?.map SdpExchange.mode

def LastActive (timeline : List SdpExchange) : Prop := lastMode timeline = some "sendrecv"

def LastHolds (timeline : List SdpExchange) : Prop :=
  lastMode timeline = some "sendonly" ∨ lastMode timeline = some "inactive"

/-- The body is the first of T.38 after an entry that was not. -/
def SwitchesToFax (timeline : List SdpExchange) (sdp : SdpSession) : Prop :=
  (extractMediaInfo sdp).isT38 = true ∧ (timeline.getLast?.map SdpExchange.isT38) = some false

/-- A hold comes right after a `sendrecv` entry, a resume right after one on hold, neither with
the switch to T.38; and no other offer of `sendrecv` comes right after an entry on hold. -/
def OfferReads (timeline : List SdpExchange) (s : Media) (sdp : SdpSession) : Prop :=
  match s, bodyDirection sdp with
  | .active, .sendOnly | .active, .inactive => LastActive timeline ∧ ¬ SwitchesToFax timeline sdp
  | .held, .sendRecv => LastHolds timeline ∧ ¬ SwitchesToFax timeline sdp
  | _, .sendRecv => LastHolds timeline → SwitchesToFax timeline sdp
  | _, _ => True

def AnswerReads (timeline : List SdpExchange) (sdp : SdpSession) : Prop :=
  LastActive timeline → Holds (bodyDirection sdp) → SwitchesToFax timeline sdp

def StepReads (rd : BodyReaders) (timeline : List SdpExchange) (s : Media) :
    Role × SipMessage → Prop
  | (.offer, m) => ∀ sdp ∈ rd.sdp m, OfferReads timeline s sdp
  | (.answer, m) => ∀ sdp ∈ rd.sdp m, AnswerReads timeline sdp
  | (.silent, _) => True

def StepsRead (rd : BodyReaders) : List SdpExchange → Media → List (Role × SipMessage) → Prop
  | _, _, [] => True
  | timeline, s, e :: run =>
    StepReads rd timeline s e ∧ StepsRead rd (trackMessage rd timeline e.2) (mediaAfter rd s e) run

/-! ### One message -/

theorem extractMediaInfo_mode (sdp : SdpSession) :
    (extractMediaInfo sdp).mode = (bodyDirection sdp).asStr := by
  unfold extractMediaInfo bodyDirection
  cases sdp.media <;> rfl

variable {offered : SdpDirection} (d : SdpDirection) (run : List (Role × SipMessage))

theorem asStr_eq_sendrecv_iff : d.asStr = "sendrecv" ↔ d = .sendRecv := by
  cases d <;> simp [SdpDirection.asStr]

theorem asStr_holds_iff : (d.asStr = "sendonly" ∨ d.asStr = "inactive") ↔ Holds d := by
  cases d <;> simp [SdpDirection.asStr, Holds]

variable {rd : BodyReaders} {timeline : List SdpExchange} {sdp : SdpSession} {m : SipMessage}

theorem detectEvent_eq_hold_iff :
    detectEvent timeline (extractMediaInfo sdp) = some .hold ↔
      LastActive timeline ∧ Holds (bodyDirection sdp) ∧ ¬ SwitchesToFax timeline sdp := by
  unfold detectEvent LastActive lastMode SwitchesToFax
  rw [← asStr_holds_iff, ← extractMediaInfo_mode]
  cases timeline.getLast? with
  | none => simp
  | some prev =>
    simp only [Option.bind_some, Option.map_some, Option.some.injEq]
    split_ifs <;> simp_all

theorem detectEvent_eq_resume_iff :
    detectEvent timeline (extractMediaInfo sdp) = some .resume ↔
      LastHolds timeline ∧ bodyDirection sdp = .sendRecv ∧ ¬ SwitchesToFax timeline sdp := by
  unfold detectEvent LastHolds lastMode SwitchesToFax
  rw [← asStr_eq_sendrecv_iff, ← extractMediaInfo_mode]
  cases timeline.getLast? with
  | none => simp
  | some prev =>
    simp only [Option.bind_some, Option.map_some, Option.some.injEq]
    split_ifs <;> simp_all

theorem holdMarks_append (a b : List SdpExchange) :
    holdMarks (a ++ b) = holdMarks a ++ holdMarks b := by
  simp [holdMarks]

theorem holdMarks_trackTransfer : holdMarks (trackTransfer timeline m) = holdMarks timeline := by
  unfold trackTransfer
  split_ifs
  · rfl
  · rw [holdMarks_append]
    simp [holdMarks, isHoldMark]

theorem holdMarks_trackMessage (h : rd.sdp m = some sdp) :
    holdMarks (trackMessage rd timeline m) = holdMarks timeline ++
      ((detectEvent timeline (extractMediaInfo sdp)).filter isHoldMark).toList := by
  rw [trackMessage, holdMarks_trackTransfer, trackSdp, h]
  simp only [holdMarks_append, List.append_cancel_left_eq]
  cases detectEvent timeline (extractMediaInfo sdp) with
  | none => rfl
  | some e => cases he : isHoldMark e <;> simp [holdMarks, Option.filter, he]

theorem holdMarks_trackMessage_silent (h : rd.sdp m = none) :
    holdMarks (trackMessage rd timeline m) = holdMarks timeline := by
  rw [trackMessage, holdMarks_trackTransfer, trackSdp, h]

theorem lastMode_trackMessage (timeline : List SdpExchange) (h : rd.sdp m = some sdp) :
    lastMode (trackMessage rd timeline m) = some (bodyDirection sdp).asStr ∨
      lastMode (trackMessage rd timeline m) = some "transfer" := by
  rw [trackMessage, trackSdp, h, trackTransfer]
  split_ifs
  · simp [lastMode, extractMediaInfo_mode]
  · simp [lastMode]

theorem lastMode_trackMessage_silent (timeline : List SdpExchange) (h : rd.sdp m = none) :
    lastMode (trackMessage rd timeline m) = lastMode timeline ∨
      lastMode (trackMessage rd timeline m) = some "transfer" := by
  rw [trackMessage, trackSdp, h, trackTransfer]
  split_ifs
  · simp
  · simp [lastMode]

/-! ### One step -/

/-- What a dialog that follows offer and answer keeps: only active media has a `sendrecv` entry
last, and an offer still to be answered is the last entry but for transfers. -/
structure Kept (timeline : List SdpExchange) (s : Media) (pending : Option SdpDirection) :
    Prop where
  active_of_last : LastActive timeline → s = .active
  offered : ∀ o ∈ pending, (o = .sendRecv ↔ s = .active) ∧
    (lastMode timeline = some o.asStr ∨ lastMode timeline = some "transfer")

variable {s : Media} {pending : Option SdpDirection}

theorem Media.afterOffer_eq_active_iff : s.afterOffer d = .active ↔ d = .sendRecv := by
  cases s <;> cases d <;> simp [Media.afterOffer]

theorem Kept.offer (h : rd.sdp m = some sdp) :
    Kept (trackMessage rd timeline m) (s.afterOffer (bodyDirection sdp))
      (some (bodyDirection sdp)) := by
  constructor
  · intro hlast
    rw [Media.afterOffer_eq_active_iff, ← asStr_eq_sendrecv_iff]
    rw [LastActive] at hlast
    rcases lastMode_trackMessage timeline h with hmode | hmode
    · simpa [hlast, eq_comm] using hmode
    · simp [hlast] at hmode
  · intro o ho
    obtain rfl : bodyDirection sdp = o := by simpa using ho
    exact ⟨(Media.afterOffer_eq_active_iff _).symm, lastMode_trackMessage timeline h⟩

theorem Kept.answer (hkept : Kept timeline s (some offered)) (h : rd.sdp m = some sdp)
    (hanswer : Answers offered (bodyDirection sdp)) : Kept (trackMessage rd timeline m) s none := by
  constructor
  · intro hlast
    rw [LastActive] at hlast
    have hdir : bodyDirection sdp = .sendRecv := by
      rw [← asStr_eq_sendrecv_iff]
      rcases lastMode_trackMessage timeline h with hmode | hmode
      · simpa [hlast, eq_comm] using hmode
      · simp [hlast] at hmode
    rw [← (hkept.offered offered rfl).1]
    rw [hdir] at hanswer
    cases offered <;> simp_all [Answers]
  · simp

theorem Kept.silent (hkept : Kept timeline s pending) (h : rd.sdp m = none) :
    Kept (trackMessage rd timeline m) s pending := by
  constructor
  · intro hlast
    rw [LastActive] at hlast
    rcases lastMode_trackMessage_silent timeline h with hmode | hmode
    · exact hkept.active_of_last (hmode.symm.trans hlast)
    · simp [hlast] at hmode
  · intro o ho
    obtain ⟨hiff, hlast⟩ := hkept.offered o ho
    refine ⟨hiff, ?_⟩
    rcases lastMode_trackMessage_silent timeline h with hmode | hmode
    · rwa [hmode]
    · exact .inr hmode

/-- Only the two events count, so a step records what it should exactly when it reads a hold
where one is due and a resume where one is due. -/
theorem filter_isHoldMark_eq_iff (event : Option SdpEvent) (d : SdpDirection) :
    event.filter isHoldMark = s.offerMark d ↔
      (event = some .hold ↔ s = .active ∧ Holds d) ∧
        (event = some .resume ↔ s = .held ∧ d = .sendRecv) := by
  cases event with
  | none => cases s <;> cases d <;> simp [Media.offerMark, Holds]
  | some e =>
    cases e <;> cases s <;> cases d <;> simp [Media.offerMark, Holds, isHoldMark, Option.filter]

theorem offer_records_iff (hkept : Kept timeline s none) :
    (detectEvent timeline (extractMediaInfo sdp)).filter isHoldMark =
      s.offerMark (bodyDirection sdp) ↔ OfferReads timeline s sdp := by
  have hlast := hkept.active_of_last
  rw [filter_isHoldMark_eq_iff, detectEvent_eq_hold_iff, detectEvent_eq_resume_iff]
  unfold OfferReads
  cases s <;> cases bodyDirection sdp <;> simp_all [Holds]

theorem answer_records_iff (hkept : Kept timeline s (some offered))
    (hanswer : Answers offered (bodyDirection sdp)) :
    (detectEvent timeline (extractMediaInfo sdp)).filter isHoldMark = none ↔
      AnswerReads timeline sdp := by
  -- A `sendrecv` answer never comes right after an entry on hold.
  have hresume : detectEvent timeline (extractMediaInfo sdp) ≠ some .resume := by
    intro h
    obtain ⟨hholds, hdir, -⟩ := detectEvent_eq_resume_iff.1 h
    rw [hdir] at hanswer
    obtain ⟨-, hlast | hlast⟩ := hkept.offered offered rfl
    all_goals cases offered <;> simp_all [Answers, LastHolds, SdpDirection.asStr]
  have hhold := @detectEvent_eq_hold_iff timeline sdp
  have hmark : (detectEvent timeline (extractMediaInfo sdp)).filter isHoldMark = none ↔
      detectEvent timeline (extractMediaInfo sdp) ≠ some .hold := by
    revert hresume
    cases detectEvent timeline (extractMediaInfo sdp) with
    | none => simp
    | some e => cases e <;> simp [isHoldMark]
  rw [hmark, Ne, hhold, AnswerReads]
  tauto

theorem toList_eq_toList_iff {a b : Option SdpEvent} : a.toList = b.toList ↔ a = b := by
  cases a <;> cases b <;> simp

/-- One message of a dialog that follows offer and answer is recorded as it should be exactly
when the entry before it reads the offer right. -/
theorem step_records_iff (hkept : Kept timeline s pending) {e : Role × SipMessage}
    {run : List (Role × SipMessage)} (hfollows : FollowsOfferAnswer rd pending (e :: run)) :
    (holdMarks (trackMessage rd timeline e.2) =
      holdMarks timeline ++ (expectedMark rd s e).toList ↔ StepReads rd timeline s e) ∧
    ∃ pending', Kept (trackMessage rd timeline e.2) (mediaAfter rd s e) pending' ∧
      FollowsOfferAnswer rd pending' run := by
  obtain ⟨role, m⟩ := e
  cases role with
  | offer =>
    obtain ⟨rfl, sdp, hsdp, hrun⟩ := hfollows
    constructor
    · rw [holdMarks_trackMessage hsdp]
      simp [expectedMark, StepReads, hsdp, toList_eq_toList_iff, offer_records_iff hkept]
    · exact ⟨_, by simpa [mediaAfter, hsdp] using Kept.offer hsdp, hrun⟩
  | answer =>
    obtain ⟨offered, sdp, rfl, hsdp, hanswer, hrun⟩ := hfollows
    constructor
    · rw [holdMarks_trackMessage hsdp]
      simp [expectedMark, StepReads, hsdp, ← answer_records_iff hkept hanswer]
    · exact ⟨none, hkept.answer hsdp hanswer, hrun⟩
  | silent =>
    obtain ⟨hsdp, hrun⟩ := hfollows
    constructor
    · rw [holdMarks_trackMessage_silent hsdp]
      simp [expectedMark, StepReads]
    · exact ⟨pending, hkept.silent hsdp, hrun⟩

/-! ### Whole dialogs -/

theorem recordsHolds_iff_of_kept :
    ∀ {timeline s pending}, Kept timeline s pending → FollowsOfferAnswer rd pending run →
      (RecordsHolds rd timeline s run ↔ StepsRead rd timeline s run) := by
  induction run with
  | nil => simp [RecordsHolds, StepsRead]
  | cons e run ih =>
    intro timeline s pending hkept hfollows
    obtain ⟨hstep, pending', hkept', hrun⟩ := step_records_iff hkept hfollows
    rw [RecordsHolds, StepsRead, hstep, ih hkept' hrun]

/-- The marks so far alternate, and the last one is a hold exactly when the media is held. -/
structure InTurn (marks : List SdpEvent) (s : Media) : Prop where
  alternates : Alternates marks
  last_iff : marks.getLast? = some .hold ↔ s = .held

variable {marks : List SdpEvent}

theorem InTurn.congr {s' : Media} (h : InTurn marks s) (hs : s' = .held ↔ s = .held) :
    InTurn marks s' :=
  ⟨h.alternates, h.last_iff.trans hs.symm⟩

theorem InTurn.hold (h : InTurn marks .active) : InTurn (marks ++ [SdpEvent.hold]) .held := by
  obtain ⟨⟨hhead, hchain⟩, hlast⟩ := h
  refine ⟨⟨?_, ?_⟩, by simp⟩
  · cases marks <;> simp_all
  · refine hchain.append (List.isChain_singleton _) ?_
    rintro x hx y hy rfl
    obtain rfl : SdpEvent.hold = x := by simpa using hy
    simp_all

theorem InTurn.resume (h : InTurn marks .held) : InTurn (marks ++ [SdpEvent.resume]) .active := by
  obtain ⟨⟨hhead, hchain⟩, hlast⟩ := h
  have hheld : marks.getLast? = some .hold := hlast.2 rfl
  refine ⟨⟨?_, ?_⟩, by simp⟩
  · cases marks <;> simp_all
  · refine hchain.append (List.isChain_singleton _) ?_
    rintro x hx y hy rfl
    obtain rfl : SdpEvent.resume = x := by simpa using hy
    simp_all

theorem InTurn.offer (h : InTurn marks s) (d : SdpDirection) :
    InTurn (marks ++ (s.offerMark d).toList) (s.afterOffer d) := by
  cases s with
  | idle => cases d <;> simpa [Media.offerMark, Media.afterOffer] using h.congr (by simp)
  | active =>
    cases d with
    | sendRecv => simpa [Media.offerMark, Media.afterOffer] using h
    | recvOnly => simpa [Media.offerMark, Media.afterOffer] using h.congr (by simp)
    | sendOnly => exact h.hold
    | inactive => exact h.hold
  | held =>
    cases d with
    | sendRecv => exact h.resume
    | _ => simpa [Media.offerMark, Media.afterOffer] using h

theorem InTurn.step (h : InTurn marks s) (e : Role × SipMessage) :
    InTurn (marks ++ (expectedMark rd s e).toList) (mediaAfter rd s e) := by
  obtain ⟨role, m⟩ := e
  cases role with
  | offer =>
    cases hsdp : rd.sdp m with
    | none => simpa [expectedMark, mediaAfter, hsdp] using h
    | some sdp => simpa [expectedMark, mediaAfter, hsdp] using h.offer (bodyDirection sdp)
  | answer => simpa [expectedMark, mediaAfter] using h
  | silent => simpa [expectedMark, mediaAfter] using h

theorem RecordsHolds.inTurn :
    ∀ {timeline s}, RecordsHolds rd timeline s run → InTurn (holdMarks timeline) s →
      Alternates (holdMarks ((run.map Prod.snd).foldl (trackMessage rd) timeline)) := by
  induction run with
  | nil =>
    intro timeline s _ hturn
    exact hturn.alternates
  | cons e run ih =>
    rintro timeline s ⟨hmarks, hrun⟩ hturn
    exact ih hrun (by simpa only [hmarks] using hturn.step e)

/-- In a dialog that follows offer and answer, with transfers anywhere, the timeline records the
holds and resumes its offers make exactly when at every message the entry before it reads right;
they then alternate. -/
theorem recordsHolds_iff (rd : BodyReaders) (run : List (Role × SipMessage))
    (hfollows : FollowsOfferAnswer rd none run) :
    (RecordsHolds rd [] .idle run ↔ StepsRead rd [] .idle run) ∧
      (StepsRead rd [] .idle run →
        Alternates (holdMarks ((run.map Prod.snd).foldl (trackMessage rd) []))) := by
  have hkept : Kept [] .idle none := ⟨by simp [LastActive, lastMode], by simp⟩
  have hiff := recordsHolds_iff_of_kept run hkept hfollows
  refine ⟨hiff, fun hreads => RecordsHolds.inTurn run (hiff.2 hreads) ?_⟩
  exact ⟨by simp [Alternates, holdMarks], by simp [holdMarks]⟩

def sampleHead : List UInt8 :=
  "v=0\r\no=- 1 1 IN IP4 192.0.2.1\r\ns=-\r\nc=IN IP4 192.0.2.1\r\nt=0 0\r\n".toUTF8.toList ++
    "m=audio 4000 RTP/AVP 0\r\n".toUTF8.toList

def sampleBody (d : SdpDirection) : List UInt8 :=
  sampleHead ++ ("a=" ++ d.asStr ++ "\r\n").toUTF8.toList

def sampleSession (d : SdpDirection) : SdpSession where
  origin := some "- 1 1 IN IP4 192.0.2.1"
  connection := some "192.0.2.1"
  media := [{
    mediaType := "audio", port := 4000, formats := ["0"], connection := none, direction := d
    rtpmap := [] }]

def sampleReaders : BodyReaders where
  sdp m := ([.sendRecv, .sendOnly, .recvOnly, .inactive].find? (sampleBody · = m.body)).map
    sampleSession
  metadataOf _ := none

def sampleMessage (isRequest : Bool) (d : SdpDirection) : SipMessage where
  isRequest := isRequest
  method := if isRequest then some .invite else none
  statusCode := if isRequest then none else some 200
  requestUri := if isRequest then some "sip:bob@192.0.2.2" else none
  headers := [⟨"Content-Type", "application/sdp"⟩]
  body := sampleBody d
  timestamp := 0
  srcAddr := .v4 (if isRequest then 0xC0000201 else 0xC0000202)
  dstAddr := .v4 (if isRequest then 0xC0000202 else 0xC0000201)
  srcPort := 5060
  dstPort := 5060
  isRetransmission := false
  frame := none
  inputOrigin := none

/-- A call, its hold and its return, each offer with the answer it gets. -/
def sampleRun (hold answer : SdpDirection) : List (Role × SipMessage) :=
  [(.offer, sampleMessage true .sendRecv), (.answer, sampleMessage false .sendRecv),
    (.offer, sampleMessage true hold), (.answer, sampleMessage false answer),
    (.offer, sampleMessage true .sendRecv), (.answer, sampleMessage false .sendRecv)]

theorem sampleBody_eq_iff (a b : SdpDirection) : sampleBody a = sampleBody b ↔ a = b := by
  rw [sampleBody, sampleBody, List.append_cancel_left_eq]
  cases a <;> cases b <;> decide +kernel

theorem sampleReaders_sdp (isRequest : Bool) (d : SdpDirection) :
    sampleReaders.sdp (sampleMessage isRequest d) = some (sampleSession d) := by
  have hread : sampleReaders.sdp (sampleMessage isRequest d) =
      ([.sendRecv, .sendOnly, .recvOnly, .inactive].find? (fun a => decide (a = d))).map
        sampleSession := by
    simp only [sampleReaders, sampleMessage, sampleBody_eq_iff]
  rw [hread]
  cases d <;> rfl

theorem followsOfferAnswer_sampleRun {hold answer : SdpDirection} (h : Answers hold answer) :
    FollowsOfferAnswer sampleReaders none (sampleRun hold answer) := by
  refine ⟨rfl, _, sampleReaders_sdp true .sendRecv, _, _, rfl, sampleReaders_sdp false .sendRecv,
    trivial, rfl, _, sampleReaders_sdp true hold, _, _, rfl, sampleReaders_sdp false answer, h,
    rfl, _, sampleReaders_sdp true .sendRecv, _, _, rfl, sampleReaders_sdp false .sendRecv,
    trivial, trivial⟩

/-- Media held with `inactive` both ways: the hold and the resume are both on the timeline. -/
theorem recordsHolds_inactive :
    RecordsHolds sampleReaders [] .idle (sampleRun .inactive .inactive) ∧
      StepsRead sampleReaders [] .idle (sampleRun .inactive .inactive) := by
  have h : RecordsHolds sampleReaders [] .idle (sampleRun .inactive .inactive) := by
    decide +kernel
  have hfollows : FollowsOfferAnswer sampleReaders none (sampleRun .inactive .inactive) :=
    followsOfferAnswer_sampleRun (by simp [Answers])
  exact ⟨h, (recordsHolds_iff sampleReaders _ hfollows).1.1 h⟩

/-- The usual hold, `sendonly` answered `recvonly`: the offer that takes the media back comes
after `recvonly`, and no resume is recorded. -/
theorem resume_missed :
    ¬ ∀ (rd : BodyReaders) (run : List (Role × SipMessage)), FollowsOfferAnswer rd none run →
      RecordsHolds rd [] .idle run := by
  intro h
  have hfollows : FollowsOfferAnswer sampleReaders none (sampleRun .sendOnly .recvOnly) :=
    followsOfferAnswer_sampleRun (by simp [Answers])
  have hmissed : ¬ RecordsHolds sampleReaders [] .idle (sampleRun .sendOnly .recvOnly) := by
    decide +kernel
  exact hmissed (h sampleReaders _ hfollows)

end HoldResume

end Sipnab
