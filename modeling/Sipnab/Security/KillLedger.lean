import Sipnab.Sip.Message

/-!
# The ledger of the scanner-kill worker

The capture thread offers requests to a bounded queue. One thread writes them to the request pipe of
the worker process, another books the outcomes that come back on the response pipe. The worker may
die, hang up or stay silent at any point. Every operation of a thread on the shared counters, a
queue or a pipe is a step of its own, and between any two of them every other party may move.
-/

namespace Sipnab

open List Option

/-! ## Requests, outcomes and the tally -/

inductive SendPath
  | raw | ephemeral
  deriving DecidableEq

inductive KillRequest
  | sendResponse (dstAddr : IpAddr) (dstPort : UInt16) (srcAddr : IpAddr) (srcPort : UInt16)
    (responseBytes : List UInt8)
  | shutdown
  deriving DecidableEq

/-- Only a send is an obligation that the ledger has to close. -/
def KillRequest.counted : KillRequest → Bool
  | .sendResponse .. => true
  | .shutdown => false

inductive KillResponse
  | sent (path : SendPath)
  | rateLimited
  | rejected (reason : String)
  | error (message : String)
  deriving DecidableEq

structure SendCounters where
  raw : ℕ := 0
  ephemeral : ℕ := 0

def SendCounters.bump (c : SendCounters) : SendPath → SendCounters
  | .raw => { c with raw := c.raw + 1 }
  | .ephemeral => { c with ephemeral := c.ephemeral + 1 }

structure KillCounts where
  sent : ℕ
  rateLimited : ℕ
  rejected : ℕ
  errored : ℕ
  droppedRequests : ℕ
  unobservedOutcomes : ℕ
  accepted : ℕ
  lostToWorkerExit : ℕ

def KillCounts.outcomes (c : KillCounts) : ℕ := c.sent + c.rateLimited + c.rejected + c.errored

structure KillTally where
  sent : ℕ := 0
  rateLimited : ℕ := 0
  rejected : ℕ := 0
  errored : ℕ := 0
  droppedRequests : ℕ := 0
  unobservedOutcomes : ℕ := 0
  dropReported : Bool := false
  unobservedReported : Bool := false
  accepted : ℕ := 0
  workerGone : Bool := false

namespace KillTally

def record (t : KillTally) : KillResponse → KillTally
  | .sent _ => { t with sent := t.sent + 1 }
  | .rateLimited => { t with rateLimited := t.rateLimited + 1 }
  | .rejected _ => { t with rejected := t.rejected + 1 }
  | .error _ => { t with errored := t.errored + 1 }

def noteDroppedRequest (t : KillTally) : KillTally :=
  { t with droppedRequests := t.droppedRequests + 1, dropReported := true }

def noteUnobservedOutcome (t : KillTally) : KillTally :=
  { t with unobservedOutcomes := t.unobservedOutcomes + 1, unobservedReported := true }

def noteAccepted (t : KillTally) : KillTally := { t with accepted := t.accepted + 1 }

def unaccept (t : KillTally) : KillTally := { t with accepted := t.accepted - 1 }

def noteWorkerGone (t : KillTally) : KillTally := { t with workerGone := true }

/-- The tally as each of the loads finds it, in the order of the loads. -/
structure Loads where
  workerGone : KillTally
  sent : KillTally
  rateLimited : KillTally
  rejected : KillTally
  errored : KillTally
  droppedRequests : KillTally
  unobservedOutcomes : KillTally
  accepted : KillTally

/-- The counters are read one at a time, so each load has a tally of its own. -/
def snapshot (loads : Loads) : KillCounts :=
  let counts : KillCounts :=
    { sent := loads.sent.sent
      rateLimited := loads.rateLimited.rateLimited
      rejected := loads.rejected.rejected
      errored := loads.errored.errored
      droppedRequests := loads.droppedRequests.droppedRequests
      unobservedOutcomes := loads.unobservedOutcomes.unobservedOutcomes
      accepted := loads.accepted.accepted
      lostToWorkerExit := 0 }
  if loads.workerGone.workerGone then
    { counts with lostToWorkerExit := counts.accepted - counts.outcomes }
  else counts

def booked (t : KillTally) : ℕ := t.sent + t.rateLimited + t.rejected + t.errored

end KillTally

/-! ## The threads and the worker -/

def killRequestCapacity : ℕ := 256

def killOutcomeCapacity : ℕ := 256

def maxFrameBytes : ℕ := 2 ^ 20

/-- Why a request cannot be framed, if it cannot; the encoding is that of the JSON library. -/
def frameRefusal (encode : KillRequest → Except String (List UInt8)) (request : KillRequest) :
    Option String :=
  match encode request with
  | .error e => some e
  | .ok body =>
    if maxFrameBytes < body.length then
      some ("message encodes to " ++ toString body.length ++ " bytes, over the " ++
        toString maxFrameBytes ++ "-byte frame limit")
    else none

/-- What `send_kill` returned: the request is queued, the queue was full, or the worker is gone. -/
inductive Verdict
  | accepted | dropped | refused
  deriving DecidableEq

/-- Where the thread that owns the handle is, in `send_kill` or in `shutdown`. -/
inductive OwnerPc
  | idle
  /-- There is a sender. -/
  | connected (request : KillRequest)
  /-- The worker was not gone. -/
  | live (request : KillRequest)
  /-- The request is booked as accepted, and not queued yet. -/
  | booked (request : KillRequest)
  | full (request : KillRequest)
  /-- The queue was full, and the booking is undone. -/
  | undone (request : KillRequest)
  | disconnected (request : KillRequest)
  | refused (request : KillRequest)
  | closing
  | asked
  /-- The sender is dropped. -/
  | closed
  | reaping
  | joiningForwarder
  | joiningReader

inductive ForwarderPc
  | waiting
  | holding (request : KillRequest)
  /-- The pipe is closed, and the queue is not yet. -/
  | ended
  | finished
  deriving DecidableEq

inductive ReaderPc
  | reading
  | recorded (outcome : KillResponse)
  | ended
  | noted
  | finished
  deriving DecidableEq

/-- How a write to the request pipe goes. A write that fails may have written the whole frame. -/
inductive WriteResult
  | written
  | broken (delivered : Bool)

structure KillSystem where
  tally : KillTally
  killSent : SendCounters
  defenseDisabled : Bool
  shuttingDown : Bool
  owner : OwnerPc
  /-- The handle has its sender. -/
  senderOpen : Bool
  queue : List KillRequest
  /-- The forwarder has its receiver. -/
  receiverOpen : Bool
  forwarder : ForwarderPc
  /-- The handle has the worker process, to kill it. -/
  childHeld : Bool
  alive : Bool
  requestPipe : List KillRequest
  /-- Requests that the worker has read and has not answered. -/
  working : List KillRequest
  /-- The worker has its end of the response pipe. -/
  answering : Bool
  responsePipe : List KillResponse
  reader : ReaderPc
  outcomes : List KillResponse
  /-- Every request that was offered, and how the calls that returned ended. -/
  offered : List KillRequest
  verdicts : List (KillRequest × Verdict)

inductive KillMove
  /-- `send_kill` is called. -/
  | sendKill (request : KillRequest)
  /-- `shutdown` is called. -/
  | shutdown
  /-- The owner of the handle goes on. -/
  | own
  | tryRecvResponse
  | forward (result : WriteResult)
  /-- The worker reads a request, answers one, passes over one, hangs up or dies. -/
  | take
  | answer (index : ℕ) (outcome : KillResponse)
  | pass (index : ℕ)
  | hangUp
  | die
  | read
  /-- A response cannot be read. -/
  | unreadable

namespace KillSystem

def attach : KillSystem where
  tally := {}
  killSent := {}
  defenseDisabled := false
  shuttingDown := false
  owner := .idle
  senderOpen := true
  queue := []
  receiverOpen := true
  forwarder := .waiting
  childHeld := true
  alive := true
  requestPipe := []
  working := []
  answering := true
  responsePipe := []
  reader := .reading
  outcomes := []
  offered := []
  verdicts := []

def reportDefenseDisabled (s : KillSystem) : KillSystem := { s with defenseDisabled := true }

def returns (s : KillSystem) (request : KillRequest) (verdict : Verdict) : KillSystem :=
  { s with owner := .idle, verdicts := s.verdicts ++ [(request, verdict)] }

/-- The next operation of the owner, in `send_kill` or in `shutdown`; none while it waits. -/
def own (s : KillSystem) : Option KillSystem :=
  match s.owner with
  | .idle => none
  | .connected request =>
    if s.tally.workerGone then some { s with owner := .refused request }
    else some { s with owner := .live request }
  | .live request =>
    some { s with
      owner := .booked request
      tally := if request.counted then s.tally.noteAccepted else s.tally }
  | .booked request =>
    if !s.receiverOpen then some { s with owner := .disconnected request }
    else if s.queue.length < killRequestCapacity then
      some { s.returns request .accepted with queue := s.queue ++ [request] }
    else some { s with owner := .full request }
  | .full request =>
    some { s with
      owner := .undone request
      tally := if request.counted then s.tally.unaccept else s.tally }
  | .undone request =>
    some { s.returns request .dropped with tally := s.tally.noteDroppedRequest }
  | .disconnected request =>
    some { s with
      owner := .refused request
      tally := if request.counted then s.tally.unaccept else s.tally }
  | .refused request => some (s.reportDefenseDisabled.returns request .refused)
  | .closing =>
    if s.senderOpen && s.receiverOpen && decide (s.queue.length < killRequestCapacity) then
      some { s with owner := .asked, queue := s.queue ++ [.shutdown] }
    else some { s with owner := .asked }
  | .asked => some { s with owner := .closed, senderOpen := false }
  | .closed => some { s with owner := .reaping, childHeld := false }
  -- the worker has exited, or the time is over and it is killed
  | .reaping => some { s with owner := .joiningForwarder, alive := false, answering := false }
  | .joiningForwarder =>
    if s.forwarder = .finished then some { s with owner := .joiningReader } else none
  | .joiningReader => if s.reader = .finished then some { s with owner := .idle } else none

def forwardRequests (encode : KillRequest → Except String (List UInt8)) (s : KillSystem)
    (result : WriteResult) : Option KillSystem :=
  match s.forwarder with
  | .waiting =>
    match s.queue with
    | request :: rest => some { s with forwarder := .holding request, queue := rest }
    | [] => if s.senderOpen then none else some { s with forwarder := .ended }
  | .holding request =>
    match frameRefusal encode request, result with
    | some e, _ =>
      some { s with
        forwarder := .waiting
        tally := if request.counted then
            s.tally.record (.error ("request could not be framed for the worker: " ++ e))
          else s.tally }
    | none, .written =>
      if s.alive then
        some { s with forwarder := .waiting, requestPipe := s.requestPipe ++ [request] }
      else none
    | none, .broken delivered =>
      some { s with
        forwarder := .ended
        requestPipe := if delivered then s.requestPipe ++ [request] else s.requestPipe }
  | .ended => some { s with forwarder := .finished, receiverOpen := false, queue := [] }
  | .finished => none

def bookOutcome (s : KillSystem) (outcome : KillResponse) : KillSystem :=
  { s with
    tally := s.tally.record outcome
    killSent := match outcome with
      | .sent path => s.killSent.bump path
      | _ => s.killSent }

def readOutcomes (s : KillSystem) : Option KillSystem :=
  match s.reader with
  | .reading =>
    match s.responsePipe with
    | outcome :: rest =>
      some { s.bookOutcome outcome with reader := .recorded outcome, responsePipe := rest }
    | [] => if s.answering then none else some { s with reader := .ended }
  | .recorded outcome =>
    if s.outcomes.length < killOutcomeCapacity then
      some { s with reader := .reading, outcomes := s.outcomes ++ [outcome] }
    else some { s with reader := .reading, tally := s.tally.noteUnobservedOutcome }
  | .ended => some { s with reader := .noted, tally := s.tally.noteWorkerGone }
  | .noted =>
    some { s with
      reader := .finished
      defenseDisabled := s.defenseDisabled || !s.shuttingDown }
  | .finished => none

def step (encode : KillRequest → Except String (List UInt8)) (s : KillSystem) :
    KillMove → Option KillSystem
  | .sendKill request =>
    match s.owner with
    | .idle =>
      some { s with
        offered := s.offered ++ [request]
        owner := if s.senderOpen then .connected request else .refused request }
    | _ => none
  | .shutdown =>
    match s.owner with
    | .idle => some { s with shuttingDown := true, owner := .closing }
    | _ => none
  | .own => s.own
  | .tryRecvResponse => some { s with outcomes := s.outcomes.tail }
  | .forward result => s.forwardRequests encode result
  | .take =>
    match s.alive, s.requestPipe with
    | true, request :: rest =>
      some { s with requestPipe := rest, working := s.working ++ [request] }
    | _, _ => none
  | .answer index outcome =>
    if s.alive && s.answering && (s.working[index]?).any KillRequest.counted then
      some { s with
        working := s.working.eraseIdx index
        responsePipe := s.responsePipe ++ [outcome] }
    else none
  | .pass index => some { s with working := s.working.eraseIdx index }
  | .hangUp => some { s with answering := false }
  | .die => some { s with alive := false, answering := false, working := [] }
  | .read => s.readOutcomes
  | .unreadable =>
    match s.reader with
    | .reading =>
      some { s with
        reader := .ended
        alive := s.alive && !s.childHeld
        answering := s.answering && !s.childHeld }
    | _ => none

inductive Reachable (encode : KillRequest → Except String (List UInt8)) : KillSystem → Prop
  | attach : Reachable encode attach
  | step {s s' : KillSystem} {m : KillMove} (h : Reachable encode s)
    (hstep : s.step encode m = some s') : Reachable encode s'

/-! ## Nothing is counted twice -/

def kills (requests : List KillRequest) : ℕ := requests.countP KillRequest.counted

@[simp] theorem kills_nil : kills [] = 0 := rfl

@[simp] theorem kills_cons (request : KillRequest) (requests : List KillRequest) :
    kills (request :: requests) = kills requests + if request.counted then 1 else 0 :=
  countP_cons

@[simp] theorem kills_append (requests later : List KillRequest) :
    kills (requests ++ later) = kills requests + kills later :=
  countP_append

theorem kills_eraseIdx_le (requests : List KillRequest) (index : ℕ) :
    kills (requests.eraseIdx index) ≤ kills requests :=
  (eraseIdx_sublist requests index).countP_le

theorem kills_eraseIdx {requests : List KillRequest} {index : ℕ}
    (h : (requests[index]?).any KillRequest.counted = true) :
    kills (requests.eraseIdx index) + 1 = kills requests := by
  induction requests generalizing index with
  | nil => simp at h
  | cons request requests ih =>
    cases index with
    | zero =>
      have hcounted : request.counted = true := by simpa using h
      simp [hcounted]
    | succ index =>
      have hrest := ih (by simpa using h)
      simp only [eraseIdx_cons_succ, kills_cons]
      omega

def offering : OwnerPc → List KillRequest
  | .connected request | .live request | .booked request | .full request | .undone request
  | .disconnected request | .refused request => [request]
  | _ => []

/-- The request that is booked as accepted before it is queued. -/
def tentative : OwnerPc → List KillRequest
  | .booked request | .full request | .disconnected request => [request]
  | _ => []

def held : ForwarderPc → List KillRequest
  | .holding request => [request]
  | _ => []

/-- Requests on the way to the worker, in its hands, and the outcomes on the way back. -/
def inFlight (s : KillSystem) : ℕ :=
  kills s.queue + kills (held s.forwarder) + kills s.requestPipe + kills s.working +
    s.responsePipe.length

/-- How many kill requests came to one end, and how many requests did. -/
def killsEnded (verdicts : List (KillRequest × Verdict)) (verdict : Verdict) : ℕ :=
  verdicts.countP (fun v => v.1.counted && decide (v.2 = verdict))

def ended (verdicts : List (KillRequest × Verdict)) (verdict : Verdict) : ℕ :=
  verdicts.countP (fun v => decide (v.2 = verdict))

variable {request : KillRequest} (t : KillTally) (verdicts : List (KillRequest × Verdict))
  (outcome : KillResponse)

theorem killsEnded_concat (request : KillRequest) (verdict verdict' : Verdict) :
    killsEnded (verdicts ++ [(request, verdict)]) verdict' =
      killsEnded verdicts verdict' + if verdict = verdict' then kills [request] else 0 := by
  cases hcounted : request.counted <;> simp [killsEnded, countP_append, hcounted]

theorem ended_concat (request : KillRequest) (verdict verdict' : Verdict) :
    ended (verdicts ++ [(request, verdict)]) verdict' =
      ended verdicts verdict' + if verdict = verdict' then 1 else 0 := by
  simp [ended, countP_append]

structure Inv (s : KillSystem) : Prop where
  answered : s.tally.booked + s.inFlight ≤ killsEnded s.verdicts .accepted
  accepted : s.tally.accepted = killsEnded s.verdicts .accepted + kills (tentative s.owner)
  dropped : s.tally.droppedRequests = ended s.verdicts .dropped
  offered : s.offered = s.verdicts.map Prod.fst ++ offering s.owner
  gone : s.reader = .noted ∨ s.reader = .finished → s.tally.workerGone = true

variable {encode : KillRequest → Except String (List UInt8)} {s s' : KillSystem} {m : KillMove}

theorem inv_attach : attach.Inv := by
  refine ⟨le_rfl, rfl, rfl, rfl, ?_⟩
  rintro (h | h) <;> cases h

theorem booked_record : (t.record outcome).booked = t.booked + 1 := by
  cases outcome <;> simp only [KillTally.record, KillTally.booked] <;> omega

theorem record_frame :
    (t.record outcome).accepted = t.accepted ∧
      (t.record outcome).droppedRequests = t.droppedRequests ∧
      (t.record outcome).workerGone = t.workerGone := by
  cases outcome <;> exact ⟨rfl, rfl, rfl⟩

theorem Inv.setOwner (h : s.Inv) {owner : OwnerPc}
    (htentative : kills (tentative owner) = kills (tentative s.owner))
    (hoffering : offering owner = offering s.owner) : Inv { s with owner } where
  answered := h.answered
  accepted := by rw [h.accepted, ← htentative]
  dropped := h.dropped
  offered := by rw [h.offered, ← hoffering]
  gone := h.gone

theorem Inv.noteAccepted (h : s.Inv) (howner : s.owner = .live request) :
    Inv { s with
      owner := .booked request
      tally := if request.counted then s.tally.noteAccepted else s.tally } := by
  have haccepted := h.accepted
  have hoffered := h.offered
  rw [howner] at haccepted hoffered
  cases hcounted : request.counted with
  | false =>
    exact ⟨h.answered, by simpa [tentative, hcounted] using haccepted, h.dropped, hoffered, h.gone⟩
  | true =>
    exact ⟨h.answered, by simpa [tentative, hcounted, KillTally.noteAccepted] using haccepted,
      h.dropped, hoffered, h.gone⟩

theorem Inv.unaccept (h : s.Inv) {owner : OwnerPc} (hbooked : tentative s.owner = [request])
    (hoffering : offering s.owner = [request]) (hundone : tentative owner = [])
    (hsame : offering owner = [request]) :
    Inv { s with
      owner
      tally := if request.counted then s.tally.unaccept else s.tally } := by
  have haccepted := h.accepted
  have hoffered := h.offered
  rw [hbooked] at haccepted
  rw [hoffering, ← hsame] at hoffered
  cases hcounted : request.counted with
  | false =>
    exact ⟨h.answered, by simpa [hundone, hcounted] using haccepted, h.dropped, hoffered, h.gone⟩
  | true =>
    refine ⟨h.answered, ?_, h.dropped, hoffered, h.gone⟩
    simp only [kills_cons, kills_nil, hcounted, if_true] at haccepted
    simp only [hundone, kills_nil, if_true, KillTally.unaccept]
    omega

section

variable (h : s.Inv)
include h

/-- The request that is offered ends with a verdict, and an accepted one is in flight from then on. -/
theorem Inv.ends {s' : KillSystem} {verdict : Verdict} (hoffering : offering s.owner = [request])
    (howner : s'.owner = .idle) (hverdicts : s'.verdicts = s.verdicts ++ [(request, verdict)])
    (hoffered : s'.offered = s.offered)
    (hanswered : s'.tally.booked + s'.inFlight ≤
      s.tally.booked + s.inFlight + if verdict = .accepted then kills [request] else 0)
    (haccepted : s'.tally.accepted = s.tally.accepted)
    (htentative : kills (tentative s.owner) = if verdict = .accepted then kills [request] else 0)
    (hdropped : s'.tally.droppedRequests =
      s.tally.droppedRequests + if verdict = .dropped then 1 else 0)
    (hgone : s'.reader = .noted ∨ s'.reader = .finished → s'.tally.workerGone = true) :
    s'.Inv where
  answered := by
    rw [hverdicts, killsEnded_concat]
    exact hanswered.trans (Nat.add_le_add_right h.answered _)
  accepted := by
    rw [haccepted, h.accepted, htentative, hverdicts, killsEnded_concat, howner]
    rfl
  dropped := by rw [hdropped, h.dropped, hverdicts, ended_concat]
  offered := by
    rw [hoffered, h.offered, hoffering, hverdicts, howner, map_append]
    exact (append_nil _).symm
  gone := hgone

theorem Inv.enqueue (howner : s.owner = .booked request) :
    Inv { s.returns request .accepted with queue := s.queue ++ [request] } := by
  refine h.ends (by rw [howner]; rfl) rfl rfl rfl ?_ rfl (by rw [howner]; rfl) rfl h.gone
  simp only [KillSystem.returns, inFlight, kills_append, if_true]
  omega

theorem Inv.noteDroppedRequest (howner : s.owner = .undone request) :
    Inv { s.returns request .dropped with tally := s.tally.noteDroppedRequest } :=
  h.ends (by rw [howner]; rfl) rfl rfl rfl le_rfl rfl (by rw [howner]; rfl) rfl h.gone

theorem Inv.refuse (howner : s.owner = .refused request) :
    Inv (s.reportDefenseDisabled.returns request .refused) :=
  h.ends (by rw [howner]; rfl) rfl rfl rfl le_rfl rfl (by rw [howner]; rfl) rfl h.gone

theorem Inv.own (hstep : s.own = some s') : s'.Inv := by
  unfold KillSystem.own at hstep
  cases howner : s.owner with
  | idle => simp [howner] at hstep
  | connected request =>
    simp only [howner] at hstep
    split_ifs at hstep <;> obtain rfl := some.inj hstep <;>
      exact h.setOwner (by rw [howner]; rfl) (by rw [howner]; rfl)
  | live request =>
    simp only [howner] at hstep
    obtain rfl := some.inj hstep
    exact h.noteAccepted howner
  | booked request =>
    simp only [howner] at hstep
    split_ifs at hstep <;> obtain rfl := some.inj hstep
    · exact h.setOwner (by rw [howner]; rfl) (by rw [howner]; rfl)
    · exact h.enqueue howner
    · exact h.setOwner (by rw [howner]; rfl) (by rw [howner]; rfl)
  | full request =>
    simp only [howner] at hstep
    obtain rfl := some.inj hstep
    exact h.unaccept (by rw [howner]; rfl) (by rw [howner]; rfl) rfl rfl
  | undone request =>
    simp only [howner] at hstep
    obtain rfl := some.inj hstep
    exact h.noteDroppedRequest howner
  | disconnected request =>
    simp only [howner] at hstep
    obtain rfl := some.inj hstep
    exact h.unaccept (by rw [howner]; rfl) (by rw [howner]; rfl) rfl rfl
  | refused request =>
    simp only [howner] at hstep
    obtain rfl := some.inj hstep
    exact h.refuse howner
  | closing =>
    have hasked : Inv { s with owner := .asked } :=
      h.setOwner (by rw [howner]; rfl) (by rw [howner]; rfl)
    simp only [howner] at hstep
    split_ifs at hstep <;> obtain rfl := some.inj hstep
    -- a shutdown request is no obligation
    · refine ⟨?_, hasked.accepted, hasked.dropped, hasked.offered, hasked.gone⟩
      simpa [inFlight, KillRequest.counted] using hasked.answered
    · exact hasked
  | asked | closed | reaping =>
    have hnext : Inv { s with owner := .reaping } :=
      h.setOwner (by simp [howner, tentative]) (by simp [howner, offering])
    simp only [howner] at hstep
    obtain rfl := some.inj hstep
    exact ⟨hnext.answered, hnext.accepted, hnext.dropped, hnext.offered, hnext.gone⟩
  | joiningForwarder | joiningReader =>
    simp only [howner] at hstep
    split_ifs at hstep
    obtain rfl := some.inj hstep
    exact h.setOwner (by rw [howner]; rfl) (by rw [howner]; rfl)

theorem Inv.record {s' : KillSystem} (outcome : KillResponse)
    (htally : s'.tally = s.tally.record outcome) (hflight : s'.inFlight + 1 ≤ s.inFlight)
    (howner : s'.owner = s.owner) (hoffered : s'.offered = s.offered)
    (hverdicts : s'.verdicts = s.verdicts)
    (hreader : s'.reader = .noted ∨ s'.reader = .finished → s.reader = .noted ∨ s.reader = .finished) :
    s'.Inv := by
  obtain ⟨haccepted, hdropped, hgone⟩ := record_frame s.tally outcome
  refine ⟨?_, ?_, ?_, ?_, ?_⟩
  · have hanswered := h.answered
    rw [htally, booked_record, hverdicts]
    omega
  · rw [htally, haccepted, h.accepted, hverdicts, howner]
  · rw [htally, hdropped, h.dropped, hverdicts]
  · rw [hoffered, h.offered, hverdicts, howner]
  · rw [htally, hgone]
    exact fun hend => h.gone (hreader hend)

theorem Inv.move {s' : KillSystem} (htally : s'.tally = s.tally)
    (hflight : s'.inFlight ≤ s.inFlight) (howner : s'.owner = s.owner)
    (hoffered : s'.offered = s.offered) (hverdicts : s'.verdicts = s.verdicts)
    (hreader : s'.reader = .noted ∨ s'.reader = .finished → s.reader = .noted ∨ s.reader = .finished) :
    s'.Inv := by
  refine ⟨?_, ?_, ?_, ?_, ?_⟩
  · rw [htally, hverdicts]
    exact (Nat.add_le_add_left hflight _).trans h.answered
  · rw [htally, h.accepted, hverdicts, howner]
  · rw [htally, h.dropped, hverdicts]
  · rw [hoffered, h.offered, hverdicts, howner]
  · rw [htally]
    exact fun hend => h.gone (hreader hend)

theorem Inv.forwardRequests {result : WriteResult}
    (hstep : s.forwardRequests encode result = some s') : s'.Inv := by
  unfold KillSystem.forwardRequests at hstep
  cases hforwarder : s.forwarder with
  | waiting =>
    simp only [hforwarder] at hstep
    split at hstep
    · rename_i request rest hqueue
      obtain rfl := some.inj hstep
      refine h.move rfl ?_ rfl rfl rfl id
      simp only [inFlight, hforwarder, hqueue, held, kills_cons, kills_nil]
      omega
    · split_ifs at hstep
      obtain rfl := some.inj hstep
      refine h.move rfl ?_ rfl rfl rfl id
      simp [inFlight, held]
  | holding request =>
    cases hrefusal : frameRefusal encode request with
    | some e =>
      simp only [hforwarder, hrefusal] at hstep
      obtain rfl := some.inj hstep
      cases hcounted : request.counted with
      | false =>
        refine h.move rfl ?_ rfl rfl rfl id
        simp [inFlight, held]
      | true =>
        refine h.record (.error ("request could not be framed for the worker: " ++ e))
          rfl ?_ rfl rfl rfl id
        simp only [inFlight, hforwarder, held, kills_cons, kills_nil, hcounted, if_true]
        omega
    | none =>
      cases result with
      | written =>
        simp only [hforwarder, hrefusal] at hstep
        split_ifs at hstep
        obtain rfl := some.inj hstep
        refine h.move rfl ?_ rfl rfl rfl id
        simp only [inFlight, hforwarder, held, kills_append, kills_nil]
        omega
      | broken delivered =>
        simp only [hforwarder, hrefusal] at hstep
        obtain rfl := some.inj hstep
        refine h.move rfl ?_ rfl rfl rfl id
        simp only [inFlight, hforwarder, held, kills_nil]
        split_ifs
        · rw [kills_append]
          omega
        · omega
  | ended =>
    simp only [hforwarder] at hstep
    obtain rfl := some.inj hstep
    refine h.move rfl ?_ rfl rfl rfl id
    simp [inFlight, hforwarder, held]
  | finished => simp [hforwarder] at hstep

theorem Inv.readOutcomes (hstep : s.readOutcomes = some s') : s'.Inv := by
  unfold KillSystem.readOutcomes at hstep
  cases hreader : s.reader with
  | reading =>
    simp only [hreader] at hstep
    split at hstep
    · rename_i outcome rest hpipe
      obtain rfl := some.inj hstep
      refine h.record outcome rfl ?_ rfl rfl rfl (by simp)
      simp only [inFlight, bookOutcome, hpipe, length_cons]
      omega
    · split_ifs at hstep
      obtain rfl := some.inj hstep
      exact h.move rfl le_rfl rfl rfl rfl (by simp)
  | recorded outcome =>
    simp only [hreader] at hstep
    split_ifs at hstep
    · obtain rfl := some.inj hstep
      exact h.move rfl le_rfl rfl rfl rfl (by simp)
    · obtain rfl := some.inj hstep
      exact ⟨h.answered, h.accepted, h.dropped, h.offered, by simp⟩
  | ended =>
    simp only [hreader] at hstep
    obtain rfl := some.inj hstep
    exact ⟨h.answered, h.accepted, h.dropped, h.offered, fun _ => rfl⟩
  | noted =>
    simp only [hreader] at hstep
    obtain rfl := some.inj hstep
    exact h.move rfl le_rfl rfl rfl rfl (fun _ => Or.inl hreader)
  | finished => simp [hreader] at hstep

theorem Inv.step (hstep : s.step encode m = some s') : s'.Inv := by
  unfold KillSystem.step at hstep
  cases m with
  | sendKill request =>
    dsimp only at hstep
    split at hstep
    · rename_i howner
      obtain rfl := some.inj hstep
      have hidle := h.accepted
      have hoffered := h.offered
      rw [howner] at hidle hoffered
      refine ⟨h.answered, ?_, h.dropped, ?_, h.gone⟩
      · dsimp only
        split_ifs <;> exact hidle
      · dsimp only
        split_ifs <;> rw [hoffered] <;> simp [offering]
    · cases hstep
  | shutdown =>
    dsimp only at hstep
    split at hstep
    · rename_i howner
      obtain rfl := some.inj hstep
      have hnext : Inv { s with owner := .closing } :=
        h.setOwner (by rw [howner]; rfl) (by rw [howner]; rfl)
      exact ⟨hnext.answered, hnext.accepted, hnext.dropped, hnext.offered, hnext.gone⟩
    · cases hstep
  | own => exact h.own hstep
  | tryRecvResponse =>
    obtain rfl := some.inj hstep
    exact h.move rfl le_rfl rfl rfl rfl id
  | forward result => exact h.forwardRequests hstep
  | take =>
    dsimp only at hstep
    split at hstep
    · rename_i request rest _ hpipe
      obtain rfl := some.inj hstep
      refine h.move rfl ?_ rfl rfl rfl id
      simp only [inFlight, hpipe, kills_append, kills_cons, kills_nil]
      omega
    · cases hstep
  | answer index outcome =>
    dsimp only at hstep
    split_ifs at hstep with hcan
    obtain rfl := some.inj hstep
    have hcounted : (s.working[index]?).any KillRequest.counted = true :=
      (Bool.and_eq_true_iff.mp hcan).2
    have hkills := kills_eraseIdx hcounted
    refine h.move rfl ?_ rfl rfl rfl id
    simp only [inFlight, length_append, length_singleton]
    omega
  | pass index =>
    obtain rfl := some.inj hstep
    have hkills := kills_eraseIdx_le s.working index
    refine h.move rfl ?_ rfl rfl rfl id
    simp only [inFlight]
    omega
  | hangUp =>
    obtain rfl := some.inj hstep
    exact h.move rfl le_rfl rfl rfl rfl id
  | die =>
    obtain rfl := some.inj hstep
    refine h.move rfl ?_ rfl rfl rfl id
    simp only [inFlight, kills_nil]
    omega
  | read => exact h.readOutcomes hstep
  | unreadable =>
    dsimp only at hstep
    split at hstep
    · obtain rfl := some.inj hstep
      exact h.move rfl le_rfl rfl rfl rfl (by simp)
    · cases hstep

end

theorem Reachable.inv (h : Reachable encode s) : s.Inv := by
  induction h with
  | attach => exact inv_attach
  | step _ hstep ih => exact ih.step hstep

/-! ## What the counters show -/

structure NotLess (t t' : KillTally) : Prop where
  sent : t.sent ≤ t'.sent
  rateLimited : t.rateLimited ≤ t'.rateLimited
  rejected : t.rejected ≤ t'.rejected
  errored : t.errored ≤ t'.errored
  workerGone : t.workerGone = true → t'.workerGone = true

theorem NotLess.refl : NotLess t t := ⟨le_rfl, le_rfl, le_rfl, le_rfl, id⟩

theorem NotLess.trans {t t' t'' : KillTally} (h : NotLess t t') (h' : NotLess t' t'') :
    NotLess t t'' :=
  ⟨h.sent.trans h'.sent, h.rateLimited.trans h'.rateLimited, h.rejected.trans h'.rejected,
    h.errored.trans h'.errored, h'.workerGone ∘ h.workerGone⟩

theorem notLess_record : NotLess t (t.record outcome) := by
  cases outcome <;> constructor <;> simp [KillTally.record]

theorem notLess_own (hstep : s.own = some s') : NotLess s.tally s'.tally := by
  unfold KillSystem.own at hstep
  split at hstep
  all_goals try split_ifs at hstep
  all_goals
    cases hstep
    try exact ⟨le_rfl, le_rfl, le_rfl, le_rfl, id⟩

theorem notLess_forwardRequests {result : WriteResult}
    (hstep : s.forwardRequests encode result = some s') : NotLess s.tally s'.tally := by
  unfold KillSystem.forwardRequests at hstep
  split at hstep
  · split at hstep
    · cases hstep
      exact NotLess.refl _
    · split_ifs at hstep
      cases hstep
      exact NotLess.refl _
  · split at hstep
    · cases hstep
      dsimp only
      split_ifs
      · exact notLess_record _ _
      · exact NotLess.refl _
    · split_ifs at hstep
      cases hstep
      exact NotLess.refl _
    · cases hstep
      exact NotLess.refl _
  · cases hstep
    exact NotLess.refl _
  · cases hstep

theorem notLess_readOutcomes (hstep : s.readOutcomes = some s') : NotLess s.tally s'.tally := by
  unfold KillSystem.readOutcomes at hstep
  split at hstep
  · split at hstep
    · cases hstep
      exact notLess_record _ _
    · split_ifs at hstep
      cases hstep
      exact NotLess.refl _
  · split_ifs at hstep
    · cases hstep
      exact NotLess.refl _
    · cases hstep
      exact ⟨le_rfl, le_rfl, le_rfl, le_rfl, id⟩
  · cases hstep
    exact ⟨le_rfl, le_rfl, le_rfl, le_rfl, fun _ => rfl⟩
  · cases hstep
    exact NotLess.refl _
  · cases hstep

theorem notLess_step (hstep : s.step encode m = some s') : NotLess s.tally s'.tally := by
  unfold KillSystem.step at hstep
  cases m with
  | own => exact notLess_own hstep
  | forward result => exact notLess_forwardRequests hstep
  | read => exact notLess_readOutcomes hstep
  | sendKill | shutdown | take | unreadable =>
    dsimp only at hstep
    split at hstep
    · cases hstep
      exact NotLess.refl _
    · cases hstep
  | answer index outcome =>
    dsimp only at hstep
    split_ifs at hstep
    cases hstep
    exact NotLess.refl _
  | tryRecvResponse | pass | hangUp | die =>
    cases hstep
    exact NotLess.refl _

def Reaches (encode : KillRequest → Except String (List UInt8)) : KillSystem → KillSystem → Prop :=
  Relation.ReflTransGen (fun s s' => ∃ m, s.step encode m = some s')

theorem Reaches.notLess (h : Reaches encode s s') : NotLess s.tally s'.tally := by
  induction h with
  | refl => exact NotLess.refl _
  | tail _ hstep ih =>
    obtain ⟨m, hm⟩ := hstep
    exact ih.trans (notLess_step hm)

theorem Reachable.reaches (h : Reachable encode s) (hreaches : Reaches encode s s') :
    Reachable encode s' := by
  induction hreaches with
  | refl => exact h
  | tail _ hstep ih =>
    obtain ⟨m, hm⟩ := hstep
    exact ih.step hm

/-- The states that a snapshot passes through, one for each load and in its order. -/
structure Snapshot (encode : KillRequest → Except String (List UInt8)) where
  (workerGone sent rateLimited rejected errored droppedRequests unobservedOutcomes accepted :
    KillSystem)
  first : Reachable encode workerGone
  toSent : Reaches encode workerGone sent
  toRateLimited : Reaches encode sent rateLimited
  toRejected : Reaches encode rateLimited rejected
  toErrored : Reaches encode rejected errored
  toDroppedRequests : Reaches encode errored droppedRequests
  toUnobservedOutcomes : Reaches encode droppedRequests unobservedOutcomes
  toAccepted : Reaches encode unobservedOutcomes accepted

def Snapshot.counts (snap : Snapshot encode) : KillCounts :=
  KillTally.snapshot
    { workerGone := snap.workerGone.tally
      sent := snap.sent.tally
      rateLimited := snap.rateLimited.tally
      rejected := snap.rejected.tally
      errored := snap.errored.tally
      droppedRequests := snap.droppedRequests.tally
      unobservedOutcomes := snap.unobservedOutcomes.tally
      accepted := snap.accepted.tally }

theorem Snapshot.outcomes_le (snap : Snapshot encode) :
    snap.counts.outcomes ≤ snap.counts.accepted := by
  have hlast := snap.first.reaches (snap.toSent.trans (snap.toRateLimited.trans
    (snap.toRejected.trans (snap.toErrored.trans (snap.toDroppedRequests.trans
      (snap.toUnobservedOutcomes.trans snap.toAccepted))))))
  have hinv := hlast.inv
  have hanswered := hinv.answered
  have haccepted := hinv.accepted
  have herrored := snap.toDroppedRequests.notLess.trans
    (snap.toUnobservedOutcomes.notLess.trans snap.toAccepted.notLess)
  have hrejected := snap.toErrored.notLess.trans herrored
  have hrateLimited := snap.toRejected.notLess.trans hrejected
  have hsent := (snap.toRateLimited.notLess.trans hrateLimited).sent
  have hrest := And.intro hrateLimited.rateLimited (And.intro hrejected.rejected herrored.errored)
  rw [KillTally.booked] at hanswered
  have hcounts : snap.counts.outcomes = snap.sent.tally.sent + snap.rateLimited.tally.rateLimited +
      snap.rejected.tally.rejected + snap.errored.tally.errored ∧
      snap.counts.accepted = snap.accepted.tally.accepted := by
    simp only [Snapshot.counts, KillTally.snapshot]
    split_ifs <;> exact ⟨rfl, rfl⟩
  rw [hcounts.1, hcounts.2]
  omega

theorem Snapshot.lost (snap : Snapshot encode) (hgone : snap.workerGone.tally.workerGone = true) :
    snap.counts.lostToWorkerExit = snap.counts.accepted - snap.counts.outcomes := by
  simp only [Snapshot.counts, KillTally.snapshot, hgone, if_true]
  rfl

theorem killsEnded_total :
    kills (verdicts.map Prod.fst) = killsEnded verdicts .accepted + killsEnded verdicts .dropped +
      killsEnded verdicts .refused := by
  induction verdicts with
  | nil => rfl
  | cons v verdicts ih =>
    obtain ⟨request, verdict⟩ := v
    simp only [killsEnded, map_cons, kills_cons, countP_cons] at ih ⊢
    cases hcounted : request.counted <;> cases verdict <;> simp <;> omega

/-- In every order of steps each offered request comes to one end, and is counted by it; no more
outcomes are booked than requests were accepted; and when the response stream has ended and both
threads are done, every accepted request has its outcome or is lost, also for a snapshot that reads
the counters one at a time. -/
theorem kill_ledger (h : Reachable encode s) :
    (s.offered = s.verdicts.map Prod.fst ++ offering s.owner ∧
      (offering s.owner = [] → s.tally.accepted = killsEnded s.verdicts .accepted ∧
        s.tally.droppedRequests = ended s.verdicts .dropped ∧
        kills s.offered = s.tally.accepted + killsEnded s.verdicts .dropped +
          killsEnded s.verdicts .refused)) ∧
    s.tally.booked ≤ s.tally.accepted ∧
    ∀ snap : Snapshot encode, snap.counts.outcomes ≤ snap.counts.accepted ∧
      (snap.workerGone.forwarder = .finished → snap.workerGone.reader = .finished →
        snap.counts.accepted = snap.counts.sent + snap.counts.rateLimited + snap.counts.rejected +
          snap.counts.errored + snap.counts.lostToWorkerExit) := by
  have hinv := h.inv
  have hanswered := hinv.answered
  have haccepted := hinv.accepted
  refine ⟨⟨hinv.offered, fun hidle => ?_⟩, by omega,
    fun snap => ⟨snap.outcomes_le, fun _ hreader => ?_⟩⟩
  · have htentative : tentative s.owner = [] := by
      cases howner : s.owner <;> simp_all [offering, tentative]
    rw [htentative, kills_nil, Nat.add_zero] at haccepted
    refine ⟨haccepted, hinv.dropped, ?_⟩
    rw [hinv.offered, hidle, append_nil, killsEnded_total, haccepted]
  · have hle := snap.outcomes_le
    rw [snap.lost (snap.first.inv.gone (Or.inr hreader))]
    rw [KillCounts.outcomes] at hle ⊢
    omega

/-! ### A worker that dies with a request -/

def bareEncode (_ : KillRequest) : Except String (List UInt8) := .ok []

def killOf (port : UInt16) : KillRequest :=
  .sendResponse (.v4 0xc0000201) port (.v4 0xc0000202) 5060 [0x53]

/-- Two requests are accepted. The worker answers one of them and dies; the threads end with the
shutdown. -/
def oneAnswered : List KillMove :=
  [.sendKill (killOf 1), .own, .own, .own, .sendKill (killOf 2), .own, .own, .own,
    .forward .written, .forward .written, .take, .answer 0 .rateLimited, .read, .read, .die, .read,
    .read, .read, .sendKill (killOf 3), .own, .own, .shutdown, .own, .own, .own, .own,
    .forward (.broken false), .forward (.broken false), .forward (.broken false), .own, .own]

def steps (s : KillSystem) (moves : List KillMove) : Option KillSystem :=
  moves.foldlM (step bareEncode) s

theorem Reachable.steps {s s' : KillSystem} (h : Reachable bareEncode s) {moves : List KillMove}
    (hsteps : s.steps moves = some s') : Reachable bareEncode s' := by
  induction moves generalizing s with
  | nil =>
    obtain rfl := some.inj hsteps
    exact h
  | cons m moves ih =>
    obtain ⟨next, hnext, hrest⟩ := bind_eq_some_iff.mp hsteps
    exact ih (h.step hnext) hrest

def Snapshot.still (h : Reachable encode s) : Snapshot encode :=
  ⟨s, s, s, s, s, s, s, s, h, .refl, .refl, .refl, .refl, .refl, .refl, .refl⟩

theorem kill_ledger_one_answered :
    ∃ s, ∃ h : Reachable bareEncode s, s.forwarder = .finished ∧ s.reader = .finished ∧
      s.verdicts.map Prod.snd = [.accepted, .accepted, .refused] ∧
      s.tally.accepted = 2 ∧ s.tally.rateLimited = 1 ∧ s.tally.booked ≤ s.tally.accepted ∧
      (Snapshot.still h).counts.accepted =
        (Snapshot.still h).counts.sent + (Snapshot.still h).counts.rateLimited +
          (Snapshot.still h).counts.rejected + (Snapshot.still h).counts.errored +
            (Snapshot.still h).counts.lostToWorkerExit := by
  obtain ⟨s, hs⟩ : ∃ s, attach.steps oneAnswered = some s := by
    rw [← isSome_iff_exists]
    decide +kernel
  have hend : (attach.steps oneAnswered).map (fun s => (s.forwarder, s.reader,
      s.verdicts.map Prod.snd, s.tally.accepted, s.tally.rateLimited)) =
        some (.finished, .finished, [.accepted, .accepted, .refused], 2, 1) := by
    decide +kernel
  rw [hs] at hend
  simp only [map_some, Option.some.injEq, Prod.mk.injEq] at hend
  obtain ⟨hforwarder, hreader, hverdicts, haccepted, hrateLimited⟩ := hend
  have hreachable : Reachable bareEncode s := Reachable.attach.steps hs
  obtain ⟨-, hbooked, hsnapshot⟩ := kill_ledger hreachable
  exact ⟨s, hreachable, hforwarder, hreader, hverdicts, haccepted, hrateLimited, hbooked,
    (hsnapshot (.still hreachable)).2 hforwarder hreader⟩

end KillSystem

end Sipnab
