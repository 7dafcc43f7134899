import Sipnab.Sip.DialogStore
import Sipnab.Sip.LegIdentifiers

/-!
# Correlating the legs of a call

Nine rules tell that two dialogs are legs of one call, tried in order: eight compare identifiers,
the last guesses from shared endpoints and close starts. The correlation tree of a dialog walks
breadth-first through the legs found by an identifier and leaves those found by a guess as leaves.
-/

namespace Sipnab

inductive CorrelationReason
  | sessionId | sdpOrigin | xCallId | chargingVectorRelatedIcid | chargingVectorIcid | viaBranch
  | timingHeuristic | topologyHidingCallid | topologyHidingMapping
  deriving DecidableEq

inductive CorrelationMethod
  | decoded | mapping | header | sdp | timing
  deriving DecidableEq

namespace CorrelationReason

def strategy : CorrelationReason → String × Bool
  | sessionId => ("session_id", true)
  | xCallId => ("x_call_id", true)
  | sdpOrigin => ("sdp_origin", true)
  | chargingVectorRelatedIcid => ("charging_vector_related_icid", true)
  | chargingVectorIcid => ("charging_vector_icid", true)
  | viaBranch => ("via_branch", true)
  | timingHeuristic => ("timing_heuristic", false)
  | topologyHidingCallid => ("th_callid_decoded", true)
  | topologyHidingMapping => ("th_callid_mapping", true)

def identifierMatch (r : CorrelationReason) : Bool := r.strategy.2

def method : CorrelationReason → CorrelationMethod
  | topologyHidingCallid => .decoded
  | topologyHidingMapping => .mapping
  | xCallId | sessionId | chargingVectorRelatedIcid | chargingVectorIcid | viaBranch => .header
  | sdpOrigin => .sdp
  | timingHeuristic => .timing

def score : CorrelationReason → ℕ
  | sessionId | topologyHidingMapping | topologyHidingCallid | xCallId => 100
  | chargingVectorRelatedIcid => 95
  | sdpOrigin => 90
  | chargingVectorIcid => 85
  | viaBranch => 80
  | timingHeuristic => 50

end CorrelationReason

structure CorrelationResult where
  dialog : SipDialog
  score : ℕ
  reason : CorrelationReason

def CorrelationResult.of (dialog : SipDialog) (reason : CorrelationReason) : CorrelationResult :=
  ⟨dialog, reason.score, reason⟩

/-! ## Topology hiding in a store -/

inductive ThCallidStatus
  | decoded | notConfigured | undecodable | unmatched | mapped | conflict
  deriving DecidableEq

namespace ThMappingTable

/-- The other leg of an announced pair, while nothing contradicts it. -/
def partner (t : ThMappingTable) (callId : String) : Option String :=
  match t.byCaller.get? callId with
  | some e => if e.conflicted then none else some e.callee
  | none => do
    let caller ← t.byCallee.get? callId
    let e ← t.byCaller.get? caller
    if e.conflicted then none else some caller

def isConflicted (t : ThMappingTable) (callId : String) : Bool :=
  (t.byCaller.get? ((t.byCallee.get? callId).getD callId)).any ThEntry.conflicted

def isCallee (t : ThMappingTable) (callId : String) : Bool := (t.byCallee.get? callId).isSome

end ThMappingTable

def isHidden (callId hiddenPrefix : String) : Bool :=
  hiddenPrefix ≠ "" && hiddenPrefix.utf8ByteSize < callId.utf8ByteSize &&
    hiddenPrefix.toList.isPrefixOf callId.toList

def SipDialog.leg (d : SipDialog) : Leg := ⟨d.callId, d.fromTag, d.toTag⟩

def thJoins (decoded : Decode) (hidden caller : SipDialog) : Bool :=
  joins decoded hidden.leg caller.leg

namespace DialogStore

def thPrefix (s : DialogStore) : String := s.thCallid.elim "DLGCH_" ThCallid.hiddenPrefix

def thMappingStatus (s : DialogStore) (callId : String) : Option ThCallidStatus :=
  if s.thMappings.isCallee callId = false then none
  else if s.thMappings.isConflicted callId then some .conflict
  else do
    let caller ← s.thMappings.partner callId
    if (s.dialogs.get? caller).isSome then some .mapped else none

def thStatusOf (s : DialogStore) (d : SipDialog) : Option ThCallidStatus :=
  if isHidden d.callId s.thPrefix = false then none
  else match s.thCallid with
    | none => some .notConfigured
    | some th =>
      match th.decode d.callId with
      | .notHidden | .undecodable => some .undecodable
      | .decoded callId embeddedTag =>
        match s.get callId with
        | some caller =>
          if thJoins (.decoded callId embeddedTag) d caller then some .decoded
          else some .unmatched
        | none => some .unmatched

def thCallidStatus (s : DialogStore) (callId : String) : Option ThCallidStatus := do
  let d ← s.get callId
  (s.thMappingStatus callId).or (s.thStatusOf d)

/-! ## The rules -/

/-- The source is the hidden leg where its Call-ID bears the hiding text, else the candidate is. -/
def thCallidJoins (s : DialogStore) (callId : String) (dialog candidate : SipDialog) : Bool :=
  s.thCallid.any (fun th =>
    match th.decode callId with
    | .notHidden => thJoins (th.decode candidate.callId) candidate dialog
    | decoded => thJoins decoded dialog candidate)

def xcidMatch (s : DialogStore) (callId : String) (dialog candidate : SipDialog) : Bool :=
  (dialog.xCallIds s.xcidHeaders).contains candidate.callId ||
    (candidate.xCallIds s.xcidHeaders).contains callId

def relatedMatch (dialog candidate : SipDialog) : Bool :=
  candidate.icids.any (fun icid => dialog.relatedIcids.contains icid) ||
    candidate.relatedIcids.any (fun rel => dialog.icids.contains rel)

def ipOverlap (dialog candidate : SipDialog) : Bool :=
  [dialog.srcAddr, dialog.dstAddr].any
    (fun ip => [candidate.srcAddr, candidate.dstAddr].contains ip)

def startGapMs (dialog candidate : SipDialog) : ℕ :=
  ((dialog.createdAt - candidate.createdAt).tdiv 1000000).natAbs

def timingMatch (s : DialogStore) (dialog candidate : SipDialog) : Bool :=
  dialog.method = .invite && candidate.method = .invite && ipOverlap dialog candidate &&
    startGapMs dialog candidate ≤ s.legCorrelationWindowMs

/-- The first rule that joins a candidate to the dialog of `callId`. -/
def correlate (rd : BodyReaders) (s : DialogStore) (callId : String)
    (dialog candidate : SipDialog) : Option CorrelationReason :=
  if candidate.sessionIds.any (fun cand => dialog.sessionIds.any (·.sameSessionAs cand)) then
    some .sessionId
  else if s.thMappings.links callId candidate.callId then some .topologyHidingMapping
  else if s.thCallidJoins callId dialog candidate then some .topologyHidingCallid
  else if s.xcidMatch callId dialog candidate then some .xCallId
  else if relatedMatch dialog candidate then some .chargingVectorRelatedIcid
  else if (candidate.sdpOrigins rd).any (fun k => (dialog.sdpOrigins rd).contains k) then
    some .sdpOrigin
  else if candidate.icids.any (fun icid => dialog.icids.contains icid) then
    some .chargingVectorIcid
  else if candidate.inviteBranches.any (fun b => dialog.inviteBranches.contains b) then
    some .viaBranch
  else if s.timingMatch dialog candidate then some .timingHeuristic
  else none

/-- The correlated dialogs, the highest score first, equal scores in store order. -/
def findCorrelatedScored (rd : BodyReaders) (s : DialogStore) (callId : String) :
    List CorrelationResult :=
  match s.get callId with
  | none => []
  | some dialog =>
    ((s.dialogs.values.filter (fun c => c.callId ≠ callId)).filterMap
      (fun c => (correlate rd s callId dialog c).map (.of c))).insertionSort
        (fun a b => b.score ≤ a.score)

end DialogStore

/-! ## The tree -/

structure TreeLeg where
  callId : String
  depth : ℕ
  parentCallId : Option String
  score : Option ℕ
  strategy : Option String
  method : Option CorrelationMethod
  identifierMatch : Option Bool
  followed : Bool
  thCallid : Option ThCallidStatus
  deriving DecidableEq

structure CorrelationTree where
  legs : List TreeLeg
  maxDepth : ℕ
  truncated : Bool
  heuristicEdges : ℕ
  totalMessages : ℕ
  firstActivity : Option DateTime
  lastActivity : Option DateTime
  deriving DecidableEq

/-- A walk under way: the tree so far, the Call-IDs found and walked through, and those to walk
through with their depths. -/
structure TreeWalk where
  legs : List TreeLeg
  totalMessages : ℕ
  firstActivity : DateTime
  lastActivity : DateTime
  seen : Finset String
  walked : Finset String := ∅
  queue : List (String × ℕ)
  truncated : Bool := false
  heuristicEdges : ℕ := 0
  maxDepth : ℕ := 0

namespace TreeWalk

def start (root : SipDialog) : TreeWalk where
  legs := [⟨root.callId, 0, none, none, none, none, none, false, none⟩]
  totalMessages := root.messages.length
  firstActivity := root.createdAt
  lastActivity := root.updatedAt
  seen := {root.callId}
  queue := [(root.callId, 0)]

/-- Take up one correlated dialog. At the limit the walk ends instead. -/
def find (limit : ℕ) (parent : String) (depth : ℕ) (w : TreeWalk) (r : CorrelationResult) :
    TreeWalk :=
  if w.truncated ∨ r.dialog.callId ∈ w.seen then w
  else
    let seen := insert r.dialog.callId w.seen
    if limit ≤ w.legs.length then { w with seen, truncated := true }
    else
      let (strategy, identifierMatch) := r.reason.strategy
      { w with
        seen
        heuristicEdges := if identifierMatch then w.heuristicEdges else w.heuristicEdges + 1
        maxDepth := max w.maxDepth (depth + 1)
        totalMessages := w.totalMessages + r.dialog.messages.length
        firstActivity := min w.firstActivity r.dialog.createdAt
        lastActivity := max w.lastActivity r.dialog.updatedAt
        legs := w.legs ++ [⟨r.dialog.callId, depth + 1, some parent, some r.score, some strategy,
          some r.reason.method, some identifierMatch, false, none⟩]
        queue := if identifierMatch then w.queue ++ [(r.dialog.callId, depth + 1)] else w.queue }

end TreeWalk

namespace DialogStore

def foundLe (a b : CorrelationResult) : Prop :=
  b.score < a.score ∨ a.score = b.score ∧ a.dialog.callId ≤ b.dialog.callId

instance (a b : CorrelationResult) : Decidable (foundLe a b) :=
  inferInstanceAs (Decidable (_ ∨ _))

variable (rd : BodyReaders) (s : DialogStore) (limit : ℕ)

def foundFrom (callId : String) : List CorrelationResult :=
  (findCorrelatedScored rd s callId).insertionSort foundLe

def expand (w : TreeWalk) : TreeWalk :=
  match w.queue with
  | [] => w
  | (parent, depth) :: rest =>
    (foundFrom rd s parent).foldl (TreeWalk.find limit parent depth)
      { w with queue := rest, walked := insert parent w.walked }

def walkTree : ℕ → TreeWalk → TreeWalk
  | 0, w => w
  | n + 1, w => if w.truncated then w else walkTree n (expand rd s limit w)

/-- Depth, then creation, then Call-ID; a dialog that is gone counts as created first. -/
def legKey (leg : TreeLeg) : ℕ ×ₗ (WithBot DateTime) ×ₗ String :=
  toLex (leg.depth, toLex ((s.get leg.callId).map SipDialog.createdAt, leg.callId))

/-- The correlation tree of a Call-ID. Each dialog held is walked through at most once. -/
def correlationTree (callId : String) : Option CorrelationTree := do
  let root ← s.get callId
  let w := walkTree rd s limit s.dialogs.length (.start root)
  let legs := w.legs.map (fun leg => { leg with
    followed := leg.callId ∈ w.walked
    thCallid := s.thCallidStatus leg.callId })
  some
    { legs := legs.insertionSort (fun a b => s.legKey a ≤ s.legKey b)
      maxDepth := w.maxDepth
      truncated := w.truncated
      heuristicEdges := w.heuristicEdges
      totalMessages := w.totalMessages
      firstActivity := some w.firstActivity
      lastActivity := some w.lastActivity }

end DialogStore

def CorrelationTree.callIds (t : CorrelationTree) : List String := t.legs.map TreeLeg.callId

end Sipnab
