import Sipnab.Lib.KWayMerge
import Sipnab.Sip.DialogRuns
import Sipnab.Sip.TopologyHiding

/-!
# The dialog store

The store keeps its dialogs in the order they were opened and sheds them at its cap: a rotating
store drops the oldest ones in batches, a store that does not rotate turns the new one away. A
parallel run builds one store a worker and merges them: the fragments of each dialog are replayed
in read order.

`dialogsOpenedByMethod` holds one copy of a method's name for each dialog counted as opened under
it, so the count of a method is its multiplicity.
-/

namespace Sipnab

inductive DialogTracking
  | callId | branch
  deriving DecidableEq

/-- What the store's operations read and do not change: the body readers, the process-wide limits
and the order a hash set is walked in. -/
structure StoreEnv where
  readers : BodyReaders
  maxMessagesPerDialog : ℕ
  idleCompactAfter : ℤ
  keepMessagesPerIdleDialog : ℕ
  hashOrder : Finset String → List String
  mem_hashOrder : ∀ s x, x ∈ hashOrder s ↔ x ∈ s

/-- Limits on messages without a body, hash sets walked in the order of their texts. -/
def StoreEnv.plain (maxMessagesPerDialog : ℕ) : StoreEnv where
  readers := .bodiless
  maxMessagesPerDialog
  idleCompactAfter := 60000000000
  keepMessagesPerIdleDialog := 20
  hashOrder := fun s => s.sort (· ≤ ·)
  mem_hashOrder := fun _ _ => Finset.mem_sort _

structure DialogStore where
  dialogs : IndexMap String SipDialog := .empty
  tracking : DialogTracking := .callId
  maxDialogs : ℕ
  rotate : Bool
  dialogsOpenedByMethod : Multiset String := 0
  idleMessagesEvicted : ℕ := 0
  capacityDialogsDropped : ℕ := 0
  capacityDialogsEvicted : ℕ := 0
  generation : ℕ := 0
  xcidHeaders : List String := []
  admission : Option (SipMessage → Bool) := none
  legCorrelationWindowMs : ℕ := 2000
  thCallid : Option ThCallid := none
  thMappings : ThMappingTable := .new 100000 300
  thMappingsSwept : Option DateTime := none

namespace DialogStore

def totalDialogsOpened (s : DialogStore) : ℕ := s.dialogsOpenedByMethod.card

def trackingKey (tracking : DialogTracking) (m : SipMessage) : Option String :=
  m.callId.map (fun callId =>
    match tracking, m.topViaBranch with
    | .branch, some branch => if branch.isEmpty then callId else callId ++ "\n" ++ branch
    | _, _ => callId)

/-- The key a lookup uses: the composed one when the mode has one, else the Call-ID. -/
def lookupKey (tracking : DialogTracking) (m : SipMessage) : Option String :=
  match tracking with
  | .callId => m.callId
  | .branch => (trackingKey .branch m).or m.callId

def sweepThMappings (s : DialogStore) (now : DateTime) : DialogStore :=
  if s.thMappings.isEmpty ∨ ∃ t ∈ s.thMappingsSwept, now - t < 1000000000 then s
  else { s with
    thMappings := s.thMappings.sweep now (fun callId => (s.dialogs.get? callId).isSome)
    thMappingsSwept := some now }

/-- How many dialogs one eviction sheds from a store with this cap. -/
def evictionBatch (maxDialogs : ℕ) : ℕ := max (maxDialogs / 100) 1

def evictOldest (s : DialogStore) : DialogStore :=
  let batch := min (evictionBatch s.maxDialogs) s.dialogs.length
  { s with
    dialogs := s.dialogs.dropFirst batch
    capacityDialogsEvicted := s.capacityDialogsEvicted + batch }

/-- A rotating store at its cap makes room for one more dialog. -/
def makeRoom (s : DialogStore) : DialogStore :=
  if s.maxDialogs ≤ s.dialogs.length then s.evictOldest else s

def refuses (s : DialogStore) (m : SipMessage) : Prop := ∃ admits ∈ s.admission, admits m = false

instance (s : DialogStore) (m : SipMessage) : Decidable (s.refuses m) :=
  inferInstanceAs (Decidable (∃ admits ∈ s.admission, admits m = false))

/-- Open a dialog under a key the store does not hold, room made first. -/
def openNew (rd : BodyReaders) (s : DialogStore) (key : String) (m : SipMessage) : DialogStore :=
  if s.maxDialogs ≤ s.dialogs.length ∧ s.rotate = false then
    { s with capacityDialogsDropped := s.capacityDialogsDropped + 1 }
  else
    let s := s.makeRoom
    match openDialog rd m with
    | none => s
    | some d =>
      { s with
        dialogsOpenedByMethod := d.method.asStr ::ₘ s.dialogsOpenedByMethod
        dialogs := s.dialogs.insert key d }

def touch (s : DialogStore) (now : DateTime) : DialogStore :=
  { s with generation := s.generation + 1 }.sweepThMappings now

def routeMessage (env : StoreEnv) (s : DialogStore) (m : SipMessage) : DialogStore :=
  match lookupKey s.tracking m with
  | none => s
  | some key =>
    match s.dialogs.get? key with
    | some d =>
      { s with
        dialogs := s.dialogs.insert key (advanceDialog env.readers env.maxMessagesPerDialog d m) }
    | none => if s.refuses m then s else s.openNew env.readers key m

def processMessage (env : StoreEnv) (s : DialogStore) (m : SipMessage) : DialogStore :=
  routeMessage env (s.touch m.timestamp) m

def get (s : DialogStore) (callId : String) : Option SipDialog :=
  (s.dialogs.get? callId).or
    (if s.tracking = .branch then
      (s.dialogs.entries.find? (fun e => (callId ++ "\n").toList.isPrefixOf e.1.toList)).map Prod.snd
    else none)

/-! ## Compaction -/

def carriesDialogOutcome (m : SipMessage) (method : SipMethod) : Bool :=
  if m.isRequest then
    m.method = some .bye || m.method = some .cancel || m.method = some method
  else m.statusCode.any (fun c => 200 ≤ c || c = 401 || c = 407)

structure AnchorScan where
  anchors : List ℕ := []
  seenResponses : List (ℕ × String) := []
  seenOpeningRequest : Bool := false
  seenRequestMethods : List SipMethod := []

def AnchorScan.visit (dialogMethod : SipMethod) (a : AnchorScan) (p : SipMessage × ℕ) :
    AnchorScan :=
  let (m, idx) := p
  if carriesDialogOutcome m dialogMethod = false then a
  else if m.isRequest then
    match m.method with
    | none => a
    | some method =>
      if method = dialogMethod then
        if a.seenOpeningRequest then a
        else { a with seenOpeningRequest := true, anchors := a.anchors ++ [idx] }
      else if method ∈ a.seenRequestMethods then a
      else { a with
        seenRequestMethods := a.seenRequestMethods ++ [method]
        anchors := a.anchors ++ [idx] }
  else
    let key := (m.statusCode.getD 0, (m.cseq.map Prod.snd).getD "")
    if key ∈ a.seenResponses then a
    else { a with seenResponses := a.seenResponses ++ [key], anchors := a.anchors ++ [idx] }

def retainedIndices (messages : List SipMessage) (dialogMethod : SipMethod) (budget : ℕ) :
    Option (List ℕ) :=
  if messages.length ≤ budget then none
  else
    let anchors := (messages.zipIdx.foldl (AnchorScan.visit dialogMethod) {}).anchors
    if budget < anchors.length then
      let kept := anchors.take (budget - 1)
      some (if kept.length < budget then kept ++ anchors.getLast?.toList else kept)
    else
      let keep := (List.range messages.length).reverse.foldl
        (fun keep idx => if budget ≤ keep.card then keep else insert idx keep) anchors.toFinset
      some (keep.sort (· ≤ ·))

/-- The elements at the given ascending indices, counted from `i`. -/
def retainAt {α : Type*} : ℕ → List ℕ → List α → List α
  | _, _, [] => []
  | i, [], _ :: xs => retainAt (i + 1) [] xs
  | i, k :: ks, x :: xs =>
    if k = i then x :: retainAt (i + 1) ks xs else retainAt (i + 1) (k :: ks) xs

def compactDialog (env : StoreEnv) (now : DateTime) (d : SipDialog) : SipDialog :=
  if now - d.updatedAt ≤ env.idleCompactAfter then d
  else match retainedIndices d.messages d.method env.keepMessagesPerIdleDialog with
    | none => d
    | some keep => { d with messages := retainAt 0 keep d.messages }

structure CompactStats where
  dialogsCompacted : ℕ
  messagesEvicted : ℕ
  deriving DecidableEq

def compactIdle (env : StoreEnv) (s : DialogStore) (now : DateTime) : DialogStore × CompactStats :=
  let evicted := s.dialogs.values.map
    (fun d => d.messages.length - (compactDialog env now d).messages.length)
  let stats := ⟨(evicted.filter (· ≠ 0)).length, evicted.sum⟩
  ({ s with
      generation := s.generation + 1
      dialogs := s.dialogs.mapValues (fun _ d => compactDialog env now d)
      idleMessagesEvicted := s.idleMessagesEvicted + stats.messagesEvicted },
    stats)

/-- Reorder the dialogs by `key`, equal keys keeping their order. -/
def sortDialogsByKey {κ : Type*} [LinearOrder κ] (s : DialogStore) (key : SipDialog → κ) :
    DialogStore :=
  { s with
    dialogs := s.dialogs.sortBy (fun a b => decide (key a.2 ≤ key b.2))
    generation := s.generation + 1 }

end DialogStore

/-! ## Merging -/

/-- What a fragment that filled its message list counted about the messages it did not store. -/
structure UnkeptTail where
  retransmits : Multiset String
  timing : DialogTiming
  updatedAt : DateTime
  seenCseq : Finset String

namespace UnkeptTail

def ofDialog (fragment : SipDialog) : UnkeptTail where
  retransmits := fragment.timing.retransmitCounts -
    ↑((fragment.messages.filter (·.isRetransmission)).filterMap SipMessage.cseqKey)
  timing := fragment.timing
  updatedAt := fragment.updatedAt
  seenCseq := fragment.seenCseq

def fold (env : StoreEnv) (d : SipDialog) (tail : UnkeptTail) : SipDialog :=
  { d with
    timing := { d.timing with
      retransmitCounts := d.timing.retransmitCounts + tail.retransmits }
    updatedAt := max d.updatedAt tail.updatedAt
    seenCseq := (env.hashOrder tail.seenCseq).foldl
      (fun seen key => if maxSeenCseqPerDialog ≤ seen.card then seen else insert key seen)
      d.seenCseq }

/-- A milestone the replay never reached is the earliest any tail saw. -/
def earliest {α : Type*} [Min α] (tails : List UnkeptTail) (pick : DialogTiming → Option α)
    (reached : Option α) : Option α :=
  reached.or (tails.filterMap (fun t => pick t.timing)).min?

def foldAll (env : StoreEnv) (tails : List UnkeptTail) (d : SipDialog) : SipDialog :=
  if tails.isEmpty then d
  else
    let d := tails.foldl (fold env) d
    { d with
      timing := { d.timing with
        inviteSent := earliest tails DialogTiming.inviteSent d.timing.inviteSent
        tryingAt := earliest tails DialogTiming.tryingAt d.timing.tryingAt
        ringingAt := earliest tails DialogTiming.ringingAt d.timing.ringingAt
        answeredAt := earliest tails DialogTiming.answeredAt d.timing.answeredAt
        byeSent := earliest tails DialogTiming.byeSent d.timing.byeSent
        byeAnswered := earliest tails DialogTiming.byeAnswered d.timing.byeAnswered
        referSentAt := earliest tails DialogTiming.referSentAt d.timing.referSentAt
        transferCompletedAt :=
          earliest tails DialogTiming.transferCompletedAt d.timing.transferCompletedAt
        inviteCseq := earliest tails DialogTiming.inviteCseq d.timing.inviteCseq } }

end UnkeptTail

section Merge
variable {κ : Type*} [LinearOrder κ] (env : StoreEnv) (readPosition : Option FrameRef → DateTime → κ)

def messagePosition (m : SipMessage) : κ := readPosition m.frame m.timestamp

def frontLe (a b : List SipMessage) : Bool :=
  match a.head?, b.head? with
  | some x, some y => decide (messagePosition readPosition x ≤ messagePosition readPosition y)
  | none, _ => true
  | some _, none => false

def inReadOrder (fragments : List SipDialog) : List SipMessage :=
  let lanes := (fragments.map SipDialog.messages).filter (fun lane => !lane.isEmpty)
  mergeLanes (messagePosition readPosition) (lanes.mergeSort (frontLe readPosition))

/-- The dialog a single store would have built of the fragments. Where nothing can be replayed the
first fragment stands for the key, its messages taken. -/
def rebuildInReadOrder (fragments : List SipDialog) : Option SipDialog :=
  let cap := env.maxMessagesPerDialog
  let tails := (fragments.filter (fun f => cap ≤ f.messages.length)).map UnkeptTail.ofDialog
  match dialogOf env.readers cap (inReadOrder readPosition fragments) with
  | some d => some (UnkeptTail.foldAll env tails d)
  | none => fragments.head?.map (fun f => { f with messages := [] })

def forgetOpened (opened : Multiset String) (method : String) : Multiset String :=
  opened.erase method

def gatherFragments (stores : List DialogStore) : IndexMap String (List SipDialog) :=
  (stores.flatMap (fun s => s.dialogs.entries)).foldl
    (fun fragments e => fragments.alter e.1 (fun parts => parts.getD [] ++ [e.2])) .empty

abbrev Positioned (κ : Type*) := Option κ × String × SipDialog

def firstPosition (d : SipDialog) : Option κ :=
  d.messages.head?.map (messagePosition readPosition)

/-- One key's dialog out of its fragments. A key with several is rebuilt, and counted as opened
once under the rebuilt dialog's method instead of once for each fragment. -/
def joinFragments (acc : Multiset String × List (Positioned κ))
    (e : String × List SipDialog) : Multiset String × List (Positioned κ) :=
  match e.2 with
  | [d] => (acc.1, acc.2 ++ [(firstPosition readPosition d, e.1, d)])
  | parts =>
    match rebuildInReadOrder env readPosition parts with
    | none => acc
    | some d =>
      (d.method.asStr ::ₘ parts.foldl (fun opened part => forgetOpened opened part.method.asStr) acc.1,
        acc.2 ++ [(firstPosition readPosition d, e.1, d)])

def positionedLe (a b : Positioned κ) : Bool :=
  match a.1, b.1 with
  | some x, some y => decide (x ≤ y)
  | some _, none => true
  | none, some _ => false
  | none, none => true

def admitMerged (s : DialogStore) (p : Positioned κ) : DialogStore :=
  let (_, key, d) := p
  if s.maxDialogs ≤ s.dialogs.length ∧ s.rotate = false then
    { s with
      capacityDialogsDropped := s.capacityDialogsDropped + 1
      dialogsOpenedByMethod := forgetOpened s.dialogsOpenedByMethod d.method.asStr }
  else
    let s := s.makeRoom
    { s with dialogs := s.dialogs.insert key d }

/-- The counters of a store and of those folded into it, the dialogs taken out. -/
def mergeCounters (s : DialogStore) (others : List DialogStore) : DialogStore :=
  { s with
    generation := s.generation + 1
    dialogs := .empty
    dialogsOpenedByMethod :=
      s.dialogsOpenedByMethod + (others.map DialogStore.dialogsOpenedByMethod).sum
    idleMessagesEvicted := s.idleMessagesEvicted + (others.map DialogStore.idleMessagesEvicted).sum
    capacityDialogsDropped :=
      s.capacityDialogsDropped + (others.map DialogStore.capacityDialogsDropped).sum
    capacityDialogsEvicted :=
      s.capacityDialogsEvicted + (others.map DialogStore.capacityDialogsEvicted).sum }

def DialogStore.merge (s : DialogStore) (others : List DialogStore) : DialogStore :=
  let base := mergeCounters s others
  let (opened, dialogs) := (gatherFragments (s :: others)).entries.foldl
    (joinFragments env readPosition) (base.dialogsOpenedByMethod, [])
  (dialogs.mergeSort positionedLe).foldl admitMerged { base with dialogsOpenedByMethod := opened }

end Merge

end Sipnab
