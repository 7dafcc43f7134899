import Sipnab.Lib.Runs

/-!
# The delivery of HEP packets

The capture hands its packets to a queue. One thread takes them out at the front, writes them to the
collector, and puts back the one it could not write. A halt waits for the write that is under way
and discards the rest. Every critical section of the queue's lock is one step here, and any number
of callers may stand in front of the lock.
-/

namespace Sipnab

inductive ExportFailure
  | connect
  | tlsHandshake
  | write
  deriving DecidableEq

inductive DropReason
  | queueFull
  | stopped
  | unsentAtExit
  deriving DecidableEq

structure HepExportCounters where
  sent : ℕ := 0
  failures : ExportFailure → ℕ := fun _ => 0
  reconnects : ℕ := 0
  queued : ℕ := 0
  replayed : ℕ := 0
  dropped : DropReason → ℕ := fun _ => 0

namespace HepExportCounters

variable (c : HepExportCounters)

def recordSent : HepExportCounters := { c with sent := c.sent + 1 }

def recordFailure (kind : ExportFailure) : HepExportCounters :=
  { c with failures := Function.update c.failures kind (c.failures kind + 1) }

def recordReconnect : HepExportCounters := { c with reconnects := c.reconnects + 1 }

def recordQueued : HepExportCounters := { c with queued := c.queued + 1 }

def recordReplayed : HepExportCounters := { c with replayed := c.replayed + 1 }

def recordDropped (reason : DropReason) (n : ℕ) : HepExportCounters :=
  { c with dropped := Function.update c.dropped reason (c.dropped reason + n) }

def droppedTotal : ℕ := c.dropped .queueFull + c.dropped .stopped + c.dropped .unsentAtExit

def depth : ℕ := c.queued - c.sent - c.droppedTotal

end HepExportCounters

abbrev HepItem := ℕ × List UInt8

structure HepQueue where
  items : List HepItem := []
  bytes : ℕ := 0
  limit : ℕ
  nextSeq : ℕ := 0
  halted : Bool := false
  hurry : Bool := false

/-- Where the delivery thread is. It has the gate from `gated` on until it goes back to wait. -/
inductive DeliverPc
  | waiting
  | backingOff
  | connecting
  | taking
  | holding (item : HepItem)
  | gated (item : HepItem)
  | cleared (item : HepItem)
  | sending (item : HepItem)
  | written (item : HepItem)
  | refused (item : HepItem)
  | leaving
  | returned (held : Option HepItem)
  deriving DecidableEq

namespace DeliverPc

def hasGate : DeliverPc → Bool
  | gated _ | cleared _ | sending _ | written _ | refused _ | leaving => true
  | _ => false

def inHand : DeliverPc → Option HepItem
  | holding item | gated item | cleared item | sending item | refused item => some item
  | returned held => held
  | _ => none

/-- The packets that are out of the queue and not counted as sent or dropped. -/
def uncounted : DeliverPc → ℕ
  | written _ => 1
  | pc => if pc.inHand.isSome then 1 else 0

/-- A write is under way: the thread has passed its check and not yet noted the outcome. -/
def midway : DeliverPc → Bool
  | cleared _ | sending _ | written _ | refused _ => true
  | _ => false

end DeliverPc

inductive HaltPc
  | idle
  | halting (reason : DropReason)
  | discarding (reason : DropReason)
  | returned
  deriving DecidableEq

structure HepDelivery where
  queue : HepQueue
  counters : HepExportCounters := {}
  /-- The packets of the callers of `push` that stand in front of the lock. -/
  pushing : List (List UInt8) := []
  deliver : DeliverPc := .waiting
  outage : Bool
  failures : ℕ := 0
  replayBelow : ℕ := 0
  halt : HaltPc := .idle

/-- What a thread does next. A check of the stop flag comes with its answer, a call of the link with
its outcome. -/
inductive DeliveryAction
  | push (pkt : List UInt8)
  | enqueue (i : ℕ)
  | waitForWork (stop : Bool)
  | sleepUntil (stop due : Bool)
  | connect (outcome : Option ExportFailure)
  | isConnected
  | pop
  | lockGate
  | checkHalted (stop : Bool)
  | send
  | sendReturns (outcome : Option ExportFailure)
  | account
  | unlockGate
  | finish
  | halt (reason : DropReason)
  | passGate
  | discard
  deriving DecidableEq

inductive DeliveryEvent
  | started (seq : ℕ)
  | sent (seq : ℕ)
  | queueFull (seq : ℕ)
  | halted
  deriving DecidableEq

namespace HepDelivery

def start (limit : ℕ) (connected : Bool) : HepDelivery where
  queue := { limit }
  outage := !connected

def makeRoom (limit len : ℕ) : List HepItem → ℕ → List HepItem × ℕ × List HepItem
  | [], bytes => ([], bytes, [])
  | old :: items, bytes =>
    if limit < bytes + len then
      let (rest, left, evicted) := makeRoom limit len items (bytes - old.2.length)
      (rest, left, old :: evicted)
    else (old :: items, bytes, [])

def enqueue (d : HepDelivery) (pkt : List UInt8) : HepDelivery × List DeliveryEvent :=
  if d.queue.halted then
    ({ d with counters := d.counters.recordDropped .stopped 1 }, [])
  else if d.queue.limit < pkt.length then
    ({ d with counters := d.counters.recordDropped .queueFull 1 }, [])
  else
    let (items, bytes, evicted) := makeRoom d.queue.limit pkt.length d.queue.items d.queue.bytes
    ({ d with
       queue := { d.queue with
         items := items ++ [(d.queue.nextSeq, pkt)]
         bytes := bytes + pkt.length
         nextSeq := d.queue.nextSeq + 1 }
       counters := evicted.foldl (fun c _ => c.recordDropped .queueFull 1) d.counters },
      evicted.map (fun old => .queueFull old.1))

/-- The packet goes back to the front, unless the queue filled up meanwhile. -/
def putBack (d : HepDelivery) (item : HepItem) : HepDelivery × List DeliveryEvent :=
  if d.queue.halted then (d, [])
  else if d.queue.limit < d.queue.bytes + item.2.length then
    ({ d with counters := d.counters.recordDropped .queueFull 1 }, [.queueFull item.1])
  else
    ({ d with
       queue := { d.queue with
         items := item :: d.queue.items
         bytes := d.queue.bytes + item.2.length } }, [])

def noteFailure (d : HepDelivery) : HepDelivery :=
  { d with outage := true, failures := d.failures + 1 }

/-- The first packet that goes through after an outage ends it. -/
def noteSent (d : HepDelivery) (item : HepItem) : HepDelivery :=
  let d := if d.outage then
      { d with
        outage := false
        failures := 0
        replayBelow := d.queue.nextSeq
        counters := d.counters.recordReconnect }
    else d
  let counters := d.counters.recordSent
  { d with
    counters := if item.1 < d.replayBelow then counters.recordReplayed else counters }

/-- One thread goes on by one step, if it is there and not kept waiting. -/
def step (d : HepDelivery) : DeliveryAction → Option (HepDelivery × List DeliveryEvent)
  | .push pkt =>
    some ({ d with counters := d.counters.recordQueued, pushing := d.pushing ++ [pkt] }, [])
  | .enqueue i =>
    match d.pushing[i]? with
    | none => none
    | some pkt => some ({ d with pushing := d.pushing.eraseIdx i }.enqueue pkt)
  | .waitForWork stop =>
    match d.deliver with
    | .waiting =>
      if d.queue.halted || stop then some ({ d with deliver := .returned none }, [])
      else if d.queue.items.isEmpty then none
      else some ({ d with deliver := if 0 < d.failures then .backingOff else .connecting }, [])
    | _ => none
  | .sleepUntil stop due =>
    match d.deliver with
    | .backingOff =>
      if d.queue.halted || stop then some ({ d with deliver := .returned none }, [])
      else if due then some ({ d with deliver := .connecting }, [])
      else if d.queue.hurry then
        some ({ d with queue := { d.queue with hurry := false }, deliver := .connecting }, [])
      else none
    | _ => none
  | .isConnected =>
    match d.deliver with
    | .connecting => some ({ d with deliver := .taking }, [])
    | _ => none
  | .connect outcome =>
    match d.deliver, outcome with
    | .connecting, none => some ({ d with deliver := .taking }, [])
    | .connecting, some kind =>
      some ({ d with
        counters := d.counters.recordFailure kind, deliver := .waiting }.noteFailure, [])
    | _, _ => none
  | .pop =>
    match d.deliver, d.queue.items with
    | .taking, [] => some ({ d with deliver := .waiting }, [])
    | .taking, item :: items =>
      some ({ d with
        queue := { d.queue with items, bytes := d.queue.bytes - item.2.length }
        deliver := .holding item }, [])
    | _, _ => none
  | .lockGate =>
    match d.deliver with
    | .holding item => some ({ d with deliver := .gated item }, [])
    | _ => none
  | .checkHalted stop =>
    match d.deliver with
    | .gated item =>
      if d.queue.halted || stop then some ({ d with deliver := .returned (some item) }, [])
      else some ({ d with deliver := .cleared item }, [])
    | _ => none
  | .send =>
    match d.deliver with
    | .cleared item => some ({ d with deliver := .sending item }, [.started item.1])
    | _ => none
  | .sendReturns outcome =>
    match d.deliver, outcome with
    | .sending item, none => some ({ d with deliver := .written item }, [.sent item.1])
    | .sending item, some kind =>
      some ({ d with counters := d.counters.recordFailure kind, deliver := .refused item }, [])
    | _, _ => none
  | .account =>
    match d.deliver with
    | .written item => some ({ d with deliver := .leaving }.noteSent item, [])
    | .refused item =>
      let (d, events) := { d with deliver := .leaving }.putBack item
      some (d.noteFailure, events)
    | _ => none
  | .unlockGate =>
    match d.deliver with
    | .leaving => some ({ d with deliver := .waiting }, [])
    | _ => none
  | .finish => some ({ d with queue := { d.queue with hurry := true } }, [])
  | .halt reason =>
    if d.queue.halted then some (d, [.halted])
    else some ({ d with queue := { d.queue with halted := true }, halt := .halting reason }, [])
  | .passGate =>
    match d.halt with
    | .halting reason =>
      if d.deliver.hasGate then none else some ({ d with halt := .discarding reason }, [])
    | _ => none
  | .discard =>
    match d.halt with
    | .discarding reason =>
      some ({ d with
        queue := { d.queue with items := [], bytes := 0 }
        counters := d.counters.recordDropped reason d.counters.depth
        halt := .returned }, [.halted])
    | _ => none

/-! ## Making room -/

def itemBytes (items : List HepItem) : ℕ := (items.map (fun item => item.2.length)).sum

section MakeRoom

variable {limit len bytes : ℕ} {items : List HepItem}

theorem makeRoom_append (limit len : ℕ) (items : List HepItem) (bytes : ℕ) :
    (makeRoom limit len items bytes).2.2 ++ (makeRoom limit len items bytes).1 = items := by
  induction items generalizing bytes with
  | nil => rfl
  | cons old items ih =>
    rw [makeRoom]
    split_ifs
    · exact congrArg (old :: ·) (ih _)
    · rfl

theorem makeRoom_bytes (h : bytes = itemBytes items) :
    (makeRoom limit len items bytes).2.1 = itemBytes (makeRoom limit len items bytes).1 := by
  induction items generalizing bytes with
  | nil => exact h
  | cons old items ih =>
    have hcons : itemBytes (old :: items) = old.2.length + itemBytes items := rfl
    rw [makeRoom]
    split_ifs
    · apply ih
      omega
    · exact h

theorem makeRoom_fits (hlen : len ≤ limit) (h : bytes = itemBytes items) :
    (makeRoom limit len items bytes).2.1 + len ≤ limit := by
  induction items generalizing bytes with
  | nil =>
    have hnil : itemBytes [] = 0 := rfl
    rw [makeRoom]
    dsimp only
    omega
  | cons old items ih =>
    have hcons : itemBytes (old :: items) = old.2.length + itemBytes items := rfl
    rw [makeRoom]
    split_ifs with hfull
    · apply ih
      omega
    · exact not_lt.mp hfull

theorem makeRoom_of_fits (h : bytes + len ≤ limit) :
    makeRoom limit len items bytes = (items, bytes, []) := by
  cases items with
  | nil => rfl
  | cons old items =>
    rw [makeRoom, if_neg (not_lt.mpr h)]

end MakeRoom

/-! ## What a step can do -/

/-- The same queue, counts, callers and halt, whatever the thread does. -/
structure Frame (d d' : HepDelivery) : Prop where
  items : d'.queue.items = d.queue.items
  bytes : d'.queue.bytes = d.queue.bytes
  limit : d'.queue.limit = d.queue.limit
  nextSeq : d'.queue.nextSeq = d.queue.nextSeq
  halted : d'.queue.halted = d.queue.halted
  pushing : d'.pushing = d.pushing
  halt : d'.halt = d.halt
  sent : d'.counters.sent = d.counters.sent
  queued : d'.counters.queued = d.counters.queued
  dropped : d'.counters.droppedTotal = d.counters.droppedTotal

inductive Moves (d d' : HepDelivery) : DeliveryAction → List DeliveryEvent → Prop
  | thread {action : DeliveryAction} (frame : Frame d d')
      (inHand : d'.deliver.inHand = d.deliver.inHand)
      (uncounted : d'.deliver.uncounted = d.deliver.uncounted)
      (midway : d'.deliver.midway = true → d.deliver.midway = true ∨ d.queue.halted = false)
      (other : action ≠ .discard) : Moves d d' action []
  | started (item : HepItem) (frame : Frame d d') (before : d.deliver = .cleared item)
      (after : d'.deliver = .sending item) : Moves d d' .send [.started item.1]
  | sent (item : HepItem) (frame : Frame d d') (before : d.deliver = .sending item)
      (after : d'.deliver = .written item) : Moves d d' (.sendReturns none) [.sent item.1]
  | popped (item : HepItem) (items : List HepItem) (before : d.deliver = .taking)
      (first : d.queue.items = item :: items)
      (after : d' = { d with
        queue := { d.queue with items, bytes := d.queue.bytes - item.2.length }
        deliver := .holding item }) : Moves d d' .pop []
  | counted (item : HepItem) (before : d.deliver = .written item) (after : d'.deliver = .leaving)
      (frame : Frame { d with counters := d.counters.recordSent } d') : Moves d d' .account []
  | putBack (item : HepItem) (before : d.deliver = .refused item)
      (after : d' = ({ d with deliver := .leaving }.putBack item).1.noteFailure) :
      Moves d d' .account ({ d with deliver := .leaving }.putBack item).2
  | pushed (pkt : List UInt8)
      (after : d' = { d with
        counters := d.counters.recordQueued
        pushing := d.pushing ++ [pkt] }) : Moves d d' (.push pkt) []
  | enqueued (i : ℕ) (pkt : List UInt8) (caller : d.pushing[i]? = some pkt)
      (after : d' = ({ d with pushing := d.pushing.eraseIdx i }.enqueue pkt).1) :
      Moves d d' (.enqueue i) ({ d with pushing := d.pushing.eraseIdx i }.enqueue pkt).2
  | halted (reason : DropReason) (before : d.queue.halted = false)
      (after : d' = { d with
        queue := { d.queue with halted := true }
        halt := .halting reason }) : Moves d d' (.halt reason) []
  | haltedAgain (reason : DropReason) (before : d.queue.halted = true) (after : d' = d) :
      Moves d d' (.halt reason) [.halted]
  | passed (reason : DropReason) (before : d.halt = .halting reason)
      (gate : d.deliver.hasGate = false) (after : d' = { d with halt := .discarding reason }) :
      Moves d d' .passGate []
  | discarded (reason : DropReason) (before : d.halt = .discarding reason)
      (after : d' = { d with
        queue := { d.queue with items := [], bytes := 0 }
        counters := d.counters.recordDropped reason d.counters.depth
        halt := .returned }) : Moves d d' .discard [.halted]

variable {d d' : HepDelivery} {events : List DeliveryEvent} {action : DeliveryAction}

theorem frame_noteSent (d : HepDelivery) (item : HepItem) :
    Frame { d with counters := d.counters.recordSent } (d.noteSent item) ∧
      (d.noteSent item).deliver = d.deliver := by
  rw [noteSent]
  cases d.outage
  · dsimp only
    split_ifs <;> exact ⟨⟨rfl, rfl, rfl, rfl, rfl, rfl, rfl, rfl, rfl, rfl⟩, rfl⟩
  · dsimp only
    split_ifs <;> exact ⟨⟨rfl, rfl, rfl, rfl, rfl, rfl, rfl, rfl, rfl, rfl⟩, rfl⟩

theorem moves_of_deliver {pc : DeliverPc} (hbefore : d.deliver = pc) (pc' : DeliverPc)
    (hhand : pc'.inHand = pc.inHand) (huncounted : pc'.uncounted = pc.uncounted)
    (hmidway : pc'.midway = false ∨ d.queue.halted = false) (hother : action ≠ .discard) :
    Moves d { d with deliver := pc' } action [] := by
  subst hbefore
  exact .thread ⟨rfl, rfl, rfl, rfl, rfl, rfl, rfl, rfl, rfl, rfl⟩ hhand huncounted
    (fun hend => .inr (hmidway.resolve_left (ne_false_of_eq_true hend))) hother

theorem moves_of_step (h : d.step action = some (d', events)) : Moves d d' action events := by
  cases action with
  | push pkt =>
    cases h
    exact .pushed pkt rfl
  | enqueue i =>
    simp only [step] at h
    split at h
    · cases h
    · rename_i pkt hpkt
      obtain ⟨rfl, rfl⟩ := Prod.mk.inj (Option.some.inj h)
      exact .enqueued i pkt hpkt rfl
  | waitForWork stop =>
    simp only [step] at h
    split at h
    · rename_i hpc
      split_ifs at h <;> cases h
      all_goals exact moves_of_deliver hpc _ rfl rfl (.inl rfl) (fun h => by cases h)
    · cases h
  | sleepUntil stop due =>
    simp only [step] at h
    split at h
    · rename_i hpc
      split_ifs at h <;> cases h
      · exact moves_of_deliver hpc _ rfl rfl (.inl rfl) (fun h => by cases h)
      · exact moves_of_deliver hpc _ rfl rfl (.inl rfl) (fun h => by cases h)
      · refine .thread ⟨rfl, rfl, rfl, rfl, rfl, rfl, rfl, rfl, rfl, rfl⟩ ?_ ?_ ?_ ?_
        · rw [hpc]
          rfl
        · rw [hpc]
          rfl
        · exact fun h => by cases h
        · exact fun h => by cases h
    · cases h
  | isConnected =>
    simp only [step] at h
    split at h
    · rename_i hpc
      cases h
      exact moves_of_deliver hpc _ rfl rfl (.inl rfl) (fun h => by cases h)
    · cases h
  | connect outcome =>
    simp only [step] at h
    split at h
    · rename_i hpc
      cases h
      exact moves_of_deliver hpc _ rfl rfl (.inl rfl) (fun h => by cases h)
    · rename_i hpc
      cases h
      refine .thread ⟨rfl, rfl, rfl, rfl, rfl, rfl, rfl, rfl, rfl, rfl⟩ ?_ ?_ ?_ ?_
      · rw [hpc]
        rfl
      · rw [hpc]
        rfl
      · exact fun h => by cases h
      · exact fun h => by cases h
    · cases h
  | pop =>
    simp only [step] at h
    split at h
    · rename_i hpc _
      cases h
      exact moves_of_deliver hpc _ rfl rfl (.inl rfl) (fun h => by cases h)
    · rename_i item items hpc hitems
      cases h
      exact .popped item items hpc hitems rfl
    · cases h
  | lockGate =>
    simp only [step] at h
    split at h
    · rename_i hpc
      cases h
      exact moves_of_deliver hpc _ rfl rfl (.inl rfl) (fun h => by cases h)
    · cases h
  | checkHalted stop =>
    simp only [step] at h
    split at h
    · rename_i hpc
      split_ifs at h with hhalted <;> cases h
      · exact moves_of_deliver hpc _ rfl rfl (.inl rfl) (fun h => by cases h)
      · refine moves_of_deliver hpc _ rfl rfl (.inr ?_) (fun h => by cases h)
        simp only [Bool.or_eq_true, not_or, Bool.not_eq_true] at hhalted
        exact hhalted.1
    · cases h
  | send =>
    simp only [step] at h
    split at h
    · rename_i item hpc
      cases h
      exact .started item ⟨rfl, rfl, rfl, rfl, rfl, rfl, rfl, rfl, rfl, rfl⟩ hpc rfl
    · cases h
  | sendReturns outcome =>
    simp only [step] at h
    split at h
    · rename_i item hpc
      cases h
      exact .sent item ⟨rfl, rfl, rfl, rfl, rfl, rfl, rfl, rfl, rfl, rfl⟩ hpc rfl
    · rename_i item kind hpc
      cases h
      refine .thread ⟨rfl, rfl, rfl, rfl, rfl, rfl, rfl, rfl, rfl, rfl⟩ ?_ ?_ ?_ ?_
      · rw [hpc]
        rfl
      · rw [hpc]
        rfl
      · rw [hpc]
        exact fun _ => Or.inl rfl
      · exact fun h => by cases h
    · cases h
  | account =>
    simp only [step] at h
    split at h
    · rename_i item hpc
      cases h
      obtain ⟨hframe, hdeliver⟩ := frame_noteSent { d with deliver := .leaving } item
      exact .counted item hpc hdeliver { hframe with }
    · rename_i item hpc
      cases h
      exact .putBack item hpc rfl
    · cases h
  | unlockGate =>
    simp only [step] at h
    split at h
    · rename_i hpc
      cases h
      exact moves_of_deliver hpc _ rfl rfl (.inl rfl) (fun h => by cases h)
    · cases h
  | finish =>
    cases h
    exact .thread ⟨rfl, rfl, rfl, rfl, rfl, rfl, rfl, rfl, rfl, rfl⟩ rfl rfl Or.inl
      (fun h => by cases h)
  | halt reason =>
    simp only [step] at h
    split_ifs at h with hhalted <;> cases h
    · exact .haltedAgain reason hhalted rfl
    · exact .halted reason (Bool.eq_false_iff.mpr hhalted) rfl
  | passGate =>
    simp only [step] at h
    split at h
    · rename_i reason hhalt
      split_ifs at h with hgate
      cases h
      exact .passed reason hhalt (Bool.eq_false_iff.mpr hgate) rfl
    · cases h
  | discard =>
    simp only [step] at h
    split at h
    · rename_i reason hhalt
      cases h
      exact .discarded reason hhalt rfl
    · cases h

end HepDelivery

end Sipnab
