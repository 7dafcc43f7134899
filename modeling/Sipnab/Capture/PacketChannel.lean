import Mathlib

/-!
# The packet channel

A queue without bound and a pool of slots beside it. A sender claims a slot, counts its packets in
flight and queues them as one item; the receiver takes an item off the queue, returns its slot and
hands out its packets one at a time. The two queues do each of their operations at once; between
any two of them every other thread may move.
-/

namespace Sipnab.Capture

open List

def genuineBlockThreshold : ℕ := 1000000

/-- Whether a send that waited some nanoseconds counts as blocked. -/
def isGenuineBlock (elapsed : ℕ) : Bool := genuineBlockThreshold ≤ elapsed

inductive Item (α : Type*)
  | one (packet : α)
  | many (packets : List α)

namespace Item

variable {α : Type*}

def packets : Item α → List α
  | .one packet => [packet]
  | .many packets => packets

def size (item : Item α) : ℕ := item.packets.length

end Item

inductive SendPc (α : Type*)
  | idle
  /-- It found no slot free, and waits for one. -/
  | waiting (item : Item α)
  | claimed (item : Item α)
  | metered (item : Item α)
  /-- It claimed a slot, and the receiver is gone. -/
  | refused (item : Item α)

/-- Where the receiver is, with the sender of what it has in its hands. -/
inductive RecvPc (α : Type*)
  | idle
  | asking
  | dequeued (sender : ℕ) (item : Item α)
  | freed (sender : ℕ) (item : Item α)
  | took (sender : ℕ) (packet : α)

/-- The channel with its senders and its receiver. Every packet goes with the sender that sent it. -/
structure PacketChannel (α : Type*) where
  slots : ℕ
  data : List (ℕ × Item α)
  /-- How many slots are claimed. -/
  claimed : ℕ
  buffered : List (ℕ × α)
  inFlight : ℕ
  capacityHits : ℕ
  backpressureBlocks : ℕ
  clones : ℕ
  sender : ℕ → SendPc α
  receiver : RecvPc α
  /-- The receiver's half of the queue is there. -/
  dataOpen : Bool
  slotOpen : Bool
  /-- Sent with success, and received, in order. -/
  sent : List (ℕ × α)
  received : List (ℕ × α)

inductive Move (α : Type*)
  | clone
  | send (i : ℕ) (packet : α)
  | sendMany (i : ℕ) (packets : List α)
  /-- A waiting sender goes on, after some nanoseconds. -/
  | wake (i elapsed : ℕ)
  | meter (i : ℕ)
  | enqueue (i : ℕ)
  | unmeter (i : ℕ)
  /-- The receiver is asked for a packet, by `recv_timeout` or by `try_iter`. -/
  | recv
  | dequeue
  /-- There is nothing in the queue, at the end of the time or at once. -/
  | giveUp
  | free
  | unpack
  | account
  /-- The receiver is dropped, first its half of the queue. -/
  | dropData
  | dropSlots

namespace PacketChannel

variable {α : Type*}

def channelWithSlots (slots : ℕ) : PacketChannel α where
  slots := max slots 1
  data := []
  claimed := 0
  buffered := []
  inFlight := 0
  capacityHits := 0
  backpressureBlocks := 0
  clones := 1
  sender _ := .idle
  receiver := .idle
  dataOpen := true
  slotOpen := true
  sent := []
  received := []

def tag (i : ℕ) (packets : List α) : List (ℕ × α) := packets.map (fun packet => (i, packet))

def setSender (c : PacketChannel α) (i : ℕ) (pc : SendPc α) : PacketChannel α :=
  { c with sender := Function.update c.sender i pc }

def sendItem (c : PacketChannel α) (i : ℕ) (item : Item α) : PacketChannel α :=
  if !c.slotOpen then c
  else if c.claimed < c.slots then
    { c.setSender i (.claimed item) with claimed := c.claimed + 1 }
  else { c.setSender i (.waiting item) with capacityHits := c.capacityHits + 1 }

/-- What the receiver does with an item whose slot is free again. -/
def unpackItem (c : PacketChannel α) (i : ℕ) : Item α → PacketChannel α
  | .one packet => { c with receiver := .took i packet }
  | .many packets =>
    match c.buffered ++ tag i packets with
    | [] => { c with receiver := .asking }
    | (j, packet) :: rest => { c with buffered := rest, receiver := .took j packet }

/-- One operation of one thread; none if the thread is not there, or has to wait. -/
def step (c : PacketChannel α) : Move α → Option (PacketChannel α)
  | .clone => some { c with clones := c.clones + 1 }
  | .send i packet =>
    match c.sender i with
    | .idle => if i < c.clones then some (c.sendItem i (.one packet)) else none
    | _ => none
  | .sendMany i packets =>
    match c.sender i with
    | .idle =>
      if i < c.clones then
        if packets = [] then some c else some (c.sendItem i (.many packets))
      else none
    | _ => none
  | .wake i elapsed =>
    match c.sender i with
    | .waiting item =>
      if !c.slotOpen then some (c.setSender i .idle)
      else if c.claimed < c.slots then
        some { c.setSender i (.claimed item) with
          claimed := c.claimed + 1
          backpressureBlocks := c.backpressureBlocks + if isGenuineBlock elapsed then 1 else 0 }
      else none
    | _ => none
  | .meter i =>
    match c.sender i with
    | .claimed item =>
      some { c.setSender i (.metered item) with inFlight := c.inFlight + item.size }
    | _ => none
  | .enqueue i =>
    match c.sender i with
    | .metered item =>
      if c.dataOpen then
        some { c.setSender i .idle with
          data := c.data ++ [(i, item)]
          sent := c.sent ++ tag i item.packets }
      else some (c.setSender i (.refused item))
    | _ => none
  | .unmeter i =>
    match c.sender i with
    | .refused item => some { c.setSender i .idle with inFlight := c.inFlight - item.size }
    | _ => none
  | .recv =>
    match c.receiver with
    | .idle =>
      if !c.dataOpen then none
      else match c.buffered with
        | (i, packet) :: rest => some { c with buffered := rest, receiver := .took i packet }
        | [] => some { c with receiver := .asking }
    | _ => none
  | .dequeue =>
    match c.receiver, c.data with
    | .asking, (i, item) :: rest => some { c with data := rest, receiver := .dequeued i item }
    | _, _ => none
  | .giveUp =>
    match c.receiver, c.data with
    | .asking, [] => some { c with receiver := .idle }
    | _, _ => none
  | .free =>
    match c.receiver with
    | .dequeued i item => some { c with claimed := c.claimed - 1, receiver := .freed i item }
    | _ => none
  | .unpack =>
    match c.receiver with
    | .freed i item => some (c.unpackItem i item)
    | _ => none
  | .account =>
    match c.receiver with
    | .took i packet =>
      some { c with
        inFlight := c.inFlight - 1
        receiver := .idle
        received := c.received ++ [(i, packet)] }
    | _ => none
  | .dropData =>
    match c.receiver with
    | .idle => some { c with dataOpen := false, data := [], buffered := [] }
    | _ => none
  | .dropSlots => if c.dataOpen then none else some { c with slotOpen := false, claimed := 0 }

inductive Reachable (slots : ℕ) : PacketChannel α → Prop
  | start : Reachable slots (channelWithSlots slots)
  | move {c c' : PacketChannel α} (m : Move α) : Reachable slots c → c.step m = some c' →
    Reachable slots c'

def steps (c : PacketChannel α) : List (Move α) → Option (PacketChannel α)
  | [] => some c
  | m :: rest => (c.step m).bind (fun c' => steps c' rest)

/-! ## What every interleaving keeps -/

/-- A sender that claimed a slot for what is not in the queue yet. -/
def holds : SendPc α → ℕ
  | .claimed _ | .metered _ => 1
  | _ => 0

/-- The packets that a sender has counted and has not sent. -/
def counts : SendPc α → ℕ
  | .metered item | .refused item => item.size
  | _ => 0

def owes : RecvPc α → ℕ
  | .dequeued _ _ => 1
  | _ => 0

def inHand : RecvPc α → List (ℕ × α)
  | .dequeued i item | .freed i item => tag i item.packets
  | .took i packet => [(i, packet)]
  | _ => []

def queued (c : PacketChannel α) : List (ℕ × α) := c.data.flatMap (fun e => tag e.1 e.2.packets)

def pending (c : PacketChannel α) : List (ℕ × α) := inHand c.receiver ++ c.buffered ++ c.queued

def overSenders (c : PacketChannel α) (f : SendPc α → ℕ) : ℕ :=
  ∑ i ∈ Finset.range c.clones, f (c.sender i)

structure Inv (c : PacketChannel α) : Prop where
  absent : ∀ i, c.clones ≤ i → c.sender i = .idle
  slots : c.dataOpen = true → c.claimed = c.data.length + c.overSenders holds + owes c.receiver
  bound : c.dataOpen = true → c.claimed ≤ c.slots
  meter : c.inFlight + c.received.length = c.sent.length + c.overSenders counts
  order : c.dataOpen = true → c.sent = c.received ++ c.pending
  head : c.received <+: c.sent
  slotOpen : c.dataOpen = true → c.slotOpen = true
  unread : c.dataOpen = false → c.data = [] ∧ c.receiver = .idle
  drained : c.receiver ≠ .idle → (∀ i packet, c.receiver ≠ .took i packet) → c.buffered = []

variable {c c' : PacketChannel α} {i : ℕ}

theorem overSenders_setSender (f : SendPc α → ℕ) (hi : i < c.clones) (pc : SendPc α) :
    (c.setSender i pc).overSenders f + f (c.sender i) = c.overSenders f + f pc := by
  have hmem : i ∈ Finset.range c.clones := Finset.mem_range.mpr hi
  have hupdate : ∀ j, f ((c.setSender i pc).sender j) =
      Function.update (fun j => f (c.sender j)) i (f pc) j := by
    intro j
    by_cases hj : j = i
    · subst hj
      simp [setSender]
    · simp [setSender, hj]
  unfold overSenders
  simp only [hupdate]
  change ∑ j ∈ Finset.range c.clones, _ + _ = _
  rw [Finset.sum_update_of_mem hmem, ← Finset.add_sum_erase _ (fun j => f (c.sender j)) hmem,
    Finset.sdiff_singleton_eq_erase]
  omega

theorem le_overSenders (f : SendPc α → ℕ) (hi : i < c.clones) : f (c.sender i) ≤ c.overSenders f :=
  Finset.single_le_sum (f := fun j => f (c.sender j)) (fun _ _ => Nat.zero_le _)
    (Finset.mem_range.mpr hi)

theorem Inv.lt_clones (h : c.Inv) (hi : c.sender i ≠ .idle) : i < c.clones := by
  by_contra hle
  exact hi (h.absent i (Nat.le_of_not_lt hle))

theorem absent_setSender (h : c.Inv) (hi : i < c.clones) (pc : SendPc α) :
    ∀ j, c.clones ≤ j → (c.setSender i pc).sender j = .idle := by
  intro j hj
  have hne : j ≠ i := by omega
  simp [setSender, hne, h.absent j hj]

theorem inv_channelWithSlots (slots : ℕ) : (channelWithSlots slots : PacketChannel α).Inv where
  absent _ _ := rfl
  slots _ := by simp [channelWithSlots, overSenders, holds, owes]
  bound _ := Nat.zero_le _
  meter := by simp [channelWithSlots, overSenders, counts]
  order _ := rfl
  head := nil_prefix
  slotOpen _ := rfl
  unread h := by cases h
  drained h := absurd rfl h

theorem Inv.setSender (h : c.Inv) (hi : i < c.clones) {pc : SendPc α}
    {claimed inFlight hits blocks : ℕ}
    (hclaimed : c.dataOpen = true → claimed + holds (c.sender i) = c.claimed + holds pc)
    (hbound : c.dataOpen = true → claimed ≤ c.slots)
    (hinFlight : inFlight + counts (c.sender i) = c.inFlight + counts pc) :
    { c.setSender i pc with
      claimed := claimed
      inFlight := inFlight
      capacityHits := hits
      backpressureBlocks := blocks }.Inv where
  absent := absent_setSender h hi pc
  slots hopen := by
    have hsum := overSenders_setSender holds hi pc
    have hslots := h.slots hopen
    have hnew := hclaimed hopen
    change claimed = c.data.length + (c.setSender i pc).overSenders holds + owes c.receiver
    omega
  bound := hbound
  meter := by
    have hsum := overSenders_setSender counts hi pc
    have hmeter := h.meter
    change inFlight + c.received.length = c.sent.length + (c.setSender i pc).overSenders counts
    omega
  order := h.order
  head := h.head
  slotOpen := h.slotOpen
  unread := h.unread
  drained := h.drained

theorem Inv.sendItem (h : c.Inv) (hi : i < c.clones) (hidle : c.sender i = .idle)
    (item : Item α) : (c.sendItem i item).Inv := by
  unfold PacketChannel.sendItem
  split_ifs with hclosed hfree
  · exact h
  · refine h.setSender hi (fun _ => ?_) (fun _ => hfree) ?_
    · rw [hidle]
      rfl
    · rw [hidle]
      rfl
  · refine h.setSender hi (fun _ => ?_) h.bound ?_
    · rw [hidle]
      rfl
    · rw [hidle]
      rfl

variable {item : Item α} {j : ℕ}

section

variable (h : c.Inv)
include h

theorem Inv.wake (hi : c.sender i = .waiting item) {elapsed : ℕ}
    (hstep : c.step (.wake i elapsed) = some c') : c'.Inv := by
  have hlt : i < c.clones := h.lt_clones (by simp [hi])
  simp only [step, hi] at hstep
  split_ifs at hstep with hclosed hfree
  · cases hstep
    exact h.setSender hlt (fun _ => by rw [hi]; rfl) h.bound (by rw [hi]; rfl)
  · cases hstep
    exact h.setSender hlt (fun _ => by rw [hi]; rfl) (fun _ => hfree) (by rw [hi]; rfl)
  · cases hstep
    exact h.setSender hlt (fun _ => by rw [hi]; rfl) (fun _ => hfree) (by rw [hi]; rfl)

theorem Inv.enqueue (hi : c.sender i = .metered item) (hopen : c.dataOpen = true) :
    { c.setSender i .idle with
      data := c.data ++ [(i, item)]
      sent := c.sent ++ tag i item.packets }.Inv := by
  have hlt : i < c.clones := h.lt_clones (by simp [hi])
  refine ⟨absent_setSender h hlt .idle, fun _ => ?_, h.bound, ?_, fun _ => ?_, ?_, h.slotOpen,
    fun hclosed => ?_, h.drained⟩
  · have hsum := overSenders_setSender holds hlt SendPc.idle
    have hslots := h.slots hopen
    simp only [hi, holds] at hsum
    change c.claimed = (c.data ++ [(i, item)]).length + (c.setSender i .idle).overSenders holds +
      owes c.receiver
    rw [length_append, length_singleton]
    omega
  · have hsum := overSenders_setSender counts hlt SendPc.idle
    have hmeter := h.meter
    simp only [hi, counts] at hsum
    change c.inFlight + c.received.length =
      (c.sent ++ tag i item.packets).length + (c.setSender i .idle).overSenders counts
    rw [length_append, tag, length_map]
    unfold Item.size at hsum
    omega
  · change c.sent ++ _ = c.received ++ (inHand c.receiver ++ c.buffered ++
      (c.data ++ [(i, item)]).flatMap (fun e => tag e.1 e.2.packets))
    rw [h.order hopen, flatMap_append]
    simp [pending, queued]
  · exact h.head.trans (prefix_append _ _)
  · change c.dataOpen = false at hclosed
    rw [hopen] at hclosed
    cases hclosed

theorem Inv.setReceiver (hopen : c.dataOpen = true) {data : List (ℕ × Item α)}
    {buffered : List (ℕ × α)} {claimed : ℕ} (pc : RecvPc α)
    (hclaimed : claimed = data.length + c.overSenders holds + owes pc) (hbound : claimed ≤ c.slots)
    (hpending : inHand pc ++ buffered ++ data.flatMap (fun e => tag e.1 e.2.packets) = c.pending)
    (hdrained : pc ≠ .idle → (∀ i packet, pc ≠ .took i packet) → buffered = []) :
    { c with data := data, buffered := buffered, claimed := claimed, receiver := pc }.Inv where
  absent := h.absent
  slots _ := hclaimed
  bound _ := hbound
  meter := h.meter
  order _ := by
    rw [h.order hopen]
    exact congrArg _ hpending.symm
  head := h.head
  slotOpen := h.slotOpen
  unread hclosed := by
    change c.dataOpen = false at hclosed
    rw [hopen] at hclosed
    cases hclosed
  drained := hdrained

theorem Inv.dataOpen (hbusy : c.receiver ≠ .idle) : c.dataOpen = true := by
  by_contra hclosed
  exact hbusy (h.unread (by simpa using hclosed)).2

theorem Inv.recv (hstep : c.step .recv = some c') : c'.Inv := by
  unfold step at hstep
  dsimp only at hstep
  split at hstep
  · rename_i hpc
    split_ifs at hstep with hopen
    have hopen : c.dataOpen = true := by simpa using hopen
    have hslots := h.slots hopen
    rw [hpc] at hslots
    split at hstep
    · rename_i j packet rest hbuffered
      cases hstep
      refine h.setReceiver hopen (.took j packet) hslots (h.bound hopen) ?_
        (fun _ hnot => absurd rfl (hnot j packet))
      unfold pending
      rw [hpc, hbuffered]
      rfl
    · rename_i hbuffered
      cases hstep
      refine h.setReceiver hopen .asking hslots (h.bound hopen) ?_ (fun _ _ => hbuffered)
      unfold pending
      rw [hpc]
      rfl
  · cases hstep

theorem Inv.dequeue (hstep : c.step .dequeue = some c') : c'.Inv := by
  unfold step at hstep
  dsimp only at hstep
  split at hstep
  · rename_i j item rest hpc hdata
    cases hstep
    have hopen := h.dataOpen (by simp [hpc])
    have hslots := h.slots hopen
    rw [hpc, hdata, length_cons] at hslots
    have hempty := h.drained (by simp [hpc]) (by simp [hpc])
    refine h.setReceiver hopen _ ?_ (h.bound hopen) ?_ (fun _ _ => hempty)
    · simp only [owes] at hslots ⊢
      omega
    · unfold pending queued
      rw [hpc, hdata, hempty]
      simp [inHand]
  · cases hstep

theorem Inv.free (hpc : c.receiver = .dequeued j item) :
    { c with claimed := c.claimed - 1, receiver := .freed j item }.Inv := by
  have hopen := h.dataOpen (by simp [hpc])
  have hslots := h.slots hopen
  have hbound := h.bound hopen
  rw [hpc] at hslots
  refine h.setReceiver hopen _ ?_ (by omega) ?_ (fun _ _ => h.drained (by simp [hpc]) (by simp [hpc]))
  · simp only [owes] at hslots ⊢
    omega
  · unfold pending
    rw [hpc]
    rfl

theorem Inv.unpackItem (hpc : c.receiver = .freed j item) : (c.unpackItem j item).Inv := by
  have hopen := h.dataOpen (by simp [hpc])
  have hslots := h.slots hopen
  have hempty := h.drained (by simp [hpc]) (by simp [hpc])
  rw [hpc] at hslots
  unfold PacketChannel.unpackItem
  cases item with
  | one packet =>
    refine h.setReceiver hopen _ hslots (h.bound hopen) ?_ (fun _ _ => hempty)
    unfold pending
    rw [hpc]
    rfl
  | many packets =>
    dsimp only
    split
    · rename_i hnone
      refine h.setReceiver hopen _ hslots (h.bound hopen) ?_ (fun _ _ => hempty)
      unfold pending
      rw [hpc, hempty]
      rw [hempty, nil_append] at hnone
      simp [inHand, Item.packets, hnone, queued]
    · rename_i k packet rest hsome
      refine h.setReceiver hopen _ hslots (h.bound hopen) ?_ (fun _ hnot => ?_)
      · unfold pending
        rw [hpc, hempty]
        rw [hempty, nil_append] at hsome
        simp [inHand, Item.packets, hsome, queued]
      · exact absurd rfl (hnot k packet)

theorem Inv.account {packet : α} (hpc : c.receiver = .took j packet) :
    { c with
      inFlight := c.inFlight - 1
      receiver := .idle
      received := c.received ++ [(j, packet)] }.Inv := by
  have hopen := h.dataOpen (by simp [hpc])
  have hslots := h.slots hopen
  have horder := h.order hopen
  have hmeter := h.meter
  unfold pending at horder
  rw [hpc] at hslots horder
  have hlen := congrArg List.length horder
  simp only [inHand, length_append, length_singleton] at hlen
  refine ⟨h.absent, fun _ => hslots, h.bound, ?_, fun _ => ?_, ?_, h.slotOpen, fun hclosed => ?_,
    fun hbusy => absurd rfl hbusy⟩
  · change c.inFlight - 1 + (c.received ++ [(j, packet)]).length =
      c.sent.length + c.overSenders counts
    rw [length_append, length_singleton]
    omega
  · rw [horder]
    simp [pending, inHand, queued]
  · exact ⟨c.buffered ++ c.queued, by simp [horder, inHand]⟩
  · change c.dataOpen = false at hclosed
    rw [hopen] at hclosed
    cases hclosed

theorem Inv.step {m : Move α} (hstep : c.step m = some c') : c'.Inv := by
  cases m with
  | clone =>
    cases hstep
    have hidle := h.absent c.clones le_rfl
    have hsum : ∀ f : SendPc α → ℕ, f .idle = 0 →
        ∑ i ∈ Finset.range (c.clones + 1), f (c.sender i) = c.overSenders f := by
      intro f hf
      rw [Finset.sum_range_succ, hidle, hf]
      rfl
    refine ⟨fun i hi => h.absent i (by change c.clones + 1 ≤ i at hi; omega), fun hopen => ?_,
      h.bound, ?_, h.order, h.head, h.slotOpen, h.unread, h.drained⟩
    · unfold overSenders
      dsimp only
      rw [hsum holds rfl]
      exact h.slots hopen
    · unfold overSenders
      dsimp only
      rw [hsum counts rfl]
      exact h.meter
  | send i packet =>
    cases hi : c.sender i with
    | idle =>
      simp only [PacketChannel.step, hi] at hstep
      split_ifs at hstep with hlt
      cases hstep
      exact h.sendItem hlt hi _
    | _ => simp [PacketChannel.step, hi] at hstep
  | sendMany i packets =>
    cases hi : c.sender i with
    | idle =>
      simp only [PacketChannel.step, hi] at hstep
      split_ifs at hstep with hlt
      · cases hstep
        exact h
      · cases hstep
        exact h.sendItem hlt hi _
    | _ => simp [PacketChannel.step, hi] at hstep
  | wake i elapsed =>
    cases hi : c.sender i with
    | waiting item => exact h.wake hi hstep
    | _ => simp [PacketChannel.step, hi] at hstep
  | meter i =>
    cases hi : c.sender i with
    | claimed item =>
      simp only [PacketChannel.step, hi] at hstep
      cases hstep
      exact h.setSender (h.lt_clones (by simp [hi])) (fun _ => by rw [hi]; rfl) h.bound
        (by rw [hi]; rfl)
    | _ => simp [PacketChannel.step, hi] at hstep
  | enqueue i =>
    cases hi : c.sender i with
    | metered item =>
      simp only [PacketChannel.step, hi] at hstep
      split_ifs at hstep with hopen
      · cases hstep
        exact h.enqueue hi hopen
      · cases hstep
        exact h.setSender (h.lt_clones (by simp [hi])) (fun hopen' => absurd hopen' hopen) h.bound
          (by rw [hi]; rfl)
    | _ => simp [PacketChannel.step, hi] at hstep
  | unmeter i =>
    cases hi : c.sender i with
    | refused item =>
      simp only [PacketChannel.step, hi] at hstep
      cases hstep
      have hlt : i < c.clones := h.lt_clones (by simp [hi])
      have hle : item.size ≤ c.inFlight := by
        have hcount := le_overSenders counts hlt
        have hmeter := h.meter
        have hhead := h.head.length_le
        simp only [hi, counts] at hcount
        omega
      refine h.setSender hlt (fun _ => by rw [hi]; rfl) h.bound ?_
      rw [hi]
      simp only [counts]
      omega
    | _ => simp [PacketChannel.step, hi] at hstep
  | recv => exact h.recv hstep
  | dequeue => exact h.dequeue hstep
  | giveUp =>
    unfold PacketChannel.step at hstep
    dsimp only at hstep
    split at hstep
    · rename_i hpc hdata
      cases hstep
      have hopen := h.dataOpen (by simp [hpc])
      have hslots := h.slots hopen
      rw [hpc] at hslots
      refine h.setReceiver hopen _ hslots (h.bound hopen) ?_ (fun hbusy => absurd rfl hbusy)
      unfold pending
      rw [hpc]
      rfl
    · cases hstep
  | free =>
    cases hpc : c.receiver with
    | dequeued j item =>
      simp only [PacketChannel.step, hpc] at hstep
      cases hstep
      exact h.free hpc
    | _ => simp [PacketChannel.step, hpc] at hstep
  | unpack =>
    cases hpc : c.receiver with
    | freed j item =>
      simp only [PacketChannel.step, hpc] at hstep
      cases hstep
      exact h.unpackItem hpc
    | _ => simp [PacketChannel.step, hpc] at hstep
  | account =>
    cases hpc : c.receiver with
    | took j packet =>
      simp only [PacketChannel.step, hpc] at hstep
      cases hstep
      exact h.account hpc
    | _ => simp [PacketChannel.step, hpc] at hstep
  | dropData =>
    cases hpc : c.receiver with
    | idle =>
      simp only [PacketChannel.step, hpc] at hstep
      cases hstep
      exact ⟨h.absent, Bool.noConfusion, Bool.noConfusion, h.meter, Bool.noConfusion, h.head,
        Bool.noConfusion, fun _ => ⟨rfl, rfl⟩, fun hbusy => absurd rfl hbusy⟩
    | _ => simp [PacketChannel.step, hpc] at hstep
  | dropSlots =>
    simp only [PacketChannel.step] at hstep
    split_ifs at hstep with hopen
    cases hstep
    have hclosed : ¬ c.dataOpen = true := hopen
    exact ⟨h.absent, fun h' => absurd h' hclosed, fun h' => absurd h' hclosed, h.meter, h.order,
      h.head, fun h' => absurd h' hclosed, h.unread, h.drained⟩

end

theorem Reachable.inv {slots : ℕ} (h : Reachable slots c) : c.Inv := by
  induction h with
  | start => exact inv_channelWithSlots slots
  | move m _ hstep ih => exact ih.step hstep

/-! ## Nothing stays behind -/

def receives : Move α → Bool
  | .recv | .dequeue | .giveUp | .free | .unpack | .account => true
  | _ => false

def distance (c : PacketChannel α) : ℕ :=
  5 * c.data.length + match c.receiver with
    | .took _ _ => 0
    | .asking => 1
    | .idle => 2
    | .freed _ _ => 3
    | .dequeued _ _ => 4

theorem Inv.progress (h : c.Inv) (hopen : c.dataOpen = true) (hpending : c.pending ≠ []) :
    ∃ m c', receives m = true ∧ c.step m = some c' ∧ c'.sent = c.sent ∧ c'.dataOpen = true ∧
      (c'.pending.length < c.pending.length ∨
        c'.pending = c.pending ∧ c'.distance < c.distance) := by
  cases hpc : c.receiver with
  | idle =>
    cases hbuffered : c.buffered with
    | nil =>
      refine ⟨.recv, { c with receiver := .asking }, rfl, ?_, rfl, hopen, .inr ⟨?_, ?_⟩⟩
      · simp [PacketChannel.step, hpc, hopen, hbuffered]
      · simp [pending, inHand, hpc, queued]
      · simp [distance, hpc]
    | cons e rest =>
      refine ⟨.recv, { c with buffered := rest, receiver := .took e.1 e.2 }, rfl, ?_, rfl, hopen,
        .inr ⟨?_, ?_⟩⟩
      · simp [PacketChannel.step, hpc, hopen, hbuffered]
      · simp [pending, inHand, hpc, hbuffered, queued]
      · simp [distance, hpc]
  | asking =>
    have hempty := h.drained (by simp [hpc]) (by simp [hpc])
    cases hdata : c.data with
    | nil =>
      refine absurd ?_ hpending
      simp [pending, inHand, hpc, hempty, queued, hdata]
    | cons e rest =>
      refine ⟨.dequeue, { c with data := rest, receiver := .dequeued e.1 e.2 }, rfl, ?_, rfl, hopen,
        .inr ⟨?_, ?_⟩⟩
      · simp [PacketChannel.step, hpc, hdata]
      · simp [pending, inHand, hpc, hempty, queued, hdata]
      · simp only [distance, hpc, hdata, length_cons]
        omega
  | dequeued j item =>
    refine ⟨.free, { c with claimed := c.claimed - 1, receiver := .freed j item }, rfl, ?_, rfl,
      hopen, .inr ⟨?_, ?_⟩⟩
    · simp [PacketChannel.step, hpc]
    · simp [pending, inHand, hpc, queued]
    · simp [distance, hpc]
  | freed j item =>
    have hempty := h.drained (by simp [hpc]) (by simp [hpc])
    refine ⟨.unpack, c.unpackItem j item, rfl, by simp [PacketChannel.step, hpc], ?_⟩
    unfold PacketChannel.unpackItem
    cases item with
    | one packet =>
      refine ⟨rfl, hopen, .inr ⟨?_, ?_⟩⟩
      · simp [pending, inHand, hpc, queued, tag, Item.packets]
      · simp [distance, hpc]
    | many packets =>
      dsimp only
      split
      · rename_i hnone
        rw [hempty, nil_append] at hnone
        refine ⟨rfl, hopen, .inr ⟨?_, ?_⟩⟩
        · simp [pending, inHand, hpc, queued, Item.packets, hnone]
        · simp [distance, hpc]
      · rename_i k packet rest hsome
        rw [hempty, nil_append] at hsome
        refine ⟨rfl, hopen, .inr ⟨?_, ?_⟩⟩
        · simp [pending, inHand, hpc, queued, Item.packets, hsome, hempty]
        · simp [distance, hpc]
  | took j packet =>
    refine ⟨.account, { c with
      inFlight := c.inFlight - 1
      receiver := .idle
      received := c.received ++ [(j, packet)] }, rfl, ?_, rfl, hopen, .inl ?_⟩
    · simp [PacketChannel.step, hpc]
    · simp [pending, inHand, hpc, queued]

theorem Inv.delivered (h : c.Inv) (hopen : c.dataOpen = true) :
    ∃ ms c', (∀ m ∈ ms, receives m = true) ∧ c.steps ms = some c' ∧ c'.received = c.sent := by
  induction hn : c.pending.length using Nat.strong_induction_on generalizing c with
  | _ n ihPending =>
    induction hd : c.distance using Nat.strong_induction_on generalizing c with
    | _ d ihDistance =>
      by_cases hpending : c.pending = []
      · refine ⟨[], c, fun _ hm => absurd hm not_mem_nil, rfl, ?_⟩
        rw [h.order hopen, hpending, append_nil]
      · obtain ⟨m, c₁, hm, hstep, hsent, hopen₁, hless⟩ := h.progress hopen hpending
        have hrest : ∃ ms c', (∀ m ∈ ms, receives m = true) ∧ c₁.steps ms = some c' ∧
            c'.received = c₁.sent := by
          rcases hless with hless | ⟨hsame, hless⟩
          · exact ihPending _ (hn ▸ hless) (h.step hstep) hopen₁ rfl
          · refine ihDistance _ (hd ▸ hless) (h.step hstep) hopen₁ ?_ rfl
            rw [hsame, hn]
        obtain ⟨ms, c', hms, hsteps, hreceived⟩ := hrest
        refine ⟨m :: ms, c', fun m' hm' => ?_, ?_, hreceived.trans hsent⟩
        · rcases mem_cons.mp hm' with rfl | hm'
          · exact hm
          · exact hms m' hm'
        · change (c.step m).bind (fun c' => steps c' ms) = some c'
          rw [hstep]
          exact hsteps

/-- An operation that goes on with a send, or returns a slot; it never waits. -/
def finishes : Move α → Bool
  | .meter _ | .enqueue _ | .free => true
  | _ => false

def toDo : SendPc α → ℕ
  | .claimed _ => 2
  | .metered _ => 1
  | _ => 0

/-- The operations still to be done by those that hold a slot for no item in the queue. -/
def underWay (c : PacketChannel α) : ℕ := c.overSenders toDo + owes c.receiver

theorem waiting_setSender (hi : c.sender i = .waiting item)
    (hj : ∀ item, c.sender j ≠ .waiting item) (pc : SendPc α) :
    (c.setSender j pc).sender i = .waiting item := by
  have hne : i ≠ j := by
    rintro rfl
    exact hj item hi
  simp [setSender, hne, hi]

theorem goOn (hopen : c.dataOpen = true) (hunder : c.underWay ≠ 0)
    (hi : c.sender i = .waiting item) :
    ∃ m c', finishes m = true ∧ c.step m = some c' ∧ c'.dataOpen = true ∧
      c'.underWay < c.underWay ∧ c'.sender i = .waiting item := by
  by_cases howes : owes c.receiver = 0
  · have hsum : c.overSenders toDo ≠ 0 := by
      unfold underWay at hunder
      omega
    obtain ⟨j, hj, htoDo⟩ := Finset.exists_ne_zero_of_sum_ne_zero hsum
    have hlt := Finset.mem_range.mp hj
    cases hpc : c.sender j with
    | claimed item' =>
      refine ⟨.meter j, { c.setSender j (.metered item') with inFlight := c.inFlight + item'.size },
        rfl, ?_, hopen, ?_, waiting_setSender hi (by simp [hpc]) _⟩
      · simp only [PacketChannel.step, hpc]
      · have hless := overSenders_setSender toDo hlt (.metered item')
        simp only [hpc, toDo] at hless
        change (c.setSender j (.metered item')).overSenders toDo + owes c.receiver <
          c.overSenders toDo + owes c.receiver
        omega
    | metered item' =>
      refine ⟨.enqueue j, { c.setSender j .idle with
        data := c.data ++ [(j, item')]
        sent := c.sent ++ tag j item'.packets }, rfl, ?_, hopen, ?_,
        waiting_setSender hi (by simp [hpc]) _⟩
      · simp only [PacketChannel.step, hpc]
        exact if_pos hopen
      · have hless := overSenders_setSender toDo hlt SendPc.idle
        simp only [hpc, toDo] at hless
        change (c.setSender j .idle).overSenders toDo + owes c.receiver <
          c.overSenders toDo + owes c.receiver
        omega
    | idle => exact absurd (by rw [hpc]; rfl) htoDo
    | waiting item' => exact absurd (by rw [hpc]; rfl) htoDo
    | refused item' => exact absurd (by rw [hpc]; rfl) htoDo
  · cases hpc : c.receiver with
    | dequeued j item' =>
      refine ⟨.free, { c with claimed := c.claimed - 1, receiver := .freed j item' }, rfl, ?_,
        hopen, ?_, hi⟩
      · simp only [PacketChannel.step, hpc]
      · simp [underWay, overSenders, owes, hpc]
    | idle => exact absurd (by rw [hpc]; rfl) howes
    | asking => exact absurd (by rw [hpc]; rfl) howes
    | freed j item' => exact absurd (by rw [hpc]; rfl) howes
    | took j packet => exact absurd (by rw [hpc]; rfl) howes

/-- Once those that hold a slot have gone on, a waiting sender finds a slot free or as many items in
the queue as there are slots. -/
theorem Inv.unblocked (h : c.Inv) (hopen : c.dataOpen = true) (hi : c.sender i = .waiting item)
    (elapsed : ℕ) :
    ∃ ms c', (∀ m ∈ ms, finishes m = true) ∧ c.steps ms = some c' ∧
      ((c'.step (.wake i elapsed)).isSome ∨ c'.data.length = c'.slots) := by
  induction hn : c.underWay using Nat.strong_induction_on generalizing c with
  | _ n ih =>
    by_cases hunder : c.underWay = 0
    · refine ⟨[], c, fun _ hm => absurd hm not_mem_nil, rfl, ?_⟩
      have hslots := h.slots hopen
      have hbound := h.bound hopen
      have hheld : c.overSenders holds = 0 := by
        refine Finset.sum_eq_zero (fun j hj => ?_)
        have hle := le_overSenders toDo (Finset.mem_range.mp hj)
        cases hpc : c.sender j with
        | idle => rfl
        | waiting item' => rfl
        | refused item' => rfl
        | claimed item' =>
          simp only [hpc, toDo] at hle
          unfold underWay at hunder
          omega
        | metered item' =>
          simp only [hpc, toDo] at hle
          unfold underWay at hunder
          omega
      unfold underWay at hunder
      by_cases hfull : c.data.length = c.slots
      · exact .inr hfull
      · refine .inl ?_
        have hfree : c.claimed < c.slots := by omega
        simp only [PacketChannel.step, hi, h.slotOpen hopen, hfree, if_true, Bool.not_true,
          Bool.false_eq_true, if_false, Option.isSome_some]
    · obtain ⟨m, c₁, hm, hstep, hopen₁, hless, hi₁⟩ := goOn hopen hunder hi
      obtain ⟨ms, c', hms, hsteps, hdone⟩ := ih _ (hn ▸ hless) (h.step hstep) hopen₁ hi₁ rfl
      refine ⟨m :: ms, c', fun m' hm' => ?_, ?_, hdone⟩
      · rcases mem_cons.mp hm' with rfl | hm'
        · exact hm
        · exact hms m' hm'
      · change (c.step m).bind (fun c' => steps c' ms) = some c'
        rw [hstep]
        exact hsteps

/-! ## The channel -/

structure Sound (c : PacketChannel α) : Prop where
  /-- No more items are queued than there are slots. -/
  bounded : c.data.length ≤ c.slots
  /-- What was sent was received, or is still to be, each packet once and in order. -/
  inOrder : c.dataOpen = true → c.sent = c.received ++ c.pending
  ownOrder : ∀ i, c.received.filter (fun e => e.1 = i) <+: c.sent.filter (fun e => e.1 = i)
  /-- The receiver gets all of it. -/
  delivered : c.dataOpen = true → ∃ ms c', (∀ m ∈ ms, receives m = true) ∧
    c.steps ms = some c' ∧ c'.received = c.sent
  /-- An item that was taken returns one slot. -/
  returned : ∀ c', c.step .free = some c' → c'.claimed + 1 = c.claimed
  /-- A slot is claimed for an item in the queue, or by an operation under way. -/
  noLeak : c.dataOpen = true → c.claimed = c.data.length + c.overSenders holds + owes c.receiver
  /-- A sender does not wait on while fewer items than slots are queued. -/
  unblocked : c.dataOpen = true → ∀ i item elapsed, c.sender i = .waiting item →
    ∃ ms c', (∀ m ∈ ms, finishes m = true) ∧ c.steps ms = some c' ∧
      ((c'.step (.wake i elapsed)).isSome ∨ c'.data.length = c'.slots)
  /-- With no operation under way, the meter is what was sent and not received. -/
  meter : (∀ i, c.sender i = .idle ∨ ∃ item, c.sender i = .waiting item) →
    c.inFlight + c.received.length = c.sent.length

/-- Every interleaving of any number of senders with the receiver leaves the channel sound. -/
theorem packetChannel_sound {slots : ℕ} (h : Reachable slots c) : c.Sound := by
  have hinv := h.inv
  refine ⟨?_, hinv.order, fun i => ?_, hinv.delivered, fun c' hstep => ?_, hinv.slots,
    fun hopen i item elapsed hi => hinv.unblocked hopen hi elapsed, fun hidle => ?_⟩
  · cases hopen : c.dataOpen with
    | false =>
      rw [(hinv.unread hopen).1]
      exact Nat.zero_le _
    | true =>
      have hslots := hinv.slots hopen
      have hbound := hinv.bound hopen
      omega
  · exact hinv.head.filter _
  · cases hpc : c.receiver with
    | dequeued j item =>
      simp only [step, hpc, Option.some.injEq] at hstep
      have hslots := hinv.slots (hinv.dataOpen (by simp [hpc]))
      rw [← hstep]
      simp only [hpc, owes] at hslots
      dsimp only
      omega
    | _ => simp [step, hpc] at hstep
  · have hmeter := hinv.meter
    have hcounts : c.overSenders counts = 0 := by
      refine Finset.sum_eq_zero (fun j _ => ?_)
      rcases hidle j with hj | ⟨item, hj⟩
      · rw [hj]
        rfl
      · rw [hj]
        rfl
    omega

theorem Reachable.steps {slots : ℕ} (h : Reachable slots c) {ms : List (Move α)}
    (hsteps : c.steps ms = some c') : Reachable slots c' := by
  induction ms generalizing c with
  | nil =>
    cases hsteps
    exact h
  | cons m ms ih =>
    obtain ⟨c₁, hstep, hrest⟩ := Option.bind_eq_some_iff.mp hsteps
    exact ih (h.move m hstep) hrest

/-- One slot, a packet, a batch of another sender that waits for it, and a packet received. -/
def twoSenders : List (Move ℕ) :=
  [.clone, .send 0 7, .sendMany 1 [8, 9], .meter 0, .enqueue 0, .recv, .dequeue, .free, .wake 1 0,
    .unpack, .account, .meter 1, .enqueue 1]

theorem packetChannel_sound_twoSenders :
    ∃ c : PacketChannel ℕ, (channelWithSlots 1).steps twoSenders = some c ∧
      c.received = [(0, 7)] ∧ c.sent = [(0, 7), (1, 8), (1, 9)] ∧ c.inFlight = 2 ∧ c.Sound := by
  have hlog : ((channelWithSlots 1).steps twoSenders).map
      (fun c => (c.received, c.sent, c.inFlight)) =
        some ([(0, 7)], [(0, 7), (1, 8), (1, 9)], 2) := rfl
  obtain ⟨c, hc, hfields⟩ := Option.map_eq_some_iff.mp hlog
  obtain ⟨hreceived, hrest⟩ := Prod.mk.inj hfields
  obtain ⟨hsent, hinFlight⟩ := Prod.mk.inj hrest
  exact ⟨c, hc, hreceived, hsent, hinFlight, packetChannel_sound (Reachable.start.steps hc)⟩

end PacketChannel

end Sipnab.Capture
