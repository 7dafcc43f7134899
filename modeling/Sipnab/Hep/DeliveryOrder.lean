import Sipnab.Hep.DeliveryAccounting

/-!
# The order of delivery

The packet in flight is the oldest one, whether it stands in the queue or not. A caller that makes
room while it is in flight drops younger packets first.
-/

namespace Sipnab

open List

/-! ## The laws -/

def sentOf (trace : List DeliveryEvent) : List ℕ :=
  trace.filterMap (fun event => match event with
    | .sent seq => some seq
    | _ => none)

/-- The packet was sent, or dropped at the bound. One that does not fit at all gets no number. -/
def Settled (trace : List DeliveryEvent) (seq : ℕ) : Prop :=
  .sent seq ∈ trace ∨ .queueFull seq ∈ trace

/-- Whatever is dropped at the bound is the oldest packet there is. -/
def DropsOldest (trace : List DeliveryEvent) : Prop :=
  ∀ before seq later, trace = before ++ DeliveryEvent.queueFull seq :: later →
    ∀ older < seq, Settled before older

structure DeliveryLaws (d : HepDelivery) (trace : List DeliveryEvent) : Prop where
  inOrder : (sentOf trace).Pairwise (· < ·)
  bounded : HepDelivery.itemBytes d.queue.items ≤ d.queue.limit
  silent : trace.Pairwise (fun earlier later => earlier = .halted → ∀ seq, later ≠ .started seq)
  dropsOldest : DropsOldest trace

namespace HepDelivery

/-- The caller makes room while the thread has a packet out of the queue. -/
def EvictsAround (d : HepDelivery) (i : ℕ) : Prop :=
  ∃ pkt, d.pushing[i]? = some pkt ∧ d.queue.halted = false ∧ pkt.length ≤ d.queue.limit ∧
    d.queue.limit < d.queue.bytes + pkt.length ∧ d.deliver.inHand ≠ none

def NeverAround (limit : ℕ) (connected : Bool) (actions : List DeliveryAction) : Prop :=
  ∀ before i later d trace, actions = before ++ DeliveryAction.enqueue i :: later →
    run step (start limit connected) before = some (d, trace) → ¬ d.EvictsAround i

/-- A second halt is called only when the first one has returned. -/
def HaltsApart (limit : ℕ) (connected : Bool) (actions : List DeliveryAction) : Prop :=
  ∀ before reason later d trace, actions = before ++ DeliveryAction.halt reason :: later →
    run step (start limit connected) before = some (d, trace) → d.queue.halted = true →
    d.halt = .returned

/-! ## The packets in line -/

/-- The packets that are neither sent nor dropped, oldest first. -/
def held (d : HepDelivery) : List HepItem := d.deliver.inHand.toList ++ d.queue.items

structure InLine (d : HepDelivery) (trace : List DeliveryEvent) : Prop where
  sorted : d.held.Pairwise (fun a b => a.1 < b.1)
  fresh : ∀ item ∈ d.held, item.1 < d.queue.nextSeq
  sent_sorted : (sentOf trace).Pairwise (· < ·)
  sent_lt : ∀ seq ∈ sentOf trace, ∀ item ∈ d.held, seq < item.1
  settled_lt : ∀ seq, Settled trace seq → seq < d.queue.nextSeq
  settled_ne : ∀ seq, Settled trace seq → ∀ item ∈ d.held, item.1 ≠ seq

section InLine

variable {d d' : HepDelivery} {action : DeliveryAction} {trace events : List DeliveryEvent}
  {limit : ℕ} {connected : Bool}

theorem sentOf_append : sentOf (trace ++ events) = sentOf trace ++ sentOf events :=
  filterMap_append

variable {seq : ℕ} {item : HepItem}

theorem mem_sentOf : seq ∈ sentOf trace ↔ .sent seq ∈ trace := by
  rw [sentOf, mem_filterMap]
  constructor
  · rintro ⟨event, hevent, hsent⟩
    cases event <;> cases hsent
    exact hevent
  · intro h
    exact ⟨_, h, rfl⟩

theorem settled_append :
    Settled (trace ++ events) seq ↔ Settled trace seq ∨ Settled events seq := by
  simp only [Settled, mem_append]
  tauto

theorem inLine_start : (start limit connected).InLine [] := by
  refine ⟨List.Pairwise.nil, ?_, List.Pairwise.nil, ?_, ?_, ?_⟩
  · exact fun item hitem => by cases hitem
  · exact fun seq hseq => by cases hseq
  · rintro seq (h | h) <;> cases h
  · rintro seq (h | h) <;> cases h

theorem InLine.of_sublist (h : d.InLine trace) (hheld : d'.held.Sublist d.held)
    (hseq : d'.queue.nextSeq = d.queue.nextSeq) (hsent : sentOf events = [])
    (hsettled : ∀ seq, Settled events seq → seq < d.queue.nextSeq ∧ ∀ item ∈ d'.held, item.1 ≠ seq) :
    d'.InLine (trace ++ events) := by
  refine ⟨h.sorted.sublist hheld, ?_, ?_, ?_, ?_, ?_⟩
  · intro item hitem
    rw [hseq]
    exact h.fresh item (hheld.subset hitem)
  · rw [sentOf_append, hsent, append_nil]
    exact h.sent_sorted
  · rw [sentOf_append, hsent, append_nil]
    exact fun seq hmem item hitem => h.sent_lt seq hmem item (hheld.subset hitem)
  · intro seq hmem
    rw [hseq]
    rcases settled_append.mp hmem with hold | hnew
    · exact h.settled_lt seq hold
    · exact (hsettled seq hnew).1
  · intro seq hmem item hitem
    rcases settled_append.mp hmem with hold | hnew
    · exact h.settled_ne seq hold item (hheld.subset hitem)
    · exact (hsettled seq hnew).2 item hitem

theorem InLine.of_held (h : d.InLine trace) (hheld : d'.held = d.held)
    (hseq : d'.queue.nextSeq = d.queue.nextSeq) (hevents : ∀ seq, ¬ Settled events seq) :
    d'.InLine (trace ++ events) := by
  refine h.of_sublist (hheld ▸ List.Sublist.refl _) hseq ?_ ?_
  · rw [eq_nil_iff_forall_not_mem]
    exact fun seq hseq => hevents seq (Or.inl (mem_sentOf.mp hseq))
  · exact fun seq hseq => absurd hseq (hevents seq)

theorem InLine.of_sent (h : d.InLine trace) (hheld : d.held = item :: d'.held)
    (hseq : d'.queue.nextSeq = d.queue.nextSeq) :
    d'.InLine (trace ++ [DeliveryEvent.sent item.1]) := by
  have hsorted := h.sorted
  rw [hheld, pairwise_cons] at hsorted
  have hmem : item ∈ d.held := hheld ▸ mem_cons_self
  have hsub : ∀ x ∈ d'.held, x ∈ d.held := fun x hx => hheld ▸ mem_cons_of_mem _ hx
  have hsentOf : sentOf (trace ++ [DeliveryEvent.sent item.1]) = sentOf trace ++ [item.1] :=
    sentOf_append
  refine ⟨hsorted.2, ?_, ?_, ?_, ?_, ?_⟩
  · intro x hx
    rw [hseq]
    exact h.fresh x (hsub x hx)
  · rw [hsentOf, pairwise_append]
    refine ⟨h.sent_sorted, pairwise_singleton _ _, ?_⟩
    intro a ha b hb
    rw [mem_singleton.mp hb]
    exact h.sent_lt a ha item hmem
  · intro seq hsent x hx
    rw [hsentOf, mem_append, mem_singleton] at hsent
    rcases hsent with hsent | rfl
    · exact h.sent_lt seq hsent x (hsub x hx)
    · exact hsorted.1 x hx
  · intro seq hsettled
    rw [hseq]
    rcases settled_append.mp hsettled with hold | hnew
    · exact h.settled_lt seq hold
    · obtain rfl : seq = item.1 := by simpa [Settled] using hnew
      exact h.fresh item hmem
  · intro seq hsettled x hx
    rcases settled_append.mp hsettled with hold | hnew
    · exact h.settled_ne seq hold x (hsub x hx)
    · obtain rfl : seq = item.1 := by simpa [Settled] using hnew
      exact (hsorted.1 x hx).ne'

theorem InLine.of_arrival (h : d.InLine trace) (pkt : List UInt8)
    (hheld : d'.held = d.held ++ [(d.queue.nextSeq, pkt)])
    (hseq : d'.queue.nextSeq = d.queue.nextSeq + 1) : d'.InLine trace := by
  refine ⟨?_, ?_, h.sent_sorted, ?_, ?_, ?_⟩
  · rw [hheld, pairwise_append]
    refine ⟨h.sorted, pairwise_singleton _ _, ?_⟩
    intro a ha b hb
    rw [mem_singleton.mp hb]
    exact h.fresh a ha
  · intro item hitem
    rw [hheld, mem_append, mem_singleton] at hitem
    rw [hseq]
    rcases hitem with hitem | rfl
    · exact Nat.lt_succ_of_lt (h.fresh item hitem)
    · exact Nat.lt_succ_self _
  · intro seq hsent item hitem
    rw [hheld, mem_append, mem_singleton] at hitem
    rcases hitem with hitem | rfl
    · exact h.sent_lt seq hsent item hitem
    · exact h.settled_lt seq (Or.inl (mem_sentOf.mp hsent))
  · intro seq hsettled
    rw [hseq]
    exact Nat.lt_succ_of_lt (h.settled_lt seq hsettled)
  · intro seq hsettled item hitem
    rw [hheld, mem_append, mem_singleton] at hitem
    rcases hitem with hitem | rfl
    · exact h.settled_ne seq hsettled item hitem
    · exact (h.settled_lt seq hsettled).ne'

/-! ### One step -/

theorem settled_queueFull {evicted : List HepItem} :
    Settled (evicted.map (fun old => .queueFull old.1)) seq ↔ ∃ item ∈ evicted, item.1 = seq := by
  simp [Settled]

theorem enqueue_cases (d : HepDelivery) (pkt : List UInt8) :
    ((d.queue.halted = true ∨ d.queue.limit < pkt.length) ∧ (d.enqueue pkt).2 = [] ∧
        (d.enqueue pkt).1.queue = d.queue) ∨
      d.queue.halted = false ∧ pkt.length ≤ d.queue.limit ∧ ∃ evicted rest bytes,
        makeRoom d.queue.limit pkt.length d.queue.items d.queue.bytes = (rest, bytes, evicted) ∧
        evicted ++ rest = d.queue.items ∧
        (d.enqueue pkt).2 = evicted.map (fun old => .queueFull old.1) ∧
        (d.enqueue pkt).1.queue = { d.queue with
          items := rest ++ [(d.queue.nextSeq, pkt)]
          bytes := bytes + pkt.length
          nextSeq := d.queue.nextSeq + 1 } := by
  rw [enqueue]
  split_ifs with hhalted hlimit
  · exact Or.inl ⟨Or.inl hhalted, rfl, rfl⟩
  · exact Or.inl ⟨Or.inr hlimit, rfl, rfl⟩
  · right
    refine ⟨Bool.eq_false_iff.mpr hhalted, not_lt.mp hlimit, _, _, _, rfl, ?_, rfl, rfl⟩
    exact makeRoom_append _ _ _ _

theorem putBack_cases (d : HepDelivery) (item : HepItem) :
    (d.queue.halted = true ∧ (d.putBack item).2 = [] ∧ (d.putBack item).1.queue = d.queue) ∨
      (d.queue.halted = false ∧ (d.putBack item).2 = [.queueFull item.1] ∧
        (d.putBack item).1.queue = d.queue) ∨
      d.queue.halted = false ∧ d.queue.bytes + item.2.length ≤ d.queue.limit ∧
        (d.putBack item).2 = [] ∧
        (d.putBack item).1.queue = { d.queue with
          items := item :: d.queue.items
          bytes := d.queue.bytes + item.2.length } := by
  rw [putBack]
  split_ifs with hhalted hlimit
  · exact Or.inl ⟨hhalted, rfl, rfl⟩
  · exact Or.inr (Or.inl ⟨Bool.eq_false_iff.mpr hhalted, rfl, rfl⟩)
  · exact Or.inr (Or.inr ⟨Bool.eq_false_iff.mpr hhalted, not_lt.mp hlimit, rfl, rfl⟩)

theorem not_settled_nil (seq : ℕ) : ¬ Settled [] seq := by
  simp [Settled]

theorem Frame.held (frame : Frame d d') (h : d'.deliver.inHand = d.deliver.inHand) :
    d'.held = d.held := by
  rw [HepDelivery.held, HepDelivery.held, h, frame.items]

theorem InLine.enqueue (h : d.InLine trace) (pkt : List UInt8) :
    (d.enqueue pkt).1.InLine (trace ++ (d.enqueue pkt).2) := by
  have hdeliver : (d.enqueue pkt).1.deliver = d.deliver := (enqueue_frame d pkt).2.2.1
  rcases enqueue_cases d pkt with ⟨-, hevents, hqueue⟩ | ⟨-, -, evicted, rest, bytes, -, hitems,
    hevents, hqueue⟩
  · rw [hevents]
    apply h.of_held
    · rw [held, held, hdeliver, hqueue]
    · rw [hqueue]
    · exact not_settled_nil
  · have hheld : d.held = d.deliver.inHand.toList ++ (evicted ++ rest) := by
      rw [held, hitems]
    have hleft : HepDelivery.InLine { d with queue := { d.queue with items := rest } }
        (trace ++ (d.enqueue pkt).2) := by
      rw [hevents]
      refine h.of_sublist ?_ rfl ?_ ?_
      · rw [hheld]
        exact (sublist_append_right _ _).append_left _
      · simp [sentOf]
      · intro seq hseq
        obtain ⟨old, hold, rfl⟩ := settled_queueFull.mp hseq
        have hmem : old ∈ d.held := by
          rw [hheld]
          exact mem_append_right _ (mem_append_left _ hold)
        refine ⟨h.fresh old hmem, ?_⟩
        have hsorted := h.sorted
        rw [hheld, pairwise_append, pairwise_append] at hsorted
        obtain ⟨-, ⟨-, -, hrest⟩, hhand⟩ := hsorted
        intro item hitem
        rcases mem_append.mp hitem with hitem | hitem
        · exact (hhand item hitem old (mem_append_left _ hold)).ne
        · exact (hrest old hold item hitem).ne'
    refine hleft.of_arrival pkt ?_ ?_
    · rw [held, held, hdeliver, hqueue]
      exact (append_assoc _ _ _).symm
    · rw [hqueue]

theorem held_refused (h : d.deliver = .refused item) : d.held = item :: d.queue.items := by
  rw [held, h]
  rfl

theorem held_putBack (d : HepDelivery) (item : HepItem) :
    ({ d with deliver := .leaving }.putBack item).1.noteFailure.held =
      ({ d with deliver := .leaving }.putBack item).1.queue.items := by
  rw [held, noteFailure]
  dsimp only
  rw [(putBack_frame { d with deliver := .leaving } item).2.2.1]
  rfl

theorem InLine.putBack (h : d.InLine trace) (hbefore : d.deliver = .refused item) :
    ({ d with deliver := .leaving }.putBack item).1.noteFailure.InLine
      (trace ++ ({ d with deliver := .leaving }.putBack item).2) := by
  have hheld := held_refused hbefore
  have hafter := held_putBack d item
  rcases putBack_cases { d with deliver := .leaving } item with ⟨-, hevents, hqueue⟩ |
    ⟨-, hevents, hqueue⟩ | ⟨-, -, hevents, hqueue⟩
  · rw [hevents]
    refine h.of_sublist ?_ ?_ rfl (fun seq hseq => absurd hseq (not_settled_nil seq))
    · rw [hafter, hqueue, hheld]
      exact sublist_cons_self _ _
    · rw [noteFailure, hqueue]
  · rw [hevents]
    refine h.of_sublist ?_ ?_ rfl ?_
    · rw [hafter, hqueue, hheld]
      exact sublist_cons_self _ _
    · rw [noteFailure, hqueue]
    · intro seq hseq
      obtain rfl : seq = item.1 := by simpa [Settled] using hseq
      refine ⟨h.fresh item (hheld ▸ mem_cons_self), ?_⟩
      rw [hafter, hqueue]
      have hsorted := h.sorted
      rw [hheld, pairwise_cons] at hsorted
      exact fun x hx => (hsorted.1 x hx).ne'
  · rw [hevents]
    apply h.of_held
    · rw [hafter, hqueue, hheld]
    · rw [noteFailure, hqueue]
    · exact not_settled_nil

theorem InLine.step (h : d.InLine trace) (hstep : d.step action = some (d', events)) :
    d'.InLine (trace ++ events) := by
  cases moves_of_step hstep with
  | thread frame inHand => exact h.of_held (frame.held inHand) frame.nextSeq not_settled_nil
  | started item frame before after =>
    refine h.of_held (frame.held ?_) frame.nextSeq ?_
    · rw [before, after]
      rfl
    · simp [Settled]
  | sent item frame before after =>
    refine h.of_sent ?_ frame.nextSeq
    rw [held, held, before, after, frame.items]
    rfl
  | popped item items before first after =>
    subst after
    refine h.of_held ?_ rfl not_settled_nil
    rw [held, held, before, first]
    rfl
  | counted item before after frame =>
    refine h.of_held ?_ frame.nextSeq not_settled_nil
    rw [held, held, before, after, frame.items]
    rfl
  | putBack item before after =>
    subst after
    exact h.putBack before
  | pushed pkt after =>
    subst after
    exact h.of_held rfl rfl not_settled_nil
  | enqueued i pkt _ after =>
    subst after
    have hcaller : HepDelivery.InLine { d with pushing := d.pushing.eraseIdx i } (trace ++ []) :=
      h.of_held rfl rfl not_settled_nil
    rw [append_nil] at hcaller
    exact hcaller.enqueue pkt
  | halted reason _ after =>
    subst after
    exact h.of_held rfl rfl not_settled_nil
  | haltedAgain reason _ after =>
    subst after
    exact h.of_held rfl rfl (by simp [Settled])
  | passed reason _ _ after =>
    subst after
    exact h.of_held rfl rfl not_settled_nil
  | discarded reason _ after =>
    subst after
    refine h.of_sublist ?_ rfl rfl ?_
    · exact (nil_sublist _).append_left _
    · simp [Settled]

/-! ### The bound -/

structure Bounded (d : HepDelivery) : Prop where
  bytes : d.queue.bytes = itemBytes d.queue.items
  le : d.queue.bytes ≤ d.queue.limit

theorem itemBytes_concat (items : List HepItem) (item : HepItem) :
    itemBytes (items ++ [item]) = itemBytes items + item.2.length := by
  simp [itemBytes]

theorem Bounded.of_queue (h : d.Bounded) (hitems : d'.queue.items = d.queue.items)
    (hbytes : d'.queue.bytes = d.queue.bytes) (hlimit : d'.queue.limit = d.queue.limit) :
    d'.Bounded := by
  refine ⟨?_, ?_⟩
  · rw [hitems, hbytes, h.bytes]
  · rw [hbytes, hlimit]
    exact h.le

theorem Bounded.enqueue (h : d.Bounded) (pkt : List UInt8) : (d.enqueue pkt).1.Bounded := by
  rcases enqueue_cases d pkt with ⟨-, -, hqueue⟩ | ⟨-, hlen, evicted, rest, bytes, hroom, -, -,
    hqueue⟩
  · exact h.of_queue (by rw [hqueue]) (by rw [hqueue]) (by rw [hqueue])
  · have hbytes : (makeRoom d.queue.limit pkt.length d.queue.items d.queue.bytes).2.1 =
        itemBytes (makeRoom d.queue.limit pkt.length d.queue.items d.queue.bytes).1 :=
      makeRoom_bytes h.bytes
    have hfits := makeRoom_fits hlen h.bytes
    rw [hroom] at hbytes hfits
    refine ⟨?_, ?_⟩
    · rw [hqueue, itemBytes_concat, ← hbytes]
    · rw [hqueue]
      exact hfits

theorem Bounded.putBack (h : d.Bounded) (item : HepItem) : (d.putBack item).1.Bounded := by
  rcases putBack_cases d item with ⟨-, -, hqueue⟩ | ⟨-, -, hqueue⟩ | ⟨-, hfits, -, hqueue⟩
  · exact h.of_queue (by rw [hqueue]) (by rw [hqueue]) (by rw [hqueue])
  · exact h.of_queue (by rw [hqueue]) (by rw [hqueue]) (by rw [hqueue])
  · refine ⟨?_, ?_⟩
    · rw [hqueue, h.bytes, Nat.add_comm]
      rfl
    · rw [hqueue]
      exact hfits

theorem Bounded.step (h : d.Bounded) (hstep : d.step action = some (d', events)) : d'.Bounded := by
  cases moves_of_step hstep with
  | thread frame => exact h.of_queue frame.items frame.bytes frame.limit
  | started item frame => exact h.of_queue frame.items frame.bytes frame.limit
  | sent item frame => exact h.of_queue frame.items frame.bytes frame.limit
  | popped item items _ first after =>
    subst after
    have hbytes := h.bytes
    rw [first] at hbytes
    have hcons : itemBytes (item :: items) = item.2.length + itemBytes items := rfl
    have hle := h.le
    refine ⟨?_, ?_⟩ <;> dsimp only <;> omega
  | counted item _ _ frame => exact h.of_queue frame.items frame.bytes frame.limit
  | putBack item _ after =>
    subst after
    have hleaving : HepDelivery.Bounded { d with deliver := .leaving } := ⟨h.bytes, h.le⟩
    exact ⟨(hleaving.putBack item).bytes, (hleaving.putBack item).le⟩
  | pushed pkt after =>
    subst after
    exact ⟨h.bytes, h.le⟩
  | enqueued i pkt _ after =>
    subst after
    have hcaller : HepDelivery.Bounded { d with pushing := d.pushing.eraseIdx i } := ⟨h.bytes, h.le⟩
    exact hcaller.enqueue pkt
  | halted reason _ after =>
    subst after
    exact ⟨h.bytes, h.le⟩
  | haltedAgain reason _ after =>
    subst after
    exact h
  | passed reason _ _ after =>
    subst after
    exact ⟨h.bytes, h.le⟩
  | discarded reason _ after =>
    subst after
    exact ⟨rfl, Nat.zero_le _⟩

/-! ### Silence behind the halt -/

structure Silent (d : HepDelivery) (trace : List DeliveryEvent) : Prop where
  returned : .halted ∈ trace → d.halt = .returned
  silent : trace.Pairwise (fun earlier later => earlier = .halted → ∀ seq, later ≠ .started seq)

/-- A write starts from the thread's check, and a halt returns from its discard or finds the flag
set. -/
theorem events_of_step (hstep : d.step action = some (d', events)) :
    (d.deliver.midway = true ∧ ∃ seq, events = [.started seq]) ∨
      (events = [.halted] ∧ (d'.halt = .returned ∨
        ∃ reason, action = .halt reason ∧ d.queue.halted = true ∧ d' = d)) ∨
      (∀ seq, .started seq ∉ events) ∧ .halted ∉ events := by
  cases moves_of_step hstep with
  | started item _ before => exact Or.inl ⟨by rw [before]; rfl, item.1, rfl⟩
  | haltedAgain reason before after =>
    exact Or.inr (Or.inl ⟨rfl, Or.inr ⟨reason, rfl, before, after⟩⟩)
  | discarded reason _ after =>
    subst after
    exact Or.inr (Or.inl ⟨rfl, Or.inl rfl⟩)
  | putBack item _ _ =>
    rcases putBack_cases { d with deliver := .leaving } item with ⟨-, hevents, -⟩ |
      ⟨-, hevents, -⟩ | ⟨-, -, hevents, -⟩ <;> simp [hevents]
  | enqueued i pkt _ _ =>
    rcases enqueue_cases { d with pushing := d.pushing.eraseIdx i } pkt with ⟨-, hevents, -⟩ |
      ⟨-, -, evicted, rest, bytes, -, -, hevents, -⟩ <;> simp [hevents]
  | _ => simp

theorem Silent.step (h : d.Silent trace) (hhalting : d.Halting)
    (hstep : d.step action = some (d', events))
    (hapart : ∀ reason, action = .halt reason → d.queue.halted = true → d.halt = .returned) :
    d'.Silent (trace ++ events) := by
  have hstays : d.halt = .returned → d'.halt = .returned := by
    intro hreturned
    have hhalted : d.queue.halted = true := hhalting.flag.mpr (by simp [hreturned])
    rcases halt_of_step hstep with hsame | ⟨_, hnot, _⟩ | ⟨_, hnot, _⟩ | ⟨_, _, _, hnext⟩
    · exact hsame.trans hreturned
    · exact absurd (hhalted.symm.trans hnot) (fun h => by cases h)
    · exact absurd (hreturned.symm.trans hnot) (fun h => by cases h)
    · exact hnext
  have hbefore : .halted ∈ trace → d'.halt = .returned := fun hmem => hstays (h.returned hmem)
  rcases events_of_step hstep with ⟨hmidway, seq, rfl⟩ | ⟨rfl, hreturned⟩ | ⟨hstarts, hhalted⟩
  · -- a write starts: no halt has passed the gate
    have hnone : .halted ∉ trace := by
      intro hmem
      have hidle := hhalting.passed (Or.inl (h.returned hmem))
      exact Bool.false_ne_true (hidle.symm.trans hmidway)
    refine ⟨?_, ?_⟩
    · intro hmem
      simp only [mem_append, mem_singleton, reduceCtorEq, or_false] at hmem
      exact absurd hmem hnone
    · rw [pairwise_append]
      refine ⟨h.silent, pairwise_singleton _ _, ?_⟩
      rintro a ha b _ rfl
      exact absurd ha hnone
  · have hnow : d'.halt = .returned := by
      rcases hreturned with hreturned | ⟨reason, haction, hhalted, rfl⟩
      · exact hreturned
      · exact hapart reason haction hhalted
    refine ⟨fun _ => hnow, ?_⟩
    rw [pairwise_append]
    refine ⟨h.silent, pairwise_singleton _ _, ?_⟩
    rintro a _ b hb _ seq rfl
    exact absurd (mem_singleton.mp hb) (fun h => by cases h)
  · refine ⟨?_, ?_⟩
    · intro hmem
      exact hbefore ((mem_append.mp hmem).resolve_right hhalted)
    · rw [pairwise_append]
      refine ⟨h.silent, ?_, ?_⟩
      · apply pairwise_of_forall_mem_list
        rintro a ha b _ rfl
        exact absurd ha hhalted
      · rintro a _ b hb _ seq rfl
        exact hstarts seq hb

/-! ### The oldest first -/

/-- Until the halt every packet is settled or still there. -/
def Complete (d : HepDelivery) (trace : List DeliveryEvent) : Prop :=
  d.queue.halted = false → ∀ seq < d.queue.nextSeq,
    Settled trace seq ∨ ∃ item ∈ d.held, item.1 = seq

section

variable (h : d.Complete trace)
include h

theorem Complete.of_held (hhalted : d'.queue.halted = d.queue.halted)
    (hseq : d'.queue.nextSeq = d.queue.nextSeq)
    (hheld : ∀ item ∈ d.held, item ∈ d'.held ∨ Settled events item.1) :
    d'.Complete (trace ++ events) := by
  intro hrunning seq hlt
  rw [hhalted] at hrunning
  rw [hseq] at hlt
  rw [settled_append]
  rcases h hrunning seq hlt with hsettled | ⟨item, hitem, rfl⟩
  · exact Or.inl (Or.inl hsettled)
  · rcases hheld item hitem with hstays | hsettled
    · exact Or.inr ⟨item, hstays, rfl⟩
    · exact Or.inl (Or.inr hsettled)

theorem Complete.of_same (hhalted : d'.queue.halted = d.queue.halted)
    (hseq : d'.queue.nextSeq = d.queue.nextSeq) (hheld : d'.held = d.held) :
    d'.Complete (trace ++ events) :=
  h.of_held hhalted hseq (fun _ hitem => Or.inl (hheld ▸ hitem))

theorem Complete.enqueue (pkt : List UInt8) :
    (d.enqueue pkt).1.Complete (trace ++ (d.enqueue pkt).2) := by
  have hdeliver : (d.enqueue pkt).1.deliver = d.deliver := (enqueue_frame d pkt).2.2.1
  rcases enqueue_cases d pkt with ⟨-, hevents, hqueue⟩ | ⟨-, -, evicted, rest, bytes, -, hitems,
    hevents, hqueue⟩
  · apply h.of_same
    · rw [hqueue]
    · rw [hqueue]
    · rw [held, held, hdeliver, hqueue]
  · intro hrunning seq hlt
    have hafter : (d.enqueue pkt).1.held =
        d.deliver.inHand.toList ++ (rest ++ [(d.queue.nextSeq, pkt)]) := by
      rw [held, hdeliver, hqueue]
    rw [hqueue] at hrunning hlt
    rw [hafter, hevents, settled_append, settled_queueFull]
    dsimp only at hrunning hlt
    rcases Nat.lt_succ_iff_lt_or_eq.mp hlt with hlt | rfl
    · rcases h hrunning seq hlt with hsettled | ⟨item, hitem, rfl⟩
      · exact Or.inl (Or.inl hsettled)
      · rw [held, ← hitems] at hitem
        simp only [mem_append] at hitem ⊢
        rcases hitem with hitem | hitem | hitem
        · exact Or.inr ⟨item, Or.inl hitem, rfl⟩
        · exact Or.inl (Or.inr ⟨item, hitem, rfl⟩)
        · exact Or.inr ⟨item, Or.inr (Or.inl hitem), rfl⟩
    · right
      refine ⟨(d.queue.nextSeq, pkt), ?_, rfl⟩
      simp

theorem Complete.putBack (hbefore : d.deliver = .refused item) :
    ({ d with deliver := .leaving }.putBack item).1.noteFailure.Complete
      (trace ++ ({ d with deliver := .leaving }.putBack item).2) := by
  have hheld := held_refused hbefore
  have hafter := held_putBack d item
  rcases putBack_cases { d with deliver := .leaving } item with ⟨hhalted, -, hqueue⟩ |
    ⟨-, hevents, hqueue⟩ | ⟨-, -, -, hqueue⟩
  · intro hrunning
    rw [noteFailure, hqueue] at hrunning
    exact absurd (hhalted.symm.trans hrunning) (fun h => by cases h)
  · apply h.of_held
    · rw [noteFailure, hqueue]
    · rw [noteFailure, hqueue]
    · intro x hx
      rw [hheld, mem_cons] at hx
      rw [hafter, hqueue, hevents]
      rcases hx with rfl | hx
      · exact Or.inr (Or.inr mem_cons_self)
      · exact Or.inl hx
  · apply h.of_same
    · rw [noteFailure, hqueue]
    · rw [noteFailure, hqueue]
    · rw [hafter, hqueue, hheld]

theorem Complete.step (hhalting : d.Halting) (hstep : d.step action = some (d', events)) :
    d'.Complete (trace ++ events) := by
  cases moves_of_step hstep with
  | thread frame inHand => exact h.of_same frame.halted frame.nextSeq (frame.held inHand)
  | started item frame before after =>
    apply h.of_same frame.halted frame.nextSeq (frame.held _)
    rw [before, after]
    rfl
  | sent item frame before after =>
    apply h.of_held frame.halted frame.nextSeq
    intro x hx
    rw [held, before] at hx
    rw [held, after, frame.items]
    rcases mem_cons.mp hx with rfl | hx
    · exact Or.inr (Or.inl mem_cons_self)
    · exact Or.inl hx
  | popped item items before first after =>
    subst after
    refine h.of_same rfl rfl ?_
    rw [held, held, before, first]
    rfl
  | counted item before after frame =>
    apply h.of_same frame.halted frame.nextSeq
    rw [held, held, before, after, frame.items]
    rfl
  | putBack item before after =>
    subst after
    exact h.putBack before
  | pushed pkt after =>
    subst after
    exact h.of_same rfl rfl rfl
  | enqueued i pkt _ after =>
    subst after
    have hcaller : HepDelivery.Complete { d with pushing := d.pushing.eraseIdx i } (trace ++ []) :=
      h.of_same rfl rfl rfl
    rw [append_nil] at hcaller
    exact hcaller.enqueue pkt
  | halted reason _ after =>
    subst after
    exact fun hrunning => by cases hrunning
  | haltedAgain reason _ after =>
    subst after
    exact h.of_same rfl rfl rfl
  | passed reason _ _ after =>
    subst after
    exact h.of_same rfl rfl rfl
  | discarded reason before after =>
    subst after
    have hhalted : d.queue.halted = true := hhalting.flag.mpr (by simp [before])
    exact fun hrunning => absurd (hhalted.symm.trans hrunning) (fun h => by cases h)

end

theorem dropsOldest_append : DropsOldest (trace ++ events) ↔ DropsOldest trace ∧
    ∀ before seq later, events = before ++ DeliveryEvent.queueFull seq :: later →
      ∀ older < seq, Settled (trace ++ before) older := by
  constructor
  · intro h
    refine ⟨?_, ?_⟩
    · rintro before seq later rfl
      exact h before seq (later ++ events) (by simp)
    · rintro before seq later rfl
      exact h (trace ++ before) seq later (by simp)
  · rintro ⟨htrace, hevents⟩ before seq later hsplit
    rcases append_eq_append_iff.mp hsplit with ⟨rest, rfl, hrest⟩ | ⟨rest, hbefore, hrest⟩
    · exact hevents rest seq later hrest
    · rcases cons_eq_append_iff.mp hrest with ⟨rfl, hlater⟩ | ⟨rest', rfl, -⟩
      · rw [append_nil] at hbefore
        subst hbefore
        have hfirst := hevents [] seq later hlater
        rwa [append_nil] at hfirst
      · exact htrace before seq rest' hbefore

theorem dropsOldest_enqueue (hline : d.InLine trace) (hcomplete : d.Complete trace)
    {pkt : List UInt8} (hhand : d.queue.halted = false → pkt.length ≤ d.queue.limit →
      d.queue.limit < d.queue.bytes + pkt.length → d.deliver.inHand = none) :
    ∀ before seq later, (d.enqueue pkt).2 = before ++ DeliveryEvent.queueFull seq :: later →
      ∀ older < seq, Settled (trace ++ before) older := by
  intro before seq later hsplit older holder
  rcases enqueue_cases d pkt with ⟨-, hevents, -⟩ | ⟨hrunning, hlen, evicted, rest, bytes, hroom,
    hitems, hevents, -⟩
  · rw [hevents] at hsplit
    cases before <;> cases hsplit
  · rw [hevents] at hsplit
    obtain ⟨first, tail, rfl, rfl, htail⟩ := map_eq_append_iff.mp hsplit
    obtain ⟨old, tail', rfl, hseq, -⟩ := map_eq_cons_iff.mp htail
    obtain rfl : old.1 = seq := by simpa using hseq
    have hfull : d.queue.limit < d.queue.bytes + pkt.length := by
      by_contra hfits
      rw [makeRoom_of_fits (not_lt.mp hfits)] at hroom
      simp at hroom
    have hheld : d.held = first ++ (old :: (tail' ++ rest)) := by
      rw [held, hhand hrunning hlen hfull, ← hitems]
      simp
    have hmem : old ∈ d.held := by
      rw [hheld]
      exact mem_append_right _ mem_cons_self
    have hsorted := hline.sorted
    rw [hheld, pairwise_append, pairwise_cons] at hsorted
    obtain ⟨-, ⟨hlater, -⟩, -⟩ := hsorted
    rw [settled_append, settled_queueFull]
    rcases hcomplete hrunning older (holder.trans (hline.fresh old hmem)) with
      hsettled | ⟨item, hitem, rfl⟩
    · exact Or.inl hsettled
    · right
      rw [hheld, mem_append, mem_cons] at hitem
      rcases hitem with hitem | rfl | hitem
      · exact ⟨item, hitem, rfl⟩
      · exact absurd holder (lt_irrefl _)
      · exact absurd holder (hlater item hitem).le.not_gt

theorem dropsOldest_putBack (hline : d.InLine trace) (hcomplete : d.Complete trace)
    (hbefore : d.deliver = .refused item) :
    ∀ before seq later, ({ d with deliver := .leaving }.putBack item).2 =
      before ++ DeliveryEvent.queueFull seq :: later → ∀ older < seq, Settled (trace ++ before) older := by
  intro before seq later hsplit older holder
  have hheld : d.held = item :: d.queue.items := by
    rw [held, hbefore]
    rfl
  rcases putBack_cases { d with deliver := .leaving } item with ⟨-, hevents, -⟩ |
    ⟨hrunning, hevents, -⟩ | ⟨-, -, hevents, -⟩
  · rw [hevents] at hsplit
    cases before <;> cases hsplit
  · rw [hevents] at hsplit
    obtain ⟨rfl, hseq, -⟩ : before = [] ∧ item.1 = seq ∧ later = [] := by
      rcases before with _ | ⟨event, before⟩
      · cases hsplit
        exact ⟨rfl, rfl, rfl⟩
      · cases before <;> cases hsplit
    subst hseq
    have hsorted := hline.sorted
    rw [hheld, pairwise_cons] at hsorted
    rw [append_nil]
    rcases hcomplete hrunning older
      (holder.trans (hline.fresh item (hheld ▸ mem_cons_self))) with
        hsettled | ⟨x, hx, rfl⟩
    · exact hsettled
    · rw [hheld, mem_cons] at hx
      rcases hx with rfl | hx
      · exact absurd holder (lt_irrefl _)
      · exact absurd holder (hsorted.1 x hx).le.not_gt
  · rw [hevents] at hsplit
    cases before <;> cases hsplit

theorem dropsOldest_step (h : DropsOldest trace) (hline : d.InLine trace)
    (hcomplete : d.Complete trace) (hstep : d.step action = some (d', events))
    (hnever : ∀ i, action = .enqueue i → ¬ d.EvictsAround i) :
    DropsOldest (trace ++ events) := by
  rw [dropsOldest_append]
  refine ⟨h, ?_⟩
  cases moves_of_step hstep with
  | enqueued i pkt caller _ =>
    have hsame : HepDelivery.InLine { d with pushing := d.pushing.eraseIdx i } (trace ++ []) :=
      hline.of_held rfl rfl not_settled_nil
    have hstill : HepDelivery.Complete { d with pushing := d.pushing.eraseIdx i } (trace ++ []) :=
      hcomplete.of_same rfl rfl rfl
    rw [append_nil] at hsame hstill
    refine dropsOldest_enqueue hsame hstill ?_
    intro hrunning hlen hfull
    by_contra hhand
    exact hnever i rfl ⟨pkt, caller, hrunning, hlen, hfull, hhand⟩
  | putBack item before _ => exact dropsOldest_putBack hline hcomplete before
  | _ =>
    intro before seq later hsplit
    rcases before with _ | ⟨event, before⟩
    · cases hsplit
    · cases before <;> cases hsplit

theorem not_dropsOldest_of_evictsAround (hline : d.InLine trace) (hbounded : d.Bounded) {i : ℕ}
    (haround : d.EvictsAround i) (hstep : d.step (.enqueue i) = some (d', events)) :
    ¬ DropsOldest (trace ++ events) := by
  obtain ⟨pkt, hcaller, hrunning, hlen, hfull, hhand⟩ := haround
  obtain ⟨item, hitem⟩ := Option.ne_none_iff_exists'.mp hhand
  intro hdrops
  have hnew := (dropsOldest_append.mp hdrops).2
  have hevents : events = ({ d with pushing := d.pushing.eraseIdx i }.enqueue pkt).2 := by
    simp only [HepDelivery.step, hcaller, Option.some.injEq] at hstep
    rw [hstep]
  rcases enqueue_cases { d with pushing := d.pushing.eraseIdx i } pkt with
    ⟨hhalted | hlimit, -⟩ | ⟨-, -, evicted, rest, bytes, hroom, hitems, hshown, -⟩
  · exact absurd (hrunning.symm.trans hhalted) (fun h => by cases h)
  · exact absurd hlen hlimit.not_ge
  · cases evicted with
    | nil =>
      have hfits := makeRoom_fits hlen hbounded.bytes
      have hleft : (makeRoom d.queue.limit pkt.length d.queue.items d.queue.bytes).2.1 =
          itemBytes (makeRoom d.queue.limit pkt.length d.queue.items d.queue.bytes).1 :=
        makeRoom_bytes hbounded.bytes
      have hrest : rest = d.queue.items := hitems
      have hsame : makeRoom d.queue.limit pkt.length d.queue.items d.queue.bytes =
          (rest, bytes, []) := hroom
      rw [hsame] at hfits hleft
      dsimp only at hfits hleft
      rw [hleft, hrest, ← hbounded.bytes] at hfits
      omega
    | cons old evicted =>
      have hheld : d.held = item :: (old :: (evicted ++ rest)) := by
        rw [held, hitem]
        exact congrArg (item :: ·) hitems.symm
      have hsorted := hline.sorted
      rw [hheld, pairwise_cons] at hsorted
      have hlt : item.1 < old.1 := hsorted.1 old mem_cons_self
      have hsettled := hnew [] old.1 _ (hevents.trans hshown) item.1 hlt
      rw [append_nil] at hsettled
      exact hline.settled_ne item.1 hsettled item (hheld ▸ mem_cons_self) rfl

end InLine

/-! ## Whole runs -/

section Runs

variable {limit : ℕ} {connected : Bool} {actions : List DeliveryAction} {d : HepDelivery}
  {trace : List DeliveryEvent}

structure Kept (d : HepDelivery) (trace : List DeliveryEvent) : Prop where
  halting : d.Halting
  inLine : d.InLine trace
  bounded : d.Bounded
  complete : d.Complete trace

theorem kept_of_run (hrun : run step (start limit connected) actions = some (d, trace)) :
    d.Kept trace := by
  refine run_invariant (P := fun _ d trace => d.Kept trace) ?_ ?_ hrun
  · refine ⟨halting_start, inLine_start, ⟨rfl, Nat.zero_le _⟩, ?_⟩
    exact fun _ seq hseq => absurd hseq (Nat.not_lt_zero seq)
  · intro before s seen action next shown _ h hstep
    exact ⟨h.halting.step hstep, h.inLine.step hstep, h.bounded.step hstep,
      h.complete.step h.halting hstep⟩

theorem NeverAround.of_concat {action : DeliveryAction}
    (h : NeverAround limit connected (actions ++ [action])) :
    NeverAround limit connected actions := by
  rintro before i later d trace rfl
  exact h before i (later ++ [action]) d trace (by simp)

theorem HaltsApart.of_concat {action : DeliveryAction}
    (h : HaltsApart limit connected (actions ++ [action])) :
    HaltsApart limit connected actions := by
  rintro before reason later d trace rfl
  exact h before reason (later ++ [action]) d trace (by simp)

theorem dropsOldest_of_neverAround
    (hrun : run step (start limit connected) actions = some (d, trace))
    (hnever : NeverAround limit connected actions) : DropsOldest trace := by
  refine run_invariant (P := fun actions _ trace =>
    NeverAround limit connected actions → DropsOldest trace) ?_ ?_ hrun hnever
  · intro _ before seq later hsplit
    cases before <;> cases hsplit
  · intro before s seen action next shown hbefore h hstep hnever
    have hkept := kept_of_run hbefore
    refine dropsOldest_step (h hnever.of_concat) hkept.inLine hkept.complete hstep ?_
    rintro i rfl
    exact hnever before i [] s seen rfl hbefore

theorem silent_of_haltsApart
    (hrun : run step (start limit connected) actions = some (d, trace))
    (hapart : HaltsApart limit connected actions) : d.Silent trace := by
  refine run_invariant (P := fun actions d trace =>
    HaltsApart limit connected actions → d.Silent trace) ?_ ?_ hrun hapart
  · exact fun _ => ⟨(fun h => by cases h), List.Pairwise.nil⟩
  · intro before s seen action next shown hbefore h hstep hapart
    have hkept := kept_of_run hbefore
    refine (h hapart.of_concat).step hkept.halting hstep ?_
    rintro reason rfl hhalted
    exact hapart before reason [] s seen rfl hbefore hhalted

/-- While no caller makes room around the packet in flight and no halt is called during another, the
laws of delivery hold in every state. The first condition cannot be left out. -/
theorem delivery_laws (hrun : run step (start limit connected) actions = some (d, trace)) :
    (NeverAround limit connected actions → HaltsApart limit connected actions →
      DeliveryLaws d trace) ∧
    (DeliveryLaws d trace → NeverAround limit connected actions) := by
  have hkept := kept_of_run hrun
  refine ⟨?_, ?_⟩
  · intro hnever hapart
    refine ⟨hkept.inLine.sent_sorted, ?_, (silent_of_haltsApart hrun hapart).silent,
      dropsOldest_of_neverAround hrun hnever⟩
    rw [← hkept.bounded.bytes]
    exact hkept.bounded.le
  · rintro hlaws before i later s seen rfl hbefore haround
    have hfirst : before ++ DeliveryAction.enqueue i :: later =
        (before ++ [DeliveryAction.enqueue i]) ++ later := by simp
    rw [hfirst] at hrun
    obtain ⟨middle, shown, rest, hmiddle, -, htrace⟩ := run_append hrun
    obtain ⟨s', seen', events, hs', hstep, hshown⟩ := run_concat.mp hmiddle
    obtain ⟨rfl, rfl⟩ := Prod.mk.inj (Option.some.inj (hbefore.symm.trans hs'))
    have hdrops := hlaws.dropsOldest
    rw [htrace, hshown] at hdrops
    have hsofar := kept_of_run hbefore
    exact not_dropsOldest_of_evictsAround hsofar.inLine hsofar.bounded haround hstep
      (dropsOldest_append.mp hdrops).1

end Runs

end HepDelivery

/-! ### Ten bytes of room -/

/-- The second packet takes the place of the first one in the queue, and goes out. -/
def replacedInQueue : List DeliveryAction :=
  [.push (List.replicate 6 1), .enqueue 0, .push (List.replicate 6 2), .enqueue 0,
    .waitForWork false, .isConnected, .pop, .lockGate, .checkHalted false, .send,
    .sendReturns none, .account, .unlockGate]

/-- The third packet takes the place of the second one while the first is in flight, and the first
comes back. -/
def replacedAroundFlight : List DeliveryAction :=
  [.push [1], .enqueue 0, .waitForWork false, .isConnected, .pop, .lockGate, .checkHalted false,
    .push (List.replicate 9 2), .enqueue 0, .push (List.replicate 5 3), .enqueue 0, .send,
    .sendReturns (some .write), .account, .unlockGate]

/-- A second halt returns while the first one waits for the thread. -/
def haltedTwice : List DeliveryAction :=
  [.push [1], .enqueue 0, .waitForWork false, .isConnected, .pop, .lockGate, .checkHalted false,
    .halt .unsentAtExit, .halt .stopped, .send]

theorem delivery_laws_replaced_in_queue : ∃ d trace,
    run HepDelivery.step (.start 10 true) replacedInQueue = some (d, trace) ∧
      HepDelivery.NeverAround 10 true replacedInQueue ∧
      HepDelivery.HaltsApart 10 true replacedInQueue ∧
      trace = [.queueFull 0, .started 1, .sent 1] ∧ DeliveryLaws d trace := by
  have hnever : HepDelivery.NeverAround 10 true replacedInQueue := by
    rintro before i later d trace hsplit hrun ⟨pkt, -, -, -, -, hhand⟩
    rcases before with _ | ⟨a, _ | ⟨b, _ | ⟨c, _ | ⟨e, before⟩⟩⟩⟩
    · cases hsplit
    · cases hsplit
      obtain ⟨rfl, -⟩ := Prod.mk.inj (Option.some.inj hrun)
      exact hhand rfl
    · cases hsplit
    · cases hsplit
      obtain ⟨rfl, -⟩ := Prod.mk.inj (Option.some.inj hrun)
      exact hhand rfl
    · have hmem : .enqueue i ∈ replacedInQueue.drop 4 := by
        have hrest : replacedInQueue.drop 4 = before ++ DeliveryAction.enqueue i :: later :=
          congrArg (List.drop 4) hsplit
        rw [hrest]
        exact mem_append_right _ mem_cons_self
      simp [replacedInQueue] at hmem
  have hapart : HepDelivery.HaltsApart 10 true replacedInQueue := by
    intro before reason later d trace hsplit
    have hmem : .halt reason ∈ replacedInQueue := hsplit ▸ mem_append_right _ mem_cons_self
    simp [replacedInQueue] at hmem
  exact ⟨_, _, rfl, hnever, hapart, rfl, (HepDelivery.delivery_laws rfl).1 hnever hapart⟩

/-- The second packet is dropped in front of the first one, and a write starts behind a halt. -/
theorem packet_in_flight_outlives_younger :
    (∃ d trace, run HepDelivery.step (.start 10 true) replacedAroundFlight = some (d, trace) ∧
      trace = [.queueFull 1, .started 0] ∧ d.queue.items.map Prod.fst = [0, 2] ∧
      ¬ DeliveryLaws d trace) ∧
    ∃ d trace, run HepDelivery.step (.start 10 true) haltedTwice = some (d, trace) ∧
      trace = [.halted, .started 0] ∧ ¬ DeliveryLaws d trace := by
  refine ⟨⟨_, _, rfl, rfl, rfl, ?_⟩, ⟨_, _, rfl, rfl, ?_⟩⟩
  · intro hlaws
    have hsettled := hlaws.dropsOldest [] 1 [.started 0] rfl 0 Nat.zero_lt_one
    exact HepDelivery.not_settled_nil 0 hsettled
  · intro hlaws
    have hsilent := (pairwise_cons.mp hlaws.silent).1 (.started 0) mem_cons_self
    exact hsilent rfl 0 rfl

end Sipnab
