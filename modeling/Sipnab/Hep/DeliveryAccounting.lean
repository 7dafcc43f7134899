import Sipnab.Hep.Delivery

/-!
# What the counters say in the end

A packet is counted as queued before its caller has the lock. The halt takes everything that is
counted as queued and neither sent nor dropped for discarded, callers in front of the lock included,
and they count their own packets as dropped behind it.
-/

namespace Sipnab

open List

namespace HepExportCounters

variable (c : HepExportCounters) (kind : ExportFailure) (reason : DropReason) (n : ℕ)

@[simp] theorem droppedTotal_recordDropped :
    (c.recordDropped reason n).droppedTotal = c.droppedTotal + n := by
  cases reason <;> simp only [droppedTotal, recordDropped, Function.update] <;> simp <;> omega

@[simp] theorem sent_recordDropped : (c.recordDropped reason n).sent = c.sent := rfl

@[simp] theorem queued_recordDropped : (c.recordDropped reason n).queued = c.queued := rfl

@[simp] theorem droppedTotal_recordFailure :
    (c.recordFailure kind).droppedTotal = c.droppedTotal := rfl

@[simp] theorem sent_recordFailure : (c.recordFailure kind).sent = c.sent := rfl

@[simp] theorem queued_recordFailure : (c.recordFailure kind).queued = c.queued := rfl

@[simp] theorem droppedTotal_recordQueued : c.recordQueued.droppedTotal = c.droppedTotal := rfl

@[simp] theorem sent_recordQueued : c.recordQueued.sent = c.sent := rfl

@[simp] theorem queued_recordQueued : c.recordQueued.queued = c.queued + 1 := rfl

theorem foldl_recordDropped (evicted : List HepItem) :
    (evicted.foldl (fun c _ => c.recordDropped .queueFull 1) c).droppedTotal =
        c.droppedTotal + evicted.length ∧
      (evicted.foldl (fun c _ => c.recordDropped .queueFull 1) c).sent = c.sent ∧
      (evicted.foldl (fun c _ => c.recordDropped .queueFull 1) c).queued = c.queued := by
  induction evicted generalizing c with
  | nil => exact ⟨rfl, rfl, rfl⟩
  | cons old evicted ih =>
    obtain ⟨hdropped, hsent, hqueued⟩ := ih (c.recordDropped .queueFull 1)
    rw [foldl_cons, hdropped, hsent, hqueued, droppedTotal_recordDropped, length_cons]
    exact ⟨by omega, rfl, rfl⟩

end HepExportCounters

namespace HepDelivery

variable {d d' : HepDelivery} {action : DeliveryAction} {events : List DeliveryEvent} {limit : ℕ}
  {connected : Bool}

/-! ## The halt -/

/-- The flag is set while a halt is under way or over, and no write is under way once the halt has
passed the gate. -/
structure Halting (d : HepDelivery) : Prop where
  flag : d.queue.halted = true ↔ d.halt ≠ .idle
  passed : d.halt = .returned ∨ (∃ reason, d.halt = .discarding reason) → d.deliver.midway = false

theorem halting_start : (start limit connected).Halting :=
  ⟨by simp [start], by simp [start]⟩

theorem enqueue_frame (d : HepDelivery) (pkt : List UInt8) :
    (d.enqueue pkt).1.queue.halted = d.queue.halted ∧ (d.enqueue pkt).1.halt = d.halt ∧
      (d.enqueue pkt).1.deliver = d.deliver ∧ (d.enqueue pkt).1.pushing = d.pushing := by
  rw [enqueue]
  split_ifs <;> exact ⟨rfl, rfl, rfl, rfl⟩

theorem putBack_frame (d : HepDelivery) (item : HepItem) :
    (d.putBack item).1.queue.halted = d.queue.halted ∧ (d.putBack item).1.halt = d.halt ∧
      (d.putBack item).1.deliver = d.deliver ∧ (d.putBack item).1.pushing = d.pushing := by
  rw [putBack]
  split_ifs <;> exact ⟨rfl, rfl, rfl, rfl⟩

theorem Halting.step (h : d.Halting) (hstep : d.step action = some (d', events)) : d'.Halting := by
  obtain ⟨hflag, hpassed⟩ := h
  have hset : d.halt = .returned ∨ (∃ reason, d.halt = .discarding reason) →
      d.queue.halted = true := by
    rw [hflag]
    rintro (h | ⟨reason, h⟩) <;> simp [h]
  cases moves_of_step hstep with
  | thread frame _ _ midway _ =>
    refine ⟨by rw [frame.halted, frame.halt, hflag], ?_⟩
    intro hhalt
    rw [frame.halt] at hhalt
    by_contra hmidway
    rcases midway (Bool.eq_true_of_not_eq_false hmidway) with hbefore | hbefore
    · exact Bool.false_ne_true ((hpassed hhalt).symm.trans hbefore)
    · exact Bool.false_ne_true (hbefore.symm.trans (hset hhalt))
  | started item frame before _ =>
    refine ⟨by rw [frame.halted, frame.halt, hflag], ?_⟩
    intro hhalt
    rw [frame.halt] at hhalt
    have hbefore := hpassed hhalt
    rw [before] at hbefore
    cases hbefore
  | sent item frame before _ =>
    refine ⟨by rw [frame.halted, frame.halt, hflag], ?_⟩
    intro hhalt
    rw [frame.halt] at hhalt
    have hbefore := hpassed hhalt
    rw [before] at hbefore
    cases hbefore
  | popped item items _ _ after =>
    subst after
    exact ⟨hflag, fun _ => rfl⟩
  | counted item _ after frame =>
    refine ⟨by rw [frame.halted, frame.halt, hflag], ?_⟩
    rw [after]
    exact fun _ => rfl
  | putBack item _ after =>
    obtain ⟨hhalted, hhalt, hdeliver, -⟩ := putBack_frame { d with deliver := .leaving } item
    subst after
    refine ⟨?_, ?_⟩
    · rw [noteFailure, hhalted, hhalt, hflag]
    · rw [noteFailure, hdeliver]
      exact fun _ => rfl
  | pushed pkt after =>
    subst after
    exact ⟨hflag, hpassed⟩
  | enqueued i pkt _ after =>
    obtain ⟨hhalted, hhalt, hdeliver, -⟩ :=
      enqueue_frame { d with pushing := d.pushing.eraseIdx i } pkt
    subst after
    refine ⟨?_, ?_⟩
    · rw [hhalted, hhalt, hflag]
    · rw [hhalt, hdeliver]
      exact hpassed
  | halted reason _ after =>
    subst after
    refine ⟨by simp, ?_⟩
    rintro (h | ⟨other, h⟩) <;> cases h
  | haltedAgain reason _ after =>
    subst after
    exact ⟨hflag, hpassed⟩
  | passed reason before gate after =>
    subst after
    refine ⟨?_, ?_⟩
    · simp [hflag, before]
    · intro _
      cases hpc : d.deliver <;> rw [hpc] at gate <;> first | rfl | cases gate
  | discarded reason before after =>
    subst after
    refine ⟨?_, ?_⟩
    · simp [hflag, before]
    · exact fun _ => hpassed (Or.inr ⟨reason, before⟩)

/-! ## The books -/

/-- Every packet that is still around, and every caller, is counted as queued and nothing else. -/
def Covered (d : HepDelivery) : Prop :=
  d.counters.sent + d.counters.droppedTotal + d.pushing.length + d.queue.items.length +
    d.deliver.uncounted ≤ d.counters.queued

/-- The halt is over, and `late` packets too many are counted once every caller has returned. -/
def Overcounted (late : ℕ) (d : HepDelivery) : Prop :=
  d.halt = .returned ∧
    d.counters.sent + d.counters.droppedTotal + d.pushing.length = d.counters.queued + late

theorem length_eraseIdx_of_get {pkt : List UInt8} {i : ℕ} (h : d.pushing[i]? = some pkt) :
    (d.pushing.eraseIdx i).length + 1 = d.pushing.length := by
  obtain ⟨hi, -⟩ := List.getElem?_eq_some_iff.mp h
  rw [length_eraseIdx_of_lt hi]
  omega

theorem enqueue_counts (d : HepDelivery) (pkt : List UInt8) :
    (d.enqueue pkt).1.counters.queued = d.counters.queued ∧
      (d.enqueue pkt).1.counters.sent = d.counters.sent ∧
      (d.enqueue pkt).1.counters.droppedTotal + (d.enqueue pkt).1.queue.items.length =
        d.counters.droppedTotal + d.queue.items.length + 1 := by
  rw [enqueue]
  split_ifs
  · refine ⟨rfl, rfl, ?_⟩
    simp only [HepExportCounters.droppedTotal_recordDropped]
    omega
  · refine ⟨rfl, rfl, ?_⟩
    simp only [HepExportCounters.droppedTotal_recordDropped]
    omega
  · have hsplit := congrArg List.length
      (makeRoom_append d.queue.limit pkt.length d.queue.items d.queue.bytes)
    generalize makeRoom d.queue.limit pkt.length d.queue.items d.queue.bytes = room at hsplit ⊢
    obtain ⟨hdropped, hsent, hqueued⟩ := HepExportCounters.foldl_recordDropped d.counters room.2.2
    refine ⟨hqueued, hsent, ?_⟩
    rw [hdropped, length_append, length_singleton]
    rw [length_append] at hsplit
    omega

theorem putBack_counts (d : HepDelivery) (item : HepItem) :
    (d.putBack item).1.counters.queued = d.counters.queued ∧
      (d.putBack item).1.counters.sent = d.counters.sent ∧
      (d.putBack item).1.counters.droppedTotal + (d.putBack item).1.queue.items.length ≤
        d.counters.droppedTotal + d.queue.items.length + 1 := by
  rw [putBack]
  split_ifs
  · exact ⟨rfl, rfl, Nat.le_succ _⟩
  · refine ⟨rfl, rfl, ?_⟩
    simp only [HepExportCounters.droppedTotal_recordDropped]
    omega
  · exact ⟨rfl, rfl, le_refl _⟩

theorem covered_start : (start limit connected).Covered := by
  simp [Covered, start, HepExportCounters.droppedTotal, DeliverPc.uncounted, DeliverPc.inHand]

theorem Covered.step (h : d.Covered) (hstep : d.step action = some (d', events))
    (hother : action ≠ .discard) : d'.Covered := by
  rw [Covered] at h ⊢
  cases moves_of_step hstep with
  | thread frame _ uncounted _ _ =>
    rw [frame.sent, frame.dropped, frame.pushing, frame.items, frame.queued, uncounted]
    exact h
  | started item frame before after =>
    rw [frame.sent, frame.dropped, frame.pushing, frame.items, frame.queued, after]
    rw [before] at h
    exact h
  | sent item frame before after =>
    rw [frame.sent, frame.dropped, frame.pushing, frame.items, frame.queued, after]
    rw [before] at h
    exact h
  | popped item items before first after =>
    subst after
    have hpopped : DeliverPc.uncounted (.holding item) = 1 := rfl
    rw [before, first, length_cons] at h
    dsimp only
    rw [hpopped]
    omega
  | counted item before after frame =>
    have hwritten : DeliverPc.uncounted (.written item) = 1 := rfl
    have hleaving : DeliverPc.uncounted .leaving = 0 := rfl
    rw [frame.sent, frame.dropped, frame.pushing, frame.items, frame.queued, after, hleaving]
    rw [before, hwritten] at h
    exact (by omega : d.counters.sent + 1 + d.counters.droppedTotal + d.pushing.length +
      d.queue.items.length + 0 ≤ d.counters.queued)
  | putBack item before after =>
    obtain ⟨hqueued, hsent, hsum⟩ := putBack_counts { d with deliver := .leaving } item
    obtain ⟨-, -, hdeliver, hpushing⟩ := putBack_frame { d with deliver := .leaving } item
    have hrefused : DeliverPc.uncounted (.refused item) = 1 := rfl
    have hleaving : DeliverPc.uncounted .leaving = 0 := rfl
    subst after
    rw [before, hrefused] at h
    rw [noteFailure]
    dsimp only at *
    rw [hqueued, hsent, hdeliver, hpushing, hleaving]
    omega
  | pushed pkt after =>
    subst after
    simp only [HepExportCounters.sent_recordQueued, HepExportCounters.droppedTotal_recordQueued,
      HepExportCounters.queued_recordQueued, length_append, length_singleton]
    omega
  | enqueued i pkt caller after =>
    obtain ⟨hqueued, hsent, hsum⟩ := enqueue_counts { d with pushing := d.pushing.eraseIdx i } pkt
    obtain ⟨-, -, hdeliver, hpushing⟩ :=
      enqueue_frame { d with pushing := d.pushing.eraseIdx i } pkt
    have herase := length_eraseIdx_of_get caller
    subst after
    dsimp only at *
    rw [hqueued, hsent, hdeliver, hpushing]
    omega
  | halted reason _ after =>
    subst after
    exact h
  | haltedAgain reason _ after =>
    subst after
    exact h
  | passed reason _ _ after =>
    subst after
    exact h
  | discarded reason _ _ => exact absurd rfl hother

theorem Covered.discard (h : d.Covered) (hstep : d.step .discard = some (d', events)) :
    Overcounted d.pushing.length d' := by
  rw [Covered] at h
  cases moves_of_step hstep with
  | thread _ _ _ _ other => exact absurd rfl other
  | discarded reason _ after =>
    subst after
    refine ⟨rfl, ?_⟩
    simp only [HepExportCounters.droppedTotal_recordDropped,
      HepExportCounters.sent_recordDropped, HepExportCounters.queued_recordDropped,
      HepExportCounters.depth]
    omega

theorem Overcounted.step {late : ℕ} (h : Overcounted late d) (hhalting : d.Halting)
    (hstep : d.step action = some (d', events)) : Overcounted late d' ∧ action ≠ .discard := by
  obtain ⟨hreturned, hcounts⟩ := h
  have hidle := hhalting.passed (Or.inl hreturned)
  have hhalted : d.queue.halted = true := hhalting.flag.mpr (by simp [hreturned])
  cases moves_of_step hstep with
  | thread frame _ _ _ other =>
    refine ⟨⟨frame.halt.trans hreturned, ?_⟩, other⟩
    rw [frame.sent, frame.dropped, frame.pushing, frame.queued]
    exact hcounts
  | started item frame _ _ =>
    refine ⟨⟨frame.halt.trans hreturned, ?_⟩, fun h => by cases h⟩
    rw [frame.sent, frame.dropped, frame.pushing, frame.queued]
    exact hcounts
  | sent item frame _ _ =>
    refine ⟨⟨frame.halt.trans hreturned, ?_⟩, fun h => by cases h⟩
    rw [frame.sent, frame.dropped, frame.pushing, frame.queued]
    exact hcounts
  | popped item items _ _ after =>
    subst after
    exact ⟨⟨hreturned, hcounts⟩, fun h => by cases h⟩
  | counted item before _ _ =>
    rw [before] at hidle
    cases hidle
  | putBack item before _ =>
    rw [before] at hidle
    cases hidle
  | pushed pkt after =>
    subst after
    refine ⟨⟨hreturned, ?_⟩, fun h => by cases h⟩
    simp only [HepExportCounters.sent_recordQueued, HepExportCounters.droppedTotal_recordQueued,
      HepExportCounters.queued_recordQueued, length_append, length_singleton]
    omega
  | enqueued i pkt caller after =>
    have herase := length_eraseIdx_of_get caller
    subst after
    refine ⟨?_, fun h => by cases h⟩
    have hdropped : ({ d with pushing := d.pushing.eraseIdx i }.enqueue pkt).1 =
        { d with
          pushing := d.pushing.eraseIdx i
          counters := d.counters.recordDropped .stopped 1 } := by
      rw [enqueue, if_pos hhalted]
    rw [hdropped]
    refine ⟨hreturned, ?_⟩
    simp only [HepExportCounters.droppedTotal_recordDropped,
      HepExportCounters.sent_recordDropped, HepExportCounters.queued_recordDropped]
    omega
  | halted reason before _ => exact absurd (hhalted.symm.trans before) (fun h => by cases h)
  | haltedAgain reason _ after =>
    subst after
    exact ⟨⟨hreturned, hcounts⟩, fun h => by cases h⟩
  | passed reason before _ _ => exact absurd (hreturned.symm.trans before) (fun h => by cases h)
  | discarded reason before _ => exact absurd (hreturned.symm.trans before) (fun h => by cases h)

theorem halt_of_step (hstep : d.step action = some (d', events)) :
    d'.halt = d.halt ∨ (∃ reason, d.queue.halted = false ∧ d'.halt = .halting reason) ∨
      (∃ reason, d.halt = .halting reason ∧ d'.halt = .discarding reason) ∨
      ∃ reason, action = .discard ∧ d.halt = .discarding reason ∧ d'.halt = .returned := by
  cases moves_of_step hstep with
  | thread frame => exact Or.inl frame.halt
  | started item frame => exact Or.inl frame.halt
  | sent item frame => exact Or.inl frame.halt
  | popped item items _ _ after =>
    subst after
    exact Or.inl rfl
  | counted item _ _ frame => exact Or.inl frame.halt
  | putBack item _ after =>
    subst after
    exact Or.inl (putBack_frame _ item).2.1
  | pushed pkt after =>
    subst after
    exact Or.inl rfl
  | enqueued i pkt _ after =>
    subst after
    exact Or.inl (enqueue_frame _ pkt).2.1
  | halted reason before after =>
    subst after
    exact Or.inr (Or.inl ⟨reason, before, rfl⟩)
  | haltedAgain reason _ after =>
    subst after
    exact Or.inl rfl
  | passed reason before _ after =>
    subst after
    exact Or.inr (Or.inr (Or.inl ⟨reason, before, rfl⟩))
  | discarded reason before after =>
    subst after
    exact Or.inr (Or.inr (Or.inr ⟨reason, rfl, before, rfl⟩))

/-! ## Whole runs -/

/-- Every caller has returned, and so have the halt and the thread. -/
structure Over (d : HepDelivery) : Prop where
  pushing : d.pushing = []
  halt : d.halt = .returned
  deliver : ∃ held, d.deliver = .returned held

/-- No caller of `push` stands between its count and the lock when the halt reads the counts. -/
def DiscardsAlone (limit : ℕ) (connected : Bool) (actions : List DeliveryAction) : Prop :=
  ∀ before later d trace, actions = before ++ DeliveryAction.discard :: later →
    run step (start limit connected) before = some (d, trace) → d.pushing = []

/-- What a run has counted: nothing twice in front of its one discard, and behind it as many packets
twice as callers stood in front of the lock. -/
def CountedBy (limit : ℕ) (connected : Bool) (actions : List DeliveryAction) (d : HepDelivery) :
    Prop :=
  (d.Covered ∧ d.halt ≠ .returned ∧ .discard ∉ actions) ∨
    ∃ before later b shown, actions = before ++ DeliveryAction.discard :: later ∧
      .discard ∉ before ∧ .discard ∉ later ∧
      run step (start limit connected) before = some (b, shown) ∧
      Overcounted b.pushing.length d

theorem counted_by_run {actions : List DeliveryAction} {trace : List DeliveryEvent}
    (hrun : run step (start limit connected) actions = some (d, trace)) :
    d.Halting ∧ CountedBy limit connected actions d := by
  refine run_invariant (P := fun actions d _ => d.Halting ∧ CountedBy limit connected actions d)
    ?_ ?_ hrun
  · exact ⟨halting_start, Or.inl ⟨covered_start, (fun h => by cases h), not_mem_nil⟩⟩
  · rintro actions d trace action d' events hbefore ⟨hhalting, hbooks⟩ hstep
    refine ⟨hhalting.step hstep, ?_⟩
    rcases hbooks with ⟨hcovered, hnot, hnone⟩ | ⟨before, later, b, shown, hsplit, hfirst, hlast,
      hb, hover⟩
    · by_cases hdiscard : action = .discard
      · subst hdiscard
        right
        exact ⟨actions, [], d, trace, rfl, hnone, not_mem_nil, hbefore, hcovered.discard hstep⟩
      · left
        refine ⟨hcovered.step hstep hdiscard, ?_, ?_⟩
        · rcases halt_of_step hstep with hsame | ⟨_, _, hnext⟩ | ⟨_, _, hnext⟩ | ⟨_, hlast, _⟩
          · rwa [hsame]
          · simp [hnext]
          · simp [hnext]
          · exact absurd hlast hdiscard
        · simp only [mem_append, mem_singleton, not_or]
          exact ⟨hnone, Ne.symm hdiscard⟩
    · obtain ⟨hstays, hother⟩ := hover.step hhalting hstep
      right
      refine ⟨before, later ++ [action], b, shown, ?_, hfirst, ?_, hb, hstays⟩
      · rw [hsplit, append_assoc, cons_append]
      · simp only [mem_append, mem_singleton, not_or]
        exact ⟨hlast, Ne.symm hother⟩

/-- When all is over, every packet is counted once as sent or dropped if and only if no caller stood
in front of the lock when the halt read the counts. -/
theorem counted_once_iff {actions : List DeliveryAction} {trace : List DeliveryEvent}
    (hrun : run step (start limit connected) actions = some (d, trace)) (hover : d.Over) :
    d.counters.queued = d.counters.sent + d.counters.droppedTotal ↔
      DiscardsAlone limit connected actions := by
  obtain ⟨-, ⟨-, hnot, -⟩ | ⟨before, later, b, shown, rfl, hfirst, hlast, hb, hbooks⟩⟩ :=
    counted_by_run hrun
  · exact absurd hover.halt hnot
  · obtain ⟨-, hcounts⟩ := hbooks
    rw [hover.pushing, length_nil, Nat.add_zero] at hcounts
    constructor
    · intro hbalanced before' later' b' shown' hsplit hb'
      obtain ⟨rfl, -, -⟩ := (append_cons_inj_of_notMem hfirst hlast).mp hsplit
      obtain ⟨rfl, -⟩ := Prod.mk.inj (Option.some.inj (hb.symm.trans hb'))
      apply length_eq_zero_iff.mp
      omega
    · intro halone
      rw [halone before later b shown rfl hb, length_nil] at hcounts
      omega

end HepDelivery

/-! ### A push beside a stop -/

def sentThenStopped : List DeliveryAction :=
  [.push [1], .enqueue 0, .waitForWork false, .isConnected, .pop, .lockGate, .checkHalted false,
    .send, .sendReturns none, .account, .unlockGate, .halt .stopped, .waitForWork false, .passGate,
    .discard]

/-- The halt comes between the count and the lock of the one push. -/
def stoppedBesidePush : List DeliveryAction :=
  [.push [1], .halt .stopped, .waitForWork false, .passGate, .discard, .enqueue 0]

theorem counted_once_iff_sent_then_stopped : ∃ d trace,
    run HepDelivery.step (.start 100 true) sentThenStopped = some (d, trace) ∧ d.Over ∧
      d.counters.queued = 1 ∧ d.counters.sent = 1 ∧
      d.counters.queued = d.counters.sent + d.counters.droppedTotal := by
  have halone : HepDelivery.DiscardsAlone 100 true sentThenStopped := by
    intro before later d trace hsplit hrun
    have hlast : sentThenStopped.take 14 ++ DeliveryAction.discard :: [] =
      before ++ DeliveryAction.discard :: later := hsplit
    obtain ⟨rfl, -, -⟩ := (append_cons_inj_of_notMem (by decide) not_mem_nil).mp hlast
    obtain ⟨rfl, -⟩ := Prod.mk.inj (Option.some.inj hrun)
    rfl
  refine ⟨_, _, rfl, ⟨rfl, rfl, none, rfl⟩, rfl, rfl, ?_⟩
  exact (HepDelivery.counted_once_iff rfl ⟨rfl, rfl, none, rfl⟩).mpr halone

/-- The one packet is counted as dropped twice. -/
theorem push_beside_halt_counted_twice : ∃ d trace,
    run HepDelivery.step (.start 100 true) stoppedBesidePush = some (d, trace) ∧ d.Over ∧
      d.counters.queued = 1 ∧ d.counters.sent = 0 ∧ d.counters.droppedTotal = 2 ∧
      ¬ d.counters.queued = d.counters.sent + d.counters.droppedTotal := by
  refine ⟨_, _, rfl, ⟨rfl, rfl, none, rfl⟩, rfl, rfl, rfl, ?_⟩
  decide

end Sipnab
