import Sipnab.Lib.LruMap
import Sipnab.Sip.Message

/-!
# Alerts by rule and source

An event is counted for its source and alert type, and the pair fires when the rule's threshold is
reached inside the rule's window and the pair has been quiet for the rule's cooldown. Times are
those of the capture. Only as many stamps as the threshold asks for are kept, in the order in which
the events came.
-/

namespace Sipnab

open List

namespace Alerting

/-! ## The engine -/

structure CaptureTime where
  nanos : ℤ
  inCalendar : -(2 ^ 43 * 10 ^ 9) ≤ nanos ∧ nanos ≤ 2 ^ 43 * 10 ^ 9
  deriving DecidableEq

structure AlertRule where
  name : String
  threshold : ℕ
  /-- In nanoseconds, as the cooldown is. -/
  window : ℕ
  cooldown : ℕ
  deriving DecidableEq

abbrev AlertKey := IpAddr × String

def maxCooldownEntries : ℕ := 10000

/-- The longest signed duration: the milliseconds of a signed word of 64 bits. -/
def maxDuration : ℤ := (2 ^ 63 - 1) * 10 ^ 6

/-- A span as a signed duration, the longest one when it does not fit. -/
def fromStd (span : ℕ) : ℤ := if (span : ℤ) ≤ maxDuration then span else maxDuration

def ruleFor (rules : List AlertRule) (alertType : String) : Option AlertRule :=
  rules.find? (fun r => r.name = alertType)

def thresholdOf (rules : List AlertRule) (alertType : String) : ℕ :=
  ((ruleFor rules alertType).map (fun r => max r.threshold 1)).getD 1

def windowOf (rules : List AlertRule) (alertType : String) : ℕ :=
  ((ruleFor rules alertType).map AlertRule.window).getD 0

def cooldownOf (rules : List AlertRule) (alertType : String) : ℕ :=
  ((ruleFor rules alertType).map AlertRule.cooldown).getD (60 * 10 ^ 9)

structure AlertEngine where
  rules : List AlertRule
  cooldowns : LruMap AlertKey CaptureTime
  events : LruMap AlertKey (List CaptureTime)

def AlertEngine.new (rules : List AlertRule) : AlertEngine where
  rules := rules
  cooldowns := .new maxCooldownEntries
  events := .new maxCooldownEntries

structure AlertEvent where
  alertType : String
  srcIp : IpAddr
  now : CaptureTime

def AlertEvent.key (ev : AlertEvent) : AlertKey := (ev.srcIp, ev.alertType)

def newest (n : ℕ) (stamps : List CaptureTime) : List CaptureTime :=
  stamps.drop (stamps.length - n)

def AlertEngine.seen (e : AlertEngine) (ev : AlertEvent) : List CaptureTime :=
  newest (thresholdOf e.rules ev.alertType) ((e.events.peek ev.key).getD [] ++ [ev.now])

/-- The threshold is met: the oldest stamp kept is inside the window. -/
def reached (rules : List AlertRule) (ev : AlertEvent) (seen : List CaptureTime) : Bool :=
  thresholdOf rules ev.alertType ≤ seen.length &&
    seen.head?.any (fun oldest => windowOf rules ev.alertType = 0 ||
      ev.now.nanos - oldest.nanos ≤ fromStd (windowOf rules ev.alertType))

def AlertEngine.inCooldown (e : AlertEngine) (ev : AlertEvent) : Bool :=
  (e.cooldowns.peek ev.key).any (fun lastFired =>
    ev.now.nanos - lastFired.nanos < fromStd (cooldownOf e.rules ev.alertType))

/-- The engine after an event, and whether the alert fired. -/
def AlertEngine.fire (e : AlertEngine) (ev : AlertEvent) : AlertEngine × Bool :=
  let seen := e.seen ev
  let counted := { e with events := e.events.insert ev.key seen }
  if reached e.rules ev seen = false then (counted, false)
  else if e.inCooldown ev then (counted, false)
  else ({ counted with cooldowns := e.cooldowns.insert ev.key ev.now }, true)

def run (rules : List AlertRule) (evs : List AlertEvent) : AlertEngine × List AlertEvent :=
  evs.foldl (fun s ev => ((s.1.fire ev).1, if (s.1.fire ev).2 then s.2 ++ [ev] else s.2))
    (.new rules, [])

def firesAt (rules : List AlertRule) (before : List AlertEvent) (ev : AlertEvent) : Bool :=
  ((run rules before).1.fire ev).2

def stampsOf (key : AlertKey) (evs : List AlertEvent) : List CaptureTime :=
  (evs.filter (fun ev => ev.key = key)).map AlertEvent.now

def firings (rules : List AlertRule) (evs : List AlertEvent) (key : AlertKey) : List CaptureTime :=
  stampsOf key (run rules evs).2

/-! ## One event -/

variable (a : CaptureTime) (rules : List AlertRule) (b : CaptureTime)

theorem one_le_thresholdOf (alertType : String) : 1 ≤ thresholdOf rules alertType := by
  unfold thresholdOf
  cases ruleFor rules alertType with
  | none => exact le_refl 1
  | some r => exact le_max_right r.threshold 1

theorem sub_lt_maxDuration : a.nanos - b.nanos < maxDuration := by
  have ha := a.inCalendar
  have hb := b.inCalendar
  have hmax : 2 ^ 43 * 10 ^ 9 + 2 ^ 43 * 10 ^ 9 < maxDuration := by decide
  omega

theorem sub_le_fromStd_iff (span : ℕ) :
    a.nanos - b.nanos ≤ fromStd span ↔ a.nanos - b.nanos ≤ span := by
  have hlt := sub_lt_maxDuration a b
  unfold fromStd
  split_ifs with h
  · exact Iff.rfl
  · exact iff_of_true hlt.le (by omega)

theorem sub_lt_fromStd_iff (span : ℕ) :
    a.nanos - b.nanos < fromStd span ↔ a.nanos - b.nanos < span := by
  have hlt := sub_lt_maxDuration a b
  unfold fromStd
  split_ifs with h
  · exact Iff.rfl
  · exact iff_of_true hlt (by omega)

variable {e : AlertEngine} {ev : AlertEvent}

theorem fire_eq_true_iff :
    (e.fire ev).2 = true ↔ reached e.rules ev (e.seen ev) = true ∧ e.inCooldown ev = false := by
  unfold AlertEngine.fire
  simp only
  split_ifs with hreached hcool
  · simp [hreached]
  · simp [hcool]
  · simp [Bool.not_eq_false _ ▸ hreached, hcool]

theorem events_fire : (e.fire ev).1.events = e.events.insert ev.key (e.seen ev) := by
  unfold AlertEngine.fire
  simp only
  split_ifs <;> rfl

theorem rules_fire : (e.fire ev).1.rules = e.rules := by
  unfold AlertEngine.fire
  simp only
  split_ifs <;> rfl

theorem cooldowns_fire :
    (e.fire ev).1.cooldowns =
      if (e.fire ev).2 then e.cooldowns.insert ev.key ev.now else e.cooldowns := by
  unfold AlertEngine.fire
  simp only
  split_ifs <;> simp_all

/-! ## What the kept stamps say -/

theorem length_newest (n : ℕ) (stamps : List CaptureTime) :
    (newest n stamps).length = min n stamps.length := by
  rw [newest, length_drop]
  omega

theorem newest_newest_append (n : ℕ) (stamps : List CaptureTime) (t : CaptureTime) :
    newest n (newest n stamps ++ [t]) = newest n (stamps ++ [t]) := by
  have happend : newest n stamps ++ [t] = (stamps ++ [t]).drop (stamps.length - n) := by
    rw [newest, drop_append_of_le_length (by omega)]
  rw [happend, newest, newest, drop_drop, length_drop, length_append]
  congr 1
  simp only [length_singleton]
  omega

variable {stamps : List CaptureTime} {start : ℤ} {n : ℕ}

/-- Of stamps that never decrease, at least `n` are late enough exactly when the first of the last
`n` is. -/
theorem le_countP_iff_newest (hsorted : stamps.Pairwise (fun a b => a.nanos ≤ b.nanos)) :
    n ≤ stamps.countP (fun t => start ≤ t.nanos) ↔
      n ≤ stamps.length ∧ ∀ oldest ∈ (newest n stamps).head?, start ≤ oldest.nanos := by
  have hsplit := take_append_drop (stamps.length - n) stamps
  constructor
  · intro hcount
    have hlen : n ≤ stamps.length := hcount.trans countP_le_length
    refine ⟨hlen, fun oldest holdest => ?_⟩
    by_contra hlate
    obtain ⟨rest, hrest⟩ := List.head?_eq_some_iff.mp holdest
    rw [newest] at hrest
    rw [hrest] at hsplit
    rw [← hsplit, pairwise_append] at hsorted
    -- Everything up to the oldest one kept is too early.
    have hearly : (stamps.take (stamps.length - n)).countP (fun t => start ≤ t.nanos) = 0 := by
      rw [countP_eq_zero]
      intro t ht
      have hle := hsorted.2.2 t ht oldest mem_cons_self
      simp only [decide_eq_true_eq]
      omega
    have hrestLen : rest.length + 1 = n := by
      have hlength := congrArg List.length hrest
      rw [length_drop, length_cons] at hlength
      omega
    rw [← hsplit, countP_append, hearly, countP_cons_of_neg (by simpa using hlate)] at hcount
    have hle := @List.countP_le_length _ (fun t : CaptureTime => decide (start ≤ t.nanos)) rest
    omega
  · rintro ⟨hlen, holdest⟩
    have hkept : ∀ t ∈ newest n stamps, start ≤ t.nanos := by
      cases hnewest : newest n stamps with
      | nil => simp
      | cons oldest rest =>
        have hlate := holdest oldest (by rw [hnewest]; rfl)
        have hsortedKept := hsorted.sublist (drop_sublist (stamps.length - n) stamps)
        rw [← newest, hnewest, pairwise_cons] at hsortedKept
        intro t ht
        rcases mem_cons.mp ht with rfl | ht
        · exact hlate
        · exact hlate.trans (hsortedKept.1 t ht)
    calc n = (newest n stamps).length := by rw [length_newest]; omega
      _ = (newest n stamps).countP (fun t => start ≤ t.nanos) :=
        (countP_eq_length.mpr (fun t ht => decide_eq_true (hkept t ht))).symm
      _ ≤ stamps.countP (fun t => start ≤ t.nanos) := (drop_sublist _ _).countP_le

/-! ## Whole runs -/

theorem run_append (before : List AlertEvent) (ev : AlertEvent) :
    run rules (before ++ [ev]) = (((run rules before).1.fire ev).1,
      if firesAt rules before ev then (run rules before).2 ++ [ev] else (run rules before).2) := by
  rw [run, foldl_append, ← run]
  rfl

theorem stampsOf_append (key : AlertKey) (before : List AlertEvent) (ev : AlertEvent) :
    stampsOf key (before ++ [ev]) =
      stampsOf key before ++ if ev.key = key then [ev.now] else [] := by
  rw [stampsOf, filter_append, map_append, ← stampsOf]
  by_cases h : ev.key = key
  · simp [h]
  · simp [h]

theorem firings_append (before : List AlertEvent) (ev : AlertEvent) (key : AlertKey) :
    firings rules (before ++ [ev]) key = firings rules before key ++
      if firesAt rules before ev = true ∧ ev.key = key then [ev.now] else [] := by
  rw [firings, run_append]
  by_cases hfires : firesAt rules before ev = true
  · simp only [hfires, if_true, true_and, stampsOf_append, firings]
  · simp only [hfires, if_false, Bool.false_eq_true, false_and, append_nil, firings]

/-- What the engine remembers after events of the pairs `keys`. -/
structure Tracks (rules : List AlertRule) (keys : List AlertKey) (evs : List AlertEvent)
    (e : AlertEngine) : Prop where
  rules_eq : e.rules = rules
  eventKeys : ∀ key ∈ e.events.entries.keys, key ∈ keys
  eventCapacity : e.events.capacity = maxCooldownEntries
  cooldownKeys : ∀ key ∈ e.cooldowns.entries.keys, key ∈ keys
  cooldownCapacity : e.cooldowns.capacity = maxCooldownEntries
  seen : ∀ key, (e.events.peek key).getD [] = newest (thresholdOf rules key.2) (stampsOf key evs)
  last : ∀ key, e.cooldowns.peek key = (firings rules evs key).getLast?

section Steps

variable {rules : List AlertRule} {keys : List AlertKey} {before : List AlertEvent}

theorem tracks_new (rules : List AlertRule) (keys : List AlertKey) :
    Tracks rules keys [] (.new rules) where
  rules_eq := rfl
  eventKeys := by simp [AlertEngine.new, LruMap.new, IndexMap.keys, IndexMap.empty]
  eventCapacity := Nat.max_eq_left (by decide)
  cooldownKeys := by simp [AlertEngine.new, LruMap.new, IndexMap.keys, IndexMap.empty]
  cooldownCapacity := Nat.max_eq_left (by decide)
  seen _ := drop_nil.symm
  last _ := rfl

theorem Tracks.seen_eq (h : Tracks rules keys before e) :
    e.seen ev = newest (thresholdOf rules ev.alertType) (stampsOf ev.key (before ++ [ev])) := by
  rw [AlertEngine.seen, h.rules_eq, h.seen ev.key, AlertEvent.key, newest_newest_append,
    ← AlertEvent.key, stampsOf_append, if_pos rfl]

theorem Tracks.fire (h : Tracks rules keys before (run rules before).1) (hev : ev.key ∈ keys)
    (hkeys : keys.dedup.length ≤ maxCooldownEntries) :
    Tracks rules keys (before ++ [ev]) (run rules (before ++ [ev])).1 := by
  have hrun : (run rules (before ++ [ev])).1 = ((run rules before).1.fire ev).1 := by
    rw [run_append]
  have heventRoom : (run rules before).1.events.HasRoom ev.key :=
    LruMap.hasRoom_of_keys h.eventKeys hev (hkeys.trans_eq h.eventCapacity.symm)
  have hcooldownRoom : (run rules before).1.cooldowns.HasRoom ev.key :=
    LruMap.hasRoom_of_keys h.cooldownKeys hev (hkeys.trans_eq h.cooldownCapacity.symm)
  rw [hrun]
  refine
    { rules_eq := rules_fire.trans h.rules_eq
      eventKeys := fun key hkey => ?_
      eventCapacity := ?_
      cooldownKeys := fun key hkey => ?_
      cooldownCapacity := ?_
      seen := fun key => ?_
      last := fun key => ?_ }
  · rw [events_fire] at hkey
    rcases LruMap.mem_keys_of_insert hkey with hold | rfl
    · exact h.eventKeys key hold
    · exact hev
  · rw [events_fire, LruMap.capacity_insert, h.eventCapacity]
  · rw [cooldowns_fire] at hkey
    split_ifs at hkey with hfired
    · rcases LruMap.mem_keys_of_insert hkey with hold | rfl
      · exact h.cooldownKeys key hold
      · exact hev
    · exact h.cooldownKeys key hkey
  · rw [cooldowns_fire]
    split_ifs with hfired
    · rw [LruMap.capacity_insert, h.cooldownCapacity]
    · exact h.cooldownCapacity
  · rw [events_fire, LruMap.peek_insert heventRoom]
    by_cases hkey : key = ev.key
    · rw [if_pos hkey, Option.getD_some, h.seen_eq, hkey, AlertEvent.key]
    · rw [if_neg hkey, h.seen key, stampsOf_append, if_neg (Ne.symm hkey), append_nil]
  · rw [cooldowns_fire, firings_append, firesAt]
    by_cases hfired : ((run rules before).1.fire ev).2 = true
    · rw [if_pos hfired, LruMap.peek_insert hcooldownRoom]
      by_cases hkey : key = ev.key
      · rw [if_pos hkey, if_pos ⟨hfired, hkey.symm⟩, List.getLast?_append]
        rfl
      · rw [if_neg hkey, if_neg (fun h => hkey h.2.symm), append_nil, h.last key]
    · rw [if_neg hfired, if_neg (fun h => hfired h.1), append_nil, h.last key]

theorem tracks_run (hkeys : keys.dedup.length ≤ maxCooldownEntries) {evs : List AlertEvent}
    (hevs : ∀ ev ∈ evs, ev.key ∈ keys) : Tracks rules keys evs (run rules evs).1 := by
  induction evs using List.reverseRecOn with
  | nil => exact tracks_new rules keys
  | append_singleton before ev ih =>
    have hbefore := ih (fun ev' hev' => hevs ev' (mem_append_left _ hev'))
    exact hbefore.fire (hevs ev (by simp)) hkeys

def Quiet (rules : List AlertRule) (before : List AlertEvent) (ev : AlertEvent) : Prop :=
  ∀ last ∈ (firings rules before ev.key).getLast?,
    last.nanos + cooldownOf rules ev.alertType ≤ ev.now.nanos

theorem Tracks.inCooldown_eq_false_iff (h : Tracks rules keys before e) :
    e.inCooldown ev = false ↔ Quiet rules before ev := by
  rw [AlertEngine.inCooldown, h.last, h.rules_eq, Quiet]
  cases (firings rules before ev.key).getLast? with
  | none => simp
  | some last =>
    simp only [Option.any_some, decide_eq_false_iff_not, sub_lt_fromStd_iff, Option.mem_def,
      Option.some.injEq, forall_eq']
    omega

/-- The firings of a pair are a cooldown apart, in whatever order the stamps come. -/
def Apart (rules : List AlertRule) (key : AlertKey) (fired : List CaptureTime) : Prop :=
  fired.Pairwise (fun a b : CaptureTime => a.nanos + cooldownOf rules key.2 ≤ b.nanos)

theorem Apart.append {key : AlertKey} {fired : List CaptureTime} {now : CaptureTime}
    (h : Apart rules key fired)
    (hlast : ∀ last ∈ fired.getLast?, last.nanos + cooldownOf rules key.2 ≤ now.nanos) :
    Apart rules key (fired ++ [now]) := by
  refine pairwise_append.mpr ⟨h, pairwise_singleton _ _, fun a ha b hb => ?_⟩
  obtain rfl := mem_singleton.mp hb
  have hne : fired ≠ [] := ne_nil_of_mem ha
  have hquiet := hlast _ (List.getLast?_eq_some_getLast hne)
  rw [← dropLast_append_getLast hne] at ha
  rcases mem_append.mp ha with hearlier | hfinal
  · have hsplit := h
    rw [Apart, ← dropLast_append_getLast hne, pairwise_append] at hsplit
    have hle := hsplit.2.2 a hearlier _ mem_cons_self
    omega
  · obtain rfl := mem_singleton.mp hfinal
    exact hquiet

theorem apart_firings (hkeys : keys.dedup.length ≤ maxCooldownEntries) {evs : List AlertEvent}
    (hevs : ∀ ev ∈ evs, ev.key ∈ keys) (key : AlertKey) :
    Apart rules key (firings rules evs key) := by
  induction evs using List.reverseRecOn with
  | nil => exact List.Pairwise.nil
  | append_singleton before ev ih =>
    have hbefore : ∀ ev' ∈ before, ev'.key ∈ keys :=
      fun ev' hev' => hevs ev' (mem_append_left _ hev')
    rw [firings_append]
    split_ifs with hfires
    · obtain ⟨hfired, rfl⟩ := hfires
      have hquiet := (fire_eq_true_iff.mp hfired).2
      rw [(tracks_run hkeys hbefore).inCooldown_eq_false_iff] at hquiet
      exact (ih hbefore).append hquiet
    · rw [append_nil]
      exact ih hbefore

theorem quiet_iff (h : Apart rules ev.key (firings rules before ev.key)) :
    Quiet rules before ev ↔ ∀ last ∈ firings rules before ev.key,
      last.nanos + cooldownOf rules ev.alertType ≤ ev.now.nanos := by
  constructor
  · intro hquiet last hlast
    have happend := h.append hquiet
    exact (pairwise_append.mp happend).2.2 last hlast ev.now mem_cons_self
  · intro hall last hlast
    exact hall last (mem_of_getLast? hlast)

/-- Enough of the pair's events are in the window that ends with this one; a window of no length
counts all of them. -/
def Enough (rules : List AlertRule) (before : List AlertEvent) (ev : AlertEvent) : Prop :=
  if windowOf rules ev.alertType = 0 then
    thresholdOf rules ev.alertType ≤ (stampsOf ev.key (before ++ [ev])).length
  else
    thresholdOf rules ev.alertType ≤ (stampsOf ev.key (before ++ [ev])).countP (fun t =>
      ev.now.nanos - windowOf rules ev.alertType ≤ t.nanos ∧ t.nanos ≤ ev.now.nanos)

theorem reached_iff_enough
    (hsorted : (stampsOf ev.key (before ++ [ev])).Pairwise (fun a b => a.nanos ≤ b.nanos)) :
    reached rules ev (newest (thresholdOf rules ev.alertType) (stampsOf ev.key (before ++ [ev])))
      = true ↔ Enough rules before ev := by
  have hpos := one_le_thresholdOf rules ev.alertType
  have hstamps : stampsOf ev.key (before ++ [ev]) = stampsOf ev.key before ++ [ev.now] := by
    rw [stampsOf_append, if_pos rfl]
  -- In order, no stamp is later than that of the event.
  have hnow : ∀ t ∈ stampsOf ev.key (before ++ [ev]), t.nanos ≤ ev.now.nanos := by
    intro t ht
    rw [hstamps] at hsorted ht
    rcases mem_append.mp ht with ht | ht
    · exact (pairwise_append.mp hsorted).2.2 t ht ev.now mem_cons_self
    · rw [mem_singleton.mp ht]
  have hcount : (stampsOf ev.key (before ++ [ev])).countP (fun t =>
      ev.now.nanos - windowOf rules ev.alertType ≤ t.nanos ∧ t.nanos ≤ ev.now.nanos) =
      (stampsOf ev.key (before ++ [ev])).countP (fun t =>
        ev.now.nanos - windowOf rules ev.alertType ≤ t.nanos) := by
    refine countP_congr (fun t ht => ?_)
    simp only [decide_eq_true_eq]
    exact and_iff_left (hnow t ht)
  have hlen := length_newest (thresholdOf rules ev.alertType) (stampsOf ev.key (before ++ [ev]))
  rw [Enough, hcount, le_countP_iff_newest hsorted, reached, Bool.and_eq_true, decide_eq_true_eq,
    hlen]
  cases hhead : (newest (thresholdOf rules ev.alertType)
      (stampsOf ev.key (before ++ [ev]))).head? with
  | none =>
    rw [List.head?_eq_none_iff.mp hhead, length_nil] at hlen
    simp only [Option.any_none, Bool.false_eq_true, and_false, false_iff]
    split_ifs <;> omega
  | some oldest =>
    simp only [Option.any_some, Bool.or_eq_true, decide_eq_true_eq, sub_le_fromStd_iff,
      Option.mem_def, Option.some.injEq, forall_eq']
    split_ifs with hzero
    · simp only [hzero, true_or, and_true]
      omega
    · simp only [hzero, false_or]
      omega

end Steps

/-- In whatever order the stamps come, a pair never fires twice within its cooldown. While its
stamps do not decrease it fires at exactly the events that complete a window when it is quiet. -/
theorem fires_at_full_windows (rules : List AlertRule) (evs : List AlertEvent)
    (hkeys : (evs.map AlertEvent.key).dedup.length ≤ maxCooldownEntries) :
    (∀ key : AlertKey, (firings rules evs key).Pairwise (fun a b : CaptureTime =>
        a.nanos + cooldownOf rules key.2 ≤ b.nanos)) ∧
      ∀ (before after : List AlertEvent) (ev : AlertEvent), evs = before ++ ev :: after →
        (stampsOf ev.key (before ++ [ev])).Pairwise (fun a b => a.nanos ≤ b.nanos) →
        (firesAt rules before ev = true ↔ Enough rules before ev ∧
          ∀ last ∈ firings rules before ev.key,
            last.nanos + cooldownOf rules ev.alertType ≤ ev.now.nanos) := by
  have hmem : ∀ ev ∈ evs, ev.key ∈ evs.map AlertEvent.key := fun ev hev => List.mem_map_of_mem hev
  refine ⟨fun key => apart_firings hkeys hmem key, ?_⟩
  rintro before after ev rfl hsorted
  have hbefore := fun ev' hev' => hmem ev' (mem_append_left (ev :: after) hev')
  have htracks : Tracks rules _ before (run rules before).1 := tracks_run hkeys hbefore
  rw [firesAt, fire_eq_true_iff, htracks.rules_eq, htracks.seen_eq, reached_iff_enough hsorted,
    htracks.inCooldown_eq_false_iff, quiet_iff (apart_firings hkeys hbefore ev.key)]

def scannerAt (secs : Fin 2000) : AlertEvent where
  alertType := "scanner"
  srcIp := .v4 0
  now := ⟨secs.val * 10 ^ 9, by omega⟩

def scannerRule (threshold : ℕ) : AlertRule := ⟨"scanner", threshold, 10 * 10 ^ 9, 60 * 10 ^ 9⟩

theorem fires_at_full_windows_scanner :
    firesAt [scannerRule 2] [scannerAt 0] (scannerAt 5) = true ∧
      Enough [scannerRule 2] [scannerAt 0] (scannerAt 5) := by
  have hfires : firesAt [scannerRule 2] [scannerAt 0] (scannerAt 5) = true := by decide
  have hiff := (fires_at_full_windows [scannerRule 2] [scannerAt 0, scannerAt 5]
    (by decide)).2 [scannerAt 0] [] (scannerAt 5) rfl (by decide)
  exact ⟨hfires, (hiff.mp hfires).1⟩

/-- Three stamps that no window holds fire when they come in the wrong order, and a window that was
full once does not make a later event fire. -/
theorem fires_without_window :
    (firesAt [scannerRule 3] [scannerAt 100, scannerAt 0] (scannerAt 5) = true ∧
      ∀ finish : ℤ, ¬ 3 ≤ (stampsOf (.v4 0, "scanner")
        [scannerAt 100, scannerAt 0, scannerAt 5]).countP
          (fun t => finish - 10 * 10 ^ 9 ≤ t.nanos ∧ t.nanos ≤ finish)) ∧
    (firesAt [scannerRule 2] [scannerAt 0, scannerAt 5] (scannerAt 1000) = false ∧
      2 ≤ (stampsOf (.v4 0, "scanner") [scannerAt 0, scannerAt 5, scannerAt 1000]).countP
          (fun t => 5 * 10 ^ 9 - 10 * 10 ^ 9 ≤ t.nanos ∧ t.nanos ≤ 5 * 10 ^ 9) ∧
      firings [scannerRule 2] [scannerAt 0, scannerAt 5] (.v4 0, "scanner")
        = [(scannerAt 5).now]) := by
  refine ⟨⟨by decide, fun finish hcount => ?_⟩, by decide, by decide, by decide⟩
  have hstamps : stampsOf (.v4 0, "scanner") [scannerAt 100, scannerAt 0, scannerAt 5]
      = [(scannerAt 100).now, (scannerAt 0).now, (scannerAt 5).now] := by decide
  rw [hstamps] at hcount
  have hlength : [(scannerAt 100).now, (scannerAt 0).now, (scannerAt 5).now].length = 3 := rfl
  have hall := countP_eq_length.mp (le_antisymm countP_le_length (hlength.le.trans hcount))
  simp only [forall_mem_cons, decide_eq_true_eq] at hall
  have hfirst : (scannerAt 100).now.nanos = 100 * 10 ^ 9 := rfl
  have hsecond : (scannerAt 0).now.nanos = 0 := rfl
  omega

end Alerting

end Sipnab
