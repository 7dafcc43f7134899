import Sipnab.Journal.Ledger

/-!
# The rate limits of actions

A fixed window counts the actions of the server and of each caller; an address rests for a
cooldown after an action on it. Times are nanoseconds of one clock.
-/

namespace Sipnab.Operations

open OrderedMap

inductive Refusal
  | perPeer
  | global
  | trackingFull
  deriving DecidableEq

def minTrackedPeers : ℕ := 2

structure FixedWindowLimiter (κ : Type*) [LinearOrder κ] where
  /-- Zero for no ceiling. -/
  globalMax : ℕ
  /-- Zero for no cap. -/
  perPeerMax : ℕ
  countThisWindow : ℕ
  perPeer : OrderedMap κ ℕ
  maxTrackedPeers : ℕ
  windowStart : ℕ
  window : ℕ
  refusedTotal : ℕ

namespace FixedWindowLimiter

variable {κ : Type*} [LinearOrder κ] {w w' : FixedWindowLimiter κ} {key k : κ} {now : ℕ}

def new (globalMax perPeerMax maxTrackedPeers window now : ℕ) : FixedWindowLimiter κ :=
  ⟨globalMax, perPeerMax, 0, .empty, max maxTrackedPeers minTrackedPeers, now, window, 0⟩

def retryAfter (w : FixedWindowLimiter κ) (now : ℕ) : ℕ := w.window - (now - w.windowStart)

def roll (w : FixedWindowLimiter κ) (now : ℕ) : FixedWindowLimiter κ :=
  if w.window ≤ now - w.windowStart then
    { w with windowStart := now, countThisWindow := 0, perPeer := .empty }
  else w

def refuse (w : FixedWindowLimiter κ) : FixedWindowLimiter κ :=
  { w with refusedTotal := w.refusedTotal + 1 }

def peerCount (w : FixedWindowLimiter κ) (key : κ) : ℕ := (w.perPeer.get? key).getD 0

def Untracked (w : FixedWindowLimiter κ) (key : κ) : Prop :=
  w.maxTrackedPeers ≤ w.perPeer.length ∧ w.perPeer.get? key = none

instance (w : FixedWindowLimiter κ) (key : κ) : Decidable (w.Untracked key) :=
  inferInstanceAs (Decidable (_ ∧ _))

def tally (w : FixedWindowLimiter κ) (key : κ) : FixedWindowLimiter κ :=
  { w with perPeer := w.perPeer.insert key (w.peerCount key + 1) }

def countPeer (w : FixedWindowLimiter κ) (key : κ) : Option Refusal × FixedWindowLimiter κ :=
  if w.perPeerMax = 0 then (none, w)
  else if w.Untracked key then (some .trackingFull, w)
  else if w.perPeerMax < (w.tally key).peerCount key then (some .perPeer, w.tally key)
  else (none, w.tally key)

def countOne (w : FixedWindowLimiter κ) : FixedWindowLimiter κ :=
  { w with countThisWindow := w.countThisWindow + 1 }

/-- Count one event from `key` and decide whether it may proceed. -/
def check (w : FixedWindowLimiter κ) (key : κ) (now : ℕ) :
    Except Refusal Unit × FixedWindowLimiter κ :=
  match (w.roll now).countPeer key with
  | (some refusal, w) => (.error refusal, w.refuse)
  | (none, w) =>
    if 0 < w.globalMax ∧ w.globalMax < w.countOne.countThisWindow then
      (.error .global, w.countOne.refuse)
    else (.ok (), w.countOne)

theorem peerCount_tally (w : FixedWindowLimiter κ) (key k : κ) :
    (w.tally key).peerCount k = w.peerCount k + if k = key then 1 else 0 := by
  unfold peerCount tally
  rw [get?_insert]
  split_ifs with hk
  · subst hk
    rfl
  · rfl

/-- What does not change in a window, whatever it counts. -/
structure SameConfig (w w' : FixedWindowLimiter κ) : Prop where
  globalMax : w'.globalMax = w.globalMax
  perPeerMax : w'.perPeerMax = w.perPeerMax
  maxTrackedPeers : w'.maxTrackedPeers = w.maxTrackedPeers
  window : w'.window = w.window

theorem SameConfig.trans {w'' : FixedWindowLimiter κ} (h : SameConfig w w')
    (h' : SameConfig w' w'') : SameConfig w w'' :=
  ⟨h'.globalMax.trans h.globalMax, h'.perPeerMax.trans h.perPeerMax,
    h'.maxTrackedPeers.trans h.maxTrackedPeers, h'.window.trans h.window⟩

theorem roll_sameConfig (w : FixedWindowLimiter κ) (now : ℕ) : SameConfig w (w.roll now) := by
  unfold roll
  split_ifs
  · exact ⟨rfl, rfl, rfl, rfl⟩
  · exact ⟨rfl, rfl, rfl, rfl⟩

theorem roll_of_open (h : now - w.windowStart < w.window) : w.roll now = w := by
  unfold roll
  rw [if_neg (by omega)]

theorem check_eq (hpeer : 0 < w.perPeerMax) (hglobal : 0 < w.globalMax) (key : κ) (now : ℕ) :
    w.check key now =
      if (w.roll now).Untracked key then (.error .trackingFull, (w.roll now).refuse)
      else if w.perPeerMax < (w.roll now).peerCount key + 1 then
        (.error .perPeer, ((w.roll now).tally key).refuse)
      else if w.globalMax < (w.roll now).countThisWindow + 1 then
        (.error .global, ((w.roll now).tally key).countOne.refuse)
      else (.ok (), ((w.roll now).tally key).countOne) := by
  have hconfig := roll_sameConfig w now
  have hcount := peerCount_tally (w.roll now) key key
  rw [if_pos rfl] at hcount
  have hceiling : ((w.roll now).tally key).globalMax = w.globalMax := hconfig.globalMax
  have htotal : ((w.roll now).tally key).countOne.countThisWindow =
      (w.roll now).countThisWindow + 1 := rfl
  unfold check countPeer
  rw [if_neg (by rw [hconfig.perPeerMax]; omega), hcount, hconfig.perPeerMax]
  by_cases hfull : (w.roll now).Untracked key
  · rw [if_pos hfull, if_pos hfull]
  · rw [if_neg hfull, if_neg hfull]
    by_cases hcap : w.perPeerMax < (w.roll now).peerCount key + 1
    · rw [if_pos hcap, if_pos hcap]
    · rw [if_neg hcap, if_neg hcap]
      dsimp only
      rw [hceiling, htotal]
      simp only [hglobal, true_and]

structure Grown (w w' : FixedWindowLimiter κ) : Prop where
  sameConfig : SameConfig w w'
  windowStart : w'.windowStart = w.windowStart
  countThisWindow : w.countThisWindow ≤ w'.countThisWindow
  peerCount : ∀ k, w.peerCount k ≤ w'.peerCount k

theorem Grown.tally (h : Grown w w') (key : κ) : Grown w (w'.tally key) where
  sameConfig := h.sameConfig.trans ⟨rfl, rfl, rfl, rfl⟩
  windowStart := h.windowStart
  countThisWindow := h.countThisWindow
  peerCount k := by
    rw [peerCount_tally]
    exact (h.peerCount k).trans (Nat.le_add_right _ _)

theorem Grown.countOne (h : Grown w w') : Grown w w'.countOne where
  sameConfig := h.sameConfig.trans ⟨rfl, rfl, rfl, rfl⟩
  windowStart := h.windowStart
  countThisWindow := h.countThisWindow.trans (Nat.le_succ _)
  peerCount := h.peerCount

theorem Grown.refuse (h : Grown w w') : Grown w w'.refuse :=
  ⟨h.sameConfig.trans ⟨rfl, rfl, rfl, rfl⟩, h.windowStart, h.countThisWindow, h.peerCount⟩

theorem check_grown (hpeer : 0 < w.perPeerMax) (hglobal : 0 < w.globalMax) (key : κ) (now : ℕ) :
    Grown (w.roll now) (w.check key now).2 := by
  have hself : Grown (w.roll now) (w.roll now) :=
    ⟨⟨rfl, rfl, rfl, rfl⟩, rfl, le_rfl, fun _ => le_rfl⟩
  rw [check_eq hpeer hglobal]
  split_ifs
  · exact hself.refuse
  · exact (hself.tally key).refuse
  · exact ((hself.tally key).countOne).refuse
  · exact (hself.tally key).countOne

theorem check_ok (hpeer : 0 < w.perPeerMax) (hglobal : 0 < w.globalMax)
    (hok : (w.check key now).1 = .ok ()) :
    (w.check key now).2 = ((w.roll now).tally key).countOne ∧
      (w.roll now).peerCount key + 1 ≤ w.perPeerMax ∧
      (w.roll now).countThisWindow + 1 ≤ w.globalMax := by
  rw [check_eq hpeer hglobal] at hok ⊢
  split_ifs at hok ⊢ with hfull hcap hceiling
  exact ⟨rfl, by omega, by omega⟩

end FixedWindowLimiter

/-- The limits of an operator's choosing; none of them can be turned off. -/
structure ActionLimits where
  perMinute : ℕ
  perCallerPerMinute : ℕ
  /-- In seconds. -/
  addressCooldown : ℕ
  defaultBanSecs : ℕ
  maxBanSecs : ℕ
  perMinute_pos : 0 < perMinute
  perCaller_pos : 0 < perCallerPerMinute
  cooldown_pos : 0 < addressCooldown
  perCaller_le : perCallerPerMinute ≤ perMinute
  defaultBan_pos : 0 < defaultBanSecs
  defaultBan_le : defaultBanSecs ≤ maxBanSecs

def nanosPerSec : ℕ := 1000000000

def minute : ℕ := 60 * nanosPerSec

def unixSecs (now : ℕ) : ℕ := now / nanosPerSec

def ActionLimits.cooldown (limits : ActionLimits) : ℕ := limits.addressCooldown * nanosPerSec

def ActionLimits.standard : ActionLimits where
  perMinute := 10
  perCallerPerMinute := 5
  addressCooldown := 60
  defaultBanSecs := 3600
  maxBanSecs := 7 * 86400
  perMinute_pos := by decide
  perCaller_pos := by decide
  cooldown_pos := by decide
  perCaller_le := by decide
  defaultBan_pos := by decide
  defaultBan_le := by decide

/-- Why an action was throttled, and how long until it may be tried again. -/
inductive ActionThrottle
  | serverWide (retryAfter : ℕ)
  | perCaller (retryAfter : ℕ)
  | address (retryAfter : ℕ)
  | tooManyCallers
  deriving DecidableEq

def ActionThrottle.ofRefusal (retryAfter : ℕ) : Refusal → ActionThrottle
  | .perPeer => .perCaller retryAfter
  | .global => .serverWide retryAfter
  | .trackingFull => .tooManyCallers

structure ActionGovernor (α : Type*) [LinearOrder α] where
  limits : ActionLimits
  windows : FixedWindowLimiter Text
  /-- When each address was last acted on. -/
  cooldowns : OrderedMap α ℕ
  maxTracked : ℕ

namespace ActionGovernor

variable {α : Type*} [LinearOrder α] {g g' : ActionGovernor α} {caller : Text} {address : α}
  {now : ℕ}

def new (limits : ActionLimits) (maxTracked now : ℕ) : ActionGovernor α where
  limits := limits
  windows := .new limits.perMinute limits.perCallerPerMinute maxTracked minute now
  cooldowns := .empty
  maxTracked := maxTracked

def resting (g : ActionGovernor α) (now last : ℕ) : Bool := now - last < g.limits.cooldown

/-- The windows' answer, and the address rests if it is admitted. -/
def spend (g : ActionGovernor α) (caller : Text) (address : α) (now : ℕ) :
    Except ActionThrottle Unit × ActionGovernor α :=
  match g.windows.check caller now with
  | (.error refusal, windows) =>
    (.error (.ofRefusal (windows.retryAfter now) refusal), { g with windows := windows })
  | (.ok (), windows) =>
    (.ok (), { g with windows := windows, cooldowns := g.cooldowns.insert address now })

/-- Room for one more address, made by forgetting those that no longer rest. -/
def admitTracked (g : ActionGovernor α) (caller : Text) (address : α) (now : ℕ) :
    Except ActionThrottle Unit × ActionGovernor α :=
  if g.maxTracked ≤ g.cooldowns.length ∧ g.cooldowns.get? address = none then
    let kept := { g with cooldowns := g.cooldowns.retain (g.resting now) }
    if g.maxTracked ≤ kept.cooldowns.length then (.error .tooManyCallers, kept)
    else kept.spend caller address now
  else g.spend caller address now

/-- Admit one action by `caller` on `address` at `now`, or say why not. -/
def doAdmit (g : ActionGovernor α) (caller : Text) (address : α) (now : ℕ) :
    Except ActionThrottle Unit × ActionGovernor α :=
  match (g.cooldowns.get? address).filter (g.resting now) with
  | some last => (.error (.address (g.limits.cooldown - (now - last))), g)
  | none => g.admitTracked caller address now

/-- A map of the addresses that still rest as they do in the governor's. -/
structure Rests (g : ActionGovernor α) (now : ℕ) (kept : OrderedMap α ℕ) : Prop where
  get? : ∀ x, (kept.get? x).filter (g.resting now) = (g.cooldowns.get? x).filter (g.resting now)
  length_le : kept.length ≤ g.cooldowns.length

theorem rests_self (g : ActionGovernor α) (now : ℕ) : g.Rests now g.cooldowns :=
  ⟨fun _ => rfl, le_rfl⟩

theorem rests_retain (g : ActionGovernor α) (now : ℕ) :
    g.Rests now (g.cooldowns.retain (g.resting now)) where
  get? x := by
    rw [get?_retain, Option.filter_filter]
    simp only [Bool.and_self]
  length_le := length_retain_le _ _

/-- How a request is answered: by the rest of its address, by the room for it, or by the windows. -/
theorem admit_cases (g : ActionGovernor α) (caller : Text) (address : α) (now : ℕ) :
    (∃ last, (g.cooldowns.get? address).filter (g.resting now) = some last ∧
        g.doAdmit caller address now = (.error (.address (g.limits.cooldown - (now - last))), g)) ∨
      ((g.cooldowns.get? address).filter (g.resting now) = none ∧
        g.maxTracked ≤ (g.cooldowns.retain (g.resting now)).length ∧
        g.doAdmit caller address now = (.error .tooManyCallers,
          { g with cooldowns := g.cooldowns.retain (g.resting now) })) ∨
      ((g.cooldowns.get? address).filter (g.resting now) = none ∧
        ∃ kept, g.Rests now kept ∧
          (kept.length < g.maxTracked ∨ ∃ last, kept.get? address = some last) ∧
          g.doAdmit caller address now =
            { g with cooldowns := kept }.spend caller address now) := by
  unfold doAdmit
  cases hrest : (g.cooldowns.get? address).filter (g.resting now) with
  | some last => exact Or.inl ⟨last, rfl, rfl⟩
  | none =>
    refine Or.inr ?_
    unfold admitTracked
    by_cases hfull : g.maxTracked ≤ g.cooldowns.length ∧ g.cooldowns.get? address = none
    · rw [if_pos hfull]
      by_cases hkept : g.maxTracked ≤ (g.cooldowns.retain (g.resting now)).length
      · exact Or.inl ⟨rfl, hkept, if_pos hkept⟩
      · exact Or.inr ⟨rfl, _, g.rests_retain now, Or.inl (Nat.lt_of_not_le hkept), if_neg hkept⟩
    · refine Or.inr ⟨rfl, g.cooldowns, g.rests_self now, ?_, if_neg hfull⟩
      by_cases hlen : g.cooldowns.length < g.maxTracked
      · exact Or.inl hlen
      · refine Or.inr (Option.ne_none_iff_exists'.mp ?_)
        intro hnone
        exact hfull ⟨Nat.le_of_not_lt hlen, hnone⟩

theorem spend_cases (g : ActionGovernor α) (caller : Text) (address : α) (now : ℕ) :
    (∃ refusal, (g.windows.check caller now).1 = .error refusal ∧
        g.spend caller address now =
          (.error (.ofRefusal ((g.windows.check caller now).2.retryAfter now) refusal),
            { g with windows := (g.windows.check caller now).2 })) ∨
      ((g.windows.check caller now).1 = .ok () ∧
        g.spend caller address now =
          (.ok (), { g with
            windows := (g.windows.check caller now).2
            cooldowns := g.cooldowns.insert address now })) := by
  unfold spend
  rcases g.windows.check caller now with ⟨answer, windows⟩
  cases answer with
  | error refusal => exact Or.inl ⟨refusal, rfl, rfl⟩
  | ok => exact Or.inr ⟨rfl, rfl⟩

theorem admit_eq_ok (hrest : (g.cooldowns.get? address).filter (g.resting now) = none)
    (hroom : g.cooldowns.length < g.maxTracked) (hpeer : 0 < g.windows.perPeerMax)
    (hglobal : 0 < g.windows.globalMax) (hopen : now - g.windows.windowStart < g.windows.window)
    (htracked : g.windows.perPeer.length < g.windows.maxTrackedPeers)
    (hcap : g.windows.peerCount caller < g.windows.perPeerMax)
    (hceiling : g.windows.countThisWindow < g.windows.globalMax) :
    g.doAdmit caller address now = (.ok (), { g with
      windows := (g.windows.tally caller).countOne
      cooldowns := g.cooldowns.insert address now }) := by
  have hcheck : g.windows.check caller now = (.ok (), (g.windows.tally caller).countOne) := by
    rw [FixedWindowLimiter.check_eq hpeer hglobal, FixedWindowLimiter.roll_of_open hopen,
      if_neg (fun h => absurd h.1 (Nat.not_le_of_lt htracked)), if_neg (by omega),
      if_neg (by omega)]
  unfold doAdmit
  rw [hrest]
  unfold admitTracked
  rw [if_neg (fun h => absurd h.1 (Nat.not_le_of_lt hroom))]
  unfold spend
  rw [hcheck]

structure Keeps (limits : ActionLimits) (g : ActionGovernor α) : Prop where
  sameLimits : g.limits = limits
  globalMax : g.windows.globalMax = limits.perMinute
  perPeerMax : g.windows.perPeerMax = limits.perCallerPerMinute
  window : g.windows.window = minute
  sized : g.cooldowns.length ≤ g.maxTracked

namespace Keeps

variable {limits : ActionLimits}

theorem perPeerMax_pos (h : Keeps limits g) : 0 < g.windows.perPeerMax := by
  rw [h.perPeerMax]
  exact limits.perCaller_pos

theorem globalMax_pos (h : Keeps limits g) : 0 < g.windows.globalMax := by
  rw [h.globalMax]
  exact limits.perMinute_pos

theorem check (h : Keeps limits g) (caller : Text) (now : ℕ) {cooldowns : OrderedMap α ℕ}
    (hsized : cooldowns.length ≤ g.maxTracked) :
    Keeps limits { g with windows := (g.windows.check caller now).2, cooldowns := cooldowns } := by
  have hgrown := FixedWindowLimiter.check_grown h.perPeerMax_pos h.globalMax_pos caller now
  have hconfig := (FixedWindowLimiter.roll_sameConfig g.windows now).trans hgrown.sameConfig
  exact ⟨h.sameLimits, hconfig.globalMax.trans h.globalMax, hconfig.perPeerMax.trans h.perPeerMax,
    hconfig.window.trans h.window, hsized⟩

theorem of_new (limits : ActionLimits) (maxTracked now : ℕ) :
    Keeps limits (new limits maxTracked now : ActionGovernor α) :=
  ⟨rfl, rfl, rfl, rfl, Nat.zero_le _⟩

theorem doAdmit (h : Keeps limits g) (caller : Text) (address : α) (now : ℕ) :
    Keeps limits (g.doAdmit caller address now).2 := by
  rcases g.admit_cases caller address now with
    ⟨last, -, hans⟩ | ⟨-, -, hans⟩ | ⟨-, kept, hkept, hroom, hans⟩
  · rw [hans]
    exact h
  · rw [hans]
    exact ⟨h.sameLimits, h.globalMax, h.perPeerMax, h.window, (length_retain_le _ _).trans h.sized⟩
  · have hlen : kept.length ≤ g.maxTracked := hkept.length_le.trans h.sized
    have hinsert : (kept.insert address now).length ≤ g.maxTracked := by
      rcases hroom with hlt | ⟨last, hlast⟩
      · exact (length_insert_le _ _ _).trans hlt
      · rw [length_insert_of_mem hlast]
        exact hlen
    rw [hans]
    rcases { g with cooldowns := kept }.spend_cases caller address now with
      ⟨refusal, -, hspend⟩ | ⟨-, hspend⟩
    · rw [hspend]
      exact h.check caller now hlen
    · rw [hspend]
      exact h.check caller now hinsert

end Keeps

end ActionGovernor

end Sipnab.Operations
