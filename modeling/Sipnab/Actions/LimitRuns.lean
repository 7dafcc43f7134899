import Sipnab.Actions.RefusedRequests

/-!
# The limits over whole runs

Requests, and restarts that rebuild the governor from the ledger by asking it again for the
actions the ledger remembers. An action is remembered by the second it was taken in.
-/

namespace Sipnab.Operations

open List OrderedMap

def maxTracked : ℕ := 4096

/-- Addresses and their texts, as the standard library writes and reads them. -/
structure AddressText (α : Type*) where
  text : α → Text
  parse : Text → Option α
  parse_text : ∀ address, parse (text address) = some address

structure Admission (α : Type*) where
  caller : Text
  address : α
  time : ℕ

inductive Act (α : Type*)
  /-- An action asked for on a surface; `written` if its intent reached the journal, without which
  it is not carried out. -/
  | request (intent : Intent) (address : α) (written : Bool)
  /-- The revert of one ban from the command line, which no limit applies to. -/
  | localRevert (intent : Intent) (address : α)
  | settled (id : Text) (resolution : Resolution)
  | lapsed (id address : Text)
  | clock
  | restart

structure Call (α : Type*) where
  now : ℕ
  act : Act α

/-- The governor, the ledger, and what they have let through so far. -/
structure Limited (α : Type*) [LinearOrder α] where
  governor : ActionGovernor α
  ledger : Ledger
  admitted : List (Admission α)
  /-- Where each of the governor's windows started. -/
  windowStarts : List ℕ

namespace Limited

variable {α : Type*} [LinearOrder α] (texts : AddressText α) (limits : ActionLimits)

def localCaller : Text := "local".toList

def replayTime (now : ℕ) (a : RecentAction) : ℕ :=
  now - (unixSecs now - a.atSecs) * nanosPerSec

def replay (now : ℕ) (g : ActionGovernor α) (a : RecentAction) : ActionGovernor α :=
  match texts.parse a.address with
  | some address => (g.doAdmit a.caller address (replayTime now a)).2
  | none => g

def remembered (now : ℕ) (l : Ledger) : List RecentAction :=
  l.recentActions (unixSecs now) (max limits.addressCooldown 60)

def rebuild (now : ℕ) (l : Ledger) : ActionGovernor α :=
  (remembered limits now l).foldl (replay texts now) (.new limits maxTracked now)

def start (now : ℕ) : Limited α where
  governor := .new limits maxTracked now
  ledger := .empty (unixSecs now)
  admitted := []
  windowStarts := [now]

def journaled (intent : Intent) (address : α) (now : ℕ) : Intent :=
  { intent with address := texts.text address, atSecs := unixSecs now }

def request (s : Limited α) (intent : Intent) (address : α) (written : Bool) (now : ℕ) :
    Limited α :=
  match s.governor.doAdmit intent.caller address now with
  | (.error _, governor) => { s with governor := governor }
  | (.ok (), governor) =>
    if written then
      { s with
        governor := governor
        ledger := s.ledger.doAdmit (journaled texts intent address now)
        admitted := s.admitted ++ [⟨intent.caller, address, now⟩] }
    else { s with governor := governor }

def act (s : Limited α) (c : Call α) : Limited α :=
  match c.act with
  | .request intent address written => s.request texts intent address written c.now
  | .localRevert intent address =>
    let intent := { intent with caller := localCaller }
    { s with ledger := s.ledger.doAdmit (journaled texts intent address c.now) }
  | .settled id resolution =>
    { s with ledger := s.ledger.withDoubt (some id) (Ledger.reconcile (some resolution)) }
  | .lapsed id address => { s with ledger := s.ledger.lapse id address }
  | .clock => { s with ledger := s.ledger.setNow (unixSecs c.now) }
  | .restart =>
    let ledger := s.ledger.setNow (unixSecs c.now)
    { s with ledger := ledger, governor := rebuild texts limits c.now ledger }

def step (s : Limited α) (c : Call α) : Limited α :=
  let s := s.act texts limits c
  { s with windowStarts := s.windowStarts ++ [s.governor.windows.windowStart] }

def run (s : Limited α) (calls : List (Call α)) : Limited α := calls.foldl (step texts limits) s

def admits (s : Limited α) (c : Call α) : Bool :=
  match c.act with
  | .request intent address _ => (s.governor.doAdmit intent.caller address c.now).1.isOk
  | _ => false

def answers (s : Limited α) : List (Call α) → List Bool
  | [] => []
  | c :: calls => s.admits c :: answers (s.step texts limits c) calls

/-- Whether a call is a request that the cooldown or a cap refuses. -/
def Refused (s : Limited α) (c : Call α) : Prop :=
  ∃ intent address written throttle, c.act = .request intent address written ∧
    (s.governor.doAdmit intent.caller address c.now).1 = .error throttle ∧ throttle.IsLimit

def Clocked (now : ℕ) (calls : List (Call α)) : Prop :=
  (now :: calls.map Call.now).Pairwise (· ≤ ·)

def Spaced (admitted : List (Admission α)) : Prop :=
  admitted.Pairwise (fun a b => a.address = b.address → a.time + limits.cooldown ≤ b.time)

def inWindow (start : ℕ) (admitted : List (Admission α)) : List (Admission α) :=
  admitted.filter (fun a => start ≤ a.time ∧ a.time < start + minute)

def byCaller (caller : Text) (admitted : List (Admission α)) : List (Admission α) :=
  admitted.filter (fun a => a.caller = caller)

def Capped (start : ℕ) (admitted : List (Admission α)) : Prop :=
  (inWindow start admitted).length ≤ limits.perMinute ∧
    ∀ caller, (byCaller caller (inWindow start admitted)).length ≤ limits.perCallerPerMinute

/-- What a restart must find for the limits to survive it: it can count everything it remembers,
it remembers everything that the limits need, and the fraction of a second that it gives each
action is not before its own. -/
structure Fits (now : ℕ) (s : Limited α) : Prop where
  cooldown : limits.addressCooldown ≤ recentKeepSecs
  tracked : (remembered limits now (s.ledger.setNow (unixSecs now))).length ≤ maxTracked
  server : (remembered limits now (s.ledger.setNow (unixSecs now))).length ≤ limits.perMinute
  callers : ∀ caller,
    ((remembered limits now (s.ledger.setNow (unixSecs now))).filter
      (fun a => a.caller = caller)).length ≤ limits.perCallerPerMinute
  surface : ∀ a ∈ remembered limits now (s.ledger.setNow (unixSecs now)), a.caller ≠ localCaller
  fraction : ∀ a ∈ s.admitted, now < a.time + max limits.cooldown minute →
    a.time % nanosPerSec ≤ now % nanosPerSec

def RestartsFit (s : Limited α) : List (Call α) → Prop
  | [] => True
  | c :: calls => (c.act matches .restart → Fits limits c.now s) ∧
      RestartsFit (s.step texts limits c) calls

/-! ## Restarts -/

variable {texts} {limits} {now : ℕ} {g : ActionGovernor α} {a : Admission α}
  {known : List (Admission α)}

def recentOf (texts : AddressText α) (a : Admission α) : RecentAction :=
  ⟨a.caller, texts.text a.address, unixSecs a.time⟩

omit [LinearOrder α] in
theorem byCaller_append (caller : Text) (known : List (Admission α)) (a : Admission α) :
    byCaller caller (known ++ [a]) =
      byCaller caller known ++ if a.caller = caller then [a] else [] := by
  unfold byCaller
  rw [filter_append, filter_singleton]
  congr 1
  split_ifs with h
  · rw [decide_eq_true h]
    rfl
  · rw [decide_eq_false h]
    rfl

/-- A governor rebuilt at `now` that has counted every action in `known`. -/
structure Rebuilt (texts : AddressText α) (limits : ActionLimits) (now : ℕ)
    (known : List (Admission α)) (g : ActionGovernor α) : Prop where
  keeps : g.Keeps limits
  tracked : g.maxTracked = maxTracked
  trackedPeers : maxTracked ≤ g.windows.maxTrackedPeers
  windowStart : g.windows.windowStart = now
  countThisWindow : g.windows.countThisWindow = known.length
  peerCount : ∀ caller, g.windows.peerCount caller = (byCaller caller known).length
  peers : g.windows.perPeer.length ≤ known.length
  addresses : g.cooldowns.length ≤ known.length
  rests : ∀ a ∈ known, ∃ last, g.cooldowns.get? a.address = some last ∧
    replayTime now (recentOf texts a) ≤ last
  onlyKnown : ∀ x last, g.cooldowns.get? x = some last →
    ∃ a ∈ known, a.address = x ∧ last = replayTime now (recentOf texts a)

theorem rebuilt_new (texts : AddressText α) (limits : ActionLimits) (now : ℕ) :
    Rebuilt texts limits now ([] : List (Admission α)) (.new limits maxTracked now) where
  keeps := .of_new limits maxTracked now
  tracked := rfl
  trackedPeers := le_max_left _ _
  windowStart := rfl
  countThisWindow := rfl
  peerCount _ := rfl
  peers := le_rfl
  addresses := le_rfl
  rests a ha := absurd ha not_mem_nil
  onlyKnown x last h := by cases h

theorem Rebuilt.replay (h : Rebuilt texts limits now known g)
    (hpast : unixSecs a.time ≤ unixSecs now)
    (htracked : known.length < Operations.maxTracked) (hserver : known.length < limits.perMinute)
    (hcaller : (byCaller a.caller known).length < limits.perCallerPerMinute)
    (hspaced : ∀ b ∈ known, b.address = a.address →
      unixSecs b.time + limits.addressCooldown ≤ unixSecs a.time) :
    Rebuilt texts limits now (known ++ [a]) (Limited.replay texts now g (recentOf texts a)) := by
  have hrest : (g.cooldowns.get? a.address).filter
      (g.resting (replayTime now (recentOf texts a))) = none := by
    cases hget : g.cooldowns.get? a.address with
    | none => rfl
    | some last =>
      obtain ⟨b, hb, haddress, rfl⟩ := h.onlyKnown _ _ hget
      have hsecs := hspaced b hb haddress
      rw [Option.filter_eq_none_iff]
      intro last hlast
      cases hlast
      rw [ActionGovernor.resting, decide_eq_true_eq, h.keeps.sameLimits, ActionLimits.cooldown]
      unfold replayTime recentOf unixSecs nanosPerSec at *
      dsimp only
      omega
  have hopen : replayTime now (recentOf texts a) - g.windows.windowStart < g.windows.window := by
    rw [h.windowStart, h.keeps.window, replayTime, minute, nanosPerSec]
    omega
  have hadmitted := ActionGovernor.admit_eq_ok hrest
    (h.tracked.symm ▸ h.addresses.trans_lt htracked) h.keeps.perPeerMax_pos h.keeps.globalMax_pos
    hopen (h.peers.trans_lt (htracked.trans_le h.trackedPeers))
    (by rw [h.keeps.perPeerMax, h.peerCount]; exact hcaller)
    (by rw [h.keeps.globalMax, h.countThisWindow]; exact hserver)
  have hkeeps := h.keeps.doAdmit a.caller a.address (replayTime now (recentOf texts a))
  have hreplay : Limited.replay texts now g (recentOf texts a) =
      (g.doAdmit a.caller a.address (replayTime now (recentOf texts a))).2 := by
    unfold Limited.replay
    rw [show texts.parse (recentOf texts a).address = some a.address from texts.parse_text _]
    rfl
  rw [hreplay]
  rw [hadmitted] at hkeeps ⊢
  refine ⟨hkeeps, h.tracked, h.trackedPeers, h.windowStart, ?_, fun caller => ?_, ?_, ?_,
    fun b hb => ?_, fun x last hget => ?_⟩
  · rw [length_append, length_singleton, ← h.countThisWindow]
    rfl
  · change (g.windows.tally a.caller).peerCount caller = _
    rw [FixedWindowLimiter.peerCount_tally, h.peerCount, byCaller_append, length_append]
    simp only [eq_comm]
    split_ifs
    · rfl
    · rfl
  · rw [length_append]
    exact (length_insert_le _ _ _).trans (Nat.succ_le_succ h.peers)
  · rw [length_append]
    exact (length_insert_le _ _ _).trans (Nat.succ_le_succ h.addresses)
  · dsimp only
    rw [get?_insert]
    split_ifs with hx
    · refine ⟨_, rfl, ?_⟩
      rcases mem_append.mp hb with hb | hb
      · have hsecs := hspaced b hb hx
        unfold replayTime recentOf unixSecs nanosPerSec at *
        dsimp only at *
        omega
      · rw [mem_singleton.mp hb]
    · rcases mem_append.mp hb with hb | hb
      · exact h.rests b hb
      · rw [mem_singleton.mp hb] at hx
        exact absurd rfl hx
  · dsimp only at hget
    rw [get?_insert] at hget
    split_ifs at hget with hx
    · cases hget
      exact ⟨a, mem_append_right _ (mem_singleton.mpr rfl), hx.symm, rfl⟩
    · obtain ⟨b, hb, hbx⟩ := h.onlyKnown x last hget
      exact ⟨b, mem_append_left _ hb, hbx⟩

theorem rebuilt_foldl (hpast : ∀ a ∈ known, unixSecs a.time ≤ unixSecs now)
    (htracked : known.length ≤ maxTracked) (hserver : known.length ≤ limits.perMinute)
    (hcallers : ∀ caller, (byCaller caller known).length ≤ limits.perCallerPerMinute)
    (hspaced : known.Pairwise (fun a b => a.address = b.address →
      unixSecs a.time + limits.addressCooldown ≤ unixSecs b.time)) :
    Rebuilt texts limits now known
      ((known.map (recentOf texts)).foldl (replay texts now) (.new limits maxTracked now)) := by
  induction known using List.reverseRecOn with
  | nil => exact rebuilt_new texts limits now
  | append_singleton known a ih =>
    have hlen : (known ++ [a]).length = known.length + 1 := by simp
    rw [hlen] at htracked hserver
    have hfront : ∀ caller, (byCaller caller known).length ≤ limits.perCallerPerMinute := by
      intro caller
      have hcaller := hcallers caller
      rw [byCaller_append, length_append] at hcaller
      omega
    have hlast := hcallers a.caller
    rw [byCaller_append, length_append, if_pos rfl, length_singleton] at hlast
    obtain ⟨hbefore, -, hbehind⟩ := pairwise_append.mp hspaced
    have hrebuilt := ih (fun b hb => hpast b (mem_append_left _ hb)) (by omega) (by omega)
      hfront hbefore
    rw [map_append, foldl_append]
    have ha : a ∈ [a] := mem_singleton.mpr rfl
    exact hrebuilt.replay (hpast a (mem_append_right _ ha)) (by omega) (by omega) (by omega)
      (fun b hb => hbehind b hb a ha)

end Limited

end Sipnab.Operations
