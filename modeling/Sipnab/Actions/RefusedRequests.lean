import Sipnab.Actions.Governor

/-!
# Refused requests leave no trace

A request that the cooldown or a cap refuses spends nothing that a later request could be
refused for: the governor it leaves answers as the one before it does.
-/

namespace Sipnab.Operations

open Option OrderedMap

namespace FixedWindowLimiter

variable {κ : Type*} [LinearOrder κ] {w w' : FixedWindowLimiter κ} {key : κ} {now : ℕ}

/-- Two limiters in the same window that answer alike: both have spent the server's allowance, or
each has counted the other's events, as far as the cap of a peer goes. -/
structure Alike (w w' : FixedWindowLimiter κ) : Prop where
  sameConfig : SameConfig w w'
  windowStart : w'.windowStart = w.windowStart
  counts : (w.globalMax ≤ w.countThisWindow ∧ w.globalMax ≤ w'.countThisWindow) ∨
    (w'.countThisWindow = w.countThisWindow ∧
      ∀ k, (w'.perPeer.get? k).map (min w.perPeerMax) = (w.perPeer.get? k).map (min w.perPeerMax))

theorem Alike.refl (w : FixedWindowLimiter κ) : Alike w w :=
  ⟨⟨rfl, rfl, rfl, rfl⟩, rfl, Or.inr ⟨rfl, fun _ => rfl⟩⟩

theorem Alike.refuse (h : Alike w w') : Alike w.refuse w'.refuse :=
  ⟨⟨h.sameConfig.globalMax, h.sameConfig.perPeerMax, h.sameConfig.maxTrackedPeers,
    h.sameConfig.window⟩, h.windowStart, h.counts⟩

theorem min_peerCount (hpeers : ∀ k, (w'.perPeer.get? k).map (min w.perPeerMax) =
      (w.perPeer.get? k).map (min w.perPeerMax)) (k : κ) :
    min w.perPeerMax (w'.peerCount k) = min w.perPeerMax (w.peerCount k) := by
  have hk := hpeers k
  unfold peerCount
  cases hget : w.perPeer.get? k with
  | none =>
    rw [hget, map_none, map_eq_none_iff] at hk
    rw [hk]
  | some n =>
    rw [hget, map_some, map_eq_some_iff] at hk
    obtain ⟨n', hget', hmin⟩ := hk
    rw [hget', getD_some, getD_some, hmin]

theorem Alike.roll (h : Alike w w') (now : ℕ) : Alike (w.roll now) (w'.roll now) := by
  unfold FixedWindowLimiter.roll
  rw [h.windowStart]
  have hwindow := h.sameConfig.window
  by_cases hover : w.window ≤ now - w.windowStart
  · rw [if_pos hover, if_pos (hwindow ▸ hover)]
    exact ⟨⟨h.sameConfig.globalMax, h.sameConfig.perPeerMax, h.sameConfig.maxTrackedPeers, hwindow⟩,
      rfl, Or.inr ⟨rfl, fun _ => rfl⟩⟩
  · rw [if_neg hover, if_neg (hwindow ▸ hover)]
    exact h

theorem Alike.tally (h : Alike w w') (key : κ) : Alike (w.tally key) (w'.tally key) := by
  refine ⟨⟨h.sameConfig.globalMax, h.sameConfig.perPeerMax, h.sameConfig.maxTrackedPeers,
    h.sameConfig.window⟩, h.windowStart, ?_⟩
  rcases h.counts with ⟨hw, hw'⟩ | ⟨hcount, hpeers⟩
  · exact Or.inl ⟨hw, hw'⟩
  · refine Or.inr ⟨hcount, fun k => ?_⟩
    change ((w'.perPeer.insert key _).get? k).map (min w.perPeerMax) =
      ((w.perPeer.insert key _).get? k).map (min w.perPeerMax)
    rw [get?_insert, get?_insert]
    split_ifs with hk
    · have hmin : min w.perPeerMax (w'.peerCount key + 1) =
          min w.perPeerMax (w.peerCount key + 1) := by
        have hcapped := min_peerCount hpeers key
        omega
      rw [map_some, map_some, hmin]
    · exact hpeers k

theorem Alike.countOne (h : Alike w w') : Alike w.countOne w'.countOne := by
  refine ⟨⟨h.sameConfig.globalMax, h.sameConfig.perPeerMax, h.sameConfig.maxTrackedPeers,
    h.sameConfig.window⟩, h.windowStart, ?_⟩
  rcases h.counts with ⟨hw, hw'⟩ | ⟨hcount, hpeers⟩
  · exact Or.inl ⟨hw.trans (Nat.le_succ _), hw'.trans (Nat.le_succ _)⟩
  · exact Or.inr ⟨congrArg (· + 1) hcount, hpeers⟩

theorem Alike.grown {v v' : FixedWindowLimiter κ} (h : Alike w w') (hv : Grown w v)
    (hv' : Grown w' v') (hspent : w.globalMax ≤ w.countThisWindow)
    (hspent' : w.globalMax ≤ w'.countThisWindow) : Alike v v' := by
  have hmax : v.globalMax = w.globalMax := hv.sameConfig.globalMax
  refine ⟨⟨?_, ?_, ?_, ?_⟩, ?_, Or.inl ⟨?_, ?_⟩⟩
  · rw [hv'.sameConfig.globalMax, h.sameConfig.globalMax, hmax]
  · rw [hv'.sameConfig.perPeerMax, h.sameConfig.perPeerMax, hv.sameConfig.perPeerMax]
  · rw [hv'.sameConfig.maxTrackedPeers, h.sameConfig.maxTrackedPeers, hv.sameConfig.maxTrackedPeers]
  · rw [hv'.sameConfig.window, h.sameConfig.window, hv.sameConfig.window]
  · rw [hv'.windowStart, h.windowStart, hv.windowStart]
  · exact hmax ▸ hspent.trans hv.countThisWindow
  · exact hmax ▸ hspent'.trans hv'.countThisWindow

theorem check_spent (hpeer : 0 < w.perPeerMax) (hglobal : 0 < w.globalMax)
    (hspent : w.globalMax ≤ (w.roll now).countThisWindow) (key : κ) :
    (w.check key now).1.isOk = false := by
  rw [check_eq hpeer hglobal]
  split_ifs with hfull hcap hceiling
  · rfl
  · rfl
  · rfl
  · omega

theorem Alike.check (h : Alike w w') (hpeer : 0 < w.perPeerMax) (hglobal : 0 < w.globalMax)
    (key : κ) (now : ℕ) :
    (w'.check key now).1.isOk = (w.check key now).1.isOk ∧
      Alike (w.check key now).2 (w'.check key now).2 := by
  have hr := h.roll now
  have hconfig := roll_sameConfig w now
  have hpeer' : 0 < w'.perPeerMax := h.sameConfig.perPeerMax.symm ▸ hpeer
  have hglobal' : 0 < w'.globalMax := h.sameConfig.globalMax.symm ▸ hglobal
  rcases hr.counts with ⟨hspent, hspent'⟩ | ⟨hcount, hpeers⟩
  · refine ⟨?_, hr.grown (check_grown hpeer hglobal key now)
      (check_grown hpeer' hglobal' key now) hspent hspent'⟩
    rw [hconfig.globalMax] at hspent hspent'
    rw [check_spent hpeer hglobal hspent, check_spent hpeer' hglobal'
      (h.sameConfig.globalMax.symm ▸ hspent')]
  · have hlength : (w'.roll now).perPeer.length = (w.roll now).perPeer.length := by
      apply length_eq_of_keys
      intro k
      have hk := congrArg Option.isSome (hpeers k)
      rwa [isSome_map, isSome_map] at hk
    have huntracked : (w'.roll now).Untracked key ↔ (w.roll now).Untracked key := by
      have hk := congrArg Option.isNone (hpeers key)
      rw [isNone_map, isNone_map] at hk
      unfold Untracked
      rw [hlength, hr.sameConfig.maxTrackedPeers, ← isNone_iff_eq_none, hk, isNone_iff_eq_none]
    have hcap : w'.perPeerMax < (w'.roll now).peerCount key + 1 ↔
        w.perPeerMax < (w.roll now).peerCount key + 1 := by
      have hmin := min_peerCount hpeers key
      rw [hconfig.perPeerMax] at hmin
      rw [h.sameConfig.perPeerMax]
      omega
    have htally := (hr.tally key).countOne
    rw [check_eq hpeer hglobal, check_eq hpeer' hglobal', hcount, h.sameConfig.globalMax]
    by_cases hfull : (w.roll now).Untracked key
    · rw [if_pos hfull, if_pos (huntracked.mpr hfull)]
      exact ⟨rfl, hr.refuse⟩
    · rw [if_neg hfull, if_neg (fun hfull' => hfull (huntracked.mp hfull'))]
      by_cases hover : w.perPeerMax < (w.roll now).peerCount key + 1
      · rw [if_pos hover, if_pos (hcap.mpr hover)]
        exact ⟨rfl, (hr.tally key).refuse⟩
      · rw [if_neg hover, if_neg (fun hover' => hover (hcap.mp hover'))]
        split_ifs
        · exact ⟨rfl, htally.refuse⟩
        · exact ⟨rfl, htally⟩

theorem roll_eq_or (w : FixedWindowLimiter κ) (now : ℕ) :
    w.roll now = w ∨ (w.roll now).countThisWindow = 0 ∧ ∀ k, (w.roll now).peerCount k = 0 := by
  unfold roll
  split_ifs
  · exact Or.inr ⟨rfl, fun _ => rfl⟩
  · exact Or.inl rfl

theorem alike_of_refused (hpeer : 0 < w.perPeerMax) (hglobal : 0 < w.globalMax) {refusal : Refusal}
    (h : (w.check key now).1 = .error refusal) (hcap : refusal ≠ .trackingFull) :
    Alike w (w.check key now).2 := by
  rw [check_eq hpeer hglobal] at h ⊢
  split_ifs at h ⊢ with hfull hover hspent
  · cases h
    exact absurd rfl hcap
  · rcases w.roll_eq_or now with hroll | ⟨-, hzero⟩
    · rw [hroll] at hover ⊢
      refine ⟨⟨rfl, rfl, rfl, rfl⟩, rfl, Or.inr ⟨rfl, fun k => ?_⟩⟩
      change ((w.perPeer.insert key _).get? k).map _ = _
      rw [get?_insert]
      split_ifs with hk
      · subst hk
        unfold peerCount at hover ⊢
        cases hget : w.perPeer.get? k with
        | none =>
          rw [hget, getD_none] at hover
          omega
        | some n =>
          rw [hget, getD_some] at hover
          rw [map_some, map_some, getD_some]
          congr 1
          omega
      · rfl
    · rw [hzero] at hover
      omega
  · rcases w.roll_eq_or now with hroll | ⟨hzero, -⟩
    · rw [hroll] at hspent ⊢
      exact ⟨⟨rfl, rfl, rfl, rfl⟩, rfl, Or.inl ⟨by omega, hspent.le⟩⟩
    · rw [hzero] at hspent
      omega

end FixedWindowLimiter

/-- Why a request was refused: its address rests, or a cap is spent. -/
def ActionThrottle.IsLimit : ActionThrottle → Prop
  | .serverWide _ | .perCaller _ | .address _ => True
  | .tooManyCallers => False

namespace ActionGovernor

variable {α : Type*} [LinearOrder α] {g g' : ActionGovernor α} {limits : ActionLimits}
  {caller : Text} {address : α} {now later : ℕ}

structure Alike (now : ℕ) (g g' : ActionGovernor α) : Prop where
  sameLimits : g'.limits = g.limits
  windows : g.windows.Alike g'.windows
  maxTracked : g'.maxTracked = g.maxTracked
  rests : ∀ x, (g'.cooldowns.get? x).filter (g.resting now) =
    (g.cooldowns.get? x).filter (g.resting now)

namespace Alike

theorem refl (now : ℕ) (g : ActionGovernor α) : Alike now g g :=
  ⟨rfl, FixedWindowLimiter.Alike.refl _, rfl, fun _ => rfl⟩

theorem resting_eq (h : Alike now g g') (last : ℕ) : g'.resting now last = g.resting now last := by
  unfold resting
  rw [h.sameLimits]

theorem of_le (h : Alike now g g') (hle : now ≤ later) : Alike later g g' := by
  refine ⟨h.sameLimits, h.windows, h.maxTracked, fun x => ?_⟩
  -- what rests later rests now
  have hsplit : ∀ o : Option ℕ, o.filter (g.resting later) =
      (o.filter (g.resting now)).filter (g.resting later) := by
    intro o
    rw [Option.filter_filter]
    congr 1
    funext last
    rw [eq_comm, Bool.and_eq_right_iff_imp]
    simp only [resting, decide_eq_true_eq]
    omega
  rw [hsplit, h.rests, ← hsplit]

end Alike

theorem Rests.retain_eq {kept : OrderedMap α ℕ} (h : g.Rests now kept) :
    kept.retain (g.resting now) = g.cooldowns.retain (g.resting now) := by
  apply ext_get?
  intro x
  rw [get?_retain, get?_retain, h.get?]

theorem Rests.no_room {kept : OrderedMap α ℕ} (h : g.Rests now kept)
    (hsized : g.cooldowns.length ≤ g.maxTracked)
    (hfull : g.maxTracked ≤ (g.cooldowns.retain (g.resting now)).length)
    (hrest : (g.cooldowns.get? address).filter (g.resting now) = none) :
    ¬ (kept.length < g.maxTracked ∨ ∃ last, kept.get? address = some last) := by
  rw [← h.retain_eq] at hfull
  intro hroom
  rcases hroom with hlt | ⟨last, hlast⟩
  · have hle := length_retain_le kept (g.resting now)
    omega
  · have hself : kept.retain (g.resting now) = kept :=
      retain_eq_self ((h.length_le.trans hsized).trans hfull)
    have hget := get?_retain kept (g.resting now) address
    rw [hself, h.get?, hrest, hlast] at hget
    cases hget

namespace Alike

theorem filter_insert {m m' : OrderedMap α ℕ} {p : ℕ → Bool}
    (h : ∀ x, (m'.get? x).filter p = (m.get? x).filter p) (address : α) (last : ℕ) (x : α) :
    ((m'.insert address last).get? x).filter p = ((m.insert address last).get? x).filter p := by
  rw [get?_insert, get?_insert]
  split_ifs
  · rfl
  · exact h x

theorem spend (h : Alike now g g') (hkeeps : Keeps limits g) (caller : Text) (address : α) :
    (g'.spend caller address now).1.isOk = (g.spend caller address now).1.isOk ∧
      Alike now (g.spend caller address now).2 (g'.spend caller address now).2 := by
  obtain ⟨hans, hnext⟩ := h.windows.check hkeeps.perPeerMax_pos hkeeps.globalMax_pos caller now
  rcases g.spend_cases caller address now with ⟨refusal, hcheck, hspend⟩ | ⟨hcheck, hspend⟩
  · rcases g'.spend_cases caller address now with ⟨refusal', hcheck', hspend'⟩ | ⟨hcheck', hspend'⟩
    · rw [hspend, hspend']
      exact ⟨rfl, h.sameLimits, hnext, h.maxTracked, h.rests⟩
    · rw [hcheck, hcheck'] at hans
      cases hans
  · rcases g'.spend_cases caller address now with ⟨refusal', hcheck', hspend'⟩ | ⟨hcheck', hspend'⟩
    · rw [hcheck, hcheck'] at hans
      cases hans
    · rw [hspend, hspend']
      exact ⟨rfl, h.sameLimits, hnext, h.maxTracked, filter_insert h.rests address now⟩

theorem doAdmit (h : Alike now g g') (hkeeps : Keeps limits g) (hkeeps' : Keeps limits g')
    (caller : Text) (address : α) :
    (g'.doAdmit caller address now).1.isOk = (g.doAdmit caller address now).1.isOk ∧
      Alike now (g.doAdmit caller address now).2 (g'.doAdmit caller address now).2 := by
  have hresting : g'.resting now = g.resting now := funext h.resting_eq
  have hretain : g'.cooldowns.retain (g.resting now) = g.cooldowns.retain (g.resting now) := by
    apply ext_get?
    intro x
    rw [get?_retain, get?_retain, h.rests]
  rcases g.admit_cases caller address now with
    ⟨last, hrest, hans⟩ | ⟨hrest, hfull, hans⟩ | ⟨hrest, kept, hkept, hroom, hans⟩
  · rcases g'.admit_cases caller address now with
      ⟨last', hrest', hans'⟩ | ⟨hrest', -⟩ | ⟨hrest', -⟩
    · rw [hans, hans']
      exact ⟨(rfl : false = false), h⟩
    · rw [hresting, h.rests, hrest] at hrest'
      cases hrest'
    · rw [hresting, h.rests, hrest] at hrest'
      cases hrest'
  · rcases g'.admit_cases caller address now with
      ⟨last', hrest', -⟩ | ⟨hrest', hfull', hans'⟩ | ⟨hrest', kept', hkept', hroom', hans'⟩
    · rw [hresting, h.rests, hrest] at hrest'
      cases hrest'
    · rw [hans, hans', hresting, hretain]
      exact ⟨rfl, h.sameLimits, h.windows, h.maxTracked, fun _ => rfl⟩
    · refine absurd hroom' (hkept'.no_room hkeeps'.sized ?_ hrest')
      rw [hresting, hretain, h.maxTracked]
      exact hfull
  · rcases g'.admit_cases caller address now with
      ⟨last', hrest', -⟩ | ⟨hrest', hfull', hans'⟩ | ⟨hrest', kept', hkept', hroom', hans'⟩
    · rw [hresting, h.rests, hrest] at hrest'
      cases hrest'
    · refine absurd hroom (hkept.no_room hkeeps.sized ?_ hrest)
      rw [hresting, hretain, h.maxTracked] at hfull'
      exact hfull'
    · have hboth : Alike now { g with cooldowns := kept } { g' with cooldowns := kept' } := by
        refine ⟨h.sameLimits, h.windows, h.maxTracked, fun x => ?_⟩
        have hx' := hkept'.get? x
        rw [hresting, h.rests, ← hkept.get?] at hx'
        exact hx'
      rw [hans, hans']
      exact hboth.spend ⟨hkeeps.sameLimits, hkeeps.globalMax, hkeeps.perPeerMax, hkeeps.window,
        hkept.length_le.trans hkeeps.sized⟩ caller address

end Alike

theorem alike_of_limit (hkeeps : Keeps limits g) {throttle : ActionThrottle}
    (h : (g.doAdmit caller address now).1 = .error throttle) (hlimit : throttle.IsLimit) :
    Alike now g (g.doAdmit caller address now).2 := by
  rcases g.admit_cases caller address now with
    ⟨last, -, hans⟩ | ⟨-, -, hans⟩ | ⟨-, kept, hkept, -, hans⟩
  · rw [hans]
    exact Alike.refl now g
  · rw [hans] at h
    cases h
    exact absurd hlimit id
  · rw [hans] at h ⊢
    rcases { g with cooldowns := kept }.spend_cases caller address now with
      ⟨refusal, hcheck, hspend⟩ | ⟨-, hspend⟩
    · rw [hspend] at h ⊢
      have hcap : refusal ≠ .trackingFull := by
        rintro rfl
        cases h
        exact hlimit
      exact ⟨rfl, FixedWindowLimiter.alike_of_refused hkeeps.perPeerMax_pos hkeeps.globalMax_pos
        hcheck hcap, rfl, hkept.get?⟩
    · rw [hspend] at h
      cases h

end ActionGovernor

end Sipnab.Operations
