import Sipnab.Actions.LimitRuns

/-!
# The limits hold

Every admitted action rests in the governor for its cooldown, and is counted in every window
that is still open; a restart that can count all it remembers finds both again.
-/

namespace Sipnab.Operations

open List OrderedMap

namespace Limited

variable {α : Type*} {limits : ActionLimits} {now later start : ℕ}
  {w w' : FixedWindowLimiter Text} {admitted : List (Admission α)} {starts : List ℕ}

/-! ## Windows -/

/-- The admissions of a window, and of each caller in it, are within a limiter's counts. -/
def Counted (start : ℕ) (admitted : List (Admission α)) (w : FixedWindowLimiter Text) : Prop :=
  (inWindow start admitted).length ≤ w.countThisWindow ∧
    ∀ caller, (byCaller caller (inWindow start admitted)).length ≤ w.peerCount caller

/-- A limiter that has counted what was admitted in each window that is still open. -/
structure Tracks (now : ℕ) (w : FixedWindowLimiter Text) (admitted : List (Admission α))
    (starts : List ℕ) : Prop where
  window : w.window = minute
  inside : ∀ a ∈ admitted, a.time < w.windowStart + minute
  current : w.windowStart ∈ starts
  starts_le : ∀ start ∈ starts, start ≤ w.windowStart
  started : w.windowStart ≤ now
  counted : ∀ start ∈ starts, now < start + minute → Counted start admitted w

theorem inWindow_append (start : ℕ) (admitted : List (Admission α)) (a : Admission α) :
    inWindow start (admitted ++ [a]) =
      inWindow start admitted ++ if start ≤ a.time ∧ a.time < start + minute then [a] else [] := by
  unfold inWindow
  rw [filter_append, filter_singleton]
  congr 1
  split_ifs with h
  · rw [decide_eq_true h]
    rfl
  · rw [decide_eq_false h]
    rfl

variable {a : Admission α} {c : Call α} {calls : List (Call α)}

theorem inWindow_append_closed (h : start + minute ≤ a.time) (admitted : List (Admission α)) :
    inWindow start (admitted ++ [a]) = inWindow start admitted := by
  rw [inWindow_append, if_neg (fun hin => by omega), append_nil]

section

variable (h : Tracks now w admitted starts)
include h

theorem Tracks.of_le (hle : now ≤ later) : Tracks later w admitted starts :=
  ⟨h.window, h.inside, h.current, h.starts_le, h.started.trans hle,
    fun start hstart hopen => h.counted start hstart (hle.trans_lt hopen)⟩

theorem Tracks.grown (hgrown : w.Grown w') :
    Tracks now w' admitted starts where
  window := hgrown.sameConfig.window.trans h.window
  inside := hgrown.windowStart ▸ h.inside
  current := hgrown.windowStart ▸ h.current
  starts_le := hgrown.windowStart ▸ h.starts_le
  started := hgrown.windowStart ▸ h.started
  counted start hstart hopen :=
    ⟨(h.counted start hstart hopen).1.trans hgrown.countThisWindow,
      fun caller => ((h.counted start hstart hopen).2 caller).trans (hgrown.peerCount caller)⟩

theorem Tracks.again : Tracks now w admitted (starts ++ [w.windowStart]) := by
  have hmem : ∀ start ∈ starts ++ [w.windowStart], start ∈ starts := by
    intro start hstart
    rcases mem_append.mp hstart with hstart | hstart
    · exact hstart
    · rw [mem_singleton.mp hstart]
      exact h.current
  exact ⟨h.window, h.inside, mem_append_left _ h.current,
    fun start hstart => h.starts_le start (hmem start hstart), h.started,
    fun start hstart => h.counted start (hmem start hstart)⟩

theorem Tracks.roll :
    Tracks now (w.roll now) admitted (starts ++ [(w.roll now).windowStart]) ∧
      now < (w.roll now).windowStart + minute := by
  have hminute : 0 < minute := by decide
  by_cases hopen : now - w.windowStart < w.window
  · rw [FixedWindowLimiter.roll_of_open hopen]
    refine ⟨h.again, ?_⟩
    have hwindow := h.window
    omega
  · have hover : w.windowStart + minute ≤ now := by
      have hwindow := h.window
      have hstarted := h.started
      omega
    have hroll : w.roll now =
        { w with windowStart := now, countThisWindow := 0, perPeer := .empty } :=
      if_pos (Nat.le_of_not_lt hopen)
    have hempty : ∀ start, now ≤ start → inWindow start admitted = [] := by
      intro start hstart
      refine filter_eq_nil_iff.mpr (fun a ha hin => ?_)
      have hinside := h.inside a ha
      rw [decide_eq_true_eq] at hin
      omega
    rw [hroll]
    refine ⟨⟨h.window, fun a ha => ?_, mem_append_right _ (mem_singleton.mpr rfl),
      fun start hstart => ?_, le_rfl, fun start hstart hopen => ?_⟩, ?_⟩
    · have hinside := h.inside a ha
      dsimp only
      omega
    · rcases mem_append.mp hstart with hstart | hstart
      · have hle := h.starts_le start hstart
        dsimp only
        omega
      · rw [mem_singleton.mp hstart]
    · rcases mem_append.mp hstart with hstart | hstart
      · have hle := h.starts_le start hstart
        omega
      · rw [mem_singleton.mp hstart]
        unfold Counted
        rw [hempty now le_rfl]
        exact ⟨le_rfl, fun _ => Nat.zero_le _⟩
    · dsimp only
      omega

end

theorem Counted.push (h : Counted start admitted w) (a : Admission α) :
    Counted start (admitted ++ [a]) (w.tally a.caller).countOne := by
  refine ⟨?_, fun caller => ?_⟩
  · rw [inWindow_append, length_append]
    have hold := h.1
    change _ ≤ w.countThisWindow + 1
    split_ifs
    · exact Nat.succ_le_succ hold
    · exact hold.trans (Nat.le_succ _)
  · change _ ≤ (w.tally a.caller).peerCount caller
    have hold := h.2 caller
    rw [FixedWindowLimiter.peerCount_tally, inWindow_append]
    split_ifs with hin hcaller hcaller
    · rw [byCaller_append, length_append, if_pos hcaller.symm]
      exact Nat.succ_le_succ hold
    · rw [byCaller_append, if_neg (Ne.symm hcaller), append_nil]
      exact hold
    · rw [append_nil]
      exact hold.trans (Nat.le_succ _)
    · rw [append_nil]
      exact hold

theorem Tracks.push (h : Tracks now w admitted starts) (ha : a.time = now)
    (hopen : now < w.windowStart + minute) :
    Tracks now (w.tally a.caller).countOne (admitted ++ [a]) starts where
  window := h.window
  inside b hb := by
    rcases mem_append.mp hb with hb | hb
    · exact h.inside b hb
    · rw [mem_singleton.mp hb, ha]
      exact hopen
  current := h.current
  starts_le := h.starts_le
  started := h.started
  counted start hstart hlt := (h.counted start hstart hlt).push a

theorem Capped.push (h : Capped limits start admitted) (ha : a.time = now)
    (hcounted : now < start + minute → Counted start admitted w)
    (hcap : w.peerCount a.caller + 1 ≤ limits.perCallerPerMinute)
    (hceiling : w.countThisWindow + 1 ≤ limits.perMinute) :
    Capped limits start (admitted ++ [a]) := by
  by_cases hopen : now < start + minute
  · obtain ⟨htotal, hpeers⟩ := (hcounted hopen).push a
    refine ⟨htotal.trans hceiling, fun caller => ?_⟩
    by_cases hcaller : caller = a.caller
    · have hpeer := hpeers caller
      change _ ≤ (w.tally a.caller).peerCount caller at hpeer
      rw [FixedWindowLimiter.peerCount_tally, if_pos hcaller, hcaller] at hpeer
      exact hcaller ▸ hpeer.trans hcap
    · have hold := h.2 caller
      rw [inWindow_append]
      split_ifs
      · rw [byCaller_append, if_neg (Ne.symm hcaller), append_nil]
        exact hold
      · rw [append_nil]
        exact hold
  · rw [Capped, inWindow_append_closed (by omega)]
    exact h

/-! ## The ledger -/

variable {texts : AddressText α} {l : Ledger}

/-- A ledger that remembers what was admitted in the last hour, and besides it only what was
reverted from the command line. -/
structure Recorded (texts : AddressText α) (now : ℕ) (l : Ledger)
    (admitted : List (Admission α)) : Prop where
  kept : ∃ clock, clock ≤ unixSecs now ∧
    ((admitted.map (recentOf texts)).filter (Ledger.isRecent clock)).Sublist l.recent
  surface : (l.recent.filter (fun a => a.caller ≠ localCaller)).Sublist
    (admitted.map (recentOf texts))

section

variable (h : Recorded texts now l admitted)
include h

theorem Recorded.of_le (hle : now ≤ later) : Recorded texts later l admitted := by
  obtain ⟨⟨clock, hclock, hkept⟩, hsurface⟩ := h
  exact ⟨⟨clock, hclock.trans (Nat.div_le_div_right hle), hkept⟩, hsurface⟩

theorem Recorded.of_recent {l' : Ledger} (hrecent : l'.recent = l.recent) :
    Recorded texts now l' admitted :=
  ⟨hrecent ▸ h.kept, hrecent ▸ h.surface⟩

theorem Recorded.setNow : Recorded texts now (l.setNow (unixSecs now)) admitted := by
  obtain ⟨⟨clock, hclock, hkept⟩, hsurface⟩ := h
  refine ⟨⟨unixSecs now, le_rfl, ?_⟩, ?_⟩
  · have hfilter : (admitted.map (recentOf texts)).filter (Ledger.isRecent (unixSecs now)) =
        ((admitted.map (recentOf texts)).filter (Ledger.isRecent clock)).filter
          (Ledger.isRecent (unixSecs now)) := by
      rw [List.filter_filter]
      refine filter_congr (fun a _ => ?_)
      rw [eq_comm, Bool.and_eq_left_iff_imp]
      simp only [Ledger.isRecent, decide_eq_true_eq]
      omega
    rw [hfilter]
    exact hkept.filter _
  · change ((l.recent.filter _).filter _).Sublist _
    rw [List.filter_filter, filter_congr (fun a _ => Bool.and_comm _ _), ← List.filter_filter]
    exact filter_sublist.trans hsurface

variable (intent : Intent) (address : α)

theorem Recorded.push :
    Recorded texts now (l.doAdmit (journaled texts intent address now))
      (admitted ++ [⟨intent.caller, address, now⟩]) := by
  obtain ⟨⟨clock, hclock, hkept⟩, hsurface⟩ := h
  refine ⟨⟨clock, hclock, ?_⟩, ?_⟩
  · rw [map_append, filter_append]
    exact hkept.append filter_sublist
  · change ((l.recent ++ _).filter _).Sublist _
    rw [map_append, filter_append]
    exact hsurface.append filter_sublist

theorem Recorded.localRevert :
    Recorded texts now
      (l.doAdmit (journaled texts { intent with caller := localCaller } address now)) admitted := by
  obtain ⟨⟨clock, hclock, hkept⟩, hsurface⟩ := h
  refine ⟨⟨clock, hclock, hkept.trans (sublist_append_left _ _)⟩, ?_⟩
  have hrecent :
      (l.doAdmit (journaled texts { intent with caller := localCaller } address now)).recent =
        l.recent ++ [⟨localCaller, texts.text address, unixSecs now⟩] := rfl
  rw [hrecent, filter_append, filter_cons_of_neg (by simp), filter_nil, append_nil]
  exact hsurface

end

def remembers (limits : ActionLimits) (now : ℕ) (a : RecentAction) : Bool :=
  unixSecs now < a.atSecs + max limits.addressCooldown 60 ∧ a.atSecs ≤ unixSecs now

def known (texts : AddressText α) (limits : ActionLimits) (now : ℕ)
    (admitted : List (Admission α)) : List (Admission α) :=
  admitted.filter (remembers limits now ∘ recentOf texts)

theorem Recorded.remembered_eq (h : Recorded texts now l admitted)
    (hcooldown : limits.addressCooldown ≤ recentKeepSecs)
    (hsurface : ∀ a ∈ remembered limits now (l.setNow (unixSecs now)), a.caller ≠ localCaller) :
    remembered limits now (l.setNow (unixSecs now)) =
      (known texts limits now admitted).map (recentOf texts) := by
  obtain ⟨⟨clock, hclock, hkept⟩, honly⟩ := h
  -- what is remembered is recent
  have hrecent : ∀ clock, clock ≤ unixSecs now → ∀ list : List RecentAction,
      (list.filter (Ledger.isRecent clock)).filter (remembers limits now) =
        list.filter (remembers limits now) := by
    intro clock hclock list
    rw [List.filter_filter]
    refine filter_congr (fun a _ => ?_)
    rw [Bool.and_eq_left_iff_imp]
    simp only [remembers, Ledger.isRecent, decide_eq_true_eq]
    have hkeep : recentKeepSecs = 3600 := rfl
    omega
  have hremembered : remembered limits now (l.setNow (unixSecs now)) =
      l.recent.filter (remembers limits now) := hrecent (unixSecs now) le_rfl l.recent
  have hall : (l.recent.filter (fun a => a.caller ≠ localCaller)).filter (remembers limits now) =
      l.recent.filter (remembers limits now) := by
    rw [List.filter_filter, filter_congr (fun a _ => Bool.and_comm _ _), ← List.filter_filter]
    refine filter_eq_self.mpr (fun a ha => ?_)
    rw [decide_eq_true_eq]
    exact hsurface a (hremembered ▸ ha)
  rw [known, ← List.filter_map, hremembered]
  refine List.Sublist.antisymm ?_ ?_
  · rw [← hall]
    exact honly.filter _
  · rw [← hrecent clock hclock]
    exact hkept.filter _

theorem mem_known (ha : a ∈ admitted) (hpast : a.time ≤ now)
    (hlt : now < a.time + max limits.cooldown minute)
    (hfraction : a.time % nanosPerSec ≤ now % nanosPerSec) :
    a ∈ known texts limits now admitted := by
  refine mem_filter.mpr ⟨ha, ?_⟩
  rw [Function.comp_apply, remembers, recentOf, decide_eq_true_eq]
  unfold ActionLimits.cooldown minute at hlt
  unfold unixSecs
  unfold nanosPerSec at *
  dsimp only
  omega

theorem inWindow_sublist_known (hpast : ∀ a ∈ admitted, a.time ≤ now)
    (hfraction : ∀ a ∈ admitted, now < a.time + max limits.cooldown minute →
      a.time % nanosPerSec ≤ now % nanosPerSec) (hopen : now < start + minute) :
    (inWindow start admitted).Sublist (known texts limits now admitted) := by
  have hall : (inWindow start admitted).filter (remembers limits now ∘ recentOf texts) =
      inWindow start admitted := by
    refine filter_eq_self.mpr (fun a ha => ?_)
    obtain ⟨hmem, hin⟩ := mem_filter.mp ha
    rw [decide_eq_true_eq] at hin
    have hlt : now < a.time + max limits.cooldown minute := by omega
    exact (mem_filter.mp (mem_known hmem (hpast a hmem) hlt (hfraction a hmem hlt))).2
  rw [← hall]
  exact filter_sublist.filter _

/-! ## Requests -/

variable [LinearOrder α] {g : ActionGovernor α} {caller : Text} {address : α} {s : Limited α}

/-- A governor that holds every admitted action to the limits. -/
structure Guards (limits : ActionLimits) (now : ℕ) (g : ActionGovernor α)
    (admitted : List (Admission α)) (starts : List ℕ) : Prop where
  keeps : g.Keeps limits
  past : ∀ a ∈ admitted, a.time ≤ now
  spaced : Spaced limits admitted
  rests : ∀ a ∈ admitted, now < a.time + limits.cooldown →
    ∃ last, g.cooldowns.get? a.address = some last ∧ a.time ≤ last
  capped : ∀ start ∈ starts, Capped limits start admitted
  tracks : Tracks now g.windows admitted starts

theorem Guards.of_le (h : Guards limits now g admitted starts) (hle : now ≤ later) :
    Guards limits later g admitted starts :=
  ⟨h.keeps, fun a ha => (h.past a ha).trans hle, h.spaced,
    fun a ha hrest => h.rests a ha (hle.trans_lt hrest), h.capped, h.tracks.of_le hle⟩

theorem Guards.again (h : Guards limits now g admitted starts) :
    Guards limits now g admitted (starts ++ [g.windows.windowStart]) := by
  refine ⟨h.keeps, h.past, h.spaced, h.rests, fun start hstart => ?_, h.tracks.again⟩
  rcases mem_append.mp hstart with hin | hin
  · exact h.capped start hin
  · rw [mem_singleton.mp hin]
    exact h.capped _ h.tracks.current

variable {time last : ℕ} {s' : Limited α}

theorem resting_of_lt (hkeeps : g.Keeps limits) (hle : time ≤ last)
    (hlt : now < time + limits.cooldown) : g.resting now last = true := by
  have hpos : 0 < limits.cooldown := Nat.mul_pos limits.cooldown_pos (by decide)
  rw [ActionGovernor.resting, hkeeps.sameLimits, decide_eq_true_eq]
  omega

theorem get?_doAdmit {x : α} (hget : g.cooldowns.get? x = some last)
    (hrest : g.resting now last = true) (hlast : time ≤ last) (hnow : time ≤ now) :
    ∃ last', (g.doAdmit caller address now).2.cooldowns.get? x = some last' ∧ time ≤ last' := by
  have hfilter : (g.cooldowns.get? x).filter (g.resting now) = some last := by
    rw [hget, Option.filter_some, if_pos hrest]
  rcases g.admit_cases caller address now with
    ⟨_, -, hans⟩ | ⟨-, -, hans⟩ | ⟨-, kept, hkept, -, hans⟩
  · rw [hans]
    exact ⟨last, hget, hlast⟩
  · rw [hans]
    refine ⟨last, ?_, hlast⟩
    rw [get?_retain, hfilter]
  · have hkeptGet : kept.get? x = some last := by
      rw [← hkept.get?, Option.filter_eq_some_iff] at hfilter
      exact hfilter.1
    rw [hans]
    rcases { g with cooldowns := kept }.spend_cases caller address now with
      ⟨_, -, hspend⟩ | ⟨-, hspend⟩
    · rw [hspend]
      exact ⟨last, hkeptGet, hlast⟩
    · rw [hspend]
      rw [get?_insert]
      split_ifs
      · exact ⟨now, rfl, hnow⟩
      · exact ⟨last, hkeptGet, hlast⟩

theorem windows_doAdmit (g : ActionGovernor α) (caller : Text) (address : α) (now : ℕ) :
    (g.doAdmit caller address now).2.windows = g.windows ∨
      (g.doAdmit caller address now).2.windows = (g.windows.check caller now).2 := by
  rcases g.admit_cases caller address now with
    ⟨_, -, hans⟩ | ⟨-, -, hans⟩ | ⟨-, kept, -, -, hans⟩
  · rw [hans]
    exact Or.inl rfl
  · rw [hans]
    exact Or.inl rfl
  · rw [hans]
    rcases { g with cooldowns := kept }.spend_cases caller address now with
      ⟨_, -, hspend⟩ | ⟨-, hspend⟩
    · rw [hspend]
      exact Or.inr rfl
    · rw [hspend]
      exact Or.inr rfl

theorem admit_ok (h : (g.doAdmit caller address now).1 = .ok ()) :
    (g.cooldowns.get? address).filter (g.resting now) = none ∧
      (g.windows.check caller now).1 = .ok () ∧
      (g.doAdmit caller address now).2.windows = (g.windows.check caller now).2 ∧
      (g.doAdmit caller address now).2.cooldowns.get? address = some now := by
  rcases g.admit_cases caller address now with
    ⟨_, -, hans⟩ | ⟨-, -, hans⟩ | ⟨hrest, kept, -, -, hans⟩
  · rw [hans] at h
    cases h
  · rw [hans] at h
    cases h
  · rw [hans] at h ⊢
    rcases { g with cooldowns := kept }.spend_cases caller address now with
      ⟨_, -, hspend⟩ | ⟨hcheck, hspend⟩
    · rw [hspend] at h
      cases h
    · rw [hspend]
      refine ⟨hrest, hcheck, rfl, ?_⟩
      rw [get?_insert, if_pos rfl]

section

variable (h : Guards limits now g admitted starts)
include h

theorem Guards.capped_roll :
    ∀ start ∈ starts ++ [(g.windows.roll now).windowStart], Capped limits start admitted := by
  intro start hstart
  rcases mem_append.mp hstart with hin | hin
  · exact h.capped start hin
  · obtain ⟨htracks, hopen⟩ := h.tracks.roll
    rw [mem_singleton] at hin
    rcases g.windows.roll_eq_or now with hroll | ⟨hzero, hpeers⟩
    · rw [hroll] at hin
      exact hin ▸ h.capped _ h.tracks.current
    · obtain ⟨htotal, hcallers⟩ := htracks.counted start hstart (hin ▸ hopen)
      refine ⟨htotal.trans (hzero ▸ Nat.zero_le _), fun caller => ?_⟩
      have hcaller := hcallers caller
      rw [hpeers] at hcaller
      exact hcaller.trans (Nat.zero_le _)

theorem Guards.doAdmit (caller : Text) (address : α) :
    Guards limits now (g.doAdmit caller address now).2 admitted
      (starts ++ [(g.doAdmit caller address now).2.windows.windowStart]) := by
  have hgrown := FixedWindowLimiter.check_grown h.keeps.perPeerMax_pos h.keeps.globalMax_pos
    caller now
  have hrests : ∀ a ∈ admitted, now < a.time + limits.cooldown →
      ∃ last, (g.doAdmit caller address now).2.cooldowns.get? a.address = some last ∧
        a.time ≤ last := by
    intro a ha hrest
    obtain ⟨last, hget, hlast⟩ := h.rests a ha hrest
    exact get?_doAdmit hget (resting_of_lt h.keeps hlast hrest) hlast (h.past a ha)
  have hkeeps := h.keeps.doAdmit caller address now
  rcases windows_doAdmit g caller address now with hwindows | hwindows
  · rw [hwindows]
    exact ⟨hkeeps, h.past, h.spaced, hrests, h.again.capped, hwindows ▸ h.tracks.again⟩
  · rw [hwindows, hgrown.windowStart]
    exact ⟨hkeeps, h.past, h.spaced, hrests, h.capped_roll, hwindows ▸ h.tracks.roll.1.grown hgrown⟩

theorem Guards.push (hok : (g.doAdmit caller address now).1 = .ok ()) :
    Guards limits now (g.doAdmit caller address now).2 (admitted ++ [⟨caller, address, now⟩])
      (starts ++ [(g.doAdmit caller address now).2.windows.windowStart]) := by
  obtain ⟨hrest, hcheck, hwindows, hget⟩ := admit_ok hok
  obtain ⟨hspent, hcap, hceiling⟩ :=
    FixedWindowLimiter.check_ok h.keeps.perPeerMax_pos h.keeps.globalMax_pos hcheck
  have hbefore := h.doAdmit caller address
  obtain ⟨htracks, hopen⟩ := h.tracks.roll
  have hstart : (g.doAdmit caller address now).2.windows.windowStart =
      (g.windows.roll now).windowStart := by
    rw [hwindows, hspent]
    rfl
  rw [h.keeps.perPeerMax] at hcap
  rw [h.keeps.globalMax] at hceiling
  refine ⟨hbefore.keeps, fun a ha => ?_, ?_, fun a ha hlt => ?_, fun start hin => ?_, ?_⟩
  · rcases mem_append.mp ha with ha | ha
    · exact h.past a ha
    · rw [mem_singleton.mp ha]
  · refine pairwise_append.mpr ⟨h.spaced, pairwise_singleton _ _, fun a ha b hb hab => ?_⟩
    rw [mem_singleton.mp hb] at hab ⊢
    -- an action on this address that still rests would have refused the request
    by_contra hclose
    obtain ⟨last, hlast, hle⟩ := h.rests a ha (Nat.lt_of_not_le hclose)
    rw [show a.address = address from hab] at hlast
    rw [hlast, Option.filter_eq_none_iff] at hrest
    exact hrest last rfl (resting_of_lt h.keeps hle (Nat.lt_of_not_le hclose))
  · rcases mem_append.mp ha with ha | ha
    · exact hbefore.rests a ha hlt
    · rw [mem_singleton.mp ha]
      exact ⟨now, hget, le_rfl⟩
  · rw [hstart] at hin
    exact Capped.push (h.capped_roll start hin) rfl (htracks.counted start hin) hcap hceiling
  · rw [hstart, hwindows, hspent]
    exact htracks.push (a := ⟨caller, address, now⟩) rfl hopen

end

/-! ## Restarts -/

theorem Guards.restart (h : Guards limits now s.governor s.admitted s.windowStarts)
    (hrecorded : Recorded texts now s.ledger s.admitted) (hfits : Fits limits now s) :
    Guards limits now (rebuild texts limits now (s.ledger.setNow (unixSecs now))) s.admitted
      (s.windowStarts ++
        [(rebuild texts limits now (s.ledger.setNow (unixSecs now))).windows.windowStart]) := by
  have hremembered := hrecorded.remembered_eq hfits.cooldown hfits.surface
  have hlength : (known texts limits now s.admitted).length =
      (remembered limits now (s.ledger.setNow (unixSecs now))).length := by
    rw [hremembered, length_map]
  have hcallers : ∀ caller, (byCaller caller (known texts limits now s.admitted)).length ≤
      limits.perCallerPerMinute := by
    intro caller
    have hcaller := hfits.callers caller
    rw [hremembered, List.filter_map, length_map] at hcaller
    exact hcaller
  have hspaced : (known texts limits now s.admitted).Pairwise (fun a b => a.address = b.address →
      unixSecs a.time + limits.addressCooldown ≤ unixSecs b.time) := by
    refine (h.spaced.sublist filter_sublist).imp (fun {a b} hab haddress => ?_)
    have htimes := hab haddress
    unfold ActionLimits.cooldown nanosPerSec at htimes
    unfold unixSecs nanosPerSec
    omega
  have hrebuilt : Rebuilt texts limits now (known texts limits now s.admitted)
      (rebuild texts limits now (s.ledger.setNow (unixSecs now))) := by
    unfold rebuild
    rw [hremembered]
    exact rebuilt_foldl
      (fun a ha => Nat.div_le_div_right (h.past a (mem_of_mem_filter ha)))
      (hlength ▸ hfits.tracked) (hlength ▸ hfits.server) hcallers hspaced
  have hwindow : ∀ start, now < start + minute →
      (inWindow start s.admitted).Sublist (known texts limits now s.admitted) :=
    fun start hopen => inWindow_sublist_known h.past hfits.fraction hopen
  have hcounted : ∀ start, now < start + minute → Counted start s.admitted
      (rebuild texts limits now (s.ledger.setNow (unixSecs now))).windows := by
    intro start hopen
    refine ⟨hrebuilt.countThisWindow ▸ (hwindow start hopen).length_le, fun caller => ?_⟩
    rw [hrebuilt.peerCount]
    exact ((hwindow start hopen).filter _).length_le
  rw [hrebuilt.windowStart]
  refine ⟨hrebuilt.keeps, h.past, h.spaced, fun a ha hlt => ?_, fun start hstart => ?_, ?_⟩
  · have hneeded : now < a.time + max limits.cooldown minute := by omega
    have hfraction := hfits.fraction a ha hneeded
    obtain ⟨last, hget, hlast⟩ := hrebuilt.rests a (mem_known ha (h.past a ha) hneeded hfraction)
    refine ⟨last, hget, le_trans ?_ hlast⟩
    have hpast := h.past a ha
    unfold replayTime recentOf unixSecs
    unfold nanosPerSec at *
    dsimp only
    omega
  · rcases mem_append.mp hstart with hin | hin
    · exact h.capped start hin
    · rw [mem_singleton.mp hin]
      have hopen : now < now + minute := Nat.lt_add_of_pos_right (by decide)
      refine ⟨?_, fun caller => ?_⟩
      · exact (hwindow now hopen).length_le.trans (hlength ▸ hfits.server)
      · exact ((hwindow now hopen).filter _).length_le.trans (hcallers caller)
  · refine ⟨hrebuilt.keeps.window, fun a ha => ?_, ?_, fun start hstart => ?_, ?_,
      fun start _ hopen => hcounted start hopen⟩
    · rw [hrebuilt.windowStart]
      exact (h.past a ha).trans_lt (Nat.lt_add_of_pos_right (by decide))
    · rw [hrebuilt.windowStart]
      exact mem_append_right _ (mem_singleton.mpr rfl)
    · rw [hrebuilt.windowStart]
      rcases mem_append.mp hstart with hin | hin
      · exact (h.tracks.starts_le start hin).trans h.tracks.started
      · exact (mem_singleton.mp hin).le
    · exact hrebuilt.windowStart.le

/-! ## Runs -/

/-- The limits and the ledger agree on everything admitted so far. -/
structure Holds (texts : AddressText α) (limits : ActionLimits) (now : ℕ) (s : Limited α) :
    Prop where
  guards : Guards limits now s.governor s.admitted s.windowStarts
  recorded : Recorded texts now s.ledger s.admitted

theorem tracks_new (limits : ActionLimits) (now : ℕ) :
    Tracks now (ActionGovernor.new limits maxTracked now : ActionGovernor α).windows
      ([] : List (Admission α)) [now] where
  window := ActionGovernor.Keeps.window (.of_new limits maxTracked now)
  inside _ ha := absurd ha not_mem_nil
  current := mem_singleton.mpr rfl
  starts_le _ hstart := (mem_singleton.mp hstart).le
  started := le_rfl
  counted _ _ _ := ⟨Nat.zero_le _, fun _ => Nat.zero_le _⟩

theorem holds_start (texts : AddressText α) (limits : ActionLimits) (now : ℕ) :
    Holds texts limits now (Limited.start limits now) where
  guards :=
    { keeps := .of_new limits maxTracked now
      past := fun _ ha => absurd ha not_mem_nil
      spaced := List.Pairwise.nil
      rests := fun _ ha => absurd ha not_mem_nil
      capped := fun _ _ => ⟨Nat.zero_le _, fun _ => Nat.zero_le _⟩
      tracks := tracks_new limits now }
  recorded := ⟨⟨unixSecs now, le_rfl, List.Sublist.slnil⟩, List.Sublist.slnil⟩

theorem eq_ok_of_isOk {ε : Type*} {answer : Except ε Unit} (h : answer.isOk = true) :
    answer = .ok () := by
  cases answer with
  | error _ => exact absurd h Bool.false_ne_true
  | ok => rfl

theorem request_eq (s : Limited α) (intent : Intent) (address : α) (written : Bool) (now : ℕ) :
    s.request texts intent address written now =
      if (s.governor.doAdmit intent.caller address now).1.isOk ∧ written then
        { s with
          governor := (s.governor.doAdmit intent.caller address now).2
          ledger := s.ledger.doAdmit (journaled texts intent address now)
          admitted := s.admitted ++ [⟨intent.caller, address, now⟩] }
      else { s with governor := (s.governor.doAdmit intent.caller address now).2 } := by
  unfold request
  rcases s.governor.doAdmit intent.caller address now with ⟨answer, governor⟩
  cases answer with
  | error throttle => rw [if_neg (fun h => absurd h.1 Bool.false_ne_true)]
  | ok => simp only [Except.isOk, Except.toBool, true_and]

theorem Holds.request (h : Holds texts limits now s) (intent : Intent) (address : α)
    (written : Bool) :
    Holds texts limits now (s.step texts limits ⟨now, .request intent address written⟩) := by
  have hstep : s.step texts limits ⟨now, .request intent address written⟩ =
      { s.request texts intent address written now with
        windowStarts := (s.request texts intent address written now).windowStarts ++
          [(s.request texts intent address written now).governor.windows.windowStart] } := rfl
  rw [hstep, request_eq]
  split_ifs with hok
  · exact ⟨h.guards.push (eq_ok_of_isOk hok.1), h.recorded.push intent address⟩
  · exact ⟨h.guards.doAdmit intent.caller address, h.recorded⟩

theorem Holds.step (h : Holds texts limits now s) (hle : now ≤ c.now)
    (hfits : c.act matches .restart → Fits limits c.now s) :
    Holds texts limits c.now (s.step texts limits c) := by
  have hguards := h.guards.of_le hle
  have hrecorded := h.recorded.of_le hle
  obtain ⟨time, act⟩ := c
  cases act with
  | request intent address written =>
    exact Holds.request ⟨hguards, hrecorded⟩ intent address written
  | localRevert intent address => exact ⟨hguards.again, hrecorded.localRevert intent address⟩
  | settled id resolution =>
    exact ⟨hguards.again, hrecorded.of_recent (Ledger.recent_settle _ _ _)⟩
  | lapsed id address => exact ⟨hguards.again, hrecorded.of_recent (Ledger.lapse_others _ _ _).2.2⟩
  | clock => exact ⟨hguards.again, hrecorded.setNow⟩
  | restart =>
    exact ⟨hguards.restart hrecorded (hfits rfl), hrecorded.setNow⟩

omit [LinearOrder α] in
theorem clocked_cons (h : Clocked now (c :: calls)) : now ≤ c.now ∧ Clocked c.now calls := by
  obtain ⟨hfirst, hrest⟩ := pairwise_cons.mp h
  exact ⟨hfirst c.now mem_cons_self, hrest⟩

theorem Holds.run {calls : List (Call α)} (h : Holds texts limits now s)
    (hclock : Clocked now calls) (hfits : RestartsFit texts limits s calls) :
    ∃ last, Holds texts limits last (s.run texts limits calls) := by
  induction calls generalizing now s with
  | nil => exact ⟨now, h⟩
  | cons c calls ih =>
    obtain ⟨hle, hrest⟩ := clocked_cons hclock
    exact ih (h.step hle hfits.1) hrest hfits.2

/-! ## Refusals -/

theorem keeps_rebuild (texts : AddressText α) (limits : ActionLimits) (now : ℕ) (l : Ledger) :
    (rebuild texts limits now l).Keeps limits := by
  unfold rebuild
  induction remembered limits now l using List.reverseRecOn with
  | nil => exact .of_new limits maxTracked now
  | append_singleton actions a ih =>
    rw [foldl_append]
    change (replay texts now _ a).Keeps limits
    unfold replay
    split
    · exact ih.doAdmit _ _ _
    · exact ih

theorem keeps_step (h : s.governor.Keeps limits) (c : Call α) :
    (s.step texts limits c).governor.Keeps limits := by
  obtain ⟨time, act⟩ := c
  cases act with
  | request intent address written =>
    change (s.request texts intent address written time).governor.Keeps limits
    rw [request_eq]
    split_ifs
    · exact h.doAdmit _ _ _
    · exact h.doAdmit _ _ _
  | localRevert intent address => exact h
  | settled id resolution => exact h
  | lapsed id address => exact h
  | clock => exact h
  | restart => exact keeps_rebuild texts limits time _

theorem keeps_run (h : s.governor.Keeps limits) (calls : List (Call α)) :
    (s.run texts limits calls).governor.Keeps limits := by
  induction calls generalizing s with
  | nil => exact h
  | cons c calls ih => exact ih (keeps_step h c)

/-- Two states with the same ledger whose governors answer alike. -/
structure AlikeFrom (now : ℕ) (s s' : Limited α) : Prop where
  governor : s.governor.Alike now s'.governor
  ledger : s'.ledger = s.ledger

theorem AlikeFrom.step (h : AlikeFrom now s s') (hkeeps : s.governor.Keeps limits)
    (hkeeps' : s'.governor.Keeps limits) (hle : now ≤ c.now) :
    s'.admits c = s.admits c ∧
      AlikeFrom c.now (s.step texts limits c) (s'.step texts limits c) := by
  have hgovernor := h.governor.of_le hle
  have hledger := h.ledger
  obtain ⟨time, act⟩ := c
  cases act with
  | request intent address written =>
    obtain ⟨hans, hnext⟩ := hgovernor.doAdmit hkeeps hkeeps' intent.caller address
    refine ⟨hans, ?_⟩
    change AlikeFrom time { s.request texts intent address written time with windowStarts := _ }
      { s'.request texts intent address written time with windowStarts := _ }
    rw [request_eq, request_eq, hans]
    split_ifs
    · exact ⟨hnext, congrArg (Ledger.doAdmit _) hledger⟩
    · exact ⟨hnext, hledger⟩
  | localRevert intent address =>
    exact ⟨rfl, hgovernor, congrArg (Ledger.doAdmit _) hledger⟩
  | settled id resolution =>
    exact ⟨rfl, hgovernor, congrArg (Ledger.withDoubt _ · _) hledger⟩
  | lapsed id address => exact ⟨rfl, hgovernor, congrArg (Ledger.lapse _ _) hledger⟩
  | clock => exact ⟨rfl, hgovernor, congrArg (Ledger.setNow _) hledger⟩
  | restart =>
    have hsame : s'.ledger.setNow (unixSecs time) = s.ledger.setNow (unixSecs time) :=
      congrArg (Ledger.setNow _) hledger
    refine ⟨rfl, ?_, hsame⟩
    change (rebuild texts limits time (s.ledger.setNow _)).Alike time
      (rebuild texts limits time (s'.ledger.setNow _))
    rw [hsame]
    exact .refl time _

theorem AlikeFrom.answers (h : AlikeFrom now s s') (hkeeps : s.governor.Keeps limits)
    (hkeeps' : s'.governor.Keeps limits) (hclock : Clocked now calls) :
    s'.answers texts limits calls = s.answers texts limits calls := by
  induction calls generalizing now s s' with
  | nil => rfl
  | cons c calls ih =>
    obtain ⟨hle, hrest⟩ := clocked_cons hclock
    obtain ⟨hadmits, hnext⟩ := h.step hkeeps hkeeps' hle
    change s'.admits c :: _ = s.admits c :: _
    rw [hadmits, ih hnext (keeps_step hkeeps c) (keeps_step hkeeps' c) hrest]

theorem answers_refused (hkeeps : s.governor.Keeps limits) (hrefused : s.Refused c)
    (hclock : Clocked c.now calls) :
    (s.step texts limits c).answers texts limits calls = s.answers texts limits calls := by
  obtain ⟨time, act⟩ := c
  obtain ⟨intent, address, written, throttle, rfl, hthrottle, hlimit⟩ := hrefused
  refine AlikeFrom.answers ?_ hkeeps (keeps_step hkeeps _) hclock
  have hrequest : s.request texts intent address written time =
      { s with governor := (s.governor.doAdmit intent.caller address time).2 } := by
    rw [request_eq, if_neg]
    intro hok
    rw [hthrottle] at hok
    exact absurd hok.1 Bool.false_ne_true
  change AlikeFrom time s { s.request texts intent address written time with windowStarts := _ }
  rw [hrequest]
  exact ⟨ActionGovernor.alike_of_limit hkeeps hthrottle hlimit, rfl⟩

omit [LinearOrder α] in
theorem clocked_of_append {before after : List (Call α)} (h : Clocked now (before ++ c :: after)) :
    Clocked c.now after := by
  unfold Clocked at h
  rw [map_append, ← cons_append] at h
  exact (pairwise_append.mp h).2.1

/-- In a run whose restarts all fit, actions on one address are a cooldown apart and no window
admits more than the caps; a request that the cooldown or a cap refuses changes no later answer,
whether the restarts fit or not. -/
theorem limits_hold (texts : AddressText α) (limits : ActionLimits) (now : ℕ)
    {calls : List (Call α)} (hclock : Clocked now calls) :
    (RestartsFit texts limits (Limited.start limits now) calls →
      Spaced limits ((Limited.start limits now).run texts limits calls).admitted ∧
        ∀ start ∈ ((Limited.start limits now).run texts limits calls).windowStarts,
          Capped limits start ((Limited.start limits now).run texts limits calls).admitted) ∧
      ∀ before c after, calls = before ++ c :: after →
        ((Limited.start limits now).run texts limits before).Refused c →
        ((Limited.start limits now).run texts limits (before ++ [c])).answers texts limits after =
          ((Limited.start limits now).run texts limits before).answers texts limits after := by
  refine ⟨fun hfits => ?_, fun before c after hcalls hrefused => ?_⟩
  · obtain ⟨last, hholds⟩ := (holds_start texts limits now).run hclock hfits
    exact ⟨hholds.guards.spaced, hholds.guards.capped⟩
  · subst hcalls
    have hrun : (Limited.start limits now).run texts limits (before ++ [c]) =
        ((Limited.start limits now).run texts limits before).step texts limits c := by
      unfold run
      rw [foldl_append]
      rfl
    rw [hrun]
    have hkeeps : ((Limited.start limits now).run texts limits before).governor.Keeps limits :=
      keeps_run (holds_start texts limits now).guards.keeps before
    exact answers_refused hkeeps hrefused (clocked_of_append hclock)

def plainTexts : AddressText Text := ⟨id, some, fun _ => rfl⟩

def ask (caller address : String) (secs : ℕ) : Call Text where
  now := secs * nanosPerSec
  act := .request { Ledger.banOf [] [] 0 with caller := caller.toList } address.toList true

/-- A caller acts on one address, and another one asks for it again behind a restart, a second too
early and then in time. -/
def acrossRestart : List (Call Text) :=
  [ask "token:a" "192.0.2.1" 1, ⟨5 * nanosPerSec, .restart⟩, ask "token:b" "192.0.2.1" 60,
    ask "token:b" "192.0.2.1" 61]

theorem acrossRestart_fits : RestartsFit plainTexts ActionLimits.standard
    (Limited.start ActionLimits.standard 0) acrossRestart := by
  refine ⟨fun h => absurd h Bool.false_ne_true, fun _ => ?_, fun h => absurd h Bool.false_ne_true,
    fun h => absurd h Bool.false_ne_true, trivial⟩
  exact
    { cooldown := by decide
      tracked := by decide +kernel
      server := by decide +kernel
      callers := fun caller => (length_filter_le _ _).trans (by decide +kernel)
      surface := by decide +kernel
      fraction := by decide +kernel }

/-- The second request is refused, and the third one is admitted. -/
theorem acrossRestart_held : Clocked 0 acrossRestart ∧
    RestartsFit plainTexts ActionLimits.standard (Limited.start ActionLimits.standard 0)
      acrossRestart ∧
    (Limited.start ActionLimits.standard 0).answers plainTexts ActionLimits.standard acrossRestart =
      [true, false, false, true] ∧
    Spaced ActionLimits.standard ((Limited.start ActionLimits.standard 0).run plainTexts
      ActionLimits.standard acrossRestart).admitted := by
  have hclock : Clocked 0 acrossRestart := by
    unfold Clocked
    decide +kernel
  exact ⟨hclock, acrossRestart_fits, by decide +kernel,
    ((limits_hold plainTexts ActionLimits.standard 0 hclock).1 acrossRestart_fits).1⟩

/-- Ten actions of one caller on ten addresses, across the end of a minute, and then a restart that
refuses the five it remembers last: another caller acts on one of their addresses at once. -/
def burst : List (Call Text) :=
  [ask "token:a" "192.0.2.1" 59, ask "token:a" "192.0.2.2" 59, ask "token:a" "192.0.2.3" 59,
    ask "token:a" "192.0.2.4" 59, ask "token:a" "192.0.2.5" 59, ask "token:a" "192.0.2.6" 60,
    ask "token:a" "192.0.2.7" 60, ask "token:a" "192.0.2.8" 60, ask "token:a" "192.0.2.9" 60,
    ask "token:a" "192.0.2.10" 60, ⟨61 * nanosPerSec, .restart⟩, ask "token:b" "192.0.2.6" 61]

theorem burst_within_cooldown : Clocked 0 burst ∧
    ¬ Spaced ActionLimits.standard ((Limited.start ActionLimits.standard 0).run plainTexts
      ActionLimits.standard burst).admitted := by
  unfold Clocked Spaced
  decide +kernel

end Limited

end Sipnab.Operations
