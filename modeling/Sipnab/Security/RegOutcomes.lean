import Sipnab.Security.RegFlood

/-!
# Transactions, not copies

What a flood is about: every credentialed transaction counts once, by the first copy of its request
and by its first final answer. The detector counts the same, as long as no request comes again
behind its answer.
-/

namespace Sipnab

open List Option

inductive RegAnswer
  | success | challenge | refusal
  deriving DecidableEq

def regAnswer (m : SipMessage) : Option RegAnswer :=
  m.statusCode.bind (fun status =>
    if completesRegistration m then some .success
    else if isChallenge status then some .challenge
    else if 200 ≤ status ∧ namesRegister m then some .refusal
    else none)

/-- The transactions of a run: each with the time of its first request, those that were answered,
and those whose answer was a challenge in time, since the window of their source was opened or
cleared. -/
structure RegOutcomes where
  attempts : List ((IpAddr × String) × DateTime)
  answered : List (IpAddr × String)
  failures : List (IpAddr × String)
  windows : IpAddr → Option DateTime

namespace RegOutcomes

variable (window timeout : ℤ)

def new : RegOutcomes := ⟨[], [], [], fun _ => none⟩

def sentAt (o : RegOutcomes) (t : IpAddr × String) : Option DateTime :=
  (o.attempts.find? (fun a => a.1 = t)).map Prod.snd

def clear (o : RegOutcomes) (ip : IpAddr) : RegOutcomes :=
  { o with failures := o.failures.filter (fun t => t.1 ≠ ip) }

def roll (o : RegOutcomes) (ip : IpAddr) (now : DateTime) : RegOutcomes :=
  match o.windows ip with
  | none => { o with windows := Function.update o.windows ip (some now) }
  | some start =>
    if window ≤ now - start then
      { o.clear ip with windows := Function.update o.windows ip (some now) }
    else o

/-- A credentialed request, the first copy or a later one. -/
def attempt (o : RegOutcomes) (t : IpAddr × String) (now : DateTime) : RegOutcomes :=
  if (o.sentAt t).isSome then o else { o with attempts := o.attempts ++ [(t, now)] }

def register (o : RegOutcomes) (m : SipMessage) : RegOutcomes :=
  let o := o.roll window m.srcAddr m.timestamp
  match credentialedKey m with
  | some key => o.attempt (m.srcAddr, key) m.timestamp
  | none => o

def settle (o : RegOutcomes) (a : RegAnswer) (t : IpAddr × String) (now : DateTime) : RegOutcomes :=
  match o.sentAt t with
  | none => o
  | some first =>
    if t ∈ o.answered then o
    else
      let o := { o with answered := o.answered ++ [t] }
      if a = .challenge ∧ now - first ≤ timeout then
        let o := o.roll window t.1 now
        { o with failures := o.failures ++ [t] }
      else o

def noted (o : RegOutcomes) (a : RegAnswer) (ip : IpAddr) : RegOutcomes :=
  if a = .success then o.clear ip else o

def respond (o : RegOutcomes) (m : SipMessage) : RegOutcomes :=
  match regAnswer m, o.windows m.dstAddr with
  | some a, some _ =>
    let o := o.noted a m.dstAddr
    match transactionKey m with
    | none => o
    | some key => o.settle window timeout a (m.dstAddr, key) m.timestamp
  | _, _ => o

def observe (o : RegOutcomes) (m : SipMessage) : RegOutcomes :=
  if m.isRequest then if m.method = some .register then o.register window m else o
  else o.respond window timeout m

def failuresOf (o : RegOutcomes) (ip : IpAddr) : ℕ := (o.failures.filter (fun t => t.1 = ip)).length

end RegOutcomes

/-! ## What the detector does with an answer -/

namespace RegFloodState

def noted (s : RegFloodState) (a : RegAnswer) (now : DateTime) : RegFloodState :=
  if a = .success then { s with lastSeen := now, authFailCount := 0 } else { s with lastSeen := now }

@[simp] theorem noted_pending (s : RegFloodState) (a : RegAnswer) (now : DateTime) :
    (s.noted a now).pending = s.pending := by
  unfold noted
  split_ifs
  · rfl
  · rfl

def afterAnswer (s : RegFloodState) (a : RegAnswer) (key : Option String) (now : DateTime)
    (window timeout : ℤ) : RegFloodState :=
  let s := s.noted a now
  match key.bind (fun k => (s.pending.peek k).map (k, ·)) with
  | none => s
  | some (k, sent) =>
    let s := { s with pending := s.pending.remove k }
    if a = .challenge ∧ now - sent ≤ timeout then
      let s := s.rollWindow now window
      { s with authFailCount := s.authFailCount + 1 }
    else s

end RegFloodState

namespace RegFloodDetector

structure Wrote (d d' : RegFloodDetector) (ip : IpAddr) (s : RegFloodState) : Prop where
  sources : d'.sources = d.sources.insert ip s
  credentialed : d'.observed.credentialed = d.observed.credentialed
  window : d'.window = d.window
  transactionTimeout : d'.transactionTimeout = d.transactionTimeout

variable (d : RegFloodDetector) (m : SipMessage)

theorem settle_state (s : RegFloodState) (key : Option String) (now : DateTime) :
    (d.settle s key now).1 =
      match key.bind (fun k => (s.pending.peek k).map (k, ·)) with
      | none => s
      | some (k, _) => { s with pending := s.pending.remove k } := by
  unfold settle
  cases key with
  | none => rfl
  | some k =>
    cases hpeek : s.pending.peek k with
    | none => simp [hpeek]
    | some sent => simp [hpeek]

theorem settle_wrote (s s' : RegFloodState) (key : Option String) (now : DateTime) (ip : IpAddr) :
    Wrote d { (d.settle s key now).2 with sources := (d.settle s key now).2.sources.insert ip s' } ip
      s' := by
  unfold settle
  split
  · exact ⟨rfl, rfl, rfl, rfl⟩
  · split
    · exact ⟨rfl, rfl, rfl, rfl⟩
    · dsimp only
      split_ifs
      · exact ⟨rfl, rfl, rfl, rfl⟩
      · exact ⟨rfl, rfl, rfl, rfl⟩

theorem observeResponse_wrote {s : RegFloodState} {a : RegAnswer} (now : DateTime)
    (hs : d.sources.peek m.dstAddr = some s) (ha : regAnswer m = some a) :
    Wrote d (d.observeResponse m now).2 m.dstAddr
      (s.afterAnswer a (transactionKey m) now d.window d.transactionTimeout) := by
  obtain ⟨status, hstatus, ha⟩ := bind_eq_some_iff.mp ha
  unfold observeResponse
  rw [hstatus]
  dsimp only
  rw [hs]
  dsimp only
  -- the count of the answers is all that is different so far
  generalize hd₀ : (if decide (200 ≤ status ∧ namesRegister m) then
    { d with observed.registerAnswers := d.observed.registerAnswers + 1 } else d) = d₀
  have hsame : ∀ d' s', Wrote d₀ d' m.dstAddr s' → Wrote d d' m.dstAddr s' := by
    intro d' s' h
    have h₀ : d₀.sources = d.sources ∧ d₀.observed.credentialed = d.observed.credentialed ∧
        d₀.window = d.window ∧ d₀.transactionTimeout = d.transactionTimeout := by
      rw [← hd₀]
      split_ifs
      · exact ⟨rfl, rfl, rfl, rfl⟩
      · exact ⟨rfl, rfl, rfl, rfl⟩
    obtain ⟨h₁, h₂, h₃, h₄⟩ := h₀
    exact ⟨h₁ ▸ h.sources, h₂ ▸ h.credentialed, h₃ ▸ h.window, h₄ ▸ h.transactionTimeout⟩
  have htimes : d₀.window = d.window ∧ d₀.transactionTimeout = d.transactionTimeout := by
    rw [← hd₀]
    split_ifs
    · exact ⟨rfl, rfl⟩
    · exact ⟨rfl, rfl⟩
  apply hsame
  rw [← htimes.1, ← htimes.2]
  have hsettled : ∀ b : RegAnswer, b ≠ .challenge →
      s.afterAnswer b (transactionKey m) now d₀.window d₀.transactionTimeout =
        (d₀.settle (s.noted b now) (transactionKey m) now).1 := by
    intro b hb
    rw [settle_state, RegFloodState.afterAnswer]
    cases b with
    | challenge => exact absurd rfl hb
    | success => rfl
    | refusal => rfl
  split_ifs at ha with hcompletes hchallenge hrefusal
  · cases ha
    rw [if_pos hcompletes, hsettled .success (by intro h; cases h)]
    exact d₀.settle_wrote _ _ _ _ _
  · cases ha
    rw [if_neg hcompletes, if_pos hchallenge, RegFloodState.afterAnswer]
    cases hkey : transactionKey m with
    | none => exact ⟨rfl, rfl, rfl, rfl⟩
    | some key =>
      cases hpeek : s.pending.peek key with
      | none =>
        simp only [RegFloodState.noted, reduceCtorEq, ↓reduceIte, hpeek, bind_some, map_none]
        exact ⟨rfl, rfl, rfl, rfl⟩
      | some sent =>
        simp only [RegFloodState.noted, reduceCtorEq, ↓reduceIte, hpeek, bind_some,
          map_some, settle]
        by_cases htime : now - sent ≤ d₀.transactionTimeout
        · simp only [htime, and_self, ↓reduceIte]
          exact ⟨rfl, rfl, rfl, rfl⟩
        · simp only [htime, and_false, ↓reduceIte]
          exact ⟨rfl, rfl, rfl, rfl⟩
  · cases ha
    rw [if_neg hcompletes, if_neg hchallenge, hsettled .refusal (by intro h; cases h)]
    simp only [hrefusal, and_self, decide_true, ↓reduceIte]
    exact d₀.settle_wrote _ _ _ _ _

theorem observeResponse_idle (now : DateTime) (ha : regAnswer m = none) :
    (d.observeResponse m now).2 = d ∨ ∃ s, d.sources.peek m.dstAddr = some s ∧
      Wrote d (d.observeResponse m now).2 m.dstAddr { s with lastSeen := now } := by
  cases hstatus : m.statusCode with
  | none => exact .inl (by rw [observeResponse, hstatus])
  | some status =>
    cases hs : d.sources.peek m.dstAddr with
    | none => exact .inl (by rw [observeResponse, hstatus]; dsimp only; rw [hs])
    | some s =>
      refine .inr ⟨s, rfl, ?_⟩
      unfold regAnswer at ha
      rw [hstatus, bind_some] at ha
      split_ifs at ha with hcompletes hchallenge hrefusal
      unfold observeResponse
      rw [hstatus]
      dsimp only
      rw [hs]
      dsimp only
      rw [if_neg hcompletes, if_neg hchallenge]
      simp only [hrefusal, decide_false, Bool.false_eq_true, ↓reduceIte]
      exact ⟨rfl, rfl, rfl, rfl⟩

theorem observeResponse_untracked (now : DateTime) (hs : d.sources.peek m.dstAddr = none) :
    (d.observeResponse m now).2 = d := by
  unfold observeResponse
  cases m.statusCode with
  | none => rfl
  | some status =>
    rw [hs]

end RegFloodDetector

/-! ## The account of one source -/

namespace RegOutcomes

structure WellFormed (o : RegOutcomes) : Prop where
  failed : ∀ t ∈ o.failures, t ∈ o.answered
  failures : o.failures.Nodup
  answered : ∀ t ∈ o.answered, (o.sentAt t).isSome
  attempts : (o.attempts.map Prod.fst).Nodup

/-- What the detector keeps for a source is what the outcomes say of it. -/
structure Tracks (o : RegOutcomes) (ip : IpAddr) (s : RegFloodState) : Prop where
  window : o.windows ip = some s.windowStart
  failures : s.authFailCount = o.failuresOf ip
  pending : ∀ k, (s.pending.peek k).isSome ↔ (o.sentAt (ip, k)).isSome ∧ (ip, k) ∉ o.answered

structure Elsewhere (ip : IpAddr) (o o' : RegOutcomes) : Prop where
  windows : ∀ ip', ip' ≠ ip → o'.windows ip' = o.windows ip'
  failures : ∀ ip', ip' ≠ ip → o'.failuresOf ip' = o.failuresOf ip'
  sentAt : ∀ ip', ip' ≠ ip → ∀ k, o'.sentAt (ip', k) = o.sentAt (ip', k)
  answered : ∀ ip', ip' ≠ ip → ∀ k, (ip', k) ∈ o'.answered ↔ (ip', k) ∈ o.answered

variable {o o' o'' : RegOutcomes} {ip : IpAddr} {s : RegFloodState}

theorem Elsewhere.refl (ip : IpAddr) (o : RegOutcomes) : Elsewhere ip o o :=
  ⟨fun _ _ => rfl, fun _ _ => rfl, fun _ _ _ => rfl, fun _ _ _ => Iff.rfl⟩

theorem Elsewhere.trans (h : Elsewhere ip o o') (h' : Elsewhere ip o' o'') :
    Elsewhere ip o o'' where
  windows ip' hip := (h'.windows ip' hip).trans (h.windows ip' hip)
  failures ip' hip := (h'.failures ip' hip).trans (h.failures ip' hip)
  sentAt ip' hip k := (h'.sentAt ip' hip k).trans (h.sentAt ip' hip k)
  answered ip' hip k := (h'.answered ip' hip k).trans (h.answered ip' hip k)

theorem Elsewhere.tracks (h : Elsewhere ip o o') {ip' : IpAddr} (hip : ip' ≠ ip)
    (ht : o.Tracks ip' s) : o'.Tracks ip' s where
  window := (h.windows ip' hip).trans ht.window
  failures := ht.failures.trans (h.failures ip' hip).symm
  pending k := by
    rw [h.sentAt ip' hip, h.answered ip' hip]
    exact ht.pending k

theorem failuresOf_clear_self (o : RegOutcomes) (ip : IpAddr) : (o.clear ip).failuresOf ip = 0 := by
  simp [failuresOf, clear, List.filter_filter]

theorem failuresOf_clear_other (o : RegOutcomes) {ip ip' : IpAddr} (h : ip' ≠ ip) :
    (o.clear ip).failuresOf ip' = o.failuresOf ip' := by
  unfold failuresOf clear
  rw [List.filter_filter]
  congr 2
  funext t
  by_cases ht : t.1 = ip'
  · simp [ht, h]
  · simp [ht]

theorem elsewhere_clear (o : RegOutcomes) (ip : IpAddr) : Elsewhere ip o (o.clear ip) :=
  ⟨fun _ _ => rfl, fun _ hip => o.failuresOf_clear_other hip, fun _ _ _ => rfl, fun _ _ _ => Iff.rfl⟩

theorem WellFormed.clear (h : o.WellFormed) (ip : IpAddr) : (o.clear ip).WellFormed :=
  ⟨fun t ht => h.failed t (mem_of_mem_filter ht), h.failures.filter _, h.answered, h.attempts⟩

theorem elsewhere_noted (o : RegOutcomes) (a : RegAnswer) (ip : IpAddr) :
    Elsewhere ip o (o.noted a ip) := by
  unfold noted
  split_ifs
  · exact elsewhere_clear o ip
  · exact Elsewhere.refl ip o

theorem WellFormed.noted (h : o.WellFormed) (a : RegAnswer) (ip : IpAddr) :
    (o.noted a ip).WellFormed := by
  unfold RegOutcomes.noted
  split_ifs
  · exact h.clear ip
  · exact h

theorem noted_attempts (o : RegOutcomes) (a : RegAnswer) (ip : IpAddr) :
    (o.noted a ip).attempts = o.attempts := by
  unfold noted
  split_ifs
  · rfl
  · rfl

theorem Tracks.noted (h : o.Tracks ip s) (a : RegAnswer) (now : DateTime) :
    (o.noted a ip).Tracks ip (s.noted a now) := by
  unfold RegOutcomes.noted RegFloodState.noted
  split_ifs
  · exact ⟨h.window, (o.failuresOf_clear_self ip).symm, h.pending⟩
  · exact ⟨h.window, h.failures, h.pending⟩

variable (window : ℤ)

theorem elsewhere_roll (o : RegOutcomes) (ip : IpAddr) (now : DateTime) :
    Elsewhere ip o (o.roll window ip now) := by
  unfold roll
  split
  · exact ⟨fun _ hip => Function.update_of_ne hip _ _, fun _ _ => rfl, fun _ _ _ => rfl,
      fun _ _ _ => Iff.rfl⟩
  · split_ifs
    · exact ⟨fun _ hip => Function.update_of_ne hip _ _,
        fun _ hip => o.failuresOf_clear_other hip, fun _ _ _ => rfl, fun _ _ _ => Iff.rfl⟩
    · exact Elsewhere.refl ip o

theorem WellFormed.roll (h : o.WellFormed) (ip : IpAddr) (now : DateTime) :
    (o.roll window ip now).WellFormed := by
  unfold RegOutcomes.roll
  split
  · exact ⟨h.failed, h.failures, h.answered, h.attempts⟩
  · split_ifs
    · have hclear := h.clear ip
      exact ⟨hclear.failed, hclear.failures, hclear.answered, hclear.attempts⟩
    · exact h

theorem roll_attempts (o : RegOutcomes) (ip : IpAddr) (now : DateTime) :
    (o.roll window ip now).attempts = o.attempts ∧
      (o.roll window ip now).answered = o.answered := by
  unfold roll
  split
  · exact ⟨rfl, rfl⟩
  · split_ifs
    · exact ⟨rfl, rfl⟩
    · exact ⟨rfl, rfl⟩

theorem Tracks.roll (h : o.Tracks ip s) (now : DateTime) :
    (o.roll window ip now).Tracks ip (s.rollWindow now window) := by
  unfold RegOutcomes.roll RegFloodState.rollWindow
  rw [h.window]
  dsimp only
  split_ifs
  · exact ⟨Function.update_self _ _ _, (o.failuresOf_clear_self ip).symm, h.pending⟩
  · exact h

theorem mem_attempts_iff (o : RegOutcomes) (t : IpAddr × String) :
    t ∈ o.attempts.map Prod.fst ↔ (o.sentAt t).isSome := by
  unfold sentAt
  rw [isSome_map, List.find?_isSome, List.mem_map]
  simp only [decide_eq_true_eq]

theorem sentAt_attempt (o : RegOutcomes) (t t' : IpAddr × String) (now : DateTime) :
    ((o.attempt t now).sentAt t').isSome ↔ (o.sentAt t').isSome ∨ t' = t := by
  unfold attempt
  split_ifs with hold
  · constructor
    · exact .inl
    · rintro (h | rfl)
      · exact h
      · exact hold
  · rw [← mem_attempts_iff, ← mem_attempts_iff, map_append, mem_append]
    simp

theorem sentAt_attempt_of_ne (o : RegOutcomes) {t t' : IpAddr × String} (h : t' ≠ t)
    (now : DateTime) : (o.attempt t now).sentAt t' = o.sentAt t' := by
  unfold attempt
  split_ifs
  · rfl
  · unfold sentAt
    rw [List.find?_append]
    simp [h.symm]

theorem attempt_rest (o : RegOutcomes) (t : IpAddr × String) (now : DateTime) :
    (o.attempt t now).answered = o.answered ∧ (o.attempt t now).failures = o.failures ∧
      (o.attempt t now).windows = o.windows := by
  unfold attempt
  split_ifs
  · exact ⟨rfl, rfl, rfl⟩
  · exact ⟨rfl, rfl, rfl⟩

theorem failuresOf_congr (h : o'.failures = o.failures) (ip : IpAddr) :
    o'.failuresOf ip = o.failuresOf ip := by
  unfold failuresOf
  rw [h]

theorem elsewhere_attempt (o : RegOutcomes) (ip : IpAddr) (key : String) (now : DateTime) :
    Elsewhere ip o (o.attempt (ip, key) now) := by
  obtain ⟨hanswered, hfailures, hwindows⟩ := o.attempt_rest (ip, key) now
  refine ⟨fun ip' _ => by rw [hwindows], fun ip' _ => failuresOf_congr hfailures ip',
    fun ip' hip k => o.sentAt_attempt_of_ne (fun heq => hip (congrArg Prod.fst heq)) now,
    fun ip' _ k => by rw [hanswered]⟩

theorem WellFormed.attempt (h : o.WellFormed) (t : IpAddr × String) (now : DateTime) :
    (o.attempt t now).WellFormed := by
  obtain ⟨hanswered, hfailures, -⟩ := o.attempt_rest t now
  refine ⟨?_, ?_, ?_, ?_⟩
  · rw [hanswered, hfailures]
    exact h.failed
  · rw [hfailures]
    exact h.failures
  · rw [hanswered]
    intro t' ht'
    exact (o.sentAt_attempt t t' now).mpr (.inl (h.answered t' ht'))
  · unfold RegOutcomes.attempt
    split_ifs with hold
    · exact h.attempts
    · rw [← mem_attempts_iff] at hold
      rw [map_append]
      refine nodup_append.mpr ⟨h.attempts, nodup_singleton _, fun a ha b hb => ?_⟩
      rw [List.mem_map] at hb
      obtain ⟨c, hc, rfl⟩ := hb
      obtain rfl := mem_singleton.mp hc
      rintro rfl
      exact hold ha

theorem length_attempt (o : RegOutcomes) (t : IpAddr × String) (now : DateTime) :
    (o.attempt t now).attempts.length =
      o.attempts.length + if (o.sentAt t).isSome then 0 else 1 := by
  unfold attempt
  split_ifs
  · rfl
  · exact length_append

theorem Tracks.attempt (h : o.Tracks ip s) {key : String} (hroom : s.pending.HasRoom key)
    (hopen : (ip, key) ∉ o.answered) (now : DateTime) :
    (o.attempt (ip, key) now).Tracks ip { s with pending := s.pending.insert key now } := by
  obtain ⟨hanswered, hfailures, hwindows⟩ := o.attempt_rest (ip, key) now
  refine ⟨?_, h.failures.trans (failuresOf_congr hfailures ip).symm, fun k => ?_⟩
  · rw [hwindows]
    exact h.window
  · dsimp only
    rw [LruMap.peek_insert hroom, hanswered, o.sentAt_attempt]
    by_cases hk : k = key
    · subst hk
      simpa using hopen
    · rw [if_neg hk, h.pending k]
      simp [hk]

variable (timeout : ℤ)

theorem Tracks.settle (h : o.Tracks ip s) (a : RegAnswer) {key : String} {sent first : DateTime}
    (hpeek : s.pending.peek key = some sent) (hfirst : o.sentAt (ip, key) = some first)
    (now : DateTime) (htime : a = .challenge → (now - sent ≤ timeout ↔ now - first ≤ timeout)) :
    (o.settle window timeout a (ip, key) now).Tracks ip
      (if a = .challenge ∧ now - sent ≤ timeout then
        { { s with pending := s.pending.remove key }.rollWindow now window with
          authFailCount :=
            ({ s with pending := s.pending.remove key }.rollWindow now window).authFailCount + 1 }
      else { s with pending := s.pending.remove key }) := by
  have hnew : (ip, key) ∉ o.answered := ((h.pending key).mp (by rw [hpeek]; rfl)).2
  have hremoved : Tracks { o with answered := o.answered ++ [(ip, key)] } ip
      { s with pending := s.pending.remove key } := by
    refine ⟨h.window, h.failures, fun k => ?_⟩
    dsimp only
    rw [LruMap.peek_remove]
    by_cases hk : k = key
    · subst hk
      simp
    · rw [if_neg hk, h.pending k]
      simp only [mem_append, mem_singleton, Prod.mk.injEq, hk, and_false, or_false]
      rfl
  unfold RegOutcomes.settle
  rw [hfirst]
  dsimp only
  rw [if_neg hnew]
  have hiff : (a = .challenge ∧ now - first ≤ timeout) ↔ (a = .challenge ∧ now - sent ≤ timeout) :=
    and_congr_right (fun ha => (htime ha).symm)
  by_cases hcounts : a = .challenge ∧ now - sent ≤ timeout
  · rw [if_pos hcounts, if_pos (hiff.mpr hcounts)]
    have hroll := hremoved.roll window now
    refine ⟨hroll.window, ?_, hroll.pending⟩
    dsimp only
    rw [hroll.failures]
    unfold failuresOf
    simp
  · rw [if_neg hcounts, if_neg (fun hc => hcounts (hiff.mp hc))]
    exact hremoved

theorem elsewhere_settle (o : RegOutcomes) (a : RegAnswer) (ip : IpAddr) (key : String)
    (now : DateTime) : Elsewhere ip o (o.settle window timeout a (ip, key) now) := by
  unfold RegOutcomes.settle
  split
  · exact Elsewhere.refl ip o
  · have hanswered : Elsewhere ip o { o with answered := o.answered ++ [(ip, key)] } :=
      ⟨fun _ _ => rfl, fun _ _ => rfl, fun _ _ _ => rfl, fun ip' hip k => by simp [hip]⟩
    split_ifs with hold hcounts
    · exact Elsewhere.refl ip o
    · refine (hanswered.trans (elsewhere_roll window _ ip now)).trans
        ⟨fun _ _ => rfl, fun ip' hip => ?_, fun _ _ _ => rfl, fun _ _ _ => Iff.rfl⟩
      simp [failuresOf, filter_append, Ne.symm hip]
    · exact hanswered

theorem WellFormed.settle (h : o.WellFormed) (a : RegAnswer) (t : IpAddr × String)
    (now : DateTime) : (o.settle window timeout a t now).WellFormed := by
  unfold RegOutcomes.settle
  cases hfirst : o.sentAt t with
  | none => exact h
  | some first =>
    dsimp only
    have hanswered : WellFormed { o with answered := o.answered ++ [t] } := by
      refine ⟨fun t' ht' => mem_append_left _ (h.failed t' ht'), h.failures,
        fun t' ht' => ?_, h.attempts⟩
      rcases mem_append.mp ht' with ht' | ht'
      · exact h.answered t' ht'
      · obtain rfl := mem_singleton.mp ht'
        change (o.sentAt t').isSome
        rw [hfirst]
        rfl
    split_ifs with hold hcounts
    · exact h
    · have hroll := hanswered.roll window t.1 now
      obtain ⟨hattempts, hsame⟩ := roll_attempts window
        { o with answered := o.answered ++ [t] } t.1 now
      refine ⟨fun t' ht' => ?_, ?_, hroll.answered, hroll.attempts⟩
      · rcases mem_append.mp ht' with ht' | ht'
        · exact hroll.failed t' ht'
        · obtain rfl := mem_singleton.mp ht'
          change t' ∈ (RegOutcomes.roll window _ t'.1 now).answered
          rw [hsame]
          exact mem_append_right _ (mem_singleton_self t')
      · refine nodup_append.mpr ⟨hroll.failures, nodup_singleton t, fun b hb c hc => ?_⟩
        obtain rfl := mem_singleton.mp hc
        rintro rfl
        -- a transaction that failed before was answered before
        have hkept : b ∈ o.failures := by
          have hsub : (RegOutcomes.roll window { o with answered := o.answered ++ [b] } b.1
              now).failures ⊆ o.failures := by
            unfold RegOutcomes.roll RegOutcomes.clear
            split
            · exact fun _ ht => ht
            · split_ifs
              · exact fun _ ht => mem_of_mem_filter ht
              · exact fun _ ht => ht
          exact hsub hb
        exact hold (h.failed b hkept)
    · exact hanswered

theorem settle_of_closed (o : RegOutcomes) (a : RegAnswer) {t : IpAddr × String} (now : DateTime)
    (h : ¬((o.sentAt t).isSome ∧ t ∉ o.answered)) : o.settle window timeout a t now = o := by
  unfold RegOutcomes.settle
  cases hfirst : o.sentAt t with
  | none => rfl
  | some first =>
    have hold : t ∈ o.answered := by
      by_contra hnew
      exact h ⟨by rw [hfirst]; rfl, hnew⟩
    dsimp only
    rw [if_pos hold]

theorem settle_attempts (o : RegOutcomes) (a : RegAnswer) (t : IpAddr × String) (now : DateTime) :
    (o.settle window timeout a t now).attempts = o.attempts := by
  unfold RegOutcomes.settle
  split
  · rfl
  · split_ifs
    · rfl
    · exact (roll_attempts window { o with answered := o.answered ++ [t] } t.1 now).1
    · rfl

end RegOutcomes

/-! ## The detector and the outcomes -/

structure RegSim (d : RegFloodDetector) (o : RegOutcomes) : Prop where
  tracked : ∀ ip s, d.sources.peek ip = some s → o.Tracks ip s
  untracked : ∀ ip, d.sources.peek ip = none → o.windows ip = none ∧ ∀ k, o.sentAt (ip, k) = none
  wellFormed : o.WellFormed
  credentialed : d.observed.credentialed = o.attempts.length

namespace RegSim

open RegFloodDetector RegOutcomes

variable {d d' : RegFloodDetector} {o o' : RegOutcomes} {ip : IpAddr} {s : RegFloodState}
  {m : SipMessage}

theorem write (h : RegSim d o) (hroom : d.sources.HasRoom ip)
    (hsources : d'.sources = d.sources.insert ip s) (helse : Elsewhere ip o o')
    (ht : o'.Tracks ip s) (hw : o'.WellFormed)
    (hcount : d'.observed.credentialed = o'.attempts.length) : RegSim d' o' := by
  have hpeek : ∀ ip', d'.sources.peek ip' = if ip' = ip then some s else d.sources.peek ip' := by
    intro ip'
    rw [hsources]
    exact LruMap.peek_insert hroom ip' s
  refine ⟨fun ip' s' hs' => ?_, fun ip' hnone => ?_, hw, hcount⟩
  · rw [hpeek] at hs'
    by_cases hip : ip' = ip
    · rw [if_pos hip] at hs'
      cases hs'
      rw [hip]
      exact ht
    · rw [if_neg hip] at hs'
      exact helse.tracks hip (h.tracked ip' s' hs')
  · rw [hpeek] at hnone
    by_cases hip : ip' = ip
    · rw [if_pos hip] at hnone
      cases hnone
    · rw [if_neg hip] at hnone
      obtain ⟨hwindow, hsent⟩ := h.untracked ip' hnone
      exact ⟨(helse.windows ip' hip).trans hwindow,
        fun k => (helse.sentAt ip' hip k).trans (hsent k)⟩

theorem tracks_seen (h : RegSim d o) (ip : IpAddr) (now : DateTime) (window : ℤ) :
    (o.roll window ip now).Tracks ip
      (({ (d.sources.peek ip).getD (RegFloodState.new now) with
        lastSeen := now } : RegFloodState).rollWindow now window) := by
  cases hs : d.sources.peek ip with
  | some s =>
    have ht := h.tracked ip s hs
    have hseen : o.Tracks ip { s with lastSeen := now } := ⟨ht.window, ht.failures, ht.pending⟩
    exact hseen.roll window now
  | none =>
    obtain ⟨hwindow, hsent⟩ := h.untracked ip hs
    have hnone : o.failuresOf ip = 0 := by
      unfold failuresOf
      rw [length_eq_zero_iff, filter_eq_nil_iff]
      rintro ⟨ip', k⟩ ht heq
      rw [decide_eq_true_eq] at heq
      have hsome := h.wellFormed.answered _ (h.wellFormed.failed _ ht)
      dsimp only at heq
      rw [heq, hsent k] at hsome
      cases hsome
    have hpending : ∀ k, (((.new 1024 : LruMap String DateTime)).peek k).isSome ↔
        (o.sentAt (ip, k)).isSome ∧ (ip, k) ∉ o.answered := by
      intro k
      rw [hsent k, LruMap.peek_new]
      simp
    unfold RegOutcomes.roll RegFloodState.rollWindow
    rw [hwindow]
    dsimp only
    rw [getD_none]
    split_ifs
    · exact ⟨Function.update_self _ _ _, hnone.symm, hpending⟩
    · exact ⟨Function.update_self _ _ _, hnone.symm, hpending⟩

def Uncapped (d : RegFloodDetector) (m : SipMessage) : Prop :=
  d.sources.HasRoom m.srcAddr ∧
    ∀ s ∈ d.sources.peek m.srcAddr, ∀ key ∈ credentialedKey m, s.pending.HasRoom key

instance (d : RegFloodDetector) (m : SipMessage) : Decidable (Uncapped d m) :=
  inferInstanceAs (Decidable (_ ∧ _))

theorem hasRoom_seen (hroom : Uncapped d m) (now : DateTime) {key : String}
    (hkey : credentialedKey m = some key) :
    (({ (d.sources.peek m.srcAddr).getD (RegFloodState.new now) with
      lastSeen := now } : RegFloodState).rollWindow now d.window).pending.HasRoom key := by
  have hkeep : ∀ s : RegFloodState, (s.rollWindow now d.window).pending = s.pending := by
    intro s
    unfold RegFloodState.rollWindow
    split_ifs
    · rfl
    · rfl
  rw [hkeep]
  cases hs : d.sources.peek m.srcAddr with
  | none => exact .inr (by decide : 0 < 1024)
  | some s => exact hroom.2 s hs key hkey

theorem register (h : RegSim d o) (hroom : Uncapped d m)
    (hnew : ∀ key ∈ credentialedKey m, (m.srcAddr, key) ∉ o.answered) :
    RegSim (d.observeRegister m m.timestamp) (o.register d.window m) := by
  have hseen := h.tracks_seen m.srcAddr m.timestamp d.window
  obtain ⟨hattempts, hanswered⟩ := roll_attempts d.window o m.srcAddr m.timestamp
  have helse := elsewhere_roll d.window o m.srcAddr m.timestamp
  have hw := h.wellFormed.roll d.window m.srcAddr m.timestamp
  unfold observeRegister RegOutcomes.register
  dsimp only
  cases hkey : credentialedKey m with
  | none =>
    refine h.write hroom.1 rfl helse ⟨hseen.window, hseen.failures, hseen.pending⟩ hw ?_
    rw [hattempts]
    exact h.credentialed
  | some key =>
    have hpending := hasRoom_seen hroom m.timestamp hkey
    generalize ({ (d.sources.peek m.srcAddr).getD (RegFloodState.new m.timestamp) with
      lastSeen := m.timestamp } : RegFloodState).rollWindow m.timestamp d.window = s at *
    have hopen : (m.srcAddr, key) ∉ (o.roll d.window m.srcAddr m.timestamp).answered := by
      rw [hanswered]
      exact hnew key hkey
    have hisNew := hseen.pending key
    rw [and_iff_left hopen] at hisNew
    dsimp only
    refine h.write hroom.1 rfl (helse.trans (elsewhere_attempt _ m.srcAddr key m.timestamp)) ?_
      (hw.attempt _ _) ?_
    · have htracks := hseen.attempt hpending hopen m.timestamp
      exact ⟨htracks.window, htracks.failures, htracks.pending⟩
    · rw [length_attempt, hattempts]
      change d.observed.credentialed + _ = _
      rw [h.credentialed]
      cases hpeek : s.pending.peek key with
      | none =>
        rw [hpeek] at hisNew
        simp [← hisNew]
      | some sent =>
        rw [hpeek] at hisNew
        simp [← hisNew]

theorem respond (h : RegSim d o) (hok : ∀ a key s sent first, regAnswer m = some a → a = .challenge →
      transactionKey m = some key → d.sources.peek m.dstAddr = some s →
      s.pending.peek key = some sent → o.sentAt (m.dstAddr, key) = some first →
      (m.timestamp - sent ≤ d.transactionTimeout ↔ m.timestamp - first ≤ d.transactionTimeout)) :
    RegSim (d.observeResponse m m.timestamp).2 (o.respond d.window d.transactionTimeout m) := by
  cases hs : d.sources.peek m.dstAddr with
  | none =>
    rw [d.observeResponse_untracked m _ hs, RegOutcomes.respond, (h.untracked _ hs).1]
    cases regAnswer m with
    | none => exact h
    | some a => exact h
  | some s =>
    have ht := h.tracked _ s hs
    have hroom := LruMap.hasRoom_of_peek hs
    cases ha : regAnswer m with
    | none =>
      rw [RegOutcomes.respond, ha]
      rcases d.observeResponse_idle m m.timestamp ha with hsame | ⟨s', hs', hwrote⟩
      · rw [hsame]
        exact h
      · cases hs.symm.trans hs'
        exact h.write hroom hwrote.sources (Elsewhere.refl _ o)
          ⟨ht.window, ht.failures, ht.pending⟩ h.wellFormed (hwrote.credentialed.trans h.credentialed)
    | some a =>
      have hwrote := d.observeResponse_wrote m m.timestamp hs ha
      rw [RegOutcomes.respond, ha, ht.window]
      dsimp only
      have helse := elsewhere_noted o a m.dstAddr
      have hw := h.wellFormed.noted a m.dstAddr
      have ht₁ := ht.noted a m.timestamp
      have hattempts := noted_attempts o a m.dstAddr
      unfold RegFloodState.afterAnswer at hwrote
      dsimp only at hwrote
      have hcredentialed : (d.observeResponse m m.timestamp).2.observed.credentialed =
          (o.noted a m.dstAddr).attempts.length := by
        rw [hattempts]
        exact hwrote.credentialed.trans h.credentialed
      cases hkey : transactionKey m with
      | none =>
        rw [hkey] at hwrote
        exact h.write hroom hwrote.sources helse ht₁ hw hcredentialed
      | some key =>
        rw [hkey, bind_some] at hwrote
        dsimp only
        cases hpeek : (s.noted a m.timestamp).pending.peek key with
        | none =>
          rw [hpeek] at hwrote
          have hclosed := (ht₁.pending key).not
          rw [hpeek] at hclosed
          rw [settle_of_closed _ _ _ _ _ (hclosed.mp (by simp))]
          exact h.write hroom hwrote.sources helse ht₁ hw hcredentialed
        | some sent =>
          rw [hpeek] at hwrote
          have hopen := (ht₁.pending key).mp (by rw [hpeek]; rfl)
          obtain ⟨first, hfirst⟩ := isSome_iff_exists.mp hopen.1
          refine h.write hroom hwrote.sources
            (helse.trans (elsewhere_settle _ _ _ _ _ _ _))
            (ht₁.settle d.window d.transactionTimeout a hpeek hfirst m.timestamp (fun hchallenge => ?_))
            (hw.settle _ _ _ _ _) ?_
          · rw [RegFloodState.noted_pending] at hpeek
            unfold sentAt at hfirst
            rw [hattempts] at hfirst
            exact hok a key s sent first ha hchallenge hkey hs hpeek hfirst
          · rw [settle_attempts]
            exact hcredentialed

end RegSim

/-! ## Whole runs -/

structure RegRun where
  detector : RegFloodDetector
  outcomes : RegOutcomes

namespace RegRun

def start (policy : RegFloodPolicy) : RegRun := ⟨.withPolicy policy, .new⟩

def step (r : RegRun) (m : SipMessage) : RegRun :=
  ⟨(r.detector.check m).2, r.outcomes.observe r.detector.window r.detector.transactionTimeout m⟩

def run (r : RegRun) (messages : List SipMessage) : RegRun := messages.foldl step r

/-- The failures of every source are its transactions challenged in time, each once, and the
credentialed attempts are the transactions. -/
structure Counted (r : RegRun) : Prop where
  failures : ∀ ip s, r.detector.sources.peek ip = some s →
    s.authFailCount = r.outcomes.failuresOf ip
  once : r.outcomes.failures.Nodup
  challenged : ∀ t ∈ r.outcomes.failures, (r.outcomes.sentAt t).isSome ∧ t ∈ r.outcomes.answered
  credentialed : r.detector.observed.credentialed = r.outcomes.attempts.length
  attempts : (r.outcomes.attempts.map Prod.fst).Nodup

/-- The caps are not reached, no request with credentials comes again behind the answer to its
transaction, and a challenge is in time by the first copy of its request exactly if it is by the
last. -/
structure Regular (r : RegRun) (m : SipMessage) : Prop where
  uncapped : m.isRequest = true → m.method = some .register → RegSim.Uncapped r.detector m
  notBehind : m.isRequest = true → m.method = some .register →
    ∀ key ∈ credentialedKey m, (m.srcAddr, key) ∉ r.outcomes.answered
  inTime : m.isRequest = false → regAnswer m = some .challenge → ∀ key ∈ transactionKey m,
    ∀ s ∈ r.detector.sources.peek m.dstAddr, ∀ sent ∈ s.pending.peek key,
    ∀ first ∈ r.outcomes.sentAt (m.dstAddr, key),
      (m.timestamp - sent ≤ r.detector.transactionTimeout ↔
        m.timestamp - first ≤ r.detector.transactionTimeout)

def RegularRun (r : RegRun) : List SipMessage → Prop
  | [] => True
  | m :: messages => r.Regular m ∧ RegularRun (r.step m) messages

variable {r : RegRun} {m : SipMessage}

theorem sim_step (h : RegSim r.detector r.outcomes) (hok : r.Regular m) :
    RegSim (r.step m).detector (r.step m).outcomes := by
  unfold step RegFloodDetector.check RegOutcomes.observe
  dsimp only
  -- the clock moves first, and nothing reads it here
  generalize hd : (if r.detector.latestPacket.all (· < m.timestamp) then
    { r.detector with latestPacket := some m.timestamp } else r.detector) = d
  have hsame : d.sources = r.detector.sources ∧ d.observed = r.detector.observed ∧
      d.window = r.detector.window ∧ d.transactionTimeout = r.detector.transactionTimeout := by
    rw [← hd]
    split_ifs
    · exact ⟨rfl, rfl, rfl, rfl⟩
    · exact ⟨rfl, rfl, rfl, rfl⟩
  obtain ⟨hsources, hobserved, hwindow, htimeout⟩ := hsame
  have hsim : RegSim d r.outcomes := by
    refine ⟨?_, ?_, h.wellFormed, ?_⟩
    · rw [hsources]
      exact h.tracked
    · rw [hsources]
      exact h.untracked
    · rw [hobserved]
      exact h.credentialed
  rw [← hwindow, ← htimeout]
  cases hrequest : m.isRequest with
  | true =>
    simp only [↓reduceIte]
    by_cases hmethod : m.method = some .register
    · rw [if_pos hmethod, if_pos hmethod]
      refine hsim.register ?_ (hok.notBehind hrequest hmethod)
      have huncapped := hok.uncapped hrequest hmethod
      unfold RegSim.Uncapped at huncapped ⊢
      rw [hsources]
      exact huncapped
    · rw [if_neg hmethod, if_neg hmethod]
      exact hsim
  | false =>
    simp only [Bool.false_eq_true, ↓reduceIte]
    refine hsim.respond (fun a key s sent first ha hchallenge hkey hs hsent hfirst => ?_)
    rw [hchallenge] at ha
    rw [hsources] at hs
    rw [htimeout]
    exact hok.inTime hrequest ha key hkey s hs sent hsent first hfirst

theorem sim_run (h : RegSim r.detector r.outcomes) {messages : List SipMessage}
    (hok : r.RegularRun messages) :
    RegSim (r.run messages).detector (r.run messages).outcomes := by
  induction messages generalizing r with
  | nil => exact h
  | cons m messages ih => exact ih (sim_step h hok.1) hok.2

theorem sim_start (policy : RegFloodPolicy) :
    RegSim (start policy).detector (start policy).outcomes where
  tracked ip s hs := by cases hs
  untracked ip _ := ⟨rfl, fun _ => rfl⟩
  wellFormed := ⟨fun _ ht => absurd ht not_mem_nil, nodup_nil,
    fun _ ht => absurd ht not_mem_nil, nodup_nil⟩
  credentialed := rfl

/-- Copies of requests and of responses add nothing, as long as no request comes again behind its
answer. -/
theorem regFlood_counts (policy : RegFloodPolicy) (messages : List SipMessage)
    (hregular : (start policy).RegularRun messages) : ((start policy).run messages).Counted := by
  have hsim := sim_run (sim_start policy) hregular
  exact ⟨fun ip s hs => (hsim.tracked ip s hs).failures, hsim.wellFormed.failures,
    fun t ht => ⟨hsim.wellFormed.answered t (hsim.wellFormed.failed t ht),
      hsim.wellFormed.failed t ht⟩, hsim.credentialed, hsim.wellFormed.attempts⟩

def registerHeaders : List SipHeader :=
  [⟨"Via", "SIP/2.0/UDP 10.0.0.1;branch=z9hG4bK7"⟩, ⟨"Call-ID", "a1"⟩, ⟨"CSeq", "2 REGISTER"⟩]

def credentialedCopy (second : ℤ) : SipMessage where
  isRequest := true
  method := some .register
  statusCode := none
  requestUri := some "sip:example.com"
  headers := registerHeaders ++ [⟨"Authorization", "Digest username=\"a\""⟩]
  body := []
  timestamp := second * 1000000000
  srcAddr := .v4 0x0a000001
  dstAddr := .v4 0x0a000002
  srcPort := 5060
  dstPort := 5060
  isRetransmission := false
  frame := none
  inputOrigin := none

def challengeCopy (second : ℤ) : SipMessage :=
  { credentialedCopy second with
    isRequest := false
    method := none
    statusCode := some 401
    requestUri := none
    headers := registerHeaders
    srcAddr := .v4 0x0a000002
    dstAddr := .v4 0x0a000001 }

def minutePolicy : RegFloodPolicy := ⟨50, 60, 32000⟩

/-- The request comes twice before its answer, and the answer twice: one failure. -/
theorem regFlood_counts_copies :
    ((start minutePolicy).run [credentialedCopy 0, credentialedCopy 1, challengeCopy 2,
      challengeCopy 3]).Counted ∧
    (((start minutePolicy).run [credentialedCopy 0, credentialedCopy 1, challengeCopy 2,
      challengeCopy 3]).detector.sources.peek (.v4 0x0a000001)).map
        RegFloodState.authFailCount = some 1 := by
  refine ⟨regFlood_counts minutePolicy _ ⟨?_, ?_, ?_, ?_, trivial⟩, by decide +kernel⟩
  all_goals exact ⟨by decide +kernel, by decide +kernel, by decide +kernel⟩

/-- The request comes again behind its answer, and the answer with it: a second failure, and a second
attempt. -/
theorem not_counted_behind :
    ¬((start minutePolicy).run [credentialedCopy 0, challengeCopy 1, credentialedCopy 2,
      challengeCopy 3]).Counted := by
  intro h
  have hcredentialed := h.credentialed
  revert hcredentialed
  decide +kernel

end RegRun

end Sipnab
