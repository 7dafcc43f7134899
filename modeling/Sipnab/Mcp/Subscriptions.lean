import Sipnab.Lib.IndexMap

/-!
# Resource subscriptions

A watcher looks at its resource again and again. Where the store has a new generation it renders
the resource, and tells the client of content that is not the content it was last told of, at most
once in an interval. A change that comes too early for that is not recorded, so the next look finds
it again.
-/

namespace Sipnab.Mcp

open List IndexMap

def debounce : ℕ := 1000000000

def maxSubscriptions : ℕ := 16

def digest (bytes : List UInt8) : UInt64 :=
  bytes.foldl (fun hash b => (hash ^^^ b.toUInt64) * 0x00000100000001b3) 0xcbf29ce484222325

inductive Tick
  | gone
  | unchanged
  | sameContent
  | debounced
  | notify
  deriving DecidableEq

inductive Refusal
  | tooMany (limit : ℕ)

structure Watched where
  generation : ℕ
  announced : UInt64
  announcedAt : ℕ

abbrev Subscriptions := IndexMap String Watched

namespace Subscriptions

def add (held : Subscriptions) (uri : String) (generation : ℕ) (digest : UInt64) (now : ℕ) :
    Except Refusal Bool × Subscriptions :=
  if uri ∈ held.keys then (.ok false, held)
  else if maxSubscriptions ≤ held.length then (.error (.tooMany maxSubscriptions), held)
  else (.ok true, held.insert uri ⟨generation, digest, now⟩)

def remove (held : Subscriptions) (uri : String) : Bool × Subscriptions :=
  (uri ∈ held.keys, held.filter (fun e => e.1 ≠ uri))

/-- A tick of the watcher of a URI. The resource is rendered only where the store has moved. -/
def tick (held : Subscriptions) (uri : String) (generation now : ℕ) (render : Unit → UInt64) :
    Tick × Subscriptions :=
  match held.get? uri with
  | none => (.gone, held)
  | some state =>
    if state.generation = generation then (.unchanged, held)
    else if render () = state.announced then
      (.sameContent, held.insert uri { state with generation := generation })
    -- Nothing is recorded here, so that the change is seen again.
    else if now - state.announcedAt < debounce then (.debounced, held)
    else (.notify, held.insert uri ⟨generation, render (), now⟩)

end Subscriptions

/-! ## Runs -/

/-- The store at one moment, with what each resource renders to. -/
structure Rendered where
  generation : ℕ
  content : String → List UInt8

inductive Call
  | subscribe (uri : String)
  | unsubscribe (uri : String)
  | tick (uri : String)
  deriving DecidableEq

structure Step where
  now : ℕ
  store : Rendered
  call : Call

namespace Step

def content (s : Step) (uri : String) : List UInt8 := s.store.content uri

def perform (s : Step) (held : Subscriptions) : Option Tick × Subscriptions :=
  match s.call with
  | .subscribe uri =>
    (none, (held.add uri s.store.generation (digest (s.content uri)) s.now).2)
  | .unsubscribe uri => (none, (held.remove uri).2)
  | .tick uri =>
    let result := held.tick uri s.store.generation s.now (fun _ => digest (s.content uri))
    (some result.1, result.2)

/-- The clock and the generation do not go back, and content changes only with the generation. -/
def Follows (a b : Step) : Prop :=
  a.now ≤ b.now ∧ a.store.generation ≤ b.store.generation ∧
    (a.store.generation = b.store.generation → a.store.content = b.store.content)

theorem Follows.trans {a b c : Step} (hab : a.Follows b) (hbc : b.Follows c) : a.Follows c := by
  obtain ⟨hnow, hle, hsame⟩ := hab
  obtain ⟨hnow', hle', hsame'⟩ := hbc
  refine ⟨Nat.le_trans hnow hnow', Nat.le_trans hle hle', fun heq => ?_⟩
  rw [hsame (by omega), hsame' (by omega)]

instance instTransFollows : Trans Follows Follows Follows := ⟨Follows.trans⟩

end Step

variable {uri : String} {held : Subscriptions} {first s : Step} {steps done : List Step}

def after (held : Subscriptions) (steps : List Step) : Subscriptions :=
  steps.foldl (fun held s => (s.perform held).2) held

def notified (uri : String) : Subscriptions → List Step → List Step
  | _, [] => []
  | held, s :: steps =>
    (if s.call = .tick uri ∧ (s.perform held).1 = some .notify then [s] else []) ++
      notified uri (s.perform held).2 steps

theorem notified_append (held : Subscriptions) (done steps : List Step) :
    notified uri held (done ++ steps) = notified uri held done ++
      notified uri (after held done) steps := by
  induction done generalizing held with
  | nil => rfl
  | cons s done ih =>
    rw [cons_append, notified, ih, notified, append_assoc]
    rfl

/-- The step that last told the client of the resource, or the one that subscribed. -/
def announced (uri : String) (held : Subscriptions) (first : Step) (steps : List Step) : Step :=
  (notified uri held steps).getLast?.getD first

/-! ## What one step keeps -/

/-- The entry of the resource says what was last announced. Its generation is that of a step so far,
and the content has not changed between that step and the last announcement. -/
structure Watches (uri : String) (held : Subscriptions) (seen : List Step) (last : Step) :
    Prop where
  mem : last ∈ seen
  entry : ∃ state, held.get? uri = some state ∧ state.announced = digest (last.content uri) ∧
    state.announcedAt = last.now ∧
    ∃ s ∈ seen, s.store.generation = state.generation ∧ s.content uri = last.content uri

variable {seen : List Step} {last : Step}

theorem Watches.of_get? (h : Watches uri held seen last) {held' : Subscriptions}
    (hget : held'.get? uri = held.get? uri) : Watches uri held' (seen ++ [s]) last := by
  obtain ⟨hmem, state, hstate, hdigest, htime, t, ht, hgeneration, hcontent⟩ := h
  exact ⟨mem_append_left _ hmem, state, hget.trans hstate, hdigest, htime, t,
    mem_append_left _ ht, hgeneration, hcontent⟩

theorem get?_add_of_some {state : Watched} (h : held.get? uri = some state) (other : String)
    (generation : ℕ) (d : UInt64) (now : ℕ) :
    (held.add other generation d now).2.get? uri = held.get? uri := by
  rw [Subscriptions.add]
  split_ifs with hmem hfull
  · rfl
  · rfl
  · rw [get?_insert, if_neg]
    rintro rfl
    exact hmem (mem_keys_of_mem_entries (IndexMap.get?_eq_some_iff.mp h))

theorem get?_remove_of_ne {other : String} (hne : uri ≠ other) :
    (held.remove other).2.get? uri = held.get? uri := by
  rw [Subscriptions.remove, get?_filter_key held (fun k => k ≠ other) uri,
    if_pos (by simpa using hne)]

theorem get?_tick_of_ne {other : String} (hne : uri ≠ other) (generation now : ℕ)
    (render : Unit → UInt64) :
    (held.tick other generation now render).2.get? uri = held.get? uri := by
  rw [Subscriptions.tick]
  cases held.get? other with
  | none => rfl
  | some state =>
    dsimp only
    split_ifs
    · rfl
    · rw [get?_insert, if_neg hne]
    · rfl
    · rw [get?_insert, if_neg hne]

theorem Watches.perform_other (h : Watches uri held seen last)
    (htick : s.call ≠ .tick uri) (hkeep : s.call ≠ .unsubscribe uri) :
    Watches uri (s.perform held).2 (seen ++ [s]) last := by
  apply h.of_get?
  obtain ⟨-, state, hstate, -⟩ := h
  rw [Step.perform]
  cases hcall : s.call with
  | subscribe other => exact get?_add_of_some hstate other _ _ _
  | unsubscribe other =>
    have hne : uri ≠ other := fun heq => hkeep (by rw [hcall, heq])
    exact get?_remove_of_ne hne
  | tick other =>
    have hne : uri ≠ other := fun heq => htick (by rw [hcall, heq])
    exact get?_tick_of_ne hne _ _ _

/-- What a tick of the watcher does: it announces other content when the time has come, or leaves
the announcement as it is, with the same content or too early. -/
theorem Watches.perform_tick (h : Watches uri held seen last) (hcall : s.call = .tick uri)
    (hfollows : ∀ t ∈ seen, t.Follows s)
    (hdigest : ∀ t ∈ seen, digest (s.content uri) = digest (t.content uri) →
      s.content uri = t.content uri) :
    ((s.perform held).1 = some .notify ∧ last.now + debounce ≤ s.now ∧
        s.content uri ≠ last.content uri ∧ Watches uri (s.perform held).2 (seen ++ [s]) s) ∨
      ((s.perform held).1 ≠ some .notify ∧
        (s.content uri = last.content uri ∨ s.now < last.now + debounce) ∧
        Watches uri (s.perform held).2 (seen ++ [s]) last) := by
  have hmem := h.mem
  have hkept : Watches uri held (seen ++ [s]) last := h.of_get? rfl
  obtain ⟨-, state, hstate, hannounced, htime, t, ht, hgeneration, hcontent⟩ := h
  have hself : s ∈ seen ++ [s] := mem_append_right _ (mem_singleton_self s)
  rw [Step.perform, hcall]
  dsimp only
  rw [Subscriptions.tick, hstate]
  dsimp only
  split_ifs with hsame hagain hearly
  · -- The store has not moved since a step that had the announced content.
    refine Or.inr ⟨by simp, Or.inl ?_, hkept⟩
    have hstore := (hfollows t ht).2.2 (by rw [hgeneration, hsame])
    rw [← hcontent, Step.content, Step.content, hstore]
  · have hequal : s.content uri = last.content uri := hdigest last hmem (hagain.trans hannounced)
    refine Or.inr ⟨by simp, Or.inl hequal, hkept.mem,
      { state with generation := s.store.generation }, ?_, hannounced, htime, s, hself, rfl, hequal⟩
    rw [get?_insert, if_pos rfl]
  · refine Or.inr ⟨by simp, Or.inr ?_, hkept⟩
    rw [← htime]
    omega
  · refine Or.inl ⟨rfl, ?_, ?_, hself, ⟨s.store.generation, digest (s.content uri), s.now⟩, ?_, rfl,
      rfl, s, hself, rfl, rfl⟩
    · have hle := (hfollows last hmem).1
      rw [htime] at hearly
      omega
    · intro heq
      exact hagain (by rw [heq, hannounced])
    · rw [get?_insert, if_pos rfl]

/-! ## Whole runs -/

/-- Steps behind a subscription that is not given up. Of the contents that the resource has, no two
have one digest. -/
structure Watching (uri : String) (held : Subscriptions) (first : Step) (steps : List Step) :
    Prop where
  subscribes : first.call = .subscribe uri
  added : (held.add uri first.store.generation (digest (first.content uri)) first.now).1 = .ok true
  kept : ∀ s ∈ steps, s.call ≠ .unsubscribe uri
  history : (first :: steps).IsChain Step.Follows
  distinct : ∀ a ∈ first :: steps, ∀ b ∈ first :: steps,
    digest (a.content uri) = digest (b.content uri) → a.content uri = b.content uri

theorem Watching.start (h : Watching uri held first steps) :
    Watches uri (first.perform held).2 [first] first := by
  have hadded := h.added
  refine ⟨mem_singleton_self _, ⟨first.store.generation, digest (first.content uri),
    first.now⟩, ?_, rfl, rfl, first, mem_singleton_self _, rfl, rfl⟩
  rw [Step.perform, h.subscribes]
  dsimp only
  rw [Subscriptions.add] at hadded ⊢
  by_cases hmem : uri ∈ held.keys
  · rw [if_pos hmem] at hadded
    cases hadded
  · by_cases hfull : maxSubscriptions ≤ held.length
    · rw [if_neg hmem, if_pos hfull] at hadded
      cases hadded
    · rw [if_neg hmem, if_neg hfull, get?_insert, if_pos rfl]

theorem Watching.follows (h : Watching uri held first (done ++ s :: steps)) :
    ∀ t ∈ first :: done, t.Follows s := by
  have hpairs : ((first :: done) ++ s :: steps).Pairwise Step.Follows :=
    isChain_iff_pairwise.mp h.history
  exact fun t ht => (pairwise_append.mp hpairs).2.2 t ht s mem_cons_self

theorem Watching.of_append (h : Watching uri held first (done ++ steps)) :
    Watching uri held first done where
  subscribes := h.subscribes
  added := h.added
  kept := fun s hs => h.kept s (mem_append_left _ hs)
  history := by
    have hall := h.history
    rw [← cons_append] at hall
    exact hall.left_of_append
  distinct := fun a ha b hb => h.distinct a (mem_append_left steps ha) b (mem_append_left steps hb)

structure Told (uri : String) (held : Subscriptions) (first : Step) (done : List Step) : Prop where
  watches : Watches uri (after held done) (first :: done) (announced uri held first done)
  apart : (first :: notified uri held done).IsChain
    (fun a b => a.now + debounce ≤ b.now ∧ b.content uri ≠ a.content uri)

theorem after_concat : after held (done ++ [s]) = (s.perform (after held done)).2 :=
  foldl_append

theorem notified_concat : notified uri held (done ++ [s]) = notified uri held done ++
    if s.call = .tick uri ∧ (s.perform (after held done)).1 = some .notify then [s] else [] := by
  rw [notified_append, notified, notified, append_nil]

theorem announced_of_notify (hcall : s.call = .tick uri)
    (hnotify : (s.perform (after held done)).1 = some .notify) :
    announced uri held first (done ++ [s]) = s := by
  rw [announced, notified_concat, if_pos ⟨hcall, hnotify⟩, List.getLast?_concat, Option.getD_some]

theorem notified_of_silent
    (hsilent : s.call ≠ .tick uri ∨ (s.perform (after held done)).1 ≠ some .notify) :
    notified uri held (done ++ [s]) = notified uri held done := by
  rw [notified_concat, if_neg (by tauto), append_nil]

theorem Told.of_silent (h : Told uri held first done)
    (hsilent : s.call ≠ .tick uri ∨ (s.perform (after held done)).1 ≠ some .notify)
    (hwatches : Watches uri (s.perform (after held done)).2 (first :: done ++ [s])
      (announced uri held first done)) : Told uri held first (done ++ [s]) := by
  refine ⟨?_, ?_⟩
  · rw [after_concat, announced, notified_of_silent hsilent]
    exact hwatches
  · rw [notified_of_silent hsilent]
    exact h.apart

/-- One more step keeps it. Where the watcher looks and an interval has passed, the client has been
told of the content. -/
theorem Told.step (h : Told uri held first done) (hkept : s.call ≠ .unsubscribe uri)
    (hfollows : ∀ t ∈ first :: done, t.Follows s)
    (hdigest : ∀ t ∈ first :: done, digest (s.content uri) = digest (t.content uri) →
      s.content uri = t.content uri) :
    Told uri held first (done ++ [s]) ∧
      (s.call = .tick uri → (announced uri held first done).now + debounce ≤ s.now →
        (announced uri held first (done ++ [s])).content uri = s.content uri) := by
  by_cases hcall : s.call = .tick uri
  · obtain ⟨hnotify, hlate, hother, hwatches⟩ | ⟨hsilent, hcontent, hwatches⟩ :=
      h.watches.perform_tick hcall hfollows hdigest
    · have hlast : announced uri held first (done ++ [s]) = s := announced_of_notify hcall hnotify
      refine ⟨⟨?_, ?_⟩, fun _ _ => by rw [hlast]⟩
      · rw [after_concat, hlast]
        exact hwatches
      · rw [notified_concat, if_pos ⟨hcall, hnotify⟩, ← cons_append]
        refine h.apart.append (isChain_singleton s) fun a ha b hb => ?_
        rw [List.getLast?_cons] at ha
        obtain rfl := Option.some.inj ha
        obtain rfl := Option.some.inj hb
        exact ⟨hlate, hother⟩
    · refine ⟨h.of_silent (Or.inr hsilent) hwatches, fun _ hlate => ?_⟩
      rw [announced, notified_of_silent (Or.inr hsilent), ← announced]
      obtain heq | hearly := hcontent
      · exact heq.symm
      · omega
  · refine ⟨h.of_silent (Or.inl hcall) (h.watches.perform_other hcall hkept), ?_⟩
    exact fun hcall' => absurd hcall' hcall

theorem Watching.told (h : Watching uri held first steps) :
    Told uri (first.perform held).2 first steps := by
  induction steps using List.reverseRecOn with
  | nil => exact ⟨h.start, isChain_singleton first⟩
  | append_singleton done s ih =>
    have hself : s ∈ first :: (done ++ [s]) := by simp
    refine ((ih h.of_append).step (h.kept s (by simp)) h.follows fun t ht => ?_).1
    exact h.distinct s hself t (mem_append_left [s] ht)

/-- Two announcements are an interval apart, none repeats the last content, and a look that comes an
interval behind the last announcement leaves the client with the content of that moment. -/
theorem announces_every_change (h : Watching uri held first steps) :
    (first :: notified uri (first.perform held).2 steps).Pairwise
        (fun a b => a.now + debounce ≤ b.now) ∧
      (first :: notified uri (first.perform held).2 steps).IsChain
        (fun a b => b.content uri ≠ a.content uri) ∧
      ∀ done s later, steps = done ++ s :: later → s.call = .tick uri →
        (announced uri (first.perform held).2 first done).now + debounce ≤ s.now →
          (announced uri (first.perform held).2 first (done ++ [s])).content uri =
            s.content uri := by
  refine ⟨?_, h.told.apart.imp fun _ _ hab => hab.2, ?_⟩
  · have htrans : ∀ a b c : Step, a.now + debounce ≤ b.now → b.now + debounce ≤ c.now →
        a.now + debounce ≤ c.now := fun a b c hab hbc => by omega
    have : Trans (fun a b : Step => a.now + debounce ≤ b.now)
        (fun a b : Step => a.now + debounce ≤ b.now)
        (fun a b : Step => a.now + debounce ≤ b.now) := ⟨fun {a b c} => htrans a b c⟩
    exact isChain_iff_pairwise.mp (h.told.apart.imp fun _ _ hab => hab.1)
  · rintro done s later rfl hcall hlate
    have hself : s ∈ first :: (done ++ s :: later) := by simp
    refine (h.of_append.told.step (h.kept s (by simp)) h.follows fun t ht => ?_).2 hcall hlate
    exact h.distinct s hself t (mem_append_left (s :: later) ht)

def sampleStep (now generation : ℕ) (byte : UInt8) (call : Call) : Step :=
  ⟨now, ⟨generation, fun _ => [byte]⟩, call⟩

def sampleFirst : Step := sampleStep 0 1 7 (.subscribe "live")

/-- A change that comes at once is held back, and told of when an interval has passed. -/
def sampleSteps : List Step :=
  [sampleStep 500000000 2 8 (.tick "live"), sampleStep 1000000000 2 8 (.tick "live")]

theorem watching_sample : Watching "live" IndexMap.empty sampleFirst sampleSteps where
  subscribes := rfl
  added := rfl
  kept := by decide
  history := by simp [sampleFirst, sampleSteps, sampleStep, Step.Follows]
  distinct := by decide

theorem announces_every_change_sample :
    notified "live" (sampleFirst.perform IndexMap.empty).2 sampleSteps =
        [sampleStep 1000000000 2 8 (.tick "live")] ∧
      (announced "live" (sampleFirst.perform IndexMap.empty).2 sampleFirst sampleSteps).content
        "live" = [8] :=
  ⟨rfl, (announces_every_change watching_sample).2.2
    [sampleStep 500000000 2 8 (.tick "live")] (sampleStep 1000000000 2 8 (.tick "live")) [] rfl rfl
    (by decide)⟩

/-! ## How many resources are watched -/

theorem Step.length_perform_le (h : held.length ≤ maxSubscriptions) :
    (s.perform held).2.length ≤ maxSubscriptions := by
  have hinsert : ∀ {uri state} new, held.get? uri = some state →
      (held.insert uri new).length ≤ maxSubscriptions := by
    intro uri state new hget
    have hmem := mem_keys_of_mem_entries (IndexMap.get?_eq_some_iff.mp hget)
    exact (length_alter_of_mem hmem _).trans_le h
  rw [perform]
  cases s.call with
  | subscribe uri =>
    dsimp only
    rw [Subscriptions.add]
    split_ifs with hmem hfull
    · exact h
    · exact h
    · exact (length_alter_of_not_mem hmem _).trans_le (not_le.mp hfull)
  | unsubscribe uri => exact (length_filter_le _ _).trans h
  | tick uri =>
    dsimp only
    rw [Subscriptions.tick]
    cases hget : held.get? uri with
    | none => exact h
    | some state =>
      dsimp only
      split_ifs
      · exact h
      · exact hinsert _ hget
      · exact h
      · exact hinsert _ hget

theorem length_after_le (steps : List Step) :
    (after IndexMap.empty steps).length ≤ maxSubscriptions := by
  induction steps using List.reverseRecOn with
  | nil => exact Nat.zero_le _
  | append_singleton steps s ih =>
    rw [after, foldl_append]
    exact Step.length_perform_le ih

end Sipnab.Mcp
