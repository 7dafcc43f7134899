import Sipnab.Actions.ServiceCalls

/-!
# Reverting everything from the command line

The bans to lift are listed before TFPS is asked what it holds. Its answer may prove that a ban in
doubt was placed: the ban is owned from then on, and is not on the list.
-/

namespace Sipnab.Operations

open List Option OrderedMap

variable {σ : Type}

/-- TFPS answers truthfully about the bans that it holds. It may drop bans on its own between two
questions, and places none. -/
structure Tfps.Truthful (tfps : Tfps σ) (holds : σ → BitVec 32 → Option (Option ℕ)) : Prop where
  listed : ∀ p list, (tfps.banned p).1 = .ok list →
    ∀ bits, (list.find? (fun row => row.1 = bits)).map Prod.snd = holds p bits
  asked : ∀ p bits, holds (tfps.banned p).2 bits = none ∨ holds (tfps.banned p).2 bits = holds p bits
  lifted : ∀ p bits, (tfps.unban bits p).1 = .ok .applied → holds (tfps.unban bits p).2 bits = none
  notHeld : ∀ p bits, (tfps.unban bits p).1 = .ok (.refused notBlocked) →
    holds (tfps.unban bits p).2 bits = none
  others : ∀ p bits other, other ≠ bits →
    holds (tfps.unban bits p).2 other = none ∨ holds (tfps.unban bits p).2 other = holds p other

structure Tfps.Keeps (tfps : Tfps σ) (holds : σ → BitVec 32 → Option (Option ℕ))
    (bits : BitVec 32) : Prop where
  asked : ∀ p, holds (tfps.banned p).2 bits = holds p bits
  held : ∀ p, holds p bits ≠ none → (tfps.unban bits p).1 ≠ .ok (.refused notBlocked)
  others : ∀ p other, other ≠ bits → holds (tfps.unban other p).2 bits = holds p bits

/-- The entries of a ledger stand under their own addresses and ids. -/
structure Ledger.Keyed (l : Ledger) : Prop where
  owned : ∀ k o, l.owned.get? k = some o → o.address = k
  inDoubt : ∀ k i, l.inDoubt.get? k = some i → i.id = k

namespace Ledger

variable {l : Ledger}

theorem keyed_empty (now : ℕ) : (empty now).Keyed where
  owned _ _ h := by cases h
  inDoubt _ _ h := by cases h

theorem Keyed.doAdmit (h : l.Keyed) (i : Intent) : (l.doAdmit i).Keyed := by
  refine ⟨h.owned, fun k i' hget => ?_⟩
  change (l.inDoubt.insert i.id i).get? k = some i' at hget
  rw [get?_insert] at hget
  split_ifs at hget with hk
  · cases hget
    exact hk.symm
  · exact h.inDoubt k i' hget

theorem Keyed.takeEffect (h : l.Keyed) (i : Intent) : (takeEffect i l).Keyed := by
  unfold Ledger.takeEffect
  split
  · split
    · refine ⟨fun k o hget => ?_, h.inDoubt⟩
      change (l.owned.insert i.address _).get? k = some o at hget
      rw [get?_insert] at hget
      split_ifs at hget with hk
      · cases hget
        exact hk.symm
      · exact h.owned k o hget
    · exact h
  · refine ⟨fun k o hget => ?_, h.inDoubt⟩
    change (l.owned.erase i.address).get? k = some o at hget
    rw [get?_erase] at hget
    split_ifs at hget
    exact h.owned k o hget

theorem Keyed.lapse (h : l.Keyed) (id address : Text) : (l.lapse id address).Keyed := by
  refine ⟨fun k o hget => ?_, fun k i hget => ?_⟩
  · rw [SameAt.get?_lapse] at hget
    split_ifs at hget
    · exact h.owned k o (filter_eq_some_iff.mp hget).1
    · exact h.owned k o hget
  · rw [(lapse_others id address l).1] at hget
    exact h.inDoubt k i hget

theorem Keyed.withDoubt (h : l.Keyed) (id : Option Text) {go : Intent → Ledger → Ledger}
    (hgo : ∀ i l', l'.Keyed → (go i l').Keyed) : (l.withDoubt id go).Keyed := by
  unfold Ledger.withDoubt
  split
  · refine hgo _ _ ⟨h.owned, fun k i hget => ?_⟩
    rw [get?_erase] at hget
    split_ifs at hget
    exact h.inDoubt k i hget
  · exact h

theorem Keyed.record (h : l.Keyed) (seq : ℕ) (e : Entry)
    (he : ∀ state, e = .checkpoint state → state.Keyed) : (l.record seq e).Keyed := by
  cases e with
  | intent reverts intent => exact h.doAdmit _
  | outcome revert id result detail =>
    unfold Ledger.record
    dsimp only
    split
    · exact h
    · refine h.withDoubt _ (fun i l' hl' => ?_)
      split
      · exact hl'.takeEffect i
      · exact hl'
  | reconciled id resolution =>
    refine h.withDoubt _ (fun i l' hl' => ?_)
    cases resolution with
    | applied => exact hl'.takeEffect i
    | notApplied => exact hl'
    | unknown => exact ⟨hl'.owned, hl'.inDoubt⟩
  | lapsedByPeer id address atSecs => exact h.lapse id address
  | checkpoint state => exact ⟨(he state rfl).owned, (he state rfl).inDoubt⟩
  | note kind => exact h

end Ledger

namespace Inner

variable {s s' : Inner σ} {e : Entry}

theorem lives_eq {s₁ : Inner σ} (h : s.lives = some s₁) : ∃ alive, s₁ = { s with alive := alive } := by
  unfold lives at h
  split at h
  · cases h
    exact ⟨s.alive, rfl⟩
  · cases h
  · cases h
    exact ⟨_, rfl⟩

theorem rollOver_ok {d : DiskStep} {j : RecordLog} (h : s.rollOver d j = .ok ⟨⟩ s') :
    s'.ledger = s.ledger ∧ s'.outside = s.outside := by
  unfold rollOver at h
  split at h
  · cases h
    exact ⟨rfl, rfl⟩
  · split at h
    · cases h
    · cases h
      exact ⟨rfl, rfl⟩

theorem write_ok (h : write e s = .ok ⟨⟩ s') :
    (∃ seq, s'.ledger = s.ledger.record seq e) ∧ s'.outside = s.outside := by
  unfold write at h
  split at h
  · cases h
  · cases h
  · rename_i s₁ j hlives hjournal
    obtain ⟨alive, rfl⟩ := lives_eq hlives
    dsimp only at h
    split at h
    · cases h
    · rename_i seq j' happend
      obtain ⟨hledger, houtside⟩ := rollOver_ok h
      exact ⟨⟨seq, hledger⟩, houtside⟩

end Inner

/-! ## What TFPS's list settles -/

def Intent.toOwned (i : Intent) (expires : ℕ) : Owned :=
  { id := i.id, address := i.address, expires := expires, atSecs := i.atSecs, seq := i.seq,
    caller := i.caller, surface := i.surface }

def Intent.effect (i : Intent) (owned : OrderedMap Text Owned) : OrderedMap Text Owned :=
  match i.verb with
  | .ban =>
    match i.expires with
    | some expires => owned.insert i.address (i.toOwned expires)
    | none => owned
  | .unban => owned.erase i.address

theorem Ledger.takeEffect_owned (i : Intent) (l : Ledger) :
    (takeEffect i l).owned = i.effect l.owned := by
  unfold takeEffect Intent.effect
  cases i.verb with
  | unban => rfl
  | ban =>
    cases i.expires with
    | none => rfl
    | some expires => rfl

theorem Ledger.record_reconciled {l : Ledger} {i : Intent} (h : l.inDoubt.get? i.id = some i)
    (seq : ℕ) (resolution : Resolution) :
    (l.record seq (.reconciled i.id resolution)).inDoubt = l.inDoubt.erase i.id ∧
      (l.record seq (.reconciled i.id resolution)).owned =
        (if resolution = .applied then i.effect l.owned else l.owned) ∧
      (l.record seq (.reconciled i.id resolution)).now = l.now := by
  have hrecord : l.record seq (.reconciled i.id resolution) =
      reconcile (some resolution) i { l with inDoubt := l.inDoubt.erase i.id } := by
    change l.withDoubt (some i.id) _ = _
    unfold withDoubt
    rw [bind_some, h]
    rfl
  rw [hrecord]
  cases resolution with
  | applied =>
    refine ⟨(takeEffect_others _ _).1, takeEffect_owned _ _, ?_⟩
    change (takeEffect i _).now = _
    unfold takeEffect
    split
    · split
      · rfl
      · rfl
    · rfl
  | notApplied => exact ⟨rfl, rfl, rfl⟩
  | unknown => exact ⟨rfl, rfl, rfl⟩

namespace ActionService

open Operations.Inner

variable (svc : ActionService σ) (list : List (BitVec 32 × Option ℕ))

def settles (i : Intent) : Option Resolution := i.resolve (svc.viewOf list i.address)

def settled (owned : OrderedMap Text Owned) (i : Intent) : OrderedMap Text Owned :=
  if svc.settles list i = some .applied then i.effect owned else owned

/-- The bans that TFPS's list proves to be placed through the service, in force. -/
def proven (l : Ledger) (nowUnix : ℕ) : OrderedMap Text Owned :=
  (l.doubts.foldl (svc.settled list) l.owned).retain (fun o => nowUnix < o.expires)

variable {svc} {list} {l : Ledger} {nowUnix : ℕ} {s s' : Inner σ}

theorem viewOf_ne_unreachable (address : Text) : svc.viewOf list address ≠ .unreachable := by
  unfold viewOf
  split
  · cases list.find? _ with
    | none => exact TfpsView.noConfusion
    | some row => exact TfpsView.noConfusion
  · exact TfpsView.noConfusion

theorem settles_isSome (svc : ActionService σ) (list : List (BitVec 32 × Option ℕ)) (i : Intent) :
    (svc.settles list i).isSome = true := by
  unfold settles Intent.resolve
  cases hview : svc.viewOf list i.address with
  | unreachable => exact absurd hview (viewOf_ne_unreachable _)
  | absent =>
    cases i.verb with
    | ban => rfl
    | unban => rfl
  | banned expires =>
    cases i.verb with
    | unban => rfl
    | ban =>
      dsimp only
      split
      · split_ifs
        · rfl
        · rfl
      · rfl

theorem nodup_doubts (hkeyed : l.Keyed) : (l.doubts.map Intent.id).Nodup := by
  have hids : l.doubts.map Intent.id = l.inDoubt.keys := by
    unfold Ledger.doubts OrderedMap.keys
    rw [List.map_map]
    refine map_congr_left (fun e he => ?_)
    exact hkeyed.inDoubt e.1 e.2 (OrderedMap.get?_eq_some_iff.mpr he)
  rw [hids]
  exact l.inDoubt.keys_nodup

variable {i : Intent} {x : Text}

theorem get?_doubt (hkeyed : l.Keyed) (h : i ∈ l.doubts) : l.inDoubt.get? i.id = some i := by
  obtain ⟨e, he, rfl⟩ := List.mem_map.mp h
  have hget := OrderedMap.get?_eq_some_iff.mpr he
  rw [hkeyed.inDoubt e.1 e.2 hget]
  exact hget

/-- What the loop over the actions in doubt leaves behind some of them. -/
structure Settled (svc : ActionService σ) (list : List (BitVec 32 × Option ℕ)) (s : Inner σ)
    (done : List Intent) (s' : Inner σ) : Prop where
  owned : s'.ledger.owned = done.foldl (svc.settled list) s.ledger.owned
  inDoubt : ∀ id, s'.ledger.inDoubt.get? id =
    if id ∈ done.map Intent.id then none else s.ledger.inDoubt.get? id
  outside : s'.outside = s.outside

theorem settleAll_ok (hkeyed : s.ledger.Keyed)
    (h : s.ledger.doubts.forM (svc.settleOne list) s = .ok ⟨⟩ s') :
    Settled svc list s s.ledger.doubts s' := by
  refine ok_forM (Settled svc list s) (fun done i rest s₁ s₂ hlist hinv hi => ?_)
    ⟨rfl, fun _ => rfl, rfl⟩ h
  have hnodup := nodup_doubts hkeyed
  rw [hlist, map_append, map_cons, nodup_append] at hnodup
  have hfresh : i.id ∉ done.map Intent.id := fun hmem => hnodup.2.2 i.id hmem i.id mem_cons_self rfl
  have hmem : i ∈ s.ledger.doubts := hlist ▸ mem_append_right _ mem_cons_self
  have hget : s₁.ledger.inDoubt.get? i.id = some i := by
    rw [hinv.inDoubt, if_neg hfresh]
    exact get?_doubt hkeyed hmem
  obtain ⟨resolution, hresolution⟩ := isSome_iff_exists.mp (svc.settles_isSome list i)
  unfold settles at hresolution
  unfold settleOne at hi
  rw [hresolution] at hi
  obtain ⟨⟨seq, hledger⟩, houtside⟩ := write_ok hi
  obtain ⟨hdoubt, howned, -⟩ := Ledger.record_reconciled hget seq resolution
  refine ⟨?_, fun id => ?_, houtside.trans hinv.outside⟩
  · rw [hledger, howned, foldl_append, ← hinv.owned]
    change _ = svc.settled list _ i
    unfold settled settles
    simp only [hresolution, Option.some.injEq]
  · rw [hledger, hdoubt, get?_erase, hinv.inDoubt, map_append, map_singleton]
    by_cases hid : id = i.id
    · rw [if_pos hid, if_pos (mem_append_right _ (mem_singleton.mpr hid))]
    · rw [if_neg hid]
      by_cases hdone : id ∈ done.map Intent.id
      · rw [if_pos hdone, if_pos (mem_append_left _ hdone)]
      · rw [if_neg hdone, if_neg]
        intro hin
        rcases mem_append.mp hin with hin | hin
        · exact hdone hin
        · exact hid (mem_singleton.mp hin)

theorem mem_ownedNewestFirst {o : Owned} :
    o ∈ l.ownedNewestFirst ↔ (∃ k, l.owned.get? k = some o) ∧ l.now < o.expires := by
  unfold Ledger.ownedNewestFirst
  rw [mem_mergeSort, mem_filter, List.mem_map, decide_eq_true_eq]
  refine and_congr_left (fun _ => ⟨fun h => ?_, fun h => ?_⟩)
  · obtain ⟨e, he, rfl⟩ := h
    exact ⟨e.1, OrderedMap.get?_eq_some_iff.mpr he⟩
  · obtain ⟨k, hk⟩ := h
    exact ⟨(k, o), OrderedMap.get?_eq_some_iff.mp hk, rfl⟩

def OwnKeys (owned : OrderedMap Text Owned) : Prop := ∀ k o, owned.get? k = some o → o.address = k

theorem ownKeys_effect {owned : OrderedMap Text Owned} (h : OwnKeys owned) (i : Intent) :
    OwnKeys (i.effect owned) := by
  intro k o hget
  unfold Intent.effect at hget
  split at hget
  · split at hget
    · rw [get?_insert] at hget
      split_ifs at hget with hk
      · cases hget
        exact hk.symm
      · exact h k o hget
    · exact h k o hget
  · rw [get?_erase] at hget
    split_ifs at hget with hk
    exact h k o hget

theorem ownKeys_settled {owned : OrderedMap Text Owned} (h : OwnKeys owned) (doubts : List Intent) :
    OwnKeys (doubts.foldl (svc.settled list) owned) := by
  induction doubts generalizing owned with
  | nil => exact h
  | cons i doubts ih =>
    refine ih ?_
    unfold settled
    split_ifs
    · exact ownKeys_effect h i
    · exact h

theorem ownKeys_proven (hkeyed : l.Keyed) : OwnKeys (svc.proven list l nowUnix) := by
  intro k o hget
  rw [proven, get?_retain, filter_eq_some_iff] at hget
  exact ownKeys_settled hkeyed.owned l.doubts k o hget.1

/-- What the loop over the bans that TFPS dropped leaves behind some of them. -/
structure Dropped (s : Inner σ) (done : List Owned) (s' : Inner σ) : Prop where
  owned : ∀ k, s'.ledger.owned.get? k =
    if k ∈ done.map Owned.address then none else s.ledger.owned.get? k
  now : s'.ledger.now = s.ledger.now
  outside : s'.outside = s.outside

theorem lapse_now (id address : Text) (l : Ledger) : (l.lapse id address).now = l.now := by
  unfold Ledger.lapse
  split
  · split_ifs
    · rfl
    · rfl
  · rfl

theorem lapseAll_ok (hkeys : OwnKeys s.ledger.owned) {gone : List Owned}
    (hgone : ∀ o ∈ gone, ∃ k, s.ledger.owned.get? k = some o)
    (h : gone.forM (lapseOne nowUnix) s = .ok ⟨⟩ s') : Dropped s gone s' := by
  refine ok_forM (Dropped s) (fun done o rest s₁ s₂ hlist hinv ho => ?_) ⟨fun _ => rfl, rfl, rfl⟩ h
  obtain ⟨k, hk⟩ := hgone o (hlist ▸ mem_append_right _ mem_cons_self)
  have hown : s.ledger.owned.get? o.address = some o := by rwa [hkeys k o hk]
  obtain ⟨⟨seq, hledger⟩, houtside⟩ := write_ok ho
  change s₂.ledger = s₁.ledger.lapse o.id o.address at hledger
  refine ⟨fun x => ?_, ?_, houtside.trans hinv.outside⟩
  · rw [hledger, Ledger.SameAt.get?_lapse, hinv.owned, map_append, map_singleton]
    by_cases hx : x = o.address
    · rw [if_pos hx, if_pos (mem_append_right _ (mem_singleton.mpr hx))]
      split_ifs with hdone
      · rfl
      · rw [hx, hown, filter_some, if_neg (by simp)]
    · rw [if_neg hx]
      by_cases hdone : x ∈ done.map Owned.address
      · rw [if_pos hdone, if_pos (mem_append_left _ hdone)]
      · rw [if_neg hdone, if_neg]
        intro hin
        rcases mem_append.mp hin with hin | hin
        · exact hdone hin
        · exact hx (mem_singleton.mp hin)
  · rw [hledger, lapse_now, hinv.now]

/-- What checking against TFPS's list leaves: of the bans that it proves, those that TFPS holds. -/
theorem checkPeer_ok (hkeyed : s.ledger.Keyed) {n : ℕ} {lapsed : List Text}
    (h : svc.checkPeer list nowUnix s = .ok (n, lapsed) s') :
    s'.outside = s.outside ∧ s'.ledger.now = nowUnix ∧
      (∀ x, x ∈ lapsed ↔ ((svc.proven list s.ledger nowUnix).get? x).isSome ∧
        svc.viewOf list x = .absent) ∧
      ∀ x, s'.ledger.owned.get? x =
        if svc.viewOf list x = .absent then none else (svc.proven list s.ledger nowUnix).get? x := by
  obtain ⟨_, _, hget, h⟩ := ok_bind h
  cases hget
  obtain ⟨_, s₁, hsettle, h⟩ := ok_bind h
  obtain ⟨_, _, hset, h⟩ := ok_bind h
  cases hset
  obtain ⟨_, _, hget, h⟩ := ok_bind h
  cases hget
  obtain ⟨_, s₂, hlapse, h⟩ := ok_bind h
  cases h
  have hsettled := settleAll_ok hkeyed hsettle
  have howned : (s₁.ledger.setNow nowUnix).owned = svc.proven list s.ledger nowUnix := by
    rw [proven, ← hsettled.owned]
    rfl
  have hkeys : OwnKeys (s₁.ledger.setNow nowUnix).owned := howned ▸ ownKeys_proven hkeyed
  have hgone : ∀ o ∈ (s₁.ledger.setNow nowUnix).ownedNewestFirst.filter
      (fun o => svc.viewOf list o.address = .absent),
      ∃ k, (s₁.ledger.setNow nowUnix).owned.get? k = some o :=
    fun o ho => (mem_ownedNewestFirst.mp (mem_of_mem_filter ho)).1
  have hdropped := lapseAll_ok hkeys hgone hlapse
  have hlapsed : ∀ x, x ∈ ((s₁.ledger.setNow nowUnix).ownedNewestFirst.filter
      (fun o => svc.viewOf list o.address = .absent)).map Owned.address ↔
        ((svc.proven list s.ledger nowUnix).get? x).isSome ∧ svc.viewOf list x = .absent := by
    intro x
    rw [← howned, List.mem_map]
    constructor
    · rintro ⟨o, ho, rfl⟩
      obtain ⟨k, hk⟩ := hgone o ho
      have hkey := hkeys k o hk
      refine ⟨?_, of_decide_eq_true (mem_filter.mp ho).2⟩
      rw [hkey, hk]
      rfl
    · rintro ⟨hsome, hview⟩
      obtain ⟨o, ho⟩ := isSome_iff_exists.mp hsome
      have hkey := hkeys x o ho
      have hforce := ho
      rw [howned, proven, get?_retain, filter_eq_some_iff] at hforce
      refine ⟨o, mem_filter.mpr ⟨mem_ownedNewestFirst.mpr ⟨⟨x, ho⟩, ?_⟩, ?_⟩, hkey⟩
      · exact of_decide_eq_true hforce.2
      · rw [hkey]
        exact decide_eq_true hview
  refine ⟨hdropped.outside.trans hsettled.outside, hdropped.now, hlapsed, fun x => ?_⟩
  rw [hdropped.owned, ← howned]
  by_cases hx : svc.viewOf list x = .absent
  · rw [if_pos hx]
    split_ifs with hin
    · rfl
    · have hnone := (not_congr (hlapsed x)).mp hin
      rw [← howned] at hnone
      cases hget : (s₁.ledger.setNow nowUnix).owned.get? x with
      | none => rfl
      | some o => exact absurd ⟨by rw [hget]; rfl, hx⟩ hnone
  · rw [if_neg hx, if_neg (fun hin => hx ((hlapsed x).mp hin).2)]

/-! ## Lifting -/

variable {reverter : Reverter} {o : Owned} {bits : BitVec 32} {reply : Except Text TfpsReply}
  {report report' : RevertReport} {lapsed : List Text} {now : ℕ}

theorem newId_ok {id : Text} (h : newId s = .ok id s') :
    s'.ledger = s.ledger ∧ s'.outside.peer = s.outside.peer := by
  cases h
  exact ⟨rfl, rfl⟩

theorem askUnban_ok {caller : Text} {any : Bool}
    (h : svc.askUnban caller any bits nowUnix s = .ok reply s') :
    s'.ledger = s.ledger ∧ reply = (svc.tfps.unban bits s.outside.peer).1 ∧
      s'.outside.peer = (svc.tfps.unban bits s.outside.peer).2 := by
  unfold askUnban at h
  split at h
  · cases h
  · rename_i s₁ hlives
    obtain ⟨alive, rfl⟩ := lives_eq hlives
    cases h
    exact ⟨rfl, rfl, rfl⟩

theorem askBanned_ok {answer : Except Text (List (BitVec 32 × Option ℕ))}
    (h : svc.askBanned s = .ok answer s') :
    s'.ledger = s.ledger ∧ answer = (svc.tfps.banned s.outside.peer).1 ∧
      s'.outside.peer = (svc.tfps.banned s.outside.peer).2 := by
  unfold askBanned at h
  split at h
  · cases h
  · rename_i s₁ hlives
    obtain ⟨alive, rfl⟩ := lives_eq hlives
    cases h
    exact ⟨rfl, rfl, rfl⟩

theorem record_outcome_unban {l : Ledger} (hget : l.inDoubt.get? i.id = some i)
    (hverb : i.verb = .unban) (seq : ℕ) (revert : Bool) (result : OutcomeResult)
    (detail : Option Text) :
    (l.record seq (.outcome revert i.id result detail)).owned =
        (if result = .applied then l.owned.erase i.address else l.owned) ∧
      (l.record seq (.outcome revert i.id result detail)).now = l.now := by
  unfold Ledger.record Ledger.withDoubt
  dsimp only
  rw [bind_some, hget]
  cases result with
  | applied =>
    simp only [reduceCtorEq, if_false, if_true]
    unfold Ledger.takeEffect
    rw [hverb]
    exact ⟨rfl, rfl⟩
  | refused => exact ⟨rfl, rfl⟩
  | unknown => exact ⟨rfl, rfl⟩
  | failed => exact ⟨rfl, rfl⟩

theorem outcomeOf_eq_applied : (outcomeOf reply).1 = .applied ↔ reply = .ok .applied := by
  unfold outcomeOf
  split <;> simp

theorem lift_ok (h : svc.lift reverter o bits nowUnix s = .ok reply s') :
    reply = (svc.tfps.unban bits s.outside.peer).1 ∧
      s'.outside.peer = (svc.tfps.unban bits s.outside.peer).2 ∧ s'.ledger.now = s.ledger.now ∧
      s'.ledger.owned =
        if reply = .ok .applied then s.ledger.owned.erase o.address else s.ledger.owned := by
  obtain ⟨id, s₁, hid, h⟩ := ok_bind h
  obtain ⟨hledger₁, hpeer₁⟩ := newId_ok hid
  obtain ⟨_, s₂, hintent, h⟩ := ok_bind h
  obtain ⟨_, s₃, hask, h⟩ := ok_bind h
  obtain ⟨_, s₄, houtcome, h⟩ := ok_bind h
  cases h
  obtain ⟨⟨seq, hadmitted⟩, houtside⟩ := write_ok hintent
  obtain ⟨hledger, hreply, hpeer⟩ := askUnban_ok hask
  obtain ⟨⟨seq', hrecord⟩, houtside'⟩ := write_ok houtcome
  rw [houtside, hpeer₁] at hreply hpeer
  have hget : s₃.ledger.inDoubt.get? id =
      some { unbanIntent id o.address (revertedBy reverter).1 (revertedBy reverter).2 nowUnix with
        seq := seq } := by
    rw [hledger, hadmitted]
    exact (get?_insert _ _ _ _).trans (if_pos rfl)
  obtain ⟨howned, hnow⟩ := record_outcome_unban
    (i := { unbanIntent id o.address (revertedBy reverter).1 (revertedBy reverter).2 nowUnix with
      seq := seq }) hget rfl seq' true (outcomeOf reply).1 (outcomeOf reply).2
  have hbefore : s₃.ledger.owned = s.ledger.owned ∧ s₃.ledger.now = s.ledger.now := by
    rw [hledger, hadmitted, ← hledger₁]
    exact ⟨rfl, rfl⟩
  refine ⟨hreply, houtside' ▸ hpeer, ?_, ?_⟩
  · rw [hrecord]
    exact hnow.trans hbefore.2
  · rw [hrecord, ← hbefore.1]
    refine howned.trans ?_
    simp only [outcomeOf_eq_applied]
    rfl

/-- How the command line backs out one ban of all without a failure: it is gone already, TFPS lifts
it, or TFPS does not hold it. -/
inductive Backed (svc : ActionService σ) (lapsed : List Text) (o : Owned) (s s' : Inner σ) : Prop
  | lapsed (h : o.address ∈ lapsed) (hs : s' = s)
  | unread (h : svc.parseV4 o.address = none) (hs : s' = s)
  | lifted (bits : BitVec 32) (h : svc.parseV4 o.address = some bits)
    (reply : (svc.tfps.unban bits s.outside.peer).1 = .ok .applied)
    (peer : s'.outside.peer = (svc.tfps.unban bits s.outside.peer).2)
    (now : s'.ledger.now = s.ledger.now)
    (owned : s'.ledger.owned = s.ledger.owned.erase o.address)
  | notHeld (bits : BitVec 32) (h : svc.parseV4 o.address = some bits)
    (reply : (svc.tfps.unban bits s.outside.peer).1 = .ok (.refused notBlocked))
    (peer : s'.outside.peer = (svc.tfps.unban bits s.outside.peer).2)
    (now : s'.ledger.now = s.ledger.now)
    (owned : ∀ x, s'.ledger.owned.get? x = if x = o.address then
      (s.ledger.owned.get? x).filter (fun o' => o'.id ≠ o.id) else s.ledger.owned.get? x)

theorem revertOne_ok {rest : List Owned} {next : ForInStep RevertReport}
    (h : svc.revertOne .commandLine .all now lapsed o rest report s = .ok next s') :
    ∃ report', next = .yield report' ∧ (report'.failed = [] →
      report.failed = [] ∧ Backed svc lapsed o s s') := by
  unfold revertOne at h
  by_cases hlapsed : o.address ∈ lapsed
  · rw [if_pos hlapsed] at h
    cases h
    exact ⟨_, rfl, fun hfailed => ⟨hfailed, .lapsed hlapsed rfl⟩⟩
  · rw [if_neg hlapsed] at h
    cases hparse : svc.parseV4 o.address with
    | none =>
      rw [hparse] at h
      cases h
      exact ⟨_, rfl, fun hfailed => ⟨hfailed, .unread hparse rfl⟩⟩
    | some bits =>
      rw [hparse] at h
      obtain ⟨_, _, hadmitted, h⟩ := ok_bind h
      cases hadmitted
      obtain ⟨reply, s₁, hlift, h⟩ := ok_bind h
      obtain ⟨report', s₂, hreport, h⟩ := ok_bind h
      cases h
      obtain ⟨hreply, hpeer, hnow, howned⟩ := lift_ok hlift
      refine ⟨report', rfl, fun hfailed => ?_⟩
      unfold reportLift at hreport
      split at hreport
      · cases hreport
        rw [if_pos rfl] at howned
        exact ⟨hfailed, .lifted bits hparse hreply.symm hpeer hnow howned⟩
      · rename_i why
        split_ifs at hreport with hwhy
        · obtain ⟨_, s₃, hwrite, hreport⟩ := ok_bind hreport
          cases hreport
          obtain ⟨⟨seq, hledger⟩, houtside⟩ := write_ok hwrite
          change _ = s₁.ledger.lapse o.id o.address at hledger
          rw [if_neg (by simp)] at howned
          rw [hwhy] at hreply
          refine ⟨hfailed, .notHeld bits hparse hreply.symm (houtside ▸ hpeer) ?_ (fun x => ?_)⟩
          · rw [hledger, lapse_now, hnow]
          · rw [hledger, Ledger.SameAt.get?_lapse, howned]
        · cases hreport
          exact absurd hfailed (by simp)
      · cases hreport
        exact absurd hfailed (by simp)
      · cases hreport
        exact absurd hfailed (by simp)

theorem failed_revertEach {wanted : List Owned}
    (h : svc.revertEach .commandLine .all now lapsed wanted report s = .ok report' s')
    (hfailed : report'.failed = []) : report.failed = [] := by
  induction wanted generalizing report s with
  | nil =>
    cases h
    exact hfailed
  | cons o rest ih =>
    obtain ⟨next, s₁, hone, h⟩ := ok_bind h
    obtain ⟨report₁, rfl, hbacked⟩ := revertOne_ok hone
    exact (hbacked (ih h)).1

/-- Nothing is left when a ban is backed out: it is gone already, it is the one to back out, or TFPS
holds it until it is asked. -/
def Sure (svc : ActionService σ) (holds : σ → BitVec 32 → Option (Option ℕ)) (s : Inner σ)
    (o : Owned) : Prop :=
  s.ledger.owned.get? o.address = none ∨ s.ledger.owned.get? o.address = some o ∨
    ∃ bits, svc.parseV4 o.address = some bits ∧ svc.tfps.Keeps holds bits ∧
      holds s.outside.peer bits ≠ none

def Free (svc : ActionService σ) (holds : σ → BitVec 32 → Option (Option ℕ)) (s : Inner σ)
    (address : Text) : Prop :=
  ∀ bits, svc.parseV4 address = some bits → holds s.outside.peer bits = none

/-- What the loop over the bans to back out leaves behind some of them. -/
structure Lifting (svc : ActionService σ) (holds : σ → BitVec 32 → Option (Option ℕ))
    (s : Inner σ) (done : List Owned) (s' : Inner σ) : Prop where
  now : s'.ledger.now = s.ledger.now
  owned : ∀ x, x ∉ done.map Owned.address → s'.ledger.owned.get? x = s.ledger.owned.get? x
  held : ∀ bits, holds s'.outside.peer bits = none ∨
    holds s'.outside.peer bits = holds s.outside.peer bits
  kept : ∀ bits, svc.tfps.Keeps holds bits → (∀ o ∈ done, svc.parseV4 o.address ≠ some bits) →
    holds s'.outside.peer bits = holds s.outside.peer bits
  lifted : ∀ o ∈ done, Sure svc holds s o →
    s'.ledger.owned.get? o.address = none ∧ Free svc holds s' o.address

theorem eq_of_parseV4 {y : Text} (hx : svc.parseV4 x = some bits) (hy : svc.parseV4 y = some bits) :
    x = y := by
  have hparse : ∀ t, svc.parseV4 t = some bits → svc.texts.parse t = some (.v4 bits) := by
    intro t ht
    unfold parseV4 at ht
    split at ht
    · rename_i bits' hbits
      cases ht
      exact hbits
    · cases ht
  rw [svc.texts.text_of_parse x bits (hparse x hx), svc.texts.text_of_parse y bits (hparse y hy)]

variable {holds : σ → BitVec 32 → Option (Option ℕ)} {done : List Owned} {s₁ s₂ : Inner σ}

theorem Lifting.refl (svc : ActionService σ) (holds : σ → BitVec 32 → Option (Option ℕ))
    (s : Inner σ) : Lifting svc holds s [] s :=
  ⟨rfl, fun _ _ => rfl, fun _ => .inr rfl, fun _ _ _ => rfl, fun _ h => absurd h not_mem_nil⟩

theorem Lifting.skip (h : Lifting svc holds s done s₁) (hnew : o.address ∉ done.map Owned.address)
    (hgone : s.ledger.owned.get? o.address = none) (hfree : Free svc holds s o.address) :
    Lifting svc holds s (done ++ [o]) s₁ := by
  refine ⟨h.now, fun x hx => h.owned x (fun hin => hx ?_), h.held, fun bits hkeeps hbits =>
    h.kept bits hkeeps (fun o' ho' => hbits o' (mem_append_left _ ho')), fun o' ho' hsure => ?_⟩
  · rw [map_append]
    exact mem_append_left _ hin
  · rcases mem_append.mp ho' with ho' | ho'
    · exact h.lifted o' ho' hsure
    · obtain rfl := mem_singleton.mp ho'
      refine ⟨(h.owned _ hnew).trans hgone, fun bits hbits => ?_⟩
      rcases h.held bits with hheld | hheld
      · exact hheld
      · exact hheld.trans (hfree bits hbits)

section

variable (htruthful : svc.tfps.Truthful holds)
include htruthful

theorem Lifting.ask (h : Lifting svc holds s done s₁) (hbits : svc.parseV4 o.address = some bits)
    (hnow : s₂.ledger.now = s₁.ledger.now)
    (hpeer : s₂.outside.peer = (svc.tfps.unban bits s₁.outside.peer).2)
    (howned : ∀ x, x ≠ o.address → s₂.ledger.owned.get? x = s₁.ledger.owned.get? x)
    (hgone : ∀ x, s₁.ledger.owned.get? x = none → s₂.ledger.owned.get? x = none)
    (hfree : holds s₂.outside.peer bits = none)
    (hlifted : Sure svc holds s o → s₂.ledger.owned.get? o.address = none) :
    Lifting svc holds s (done ++ [o]) s₂ := by
  have hheld : ∀ other, holds s₂.outside.peer other = none ∨
      holds s₂.outside.peer other = holds s₁.outside.peer other := by
    intro other
    by_cases hother : other = bits
    · rw [hother]
      exact .inl hfree
    · rw [hpeer]
      exact htruthful.others _ _ _ hother
  refine ⟨hnow.trans h.now, fun x hx => ?_, fun other => ?_, fun other hkeeps hdone => ?_,
    fun o' ho' hsure => ?_⟩
  · rw [map_append, mem_append, not_or] at hx
    rw [howned x (fun heq => hx.2 (mem_singleton.mpr heq)), h.owned x hx.1]
  · rcases hheld other with hnone | hsame
    · exact .inl hnone
    · rw [hsame]
      exact h.held other
  · have hother : bits ≠ other := by
      rintro rfl
      exact hdone o (mem_append_right _ mem_cons_self) hbits
    rw [hpeer, hkeeps.others _ _ hother]
    exact h.kept other hkeeps (fun o' ho' => hdone o' (mem_append_left _ ho'))
  · rcases mem_append.mp ho' with ho' | ho'
    · obtain ⟨hnone, hfreed⟩ := h.lifted o' ho' hsure
      refine ⟨hgone _ hnone, fun other hother => ?_⟩
      rcases hheld other with hheld | hheld
      · exact hheld
      · rw [hheld]
        exact hfreed other hother
    · obtain rfl := mem_singleton.mp ho'
      refine ⟨hlifted hsure, fun other hother => ?_⟩
      cases hbits.symm.trans hother
      exact hfree

theorem Lifting.back (h : Lifting svc holds s done s₁) (hnew : o.address ∉ done.map Owned.address)
    (hlapsed : ∀ x ∈ lapsed, s.ledger.owned.get? x = none ∧ Free svc holds s x)
    (hunread : ∀ x, svc.parseV4 x = none → s.ledger.owned.get? x = none)
    (hback : Backed svc lapsed o s₁ s₂) : Lifting svc holds s (done ++ [o]) s₂ := by
  cases hback with
  | lapsed hmem hs =>
    rw [hs]
    exact h.skip hnew (hlapsed _ hmem).1 (hlapsed _ hmem).2
  | unread hparse hs =>
    rw [hs]
    refine h.skip hnew (hunread _ hparse) (fun bits hbits => ?_)
    rw [hparse] at hbits
    cases hbits
  | lifted bits hparse hreply hpeer hnow howned =>
    have hget : ∀ x, s₂.ledger.owned.get? x =
        if x = o.address then none else s₁.ledger.owned.get? x := by
      intro x
      rw [howned, get?_erase]
      congr
    refine h.ask htruthful hparse hnow hpeer (fun x hx => ?_) (fun x hx => ?_) ?_ (fun _ => ?_)
    · rw [hget, if_neg hx]
    · rw [hget, hx, ite_self]
    · rw [hpeer]
      exact htruthful.lifted _ _ hreply
    · rw [hget, if_pos rfl]
  | notHeld bits hparse hreply hpeer hnow howned =>
    refine h.ask htruthful hparse hnow hpeer (fun x hx => ?_) (fun x hx => ?_) ?_ (fun hsure => ?_)
    · rw [howned, if_neg hx]
    · rw [howned, hx, filter_none, ite_self]
    · rw [hpeer]
      exact htruthful.notHeld _ _ hreply
    · rw [howned, if_pos rfl, h.owned _ hnew]
      rcases hsure with hnone | hsame | ⟨bits', hbits', hkeeps, hheld⟩
      · rw [hnone]
        rfl
      · rw [hsame, filter_some, if_neg (by simp)]
      · -- TFPS holds the ban until it is asked, so it does not answer so
        cases hparse.symm.trans hbits'
        refine absurd hreply (hkeeps.held _ ?_)
        rw [h.kept bits hkeeps]
        · exact hheld
        · intro o' ho' hsame
          refine hnew ?_
          rw [eq_of_parseV4 hparse hsame]
          exact List.mem_map_of_mem ho'

theorem revertEach_ok {wanted : List Owned} (hnodup : (wanted.map Owned.address).Nodup)
    (hlapsed : ∀ x ∈ lapsed, s.ledger.owned.get? x = none ∧ Free svc holds s x)
    (hunread : ∀ x, svc.parseV4 x = none → s.ledger.owned.get? x = none)
    (h : svc.revertEach .commandLine .all now lapsed wanted report s = .ok report' s')
    (hfailed : report'.failed = []) : Lifting svc holds s wanted s' := by
  have hall : ∀ rest done report s₁, wanted = done ++ rest → Lifting svc holds s done s₁ →
      svc.revertEach .commandLine .all now lapsed rest report s₁ = .ok report' s' →
      Lifting svc holds s wanted s' := by
    intro rest
    induction rest with
    | nil =>
      intro done report s₁ hwanted hdone h
      cases h
      rwa [hwanted, append_nil]
    | cons o rest ih =>
      intro done report s₁ hwanted hdone h
      obtain ⟨next, s₂, hone, h⟩ := ok_bind h
      obtain ⟨report₁, rfl, hbacked⟩ := revertOne_ok hone
      have hback := (hbacked (failed_revertEach h hfailed)).2
      have hnew : o.address ∉ done.map Owned.address := by
        rw [hwanted, map_append, nodup_append] at hnodup
        exact fun hin => hnodup.2.2 _ hin _ mem_cons_self rfl
      refine ih (done ++ [o]) report₁ s₂ ?_ (hdone.back htruthful hnew hlapsed hunread hback) h
      rw [hwanted, append_assoc]
      rfl
  exact hall wanted [] report s rfl (Lifting.refl svc holds s) h

end

/-! ## Everything is reverted -/

/-- The last ban in doubt on an address that TFPS's list proves to be placed. -/
def confirmed (svc : ActionService σ) (list : List (BitVec 32 × Option ℕ)) (l : Ledger)
    (address : Text) : Option Owned :=
  ((l.doubts.filter (fun i => i.address = address ∧ i.verb = .ban ∧
    svc.settles list i = some .applied)).getLast?).bind (fun i => i.expires.map i.toOwned)

theorem expires_of_applied (hverb : i.verb = .ban) (h : svc.settles list i = some .applied) :
    i.expires.isSome = true ∧ svc.viewOf list i.address ≠ .absent := by
  unfold settles Intent.resolve at h
  rw [hverb] at h
  cases hview : svc.viewOf list i.address with
  | unreachable => exact absurd hview (viewOf_ne_unreachable _)
  | absent =>
    rw [hview] at h
    cases h
  | banned expires =>
    rw [hview] at h
    refine ⟨?_, TfpsView.noConfusion⟩
    cases hexpires : i.expires with
    | none =>
      rw [hexpires] at h
      cases h
    | some ours => rfl

theorem not_applied_of_unban (hverb : i.verb = .unban)
    (hview : svc.viewOf list i.address ≠ .absent) : svc.settles list i ≠ some .applied := by
  unfold settles Intent.resolve
  rw [hverb]
  cases hsame : svc.viewOf list i.address with
  | unreachable => exact absurd hsame (viewOf_ne_unreachable _)
  | absent => exact absurd hsame hview
  | banned expires => simp

theorem get?_settled (hview : svc.viewOf list x ≠ .absent) (doubts : List Intent)
    (owned : OrderedMap Text Owned) :
    (doubts.foldl (svc.settled list) owned).get? x =
      ((((doubts.filter (fun i => i.address = x ∧ i.verb = .ban ∧
        svc.settles list i = some .applied)).getLast?).bind
          (fun i => i.expires.map i.toOwned)).or (owned.get? x)) := by
  induction doubts using List.reverseRecOn with
  | nil => rfl
  | append_singleton doubts i ih =>
    rw [foldl_append, foldl_cons, foldl_nil, filter_append]
    by_cases happlied : svc.settles list i = some .applied
    · rw [settled, if_pos happlied, Intent.effect]
      cases hverb : i.verb with
      | unban =>
        have hx : x ≠ i.address := by
          rintro rfl
          exact not_applied_of_unban hverb hview happlied
        have hkeep : [i].filter (fun i => i.address = x ∧ i.verb = .ban ∧
            svc.settles list i = some .applied) = [] := by simp [hverb]
        rw [hkeep, append_nil, ← ih]
        rw [get?_erase, if_neg hx]
      | ban =>
        obtain ⟨hexpires, -⟩ := expires_of_applied hverb happlied
        obtain ⟨expires, hexpires⟩ := isSome_iff_exists.mp hexpires
        rw [hexpires]
        rw [get?_insert]
        by_cases hx : x = i.address
        · have hkeep : [i].filter (fun i => i.address = x ∧ i.verb = .ban ∧
              svc.settles list i = some .applied) = [i] := by simp [hverb, hx, happlied]
          rw [hkeep, List.getLast?_append, if_pos hx]
          simp [hexpires]
        · have hkeep : [i].filter (fun i => i.address = x ∧ i.verb = .ban ∧
              svc.settles list i = some .applied) = [] := by simp [Ne.symm hx]
          rw [hkeep, append_nil, ← ih, if_neg hx]
    · have hkeep : [i].filter (fun i => i.address = x ∧ i.verb = .ban ∧
          svc.settles list i = some .applied) = [] := by simp [happlied]
      rw [hkeep, append_nil, ← ih, settled, if_neg happlied]

theorem nodup_ownedNewestFirst (hkeyed : l.Keyed) :
    (l.ownedNewestFirst.map Owned.address).Nodup := by
  have hkeys : (l.owned.entries.map Prod.snd).map Owned.address = l.owned.keys := by
    unfold OrderedMap.keys
    rw [List.map_map]
    refine map_congr_left (fun e he => ?_)
    exact hkeyed.owned e.1 e.2 (OrderedMap.get?_eq_some_iff.mpr he)
  have hall : ((l.owned.entries.map Prod.snd).map Owned.address).Nodup := by
    rw [hkeys]
    exact l.owned.keys_nodup
  have hperm := (mergeSort_perm ((l.owned.entries.map Prod.snd).filter
    (fun o => l.now < o.expires)) (fun a b => b.seq ≤ a.seq)).map Owned.address
  refine hperm.nodup_iff.mpr (hall.sublist (List.Sublist.map _ filter_sublist))

theorem keyed_setNow (hkeyed : l.Keyed) : (l.setNow nowUnix).Keyed := by
  refine ⟨fun k o hget => ?_, hkeyed.inDoubt⟩
  change (l.owned.retain _).get? k = some o at hget
  rw [get?_retain, filter_eq_some_iff] at hget
  exact hkeyed.owned k o hget.1

theorem revert_ok (h : svc.revert .commandLine .all now s = .ok report s') :
    ∃ list lapsed n s₁ s₂ report₀, (svc.tfps.banned s.outside.peer).1 = .ok list ∧
      s₁.ledger = s.ledger.setNow (unixSecs now) ∧
      s₁.outside.peer = (svc.tfps.banned s.outside.peer).2 ∧
      svc.checkPeer list (unixSecs now) s₁ = .ok (n, lapsed) s₂ ∧
      svc.revertEach .commandLine .all now lapsed
        (s.ledger.setNow (unixSecs now)).ownedNewestFirst report₀ s₂ = .ok report s' := by
  obtain ⟨_, s₁, hready, h⟩ := ok_bind h
  obtain ⟨_, s₂, hnow, h⟩ := ok_bind h
  obtain ⟨_, s₃, hpermit, h⟩ := ok_bind h
  obtain ⟨wanted, s₄, hwanted, h⟩ := ok_bind h
  obtain ⟨answer, s₅, hasked, h⟩ := ok_bind h
  have hs : s₁ = s := by
    unfold ready at hready
    split at hready
    · cases hready
      rfl
    · cases hready
  subst hs
  cases hnow
  cases hpermit
  cases hwanted
  obtain ⟨hledger, hanswer, hpeer⟩ := askBanned_ok hasked
  cases answer with
  | error why => cases h
  | ok list =>
    obtain ⟨⟨n, lapsed⟩, s₆, hcheck, h⟩ := ok_bind h
    obtain ⟨_, _, hget, h⟩ := ok_bind h
    cases hget
    have hall : ∀ owned : List Owned,
        owned.filter (fun o => Reverter.commandLine.mayLift o.caller) = owned :=
      fun owned => filter_eq_self.mpr (fun _ _ => rfl)
    rw [hall] at h
    exact ⟨list, lapsed, n, s₅, s₆, _, hanswer.symm, hledger, hpeer, hcheck, h⟩

theorem get?_proven (hview : svc.viewOf list x ≠ .absent) :
    (svc.proven list l nowUnix).get? x =
      ((svc.confirmed list l x).or (l.owned.get? x)).filter (fun o => nowUnix < o.expires) := by
  rw [proven, get?_retain, get?_settled hview]
  rfl

theorem view_of_confirmed (h : svc.confirmed list l x = some o) : svc.viewOf list x ≠ .absent := by
  obtain ⟨i, hlast, -⟩ := bind_eq_some_iff.mp h
  have hmem := mem_of_getLast? hlast
  rw [mem_filter, decide_eq_true_eq] at hmem
  rw [← hmem.2.1]
  exact (expires_of_applied hmem.2.2.1 hmem.2.2.2).2

theorem absent_iff (htruthful : svc.tfps.Truthful holds) {p : σ}
    (hlist : (svc.tfps.banned p).1 = .ok list) (hbits : svc.parseV4 x = some bits) :
    svc.viewOf list x = .absent ↔ holds p bits = none := by
  unfold viewOf
  rw [hbits, ← htruthful.listed p list hlist bits]
  dsimp only
  cases list.find? (fun row => row.1 = bits) with
  | none => simp
  | some row => simp

theorem parse_of_view (hview : svc.viewOf list x ≠ .absent) :
    ∃ bits, svc.parseV4 x = some bits := by
  unfold viewOf at hview
  cases hparse : svc.parseV4 x with
  | none =>
    rw [hparse] at hview
    exact absurd rfl hview
  | some bits => exact ⟨bits, rfl⟩

/-- Everything that is proven to be placed is neither owned nor held any longer. -/
def Reverted (svc : ActionService σ) (holds : σ → BitVec 32 → Option (Option ℕ))
    (list : List (BitVec 32 × Option ℕ)) (l : Ledger) (nowUnix : ℕ) (s' : Inner σ) : Prop :=
  s'.ledger.ownedNewestFirst = [] ∧
    ∀ x, ((svc.proven list (l.setNow nowUnix) nowUnix).get? x).isSome → Free svc holds s' x

/-- The bans in doubt that TFPS's list proves to be placed are on addresses with a ban owned
before. -/
def OwnedBefore (svc : ActionService σ) (list : List (BitVec 32 × Option ℕ)) (l : Ledger)
    (nowUnix : ℕ) : Prop :=
  ∀ x o, svc.confirmed list l x = some o → nowUnix < o.expires →
    ((l.setNow nowUnix).owned.get? x).isSome

/-- TFPS does not drop the bans on its own that its list just proved. -/
def KeepsConfirmed (svc : ActionService σ) (holds : σ → BitVec 32 → Option (Option ℕ))
    (list : List (BitVec 32 × Option ℕ)) (l : Ledger) (nowUnix : ℕ) : Prop :=
  ∀ x o bits, svc.confirmed list l x = some o → nowUnix < o.expires →
    svc.parseV4 x = some bits → svc.tfps.Keeps holds bits

theorem setNow_inForce (h : (l.setNow nowUnix).owned.get? x = some o) : nowUnix < o.expires := by
  change (l.owned.retain _).get? x = some o at h
  rw [get?_retain, filter_eq_some_iff] at h
  exact of_decide_eq_true h.2

theorem mem_wanted (hkeyed : l.Keyed) :
    x ∈ (l.setNow nowUnix).ownedNewestFirst.map Owned.address ↔
      ((l.setNow nowUnix).owned.get? x).isSome := by
  have hkeyed' : (l.setNow nowUnix).Keyed := keyed_setNow hkeyed
  rw [List.mem_map]
  constructor
  · rintro ⟨o, ho, rfl⟩
    obtain ⟨⟨k, hk⟩, -⟩ := mem_ownedNewestFirst.mp ho
    rw [hkeyed'.owned k o hk, hk]
    rfl
  · intro h
    obtain ⟨o, ho⟩ := isSome_iff_exists.mp h
    exact ⟨o, mem_ownedNewestFirst.mpr ⟨⟨x, ho⟩, setNow_inForce ho⟩, hkeyed'.owned x o ho⟩

section

variable (hkeyed : s.ledger.Keyed) (htruthful : svc.tfps.Truthful holds)
  (hlist : (svc.tfps.banned s.outside.peer).1 = .ok list)
include hkeyed htruthful hlist

theorem revert_lifting (h : svc.revert .commandLine .all now s = .ok report s')
    (hfailed : report.failed = []) :
    ∃ s₂, Lifting svc holds s₂ (s.ledger.setNow (unixSecs now)).ownedNewestFirst s' ∧
      s₂.ledger.now = unixSecs now ∧
      s₂.outside.peer = (svc.tfps.banned s.outside.peer).2 ∧
      ∀ x, s₂.ledger.owned.get? x = if svc.viewOf list x = .absent then none
        else (svc.proven list (s.ledger.setNow (unixSecs now)) (unixSecs now)).get? x := by
  obtain ⟨_, lapsed, n, s₁, s₂, report₀, hlist', hledger, hpeer, hcheck, heach⟩ := revert_ok h
  cases hlist.symm.trans hlist'
  have hkeyed₁ : s₁.ledger.Keyed := hledger ▸ keyed_setNow hkeyed
  obtain ⟨houtside, hnow, hlapsed, howned⟩ := checkPeer_ok hkeyed₁ hcheck
  rw [hledger] at hlapsed howned
  have hpeer₂ : s₂.outside.peer = (svc.tfps.banned s.outside.peer).2 := by rw [houtside, hpeer]
  have habsent : ∀ x, svc.viewOf list x = .absent →
      s₂.ledger.owned.get? x = none ∧ Free svc holds s₂ x := by
    intro x hview
    refine ⟨by rw [howned, if_pos hview], fun bits hbits => ?_⟩
    have hnone := (absent_iff htruthful hlist hbits).mp hview
    rw [hpeer₂]
    rcases htruthful.asked s.outside.peer bits with hheld | hheld
    · exact hheld
    · exact hheld.trans hnone
  refine ⟨s₂, ?_, hnow, hpeer₂, howned⟩
  refine revertEach_ok htruthful (nodup_ownedNewestFirst (keyed_setNow hkeyed))
    (fun x hx => habsent x ((hlapsed x).mp hx).2) (fun x hx => (habsent x ?_).1) heach hfailed
  unfold viewOf
  rw [hx]

/-- A ban in doubt that turns out to be placed stays owned, on an address with none owned before. -/
theorem ownedBefore_of_reverted (h : svc.revert .commandLine .all now s = .ok report s')
    (hfailed : report.failed = [])
    (hreverted : Reverted svc holds list s.ledger (unixSecs now) s') :
    OwnedBefore svc list s.ledger (unixSecs now) := by
  obtain ⟨s₂, hlifting, hnow, -, howned⟩ := revert_lifting hkeyed htruthful hlist h hfailed
  intro x o hconfirmed hforce
  by_contra hnone
  have hview := view_of_confirmed hconfirmed
  have hproven : s₂.ledger.owned.get? x = some o := by
    rw [howned, if_neg hview, get?_proven hview]
    change ((svc.confirmed list s.ledger x).or _).filter _ = _
    rw [hconfirmed, some_or, filter_some, if_pos (decide_eq_true hforce)]
  have hstays := hlifting.owned x (fun hin => hnone ((mem_wanted hkeyed).mp hin))
  have hmem : o ∈ s'.ledger.ownedNewestFirst := by
    refine mem_ownedNewestFirst.mpr ⟨⟨x, hstays.trans hproven⟩, ?_⟩
    rw [hlifting.now, hnow]
    exact hforce
  rw [hreverted.1] at hmem
  cases hmem

theorem lifted_of_wanted {s₂ : Inner σ}
    (hkeeps : KeepsConfirmed svc holds list s.ledger (unixSecs now))
    (hlifting : Lifting svc holds s₂ (s.ledger.setNow (unixSecs now)).ownedNewestFirst s')
    (hpeer : s₂.outside.peer = (svc.tfps.banned s.outside.peer).2)
    (howned : ∀ x, s₂.ledger.owned.get? x = if svc.viewOf list x = .absent then none
        else (svc.proven list (s.ledger.setNow (unixSecs now)) (unixSecs now)).get? x)
    (hx : (s.ledger.setNow (unixSecs now)).owned.get? x = some o) :
    s'.ledger.owned.get? x = none ∧ Free svc holds s' x := by
  have hkey : o.address = x := (keyed_setNow hkeyed).owned x o hx
  have hmem : o ∈ (s.ledger.setNow (unixSecs now)).ownedNewestFirst :=
    mem_ownedNewestFirst.mpr ⟨⟨x, hx⟩, setNow_inForce hx⟩
  rw [← hkey]
  refine hlifting.lifted o hmem ?_
  unfold Sure
  rw [hkey, howned]
  by_cases hview : svc.viewOf list x = .absent
  · exact .inl (if_pos hview)
  · rw [if_neg hview, get?_proven hview, hx]
    change Option.filter _ ((svc.confirmed list s.ledger x).or _) = _ ∨
      Option.filter _ ((svc.confirmed list s.ledger x).or _) = _ ∨ _
    cases hconfirmed : svc.confirmed list s.ledger x with
    | none =>
      rw [none_or, filter_some, if_pos (decide_eq_true (setNow_inForce hx))]
      exact .inr (.inl rfl)
    | some o' =>
      rw [some_or, filter_some]
      by_cases hforce : unixSecs now < o'.expires
      · obtain ⟨bits, hbits⟩ := parse_of_view hview
        have hbitsKept := hkeeps x o' bits hconfirmed hforce hbits
        refine .inr (.inr ⟨bits, hbits, hbitsKept, ?_⟩)
        rw [hpeer, hbitsKept.asked]
        exact fun hnone => hview ((absent_iff htruthful hlist hbits).mpr hnone)
      · exact .inl (if_neg (by simp [hforce]))

end

/-- A revert of everything from the command line that reports nothing failed and nothing left backs
out all that is proven to be placed only if every ban in doubt that TFPS's list proves is on an
address with a ban owned before; and that is enough, if TFPS does not drop such a ban on its own
before it is asked to lift it. -/
theorem revert_all (hkeyed : s.ledger.Keyed) (htruthful : svc.tfps.Truthful holds)
    (hlist : (svc.tfps.banned s.outside.peer).1 = .ok list)
    (h : svc.revert .commandLine .all now s = .ok report s')
    (hfailed : report.failed = []) (_hleft : report.left = []) :
    (Reverted svc holds list s.ledger (unixSecs now) s' →
      OwnedBefore svc list s.ledger (unixSecs now)) ∧
    (KeepsConfirmed svc holds list s.ledger (unixSecs now) →
      (Reverted svc holds list s.ledger (unixSecs now) s' ↔
        OwnedBefore svc list s.ledger (unixSecs now))) := by
  have hbefore := ownedBefore_of_reverted hkeyed htruthful hlist h hfailed
  refine ⟨hbefore, fun hkeeps => ⟨hbefore, fun hcond => ?_⟩⟩
  obtain ⟨s₂, hlifting, hnow, hpeer, howned⟩ := revert_lifting hkeyed htruthful hlist h hfailed
  have hwanted := fun x o => lifted_of_wanted (x := x) (o := o) hkeyed htruthful hlist hkeeps
    hlifting hpeer howned
  -- an address with nothing owned before had nothing proven on it
  have hother : ∀ x, (s.ledger.setNow (unixSecs now)).owned.get? x = none →
      svc.viewOf list x ≠ .absent →
      (svc.proven list (s.ledger.setNow (unixSecs now)) (unixSecs now)).get? x = none := by
    intro x hx hview
    rw [get?_proven hview, hx, or_none]
    change Option.filter _ (svc.confirmed list s.ledger x) = none
    rw [filter_eq_none_iff]
    intro o ho hforce
    have hsome := hcond x o ho (of_decide_eq_true hforce)
    rw [hx] at hsome
    cases hsome
  have hgone : ∀ x, s'.ledger.owned.get? x = none := by
    intro x
    cases hx : (s.ledger.setNow (unixSecs now)).owned.get? x with
    | some o => exact (hwanted x o hx).1
    | none =>
      have hnot : x ∉ (s.ledger.setNow (unixSecs now)).ownedNewestFirst.map Owned.address := by
        rw [mem_wanted hkeyed, hx]
        exact Bool.false_ne_true
      rw [hlifting.owned x hnot, howned]
      split_ifs with hview
      · rfl
      · exact hother x hx hview
  constructor
  · refine eq_nil_iff_forall_not_mem.mpr (fun o ho => ?_)
    obtain ⟨⟨k, hk⟩, -⟩ := mem_ownedNewestFirst.mp ho
    rw [hgone k] at hk
    cases hk
  · intro x hproven
    cases hx : (s.ledger.setNow (unixSecs now)).owned.get? x with
    | some o => exact (hwanted x o hx).2
    | none =>
      by_cases hview : svc.viewOf list x = .absent
      · intro bits hbits
        have hnone := (absent_iff htruthful hlist hbits).mp hview
        have hafter : holds s₂.outside.peer bits = none := by
          rw [hpeer]
          rcases htruthful.asked s.outside.peer bits with hheld | hheld
          · exact hheld
          · exact hheld.trans hnone
        rcases hlifting.held bits with hheld | hheld
        · exact hheld
        · exact hheld.trans hafter
      · rw [hother x hx hview] at hproven
        cases hproven

/-! ## A table of bans -/

/-- A TFPS that is a table of bans, with the time each ends at. -/
def tableTfps : Tfps (List (BitVec 32 × Option ℕ)) where
  ban bits secs now table :=
    (.ok .applied, (bits, some (now + secs)) :: table.filter (fun row => row.1 ≠ bits))
  unban bits table :=
    if table.any (fun row => row.1 = bits) then
      (.ok .applied, table.filter (fun row => row.1 ≠ bits))
    else (.ok (.refused notBlocked), table)
  banned table := (.ok table, table)

def tableHolds (table : List (BitVec 32 × Option ℕ)) (bits : BitVec 32) : Option (Option ℕ) :=
  (table.find? (fun row => row.1 = bits)).map Prod.snd

theorem tableHolds_filter (table : List (BitVec 32 × Option ℕ)) (bits other : BitVec 32) :
    tableHolds (table.filter (fun row => row.1 ≠ bits)) other =
      if other = bits then none else tableHolds table other := by
  unfold tableHolds
  rw [List.find?_filter]
  split_ifs with h
  · rw [h, List.find?_eq_none.mpr]
    · rfl
    · intro row _
      simp
  · congr 2
    funext row
    by_cases hrow : row.1 = other
    · simp [hrow, h]
    · simp [hrow]

theorem tableHolds_none {table : List (BitVec 32 × Option ℕ)} {bits : BitVec 32} :
    tableHolds table bits = none ↔ table.any (fun row => row.1 = bits) = false := by
  unfold tableHolds
  rw [map_eq_none_iff, List.find?_eq_none, List.any_eq_false]

theorem tableTfps_unban (bits : BitVec 32) (table : List (BitVec 32 × Option ℕ)) :
    (tableHolds table bits = none ∧
        tableTfps.unban bits table = (.ok (.refused notBlocked), table)) ∨
      (tableHolds table bits ≠ none ∧ tableTfps.unban bits table =
        (.ok .applied, table.filter (fun row => row.1 ≠ bits))) := by
  rw [Ne, tableHolds_none]
  unfold tableTfps
  dsimp only
  by_cases h : table.any (fun row => row.1 = bits) = true
  · rw [if_pos h]
    exact .inr ⟨by simp [h], rfl⟩
  · rw [if_neg h]
    exact .inl ⟨Bool.eq_false_iff.mpr h, rfl⟩

theorem tableTfps_truthful : tableTfps.Truthful tableHolds where
  listed p list h bits := by
    cases h
    rfl
  asked p bits := .inr rfl
  lifted p bits h := by
    rcases tableTfps_unban bits p with ⟨-, hunban⟩ | ⟨-, hunban⟩
    · rw [hunban] at h
      cases h
    · rw [hunban]
      exact (tableHolds_filter p bits bits).trans (if_pos rfl)
  notHeld p bits h := by
    rcases tableTfps_unban bits p with ⟨hnone, hunban⟩ | ⟨-, hunban⟩
    · rw [hunban]
      exact hnone
    · rw [hunban] at h
      cases h
  others p bits other h := by
    rcases tableTfps_unban bits p with ⟨-, hunban⟩ | ⟨-, hunban⟩
    · rw [hunban]
      exact .inr rfl
    · rw [hunban]
      exact .inr ((tableHolds_filter p bits other).trans (if_neg h))

theorem tableTfps_keeps (bits : BitVec 32) : tableTfps.Keeps tableHolds bits where
  asked p := rfl
  held p h := by
    rcases tableTfps_unban bits p with ⟨hnone, -⟩ | ⟨-, hunban⟩
    · exact absurd hnone h
    · rw [hunban]
      simp
  others p other h := by
    rcases tableTfps_unban other p with ⟨-, hunban⟩ | ⟨-, hunban⟩
    · rw [hunban]
    · rw [hunban]
      exact (tableHolds_filter p other bits).trans (if_neg (Ne.symm h))

def tableService : ActionService (List (BitVec 32 × Option ℕ)) where
  policy := [.rest]
  limits := .standard
  tfps := tableTfps
  texts := .dotted

/-- The ban of an hour on `192.0.2.1`, asked for at 100 seconds. -/
def hourBan : Intent :=
  tableService.banIntent "a-1-1".toList .rest "ada".toList (.v4 0xC0000201) 3600 100

/-- A service whose ban is in doubt, before or behind an earlier one; TFPS holds it. -/
def doubtful (before : Ledger) : Inner (List (BitVec 32 × Option ℕ)) :=
  { tableService.fresh [(0xC0000201, some 3700)] "1".toList 0 with
    ledger := before.record 3 (.intent none hourBan) }

theorem keyed_doubtful {before : Ledger} (h : before.Keyed) : (doubtful before).ledger.Keyed :=
  h.record 3 (.intent none hourBan) (fun _ h => by cases h)

/-- Only that ban is in doubt, and TFPS holds it: it is not lifted, and nothing is reported. -/
theorem revert_all_leaves_doubtful :
    (doubtful (.empty 0)).ledger.Keyed ∧ tableTfps.Truthful tableHolds ∧
      ∃ report s', tableService.revert .commandLine .all (200 * nanosPerSec)
          (doubtful (.empty 0)) = .ok report s' ∧
        report.failed = [] ∧ report.left = [] ∧
        ¬ Reverted tableService tableHolds [(0xC0000201, some 3700)]
          (doubtful (.empty 0)).ledger 200 s' := by
  refine ⟨keyed_doubtful (Ledger.keyed_empty 0), tableTfps_truthful, ?_⟩
  obtain ⟨report, s', hrun, hcheck⟩ := ok_of_check
    (tableService.revert .commandLine .all (200 * nanosPerSec)) (doubtful (.empty 0))
    (fun report s' => report.failed = [] ∧ report.left = [] ∧ s'.ledger.ownedNewestFirst ≠ [])
    (by decide +kernel)
  obtain ⟨hfailed, hleft, howned⟩ := of_decide_eq_true hcheck
  exact ⟨report, s', hrun, hfailed, hleft, fun hreverted => howned hreverted.1⟩

/-- A ledger with a ban on the same address, owned since 50 seconds. -/
def earlierBan : Ledger :=
  ((Ledger.empty 0).record 1 (.intent none { hourBan with id := "a-0-1".toList, atSecs := 50 })).record
    2 (.outcome false "a-0-1".toList .applied none)

/-- With an earlier ban owned on the address, the one in doubt is lifted with it. -/
theorem revert_all_earlierBan :
    ∃ report s', tableService.revert .commandLine .all (200 * nanosPerSec)
        (doubtful earlierBan) = .ok report s' ∧
      Reverted tableService tableHolds [(0xC0000201, some 3700)]
        (doubtful earlierBan).ledger 200 s' := by
  have hkeyed : (doubtful earlierBan).ledger.Keyed := keyed_doubtful
    (((Ledger.keyed_empty 0).record 1 _ (fun _ h => by cases h)).record 2 _ (fun _ h => by cases h))
  have hbefore : OwnedBefore tableService [(0xC0000201, some 3700)]
      (doubtful earlierBan).ledger 200 := by
    intro x o h _
    obtain ⟨i, hlast, -⟩ := bind_eq_some_iff.mp h
    have hmem := mem_of_getLast? hlast
    rw [mem_filter, decide_eq_true_eq] at hmem
    have hi : i = { hourBan with seq := 3 } := mem_singleton.mp hmem.1
    rw [← hmem.2.1, hi]
    decide +kernel
  obtain ⟨report, s', hrun, hcheck⟩ := ok_of_check
    (tableService.revert .commandLine .all (200 * nanosPerSec)) (doubtful earlierBan)
    (fun report _ => report.failed = [] ∧ report.left = []) (by decide +kernel)
  obtain ⟨hfailed, hleft⟩ := of_decide_eq_true hcheck
  have hall := revert_all hkeyed tableTfps_truthful rfl hrun hfailed hleft
  exact ⟨report, s', hrun, (hall.2 (fun _ _ bits _ _ _ => tableTfps_keeps bits)).mpr hbefore⟩

end ActionService

end Sipnab.Operations
