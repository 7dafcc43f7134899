import Sipnab.Journal.Records

/-!
# The ledger

What the records of a journal say is in force: the bans placed and still owned, the actions with
no known outcome, and the actions of the last hour.
-/

namespace Sipnab.Operations

open OrderedMap

def recentKeepSecs : ℕ := 3600

inductive Verb
  | ban
  | unban
  deriving DecidableEq

structure Intent where
  id : Text
  verb : Verb
  address : Text
  atSecs : ℕ
  expires : Option ℕ
  caller : Text
  surface : Text
  seq : ℕ
  deriving DecidableEq

inductive Resolution
  | applied
  | notApplied
  | unknown
  deriving DecidableEq

structure Owned where
  id : Text
  address : Text
  expires : ℕ
  atSecs : ℕ
  seq : ℕ
  caller : Text
  surface : Text
  deriving DecidableEq

structure RecentAction where
  caller : Text
  address : Text
  atSecs : ℕ
  deriving DecidableEq

structure Ledger where
  /-- By address. -/
  owned : OrderedMap Text Owned
  /-- By id. -/
  inDoubt : OrderedMap Text Intent
  unknown : List Intent
  /-- Oldest first. -/
  recent : List RecentAction
  /-- The time the ledger is read at; not part of a checkpoint. -/
  now : ℕ

/-- How the parts of a ledger are read from values, and a ledger is written as one. -/
structure LedgerSerde (js : Serde) where
  intent : js.Value → Option Intent
  resolution : js.Value → Option Resolution
  ledger : js.Value → Option Ledger
  toValue : Ledger → js.Value

/-- A ledger that was written is read back, but for its clock. -/
def LedgerSerde.RoundTrips {js : Serde} (ls : LedgerSerde js) : Prop :=
  ∀ ledger, ls.ledger (ls.toValue ledger) = some { ledger with now := 0 }

namespace Ledger

variable {js : Serde} (ls : LedgerSerde js)

def empty (now : ℕ) : Ledger := ⟨.empty, .empty, [], [], now⟩

def setNow (now : ℕ) (l : Ledger) : Ledger :=
  { l with
    now := now
    owned := l.owned.retain (fun o => now < o.expires)
    recent := l.recent.filter (fun a => now - recentKeepSecs ≤ a.atSecs) }

def takeEffect (intent : Intent) (l : Ledger) : Ledger :=
  match intent.verb with
  | .ban =>
    match intent.expires with
    | some expires =>
      { l with
        owned := l.owned.insert intent.address
          { id := intent.id
            address := intent.address
            expires := expires
            atSecs := intent.atSecs
            seq := intent.seq
            caller := intent.caller
            surface := intent.surface } }
    | none => l
  | .unban => { l with owned := l.owned.erase intent.address }

def doAdmit (intent : Intent) (l : Ledger) : Ledger :=
  { l with
    recent := l.recent ++ [⟨intent.caller, intent.address, intent.atSecs⟩]
    inDoubt := l.inDoubt.insert intent.id intent }

/-- Take an action out of doubt, if it is there, and go on with it. -/
def withDoubt (id : Option Text) (l : Ledger) (go : Intent → Ledger → Ledger) : Ledger :=
  match id.bind l.inDoubt.get? with
  | some intent => go intent { l with inDoubt := l.inDoubt.erase (id.getD []) }
  | none => l

def reconcile (resolution : Option Resolution) (intent : Intent) (l : Ledger) : Ledger :=
  match resolution with
  | some .applied => takeEffect intent l
  | some .unknown => { l with unknown := l.unknown ++ [intent] }
  | some .notApplied => l
  | none => { l with inDoubt := l.inDoubt.insert intent.id intent }

/-- The peer dropped a ban: it is no longer owned, if it is the one that was. -/
def lapse (id address : Text) (l : Ledger) : Ledger :=
  match l.owned.get? address with
  | some o => if o.id = id then { l with owned := l.owned.erase address } else l
  | none => l

def apply (l : Ledger) (record : Record js) : Ledger :=
  let body := record.body
  let id := js.asStr (Serde.index body "id".toList)
  let kind := record.kind
  if kind = "action_intent".toList ∨ kind = "revert_intent".toList then
    match ls.intent body with
    | some intent => l.doAdmit { intent with seq := record.seq }
    | none => l
  else if kind = "action_outcome".toList ∨ kind = "revert_outcome".toList then
    let result := js.asStr (Serde.index body "result".toList)
    -- the peer may have acted, so that the action stays in doubt
    if result = some "unknown".toList then l
    else l.withDoubt id (fun intent l =>
      if result = some "applied".toList then takeEffect intent l else l)
  else if kind = "reconciled".toList then
    l.withDoubt id (reconcile (ls.resolution (Serde.index body "resolution".toList)))
  else if kind = "lapsed_by_peer".toList then
    match id, js.asStr (Serde.index body "address".toList) with
    | some id, some address => l.lapse id address
    | _, _ => l
  else if kind = checkpointKind then
    match ls.ledger (Serde.index body "state".toList) with
    | some state => { state with now := l.now }
    | none => l
  else l

def fromRecords (records : List (Record js)) (now : ℕ) : Ledger :=
  (records.foldl (apply ls) (empty now)).setNow now

def ownedNewestFirst (l : Ledger) : List Owned :=
  ((l.owned.entries.map Prod.snd).filter (fun o => l.now < o.expires)).mergeSort
    (fun a b => b.seq ≤ a.seq)

def recentActions (l : Ledger) (now windowSecs : ℕ) : List RecentAction :=
  l.recent.filter (fun a => now < a.atSecs + windowSecs ∧ a.atSecs ≤ now)

def checkpointState (l : Ledger) : js.Value := ls.toValue l

/-! ## The clock -/

variable {ls} {now now' : ℕ} {l l' : Ledger}

def inForce (now : ℕ) (o : Owned) : Bool := now < o.expires

def isRecent (now : ℕ) (a : RecentAction) : Bool := now - recentKeepSecs ≤ a.atSecs

theorem setNow_eq (now : ℕ) (l : Ledger) : l.setNow now =
    ⟨l.owned.retain (inForce now), l.inDoubt, l.unknown, l.recent.filter (isRecent now), now⟩ := rfl

theorem lapse_others (id address : Text) (l : Ledger) :
    (l.lapse id address).inDoubt = l.inDoubt ∧ (l.lapse id address).unknown = l.unknown ∧
      (l.lapse id address).recent = l.recent := by
  unfold lapse
  split
  · split_ifs
    · exact ⟨rfl, rfl, rfl⟩
    · exact ⟨rfl, rfl, rfl⟩
  · exact ⟨rfl, rfl, rfl⟩

theorem takeEffect_others (intent : Intent) (l : Ledger) :
    (takeEffect intent l).inDoubt = l.inDoubt ∧ (takeEffect intent l).unknown = l.unknown ∧
      (takeEffect intent l).recent = l.recent := by
  unfold takeEffect
  split
  · split
    · exact ⟨rfl, rfl, rfl⟩
    · exact ⟨rfl, rfl, rfl⟩
  · exact ⟨rfl, rfl, rfl⟩

theorem recent_settle (id : Option Text) (resolution : Option Resolution) (l : Ledger) :
    (l.withDoubt id (reconcile resolution)).recent = l.recent := by
  unfold withDoubt
  split
  · unfold reconcile
    split
    · exact (takeEffect_others _ _).2.2
    · rfl
    · rfl
    · rfl
  · rfl

structure SameAt (now : ℕ) (l l' : Ledger) : Prop where
  owned : ∀ k, (l.owned.get? k).filter (inForce now) = (l'.owned.get? k).filter (inForce now)
  inDoubt : l.inDoubt = l'.inDoubt
  unknown : l.unknown = l'.unknown
  recent : l.recent.filter (isRecent now) = l'.recent.filter (isRecent now)

namespace SameAt

theorem setNow_eq (h : SameAt now l l') : l.setNow now = l'.setNow now := by
  have howned : l.owned.retain (inForce now) = l'.owned.retain (inForce now) := by
    apply ext_get?
    intro k
    rw [get?_retain, get?_retain, h.owned]
  rw [Ledger.setNow_eq, Ledger.setNow_eq, howned, h.inDoubt, h.unknown, h.recent]

theorem trans {l'' : Ledger} (h : SameAt now l l') (h' : SameAt now l' l'') : SameAt now l l'' :=
  ⟨fun k => (h.owned k).trans (h'.owned k), h.inDoubt.trans h'.inDoubt,
    h.unknown.trans h'.unknown, h.recent.trans h'.recent⟩

theorem of_setNow (hnow : now ≤ now') (l : Ledger) : SameAt now' (l.setNow now) l where
  owned k := by
    rw [Ledger.setNow_eq, get?_retain, Option.filter_filter]
    congr 1
    funext o
    rw [Bool.and_eq_right_iff_imp]
    simp only [inForce, decide_eq_true_eq]
    omega
  inDoubt := rfl
  unknown := rfl
  recent := by
    rw [Ledger.setNow_eq, List.filter_filter]
    apply List.filter_congr
    intro a _
    rw [Bool.and_eq_left_iff_imp, isRecent, isRecent, decide_eq_true_eq, decide_eq_true_eq]
    generalize recentKeepSecs = keep
    omega

theorem of_clock (now : ℕ) (l : Ledger) (clock : ℕ) : SameAt now { l with now := clock } l :=
  ⟨fun _ => rfl, rfl, rfl, rfl⟩

theorem takeEffect (h : SameAt now l l') (intent : Intent) :
    SameAt now (takeEffect intent l) (takeEffect intent l') := by
  unfold Ledger.takeEffect
  cases intent.verb with
  | ban =>
    cases intent.expires with
    | none => exact h
    | some expires =>
      refine ⟨fun k => ?_, h.inDoubt, h.unknown, h.recent⟩
      dsimp only
      rw [get?_insert, get?_insert]
      split_ifs with hk
      · rfl
      · exact h.owned k
  | unban =>
    refine ⟨fun k => ?_, h.inDoubt, h.unknown, h.recent⟩
    dsimp only
    rw [get?_erase, get?_erase]
    split_ifs with hk
    · rfl
    · exact h.owned k

theorem doAdmit (h : SameAt now l l') (intent : Intent) :
    SameAt now (l.doAdmit intent) (l'.doAdmit intent) := by
  refine ⟨h.owned, ?_, h.unknown, ?_⟩
  · simp only [Ledger.doAdmit, h.inDoubt]
  · simp only [Ledger.doAdmit, List.filter_append, h.recent]

theorem withDoubt (h : SameAt now l l') (id : Option Text) {go : Intent → Ledger → Ledger}
    (hgo : ∀ intent l l', SameAt now l l' → SameAt now (go intent l) (go intent l')) :
    SameAt now (l.withDoubt id go) (l'.withDoubt id go) := by
  unfold Ledger.withDoubt
  rw [h.inDoubt]
  split
  · exact hgo _ _ _ ⟨h.owned, rfl, h.unknown, h.recent⟩
  · exact h

theorem reconcile (h : SameAt now l l') (resolution : Option Resolution) (intent : Intent) :
    SameAt now (reconcile resolution intent l) (reconcile resolution intent l') := by
  cases resolution with
  | none => exact ⟨h.owned, by simp only [Ledger.reconcile, h.inDoubt], h.unknown, h.recent⟩
  | some resolution =>
    cases resolution with
    | applied => exact h.takeEffect intent
    | notApplied => exact h
    | unknown => exact ⟨h.owned, h.inDoubt, by simp only [Ledger.reconcile, h.unknown], h.recent⟩

theorem get?_lapse (id address k : Text) (l : Ledger) :
    (l.lapse id address).owned.get? k =
      if k = address then (l.owned.get? k).filter (fun o => o.id ≠ id) else l.owned.get? k := by
  unfold Ledger.lapse
  split
  case h_1 o ho =>
    split_ifs with hid hk hk
    · subst hk
      rw [get?_erase, if_pos rfl, ho, Option.filter_some, if_neg (by simp [hid])]
    · rw [get?_erase, if_neg hk]
    · subst hk
      rw [ho, Option.filter_some, if_pos (by simp [hid])]
    · rfl
  case h_2 hnone =>
    split_ifs with hk
    · subst hk
      rw [hnone]
      rfl
    · rfl

theorem lapse (h : SameAt now l l') (id address : Text) :
    SameAt now (l.lapse id address) (l'.lapse id address) := by
  have hrest := lapse_others id address
  refine ⟨fun k => ?_, ?_, ?_, ?_⟩
  · rw [get?_lapse, get?_lapse]
    split_ifs with hk
    · have hcomm : ∀ o : Option Owned, (o.filter (fun o => o.id ≠ id)).filter (inForce now) =
          (o.filter (inForce now)).filter (fun o => o.id ≠ id) := by
        intro o
        rw [Option.filter_filter, Option.filter_filter]
        congr 1
        funext o
        exact Bool.and_comm _ _
      rw [hcomm, hcomm, h.owned]
    · exact h.owned k
  · rw [(hrest l).1, (hrest l').1, h.inDoubt]
  · rw [(hrest l).2.1, (hrest l').2.1, h.unknown]
  · rw [(hrest l).2.2, (hrest l').2.2, h.recent]

theorem apply (h : SameAt now l l') (record : Record js) :
    SameAt now (l.apply ls record) (l'.apply ls record) := by
  unfold Ledger.apply
  dsimp only
  split_ifs
  · split
    · exact h.doAdmit _
    · exact h
  · exact h
  · exact h.withDoubt _ (fun intent l l' hl => hl.takeEffect intent)
  · exact h.withDoubt _ (fun intent l l' hl => hl)
  · exact h.withDoubt _ (fun intent l l' hl => hl.reconcile _ intent)
  · split
    · exact h.lapse _ _
    · exact h
  · split
    · exact ⟨fun _ => rfl, rfl, rfl, rfl⟩
    · exact h
  · exact h

theorem foldl (h : SameAt now l l') (records : List (Record js)) :
    SameAt now (records.foldl (Ledger.apply ls) l) (records.foldl (Ledger.apply ls) l') := by
  induction records generalizing l l' with
  | nil => exact h
  | cons record records ih => exact ih (h.apply record)

end SameAt

/-! ## Checkpoints -/

theorem apply_checkpoint (hrt : ls.RoundTrips) {checkpoint : Record js}
    (hkind : checkpoint.kind = checkpointKind)
    (hstate : Serde.index checkpoint.body "state".toList = checkpointState ls l) (l' : Ledger) :
    l'.apply ls checkpoint = { l with now := l'.now } := by
  unfold apply
  dsimp only
  rw [hkind, hstate, checkpointState, hrt]
  rfl

/-- A checkpoint of the records before it stands for them, with or without them in front of it. -/
theorem fromRecords_checkpoint (hrt : ls.RoundTrips) (before after : List (Record js))
    (hnow : now ≤ now') {checkpoint : Record js} (hkind : checkpoint.kind = checkpointKind)
    (hstate : Serde.index checkpoint.body "state".toList =
      checkpointState ls (fromRecords ls before now)) :
    fromRecords ls (checkpoint :: after) now' = fromRecords ls (before ++ after) now' ∧
      fromRecords ls (before ++ checkpoint :: after) now' =
        fromRecords ls (before ++ after) now' := by
  have hstart : ∀ clock, SameAt now' { fromRecords ls before now with now := clock }
      (before.foldl (apply ls) (empty now')) := by
    intro clock
    have hclock : SameAt now' (empty now) (empty now') := SameAt.of_clock now' (empty now') now
    exact (SameAt.of_clock now' _ clock).trans ((SameAt.of_setNow hnow _).trans (hclock.foldl before))
  have hwhole : fromRecords ls (before ++ after) now' =
      (after.foldl (apply ls) (before.foldl (apply ls) (empty now'))).setNow now' := by
    rw [fromRecords, List.foldl_append]
  rw [hwhole]
  constructor
  · rw [fromRecords, List.foldl_cons, apply_checkpoint hrt hkind hstate]
    exact ((hstart _).foldl after).setNow_eq
  · rw [fromRecords, List.foldl_append, List.foldl_cons, apply_checkpoint hrt hkind hstate]
    exact ((hstart _).foldl after).setNow_eq

inductive Sample
  | null
  | text (s : Text)
  | intent (intent : Intent)
  | applied (id : Text)
  | ledger (l : Ledger)
  | state (l : Ledger)

def sampleSerde : Serde where
  Value := Sample
  null := .null
  number _ := .null
  string := .text
  object _ := .null
  asU64 _ := none
  asStr v := match v with
    | .text s => some s
    | _ => none
  asObject v := match v with
    | .intent intent => some (OrderedMap.empty.insert "id".toList (.text intent.id))
    | .applied id => some ((OrderedMap.empty.insert "id".toList (.text id)).insert "result".toList
        (.text "applied".toList))
    | .state l => some (OrderedMap.empty.insert "state".toList (.ledger l))
    | _ => none
  toBytes _ := []
  fromBytes _ := none

def sampleLedgerSerde : LedgerSerde sampleSerde where
  intent v := match v with
    | Sample.intent intent => some intent
    | _ => none
  resolution _ := none
  ledger v := match v with
    | Sample.ledger l => some { l with now := 0 }
    | _ => none
  toValue l := Sample.ledger l

def banOf (id address : Text) (expires : ℕ) : Intent :=
  { id := id, verb := .ban, address := address, atSecs := 100, expires := some expires,
    caller := "op".toList, surface := "cli".toList, seq := 0 }

/-- A ban that is applied behind the checkpoint, and one that lapses before the ledger is read. -/
theorem fromRecords_checkpoint_straddled :
    let before : List (Record sampleSerde) :=
      [⟨1, [], [], "action_intent".toList, Sample.intent (banOf "a1".toList "192.0.2.1".toList 300)⟩,
        ⟨2, [], [], "action_outcome".toList, Sample.applied "a1".toList⟩,
        ⟨3, [], [], "action_intent".toList,
          Sample.intent (banOf "a2".toList "192.0.2.2".toList 900)⟩]
    let after : List (Record sampleSerde) :=
      [⟨5, [], [], "action_outcome".toList, Sample.applied "a2".toList⟩]
    let checkpoint : Record sampleSerde :=
      ⟨4, [], [], checkpointKind, Sample.state (fromRecords sampleLedgerSerde before 200)⟩
    fromRecords sampleLedgerSerde (checkpoint :: after) 400 =
        fromRecords sampleLedgerSerde (before ++ after) 400 ∧
      fromRecords sampleLedgerSerde (before ++ checkpoint :: after) 400 =
        fromRecords sampleLedgerSerde (before ++ after) 400 := by
  intro before after checkpoint
  have hnow : 200 ≤ 400 := by decide
  exact fromRecords_checkpoint (fun _ => rfl) before after hnow rfl rfl

end Ledger

end Sipnab.Operations
