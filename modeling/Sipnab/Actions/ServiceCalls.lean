import Sipnab.Actions.Service

/-!
# The calls of the action service

Bans, unbans, reverts and checks against TFPS, and the start of a run. Every call is one program
over the service's state; what the disk and TFPS do, and when the process ends, is given with it.
-/

namespace Sipnab

def IpAddr.index : IpAddr → ℕ
  | .v4 bits => bits.toNat
  | .v6 bits => 2 ^ 32 + bits.toNat

theorem IpAddr.index_injective : Function.Injective IpAddr.index := by
  intro a b h
  cases a with
  | v4 x =>
    cases b with
    | v4 y => exact congrArg _ (BitVec.eq_of_toNat_eq h)
    | v6 y =>
      have hx := x.isLt
      simp only [index] at h
      omega
  | v6 x =>
    cases b with
    | v4 y =>
      have hy := y.isLt
      simp only [index] at h
      omega
    | v6 y => exact congrArg _ (BitVec.eq_of_toNat_eq (Nat.add_left_cancel h))

instance instLinearOrderIpAddr : LinearOrder IpAddr := LinearOrder.lift' IpAddr.index IpAddr.index_injective

namespace Operations

structure Placed where
  caller : Text
  address : BitVec 32
  expires : ℕ
  deriving DecidableEq

/-- An unban that TFPS was asked for: by whom, whether they may lift any ban, and the bans that
stood on the address. -/
structure Lift where
  caller : Text
  any : Bool
  standing : List Placed
  deriving DecidableEq

/-- TFPS and the names of the actions, and what TFPS was asked so far: the bans that it has neither
refused nor reported gone, and the unbans. -/
structure Outside (σ : Type) where
  peer : σ
  run : Text
  next : ℕ
  runs : List Text
  placed : List Placed
  lifts : List Lift

/-- The service's state, and what the disk and the process do in a call. -/
structure Inner (σ : Type) where
  ledger : Ledger
  /-- None if it could not be opened. -/
  journal : Option RecordLog
  governor : ActionGovernor IpAddr
  folds : List ((Text × Text) × ℕ)
  foldMinute : ℕ
  outside : Outside σ
  /-- One for each write. -/
  disk : List DiskStep
  /-- How many more times the process gets to the disk or to TFPS, if it ends in this call. -/
  alive : Option ℕ
  /-- A record was written behind what a failed append left, or no checkpoint was left first. -/
  soiled : Bool

/-- The texts of addresses; one of version 4 has only one. -/
structure IpTexts extends AddressText IpAddr where
  text_of_parse : ∀ t bits, parse t = some (.v4 bits) → t = text (.v4 bits)

/-- What a call is given: the policy, the limits, TFPS and the texts of addresses. -/
structure ActionService (σ : Type) where
  policy : List ActionSurface
  limits : ActionLimits
  tfps : Tfps σ
  texts : IpTexts

abbrev ServiceM (σ : Type) := EStateM ActionError (Inner σ)

variable {σ : Type}

namespace Inner

def lives (s : Inner σ) : Option (Inner σ) :=
  match s.alive with
  | none => some s
  | some 0 => none
  | some (n + 1) => some { s with alive := some n }

/-- The segment may be full: the next one opens with everything in force. -/
def rollOver (s : Inner σ) (d : DiskStep) (j : RecordLog) :
    EStateM.Result ActionError (Inner σ) PUnit :=
  match d.rollOver with
  | none => .ok ⟨⟩ { s with journal := some j }
  | some ended =>
    match j.append (.checkpoint s.ledger) ended with
    | (none, j) => .error .journalUnusable { s with journal := some j }
    | (some _, j) =>
      let bare := 0 < d.pruned ∧ ¬ ((j.prune d.pruned).lines.head?.any
        (fun line => line.2 matches .checkpoint _))
      .ok ⟨⟩ { s with journal := some (j.prune d.pruned), soiled := s.soiled || bare }

def write (e : Entry) : ServiceM σ PUnit := fun s =>
  match s.lives, s.journal with
  | none, _ => .error .crashed s
  | some s, none => .error .journalUnusable s
  | some s, some j =>
    let d := s.disk.headD .plain
    let s := { s with disk := s.disk.tail, soiled := s.soiled || j.tail ≠ Tail.clean }
    match j.append e d.append with
    | (none, j) => .error .journalUnusable { s with journal := some j }
    | (some seq, j) => { s with ledger := s.ledger.record seq e }.rollOver d j

def attempt (m : ServiceM σ PUnit) : ServiceM σ PUnit := fun s =>
  match m s with
  | .ok _ s => .ok ⟨⟩ s
  | .error _ s => .ok ⟨⟩ s

def ready : ServiceM σ PUnit := fun s =>
  match s.journal with
  | some _ => .ok ⟨⟩ s
  | none => .error .journalUnusable s

def newId : ServiceM σ Text := fun s =>
  .ok ("a-".toList ++ s.outside.run ++ "-".toList ++ (toString s.outside.next).toList)
    { s with outside := { s.outside with next := s.outside.next + 1 } }

def setNow (nowUnix : ℕ) : ServiceM σ PUnit := fun s =>
  .ok ⟨⟩ { s with ledger := s.ledger.setNow nowUnix }

/-- Write the minute's folded refusals once the minute has passed. -/
def flushFolds (nowUnix : ℕ) : ServiceM σ PUnit := do
  let s ← get
  if nowUnix / 60 = s.foldMinute then return ⟨⟩
  set { s with folds := [], foldMinute := nowUnix / 60 }
  if s.folds.any (fun fold => 0 < fold.2) then
    attempt (write (.note "refusals_summary".toList))

/-- Count one more refusal of a caller and reason that was seen before. -/
def foldOne (key : Text × Text) (folds : List ((Text × Text) × ℕ)) : List ((Text × Text) × ℕ) :=
  folds.map (fun fold => if fold.1 = key then (fold.1, fold.2 + 1) else fold)

/-- Journal a refusal, the first of each caller and reason in a minute. -/
def refused (caller reason : Text) (nowUnix : ℕ) : ServiceM σ PUnit := do
  flushFolds nowUnix
  let s ← get
  let key := if s.folds.length < maxTracked then (caller, reason) else ("(others)".toList, reason)
  if s.folds.any (fun fold => fold.1 = key) then
    set { s with folds := foldOne key s.folds }
  else
    set { s with folds := s.folds ++ [(key, 0)] }
    attempt (write (.note "action_refused".toList))

def refuse {α : Type} (caller : Text) (reason : String) (nowUnix : ℕ) (err : ActionError) :
    ServiceM σ α := do
  refused caller reason.toList nowUnix
  throw err

def doAdmit (caller : Text) (ip : IpAddr) (now : ℕ) : ServiceM σ (Except ActionThrottle Unit) := fun s =>
  .ok (s.governor.doAdmit caller ip now).1
    { s with governor := (s.governor.doAdmit caller ip now).2 }

end Inner

namespace ActionService

open Operations.Inner

variable (svc : ActionService σ)

def parseV4 (address : Text) : Option (BitVec 32) :=
  match svc.texts.parse address with
  | some (.v4 bits) => some bits
  | _ => none

def viewOf (list : List (BitVec 32 × Option ℕ)) (address : Text) : TfpsView :=
  match svc.parseV4 address with
  | some bits => ((list.find? (fun row => row.1 = bits)).map (fun row => TfpsView.banned row.2)).getD
      .absent
  | none => .absent

def askUnban (caller : Text) (any : Bool) (address : BitVec 32) (nowUnix : ℕ) :
    ServiceM σ (Except Text TfpsReply) := fun s =>
  match s.lives with
  | none => .error .crashed s
  | some s =>
    let (reply, peer) := svc.tfps.unban address s.outside.peer
    let standing := s.outside.placed.filter (fun p => p.address = address ∧ nowUnix < p.expires)
    let gone := reply = .ok .applied ∨ reply = .ok (.refused notBlocked)
    let placed := if gone then s.outside.placed.filter (fun p => p.address ≠ address)
      else s.outside.placed
    .ok reply { s with outside := { s.outside with
      peer := peer
      placed := placed
      lifts := s.outside.lifts ++ [⟨caller, any, standing⟩] } }

def askBanned : ServiceM σ (Except Text (List (BitVec 32 × Option ℕ))) := fun s =>
  match s.lives with
  | none => .error .crashed s
  | some s =>
    let (answer, peer) := svc.tfps.banned s.outside.peer
    let placed := match answer with
      | .ok list => s.outside.placed.filter (fun p => list.any (fun row => row.1 = p.address))
      | .error _ => s.outside.placed
    .ok answer { s with outside := { s.outside with peer := peer, placed := placed } }

def settleOne (list : List (BitVec 32 × Option ℕ)) (intent : Intent) : ServiceM σ PUnit :=
  match intent.resolve (svc.viewOf list intent.address) with
  | some resolution => write (.reconciled intent.id resolution)
  | none => pure ⟨⟩

def lapseOne (nowUnix : ℕ) (o : Owned) : ServiceM σ PUnit :=
  write (.lapsedByPeer o.id o.address nowUnix)

/-- Resolve what is in doubt and find the owned bans that TFPS dropped early, against its list;
how many were resolved, and the addresses journaled as lapsed. -/
def checkPeer (list : List (BitVec 32 × Option ℕ)) (nowUnix : ℕ) : ServiceM σ (ℕ × List Text) := do
  let doubts := (← get).ledger.doubts
  doubts.forM (svc.settleOne list)
  setNow nowUnix
  let gone := (← get).ledger.ownedNewestFirst.filter (fun o => svc.viewOf list o.address = .absent)
  gone.forM (lapseOne nowUnix)
  return ((doubts.filter
    (fun intent => (intent.resolve (svc.viewOf list intent.address)).isSome)).length,
    gone.map Owned.address)

def banIntent (id : Text) (surface : ActionSurface) (caller : Text) (ip : IpAddr)
    (secs nowUnix : ℕ) : Intent where
  id := id
  verb := .ban
  address := svc.texts.text ip
  atSecs := nowUnix
  expires := some (nowUnix + secs)
  caller := caller
  surface := surface.name
  seq := 0

def unbanIntent (id address caller surface : Text) (nowUnix : ℕ) : Intent where
  id := id
  verb := .unban
  address := address
  atSecs := nowUnix
  expires := none
  caller := caller
  surface := surface
  seq := 0

def revertedBy : Reverter → Text × Text
  | .commandLine => ("local".toList, "cli".toList)
  | .surface surface caller => (caller.name, surface.name)

def mayLiftAny : Reverter → Bool
  | .commandLine => true
  | .surface _ caller => caller.admin

def refuseRevert {α : Type} (reverter : Reverter) (reason : String) (nowUnix : ℕ)
    (err : ActionError) : ServiceM σ α :=
  match reverter with
  | .commandLine => throw err
  | .surface _ caller => refuse caller.name reason nowUnix err

/-- The policy and the doubts that a revert on a surface must pass. -/
def permitRevert (reverter : Reverter) (nowUnix : ℕ) : ServiceM σ PUnit :=
  match reverter with
  | .commandLine => pure ⟨⟩
  | .surface surface caller => do
    if surface ∉ svc.policy then refuse caller.name "policy" nowUnix (.notEnabled surface)
    let doubt := (← get).ledger.inDoubt.length
    if 0 < doubt then refuse caller.name "in_doubt" nowUnix (.inDoubt doubt)

def wanted (reverter : Reverter) (target : RevertTarget) (nowUnix : ℕ) : ServiceM σ (List Owned) := do
  let owned := (← get).ledger.ownedNewestFirst
  match target with
  | .all => return owned.filter (fun o => reverter.mayLift o.caller)
  | .one id =>
    let found := owned.filter (fun o => o.id = id)
    if found = [] then refuseRevert reverter "ownership" nowUnix .notOwned
    match found.find? (fun o => !reverter.mayLift o.caller) with
    | some theirs => refuseRevert reverter "ownership" nowUnix (.notYours theirs.caller)
    | none => return found

def admitRevert (reverter : Reverter) (bits : BitVec 32) (now : ℕ) :
    ServiceM σ (Except ActionThrottle Unit) :=
  match reverter with
  | .commandLine => pure (.ok ())
  | .surface _ caller => Inner.doAdmit caller.name (.v4 bits) now

/-- Journal the unban of one ban, ask for it and journal the answer. -/
def lift (reverter : Reverter) (o : Owned) (bits : BitVec 32) (nowUnix : ℕ) :
    ServiceM σ (Except Text TfpsReply) := do
  let id ← newId
  write (.intent (some o.id)
    (unbanIntent id o.address (revertedBy reverter).1 (revertedBy reverter).2 nowUnix))
  let reply ← svc.askUnban (revertedBy reverter).1 (mayLiftAny reverter) bits nowUnix
  write (.outcome true id (outcomeOf reply).1 (outcomeOf reply).2)
  return reply

def reportLift (target : RevertTarget) (o : Owned) (nowUnix : ℕ) (report : RevertReport)
    (reply : Except Text TfpsReply) : ServiceM σ RevertReport :=
  let failure := fun why : Text => { report with failed := report.failed ++ [⟨o.id, o.address, why⟩] }
  match reply with
  | .ok .applied => return { report with reverted := report.reverted ++ [o.id] }
  | .ok (.refused why) =>
    if why = notBlocked then do
      write (.lapsedByPeer o.id o.address nowUnix)
      return { report with lapsed := report.lapsed ++ [o.address] }
    else return failure why
  | .ok (.unanswered why) =>
    match target with
    | .one _ => throw (.unanswered why)
    | .all => return failure why
  | .error why =>
    match target with
    | .one _ => throw (.tfps why)
    | .all => return failure why

/-- Back out one of the bans; with a rate limit that stops the revert, the others are left. -/
def revertOne (reverter : Reverter) (target : RevertTarget) (now : ℕ) (lapsed : List Text)
    (o : Owned) (rest : List Owned) (report : RevertReport) :
    ServiceM σ (ForInStep RevertReport) := do
  if o.address ∈ lapsed then
    return .yield { report with lapsed := report.lapsed ++ [o.address] }
  else
    match svc.parseV4 o.address with
    | none => return .yield report
    | some bits =>
      match ← admitRevert reverter bits now with
      | .error throttle =>
        if report.reverted = [] ∧ report.lapsed = [] then
          refuseRevert reverter "rate" (unixSecs now) (.throttled throttle)
        else return .done { report with left := (o :: rest).map Owned.id }
      | .ok () =>
        let reply ← svc.lift reverter o bits (unixSecs now)
        return .yield (← reportLift target o (unixSecs now) report reply)

def revertEach (reverter : Reverter) (target : RevertTarget) (now : ℕ) (lapsed : List Text) :
    List Owned → RevertReport → ServiceM σ RevertReport
  | [], report => pure report
  | o :: rest, report => do
    match ← svc.revertOne reverter target now lapsed o rest report with
    | .done report => return report
    | .yield report => revertEach reverter target now lapsed rest report

/-- Back out one action, or every ban placed through the service that is still in force. -/
def revert (reverter : Reverter) (target : RevertTarget) (now : ℕ) : ServiceM σ RevertReport := do
  let nowUnix := unixSecs now
  ready
  setNow nowUnix
  svc.permitRevert reverter nowUnix
  let wanted ← wanted reverter target nowUnix
  match ← svc.askBanned with
  | .error why => throw (.tfps why)
  | .ok list =>
    let (_, lapsed) ← svc.checkPeer list nowUnix
    let unknown := (← get).ledger.unknown.map Intent.address
    svc.revertEach reverter target now lapsed wanted
      { skippedUnknown := if target = .all then unknown else [] }

def fresh (peer : σ) (run : Text) (now : ℕ) : Inner σ where
  ledger := .empty (unixSecs now)
  journal := some ⟨[], .clean, 0⟩
  governor := .new svc.limits maxTracked now
  folds := []
  foldMinute := unixSecs now / 60
  outside := ⟨peer, run, 1, [], [], []⟩
  disk := []
  alive := none
  soiled := false

end ActionService

/-! ## Addresses in decimal -/

namespace IpTexts

def digit (n : ℕ) : Char := "0123456789abcdef".toList.getD n '0'

def value (c : Char) : ℕ := "0123456789abcdef".toList.idxOf c

theorem value_digit : ∀ n < 16, value (digit n) = n := by decide

def octetText (n : ℕ) : Text :=
  if n < 10 then [digit n]
  else if n < 100 then [digit (n / 10), digit (n % 10)]
  else [digit (n / 100), digit (n / 10 % 10), digit (n % 10)]

def octetOf (t : Text) : ℕ := t.foldl (fun n c => n * 10 + value c) 0

theorem octetOf_octetText : ∀ n < 256, octetOf (octetText n) = n := by decide +kernel

theorem dot_not_mem_octetText : ∀ n < 256, '.' ∉ octetText n := by decide +kernel

theorem head_octetText : ∀ n < 256, ∃ c rest, octetText n = c :: rest ∧ c ≠ ':' := by
  have h : ∀ n < 256, (octetText n).head?.any (· ≠ ':') = true := by decide +kernel
  intro n hn
  have hn := h n hn
  cases htext : octetText n with
  | nil =>
    rw [htext] at hn
    cases hn
  | cons c rest =>
    rw [htext] at hn
    exact ⟨c, rest, rfl, of_decide_eq_true hn⟩

def octet (bits : BitVec 32) (k : ℕ) : ℕ := bits.toNat / 256 ^ k % 256

def dottedText (bits : BitVec 32) : Text :=
  ['.'].intercalate [octetText (octet bits 3), octetText (octet bits 2), octetText (octet bits 1),
    octetText (octet bits 0)]

/-- The address of a dotted text, if it is the one that the address is written as. -/
def dottedParse (t : Text) : Option (BitVec 32) :=
  match t.splitOn '.' with
  | [a, b, c, d] =>
    let bits := BitVec.ofNat 32
      (((octetOf a * 256 + octetOf b) * 256 + octetOf c) * 256 + octetOf d)
    if dottedText bits = t then some bits else none
  | _ => none

theorem octet_lt (bits : BitVec 32) (k : ℕ) : octet bits k < 256 := Nat.mod_lt _ (by decide)

theorem ofNat_octets (bits : BitVec 32) :
    BitVec.ofNat 32 (((octet bits 3 * 256 + octet bits 2) * 256 + octet bits 1) * 256 +
      octet bits 0) = bits := by
  have hlt := bits.isLt
  refine BitVec.eq_of_toNat_eq ?_
  rw [BitVec.toNat_ofNat]
  unfold octet
  omega

theorem dottedParse_dottedText (bits : BitVec 32) : dottedParse (dottedText bits) = some bits := by
  have hsplit : (dottedText bits).splitOn '.' = [octetText (octet bits 3),
      octetText (octet bits 2), octetText (octet bits 1), octetText (octet bits 0)] := by
    refine List.splitOn_intercalate '.' (fun t ht => ?_) (List.cons_ne_nil _ _)
    simp only [List.mem_cons, List.not_mem_nil, or_false] at ht
    rcases ht with rfl | rfl | rfl | rfl
    · exact dot_not_mem_octetText _ (octet_lt bits 3)
    · exact dot_not_mem_octetText _ (octet_lt bits 2)
    · exact dot_not_mem_octetText _ (octet_lt bits 1)
    · exact dot_not_mem_octetText _ (octet_lt bits 0)
  have hoctet : ∀ k, octetOf (octetText (octet bits k)) = octet bits k :=
    fun k => octetOf_octetText _ (octet_lt bits k)
  unfold dottedParse
  rw [hsplit]
  simp only [hoctet, ofNat_octets, if_true]

theorem dottedText_of_parse {t : Text} {bits : BitVec 32} (h : dottedParse t = some bits) :
    t = dottedText bits := by
  unfold dottedParse at h
  split at h
  · dsimp only at h
    split_ifs at h with ht
    cases h
    exact ht.symm
  · cases h

def hexText (bits : BitVec 128) : Text := (Nat.digits 16 bits.toNat).map digit

def hexParse (t : Text) : BitVec 128 := BitVec.ofNat 128 (Nat.ofDigits 16 (t.map value))

theorem hexParse_hexText (bits : BitVec 128) : hexParse (hexText bits) = bits := by
  have hdigits : ((Nat.digits 16 bits.toNat).map digit).map value = Nat.digits 16 bits.toNat := by
    rw [List.map_map]
    refine (List.map_congr_left (fun d hd => ?_)).trans (List.map_id _)
    exact value_digit d (Nat.digits_lt_base (by decide) hd)
  unfold hexParse hexText
  rw [hdigits, Nat.ofDigits_digits, BitVec.ofNat_toNat, BitVec.setWidth_eq]

/-- Version 4 as the service writes it; behind a colon the digits of version 6, for which any text
will do here. -/
def dotted : IpTexts where
  text
    | .v4 bits => dottedText bits
    | .v6 bits => ':' :: hexText bits
  parse t :=
    match t with
    | ':' :: rest => some (.v6 (hexParse rest))
    | t => (dottedParse t).map .v4
  parse_text address := by
    cases address with
    | v6 bits => exact congrArg (fun b => some (IpAddr.v6 b)) (hexParse_hexText bits)
    | v4 bits =>
      obtain ⟨c, rest, htext, hc⟩ := head_octetText _ (octet_lt bits 3)
      have hcons : ∃ rest', dottedText bits = c :: rest' := by
        unfold dottedText
        rw [htext]
        exact ⟨_, rfl⟩
      obtain ⟨rest', hcons⟩ := hcons
      have hparse := dottedParse_dottedText bits
      dsimp only
      rw [hcons] at hparse ⊢
      split
      · rename_i heq
        cases heq
        exact absurd rfl hc
      · rw [hparse]
        rfl
  text_of_parse t bits h := by
    split at h
    · cases h
    · rw [Option.map_eq_some_iff] at h
      obtain ⟨bits', hbits, heq⟩ := h
      cases heq
      exact dottedText_of_parse hbits

end IpTexts

end Operations

end Sipnab
