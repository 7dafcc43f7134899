import Sipnab.Actions.LimitRuns
import Sipnab.Lib.Triples
import Sipnab.Sip.Message

/-!
# The action service

The one path every action takes: the policy, the rules, the rate limits, the journal, then TFPS,
then the journal again. A call stops at its first error, with what it did so far in place.
-/

namespace Sipnab.Operations

/-! ## What is journaled -/

inductive OutcomeResult
  | applied
  | refused
  | unknown
  | failed
  deriving DecidableEq

inductive Entry
  /-- Of an action, or of the revert of one. -/
  | intent (reverts : Option Text) (intent : Intent)
  | outcome (revert : Bool) (id : Text) (result : OutcomeResult) (detail : Option Text)
  | reconciled (id : Text) (resolution : Resolution)
  | lapsedByPeer (id address : Text) (atSecs : ℕ)
  | checkpoint (state : Ledger)
  /-- A record of a kind that the ledger does not read. -/
  | note (kind : Text)

def Ledger.record (seq : ℕ) (l : Ledger) : Entry → Ledger
  | .intent _ intent => l.doAdmit { intent with seq := seq }
  | .outcome _ id result _ =>
    if result = .unknown then l
    else l.withDoubt (some id)
      (fun intent l => if result = .applied then takeEffect intent l else l)
  | .reconciled id resolution => l.withDoubt (some id) (reconcile (some resolution))
  | .lapsedByPeer id address _ => l.lapse id address
  | .checkpoint state => { state with now := l.now }
  | .note _ => l

def Ledger.doubts (l : Ledger) : List Intent := l.inDoubt.entries.map Prod.snd

/-- How an append ends: with the line on disk, with an error and nothing of the line in the file,
with an error and a part of it, or with an error and the whole of it. -/
inductive AppendEnd
  | written
  | refused
  | partly
  | unsynced
  deriving DecidableEq

/-- What stands behind the lines that an open reads: nothing, a part of a line, a line that was not
acknowledged, a line that was written behind a part of one and is cut off with it, or more than an
open puts up with. -/
inductive Tail
  | clean
  | part
  | ahead
  | glued
  | broken
  deriving DecidableEq

structure RecordLog where
  lines : List (ℕ × Entry)
  tail : Tail
  /-- Of the last acknowledged record. -/
  seq : ℕ

namespace RecordLog

def put (j : RecordLog) (e : Entry) (tail : Tail) : RecordLog :=
  match j.tail with
  | .clean => { j with lines := j.lines ++ [(j.seq + 1, e)], tail := tail }
  | .part => { j with tail := .glued }
  | .ahead => { j with tail := .broken }
  | .glued => { j with tail := .broken }
  | .broken => j

def tear (j : RecordLog) : RecordLog :=
  match j.tail with
  | .clean => { j with tail := .part }
  | .part => j
  | .ahead => { j with tail := .part }
  | .glued => { j with tail := .broken }
  | .broken => j

/-- Append a record; its sequence number, if it is acknowledged. -/
def append (j : RecordLog) (e : Entry) : AppendEnd → Option ℕ × RecordLog
  | .written => (some (j.seq + 1), { j.put e .clean with seq := j.seq + 1 })
  | .refused => (none, j)
  | .partly => (none, j.tear)
  | .unsynced => (none, j.put e .ahead)

def prune (j : RecordLog) (n : ℕ) : RecordLog := { j with lines := j.lines.drop n }

end RecordLog

/-- What the disk does at one write: how the append ends, whether the segment is full and then how
the checkpoint of the next one is appended, and how many lines are pruned. -/
structure DiskStep where
  append : AppendEnd
  rollOver : Option AppendEnd
  pruned : ℕ
  deriving DecidableEq

def DiskStep.plain : DiskStep := ⟨.written, none, 0⟩

/-! ## TFPS -/

inductive TfpsReply
  | applied
  | refused (why : Text)
  /-- It may have acted. -/
  | unanswered (why : Text)
  deriving DecidableEq

/-- What TFPS is asked, with what each question does to it; an error if it could not be asked. -/
structure Tfps (σ : Type) where
  ban : BitVec 32 → ℕ → ℕ → σ → Except Text TfpsReply × σ
  unban : BitVec 32 → σ → Except Text TfpsReply × σ
  banned : σ → Except Text (List (BitVec 32 × Option ℕ)) × σ

inductive TfpsView
  | absent
  | banned (expires : Option ℕ)
  | unreachable
  deriving DecidableEq

def expirySlackSecs : ℕ := 5

/-- How an action in doubt is resolved by what TFPS reports. -/
def Intent.resolve (intent : Intent) : TfpsView → Option Resolution
  | .unreachable => none
  | .absent =>
    match intent.verb with
    | .ban => some .notApplied
    | .unban => some .applied
  | .banned expires =>
    match intent.verb with
    | .unban => some .notApplied
    | .ban =>
      match intent.expires, expires with
      | some ours, some theirs =>
        if max ours theirs - min ours theirs ≤ expirySlackSecs then some .applied
        else some .unknown
      | _, _ => some .unknown

def outcomeOf : Except Text TfpsReply → OutcomeResult × Option Text
  | .ok .applied => (.applied, none)
  | .ok (.refused why) => (.refused, some why)
  | .ok (.unanswered why) => (.unknown, some why)
  | .error why => (.failed, some why)

def notBlocked : Text := "not-blocked".toList

/-! ## Callers and rules -/

inductive ActionSurface
  | rest
  | mcp
  deriving DecidableEq

def ActionSurface.name : ActionSurface → Text
  | .rest => "rest".toList
  | .mcp => "mcp".toList

structure ActionCaller where
  name : Text
  admin : Bool
  deriving DecidableEq

def mayLift (caller : ActionCaller) (owner : Text) : Bool := caller.admin || caller.name = owner

inductive Reverter
  /-- The operator at the command line. -/
  | commandLine
  | surface (surface : ActionSurface) (caller : ActionCaller)
  deriving DecidableEq

def Reverter.mayLift : Reverter → Text → Bool
  | .commandLine, _ => true
  | .surface _ caller, owner => Operations.mayLift caller owner

inductive RevertTarget
  | one (id : Text)
  | all
  deriving DecidableEq

inductive BanRule
  | unspecified
  | broadcast
  | loopback
  | multicast
  | notIpv4
  | forever
  | tooLong (maxSecs : ℕ)
  deriving DecidableEq

/-- Why an action did not run; `crashed` for a process that ended on the way. -/
inductive ActionError
  | notEnabled (surface : ActionSurface)
  | rule (rule : BanRule)
  | throttled (throttle : ActionThrottle)
  | notOwned
  | notYours (owner : Text)
  | inDoubt (n : ℕ)
  | journalUnusable
  | tfps (why : Text)
  | unanswered (why : Text)
  | crashed
  deriving DecidableEq

structure RevertFailure where
  id : Text
  address : Text
  why : Text
  deriving DecidableEq

structure RevertReport where
  reverted : List Text := []
  lapsed : List Text := []
  skippedUnknown : List Text := []
  failed : List RevertFailure := []
  left : List Text := []
  deriving DecidableEq

end Sipnab.Operations
