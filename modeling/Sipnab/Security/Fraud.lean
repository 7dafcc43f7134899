import Sipnab.Lib.LruMap
import Sipnab.Sip.Dialog

/-!
# Toll fraud

Every source has a window of the calls it placed, and two memories of calls that ended: the short
ones and the refused ones, each by Call-ID. All times are capture times.
-/

namespace Sipnab

open Text

structure FraudThresholds where
  shortCallSecs : ℕ
  wangiriCalls : ℕ
  sequentialCalls : ℕ
  volumeMultiplier : ℕ
  volumeMinCalls : ℕ
  volumeWindowSecs : ℕ
  wangiriWindowSecs : ℕ

namespace FraudThresholds

def builtIn : FraudThresholds := ⟨3, 3, 3, 5, 6, 60, 60⟩

def span (secs : ℕ) : ℤ := secs * 1000000000

def volumeWindow (t : FraudThresholds) : ℤ := span t.volumeWindowSecs

def wangiriWindow (t : FraudThresholds) : ℤ := span t.wangiriWindowSecs

def sequentialWindow : ℤ := span 60

end FraudThresholds

/-- The arithmetic of the baseline, which the source does in floating point. -/
structure RateArith (R : Type) where
  ofCount : ℕ → R
  /-- Nine tenths of the old value and one tenth of the new. -/
  fold : R → R → R
  /-- A count is over a multiple of a rate. -/
  exceeds : ℕ → R → ℕ → Bool
  /-- With one decimal. -/
  text : R → String

/-- Calls by Call-ID, each with the time it ended and the number it went to. -/
abbrev CallMemory := IndexMap String (DateTime × String)

structure CallPattern (R : Type) where
  calls : List (DateTime × String)
  shortCalls : CallMemory
  refusedCalls : CallMemory
  baselineRate : Option R
  baselineSampledAt : DateTime

inductive FraudType
  | volumeSpike | wangiri | sequentialScanning | offHours | destination
  deriving DecidableEq

structure FraudAlert where
  srcIp : IpAddr
  alertType : FraudType
  detail : String
  destination : Option String
  deriving DecidableEq

/-- A detector; `destinationOf` is the country of a number under the dial plan. -/
structure FraudDetector (R : Type) where
  destinationOf : String → Option String
  watchDestinations : List String
  callPatterns : LruMap IpAddr (CallPattern R)
  thresholds : FraudThresholds
  businessHours : Option (ℕ × ℕ)
  latestPacket : Option DateTime

namespace CallMemory

def maxShortCallsPerSource : ℕ := 1024

def retain (memory : CallMemory) (window : ℤ) (now : DateTime) : CallMemory :=
  memory.filter (fun e => now - e.2.1 < window)

/-- Add a call that is not there yet, as long as there is room; the flag says that it was added. -/
def note (memory : CallMemory) (window : ℤ) (now : DateTime) (callId destination : String) :
    CallMemory × Bool :=
  let kept := memory.retain window now
  if callId ∈ kept.keys then (kept, false)
  else if maxShortCallsPerSource ≤ kept.length then (kept, false)
  else (kept.insert callId (now, destination), true)

end CallMemory

namespace CallPattern

variable {R : Type} (arith : RateArith R)

def new (now : DateTime) : CallPattern R := ⟨[], .empty, .empty, none, now⟩

def sampleBaseline (p : CallPattern R) (now : DateTime) (window : ℤ) : CallPattern R :=
  if now - p.baselineSampledAt < window then p
  else
    let observed := arith.ofCount p.calls.length
    { p with
      baselineRate := some (p.baselineRate.elim observed (arith.fold · observed))
      baselineSampledAt := now }

def place (p : CallPattern R) (t : FraudThresholds) (now : DateTime) (destination : String) :
    CallPattern R :=
  let p := { p with calls := p.calls ++ [(now, destination)] }
  let p := { p with
    calls := p.calls.filter (fun c => now - c.1 < t.volumeWindow)
    shortCalls := p.shortCalls.retain t.wangiriWindow now }
  p.sampleBaseline arith now t.volumeWindow

end CallPattern

def callPrefix (destination : String) : String := String.ofList (destination.toList.take 6)

/-- The prefix with the most calls, the least of them if there are several. -/
def busiest (counts : List (String × ℕ)) : Option (String × ℕ) :=
  counts.foldl (fun best c =>
    match best with
    | none => some c
    | some b => if b.2 < c.2 ∨ (b.2 = c.2 ∧ c.1 < b.1) then some c else some b) none

def checkWangiri {R : Type} (destinationOf : String → Option String) (srcIp : IpAddr)
    (p : CallPattern R) (now : DateTime) (t : FraudThresholds) : Option FraudAlert :=
  if p.shortCalls.length < t.wangiriCalls then none
  else
    let recent := p.shortCalls.values.filter (fun c => now - c.1 < t.wangiriWindow)
    let prefixes := (recent.map (fun c => callPrefix c.2)).filter (· ≠ "")
    let counts : IndexMap String ℕ :=
      prefixes.foldl (fun m pre => m.alter pre (fun n => n.getD 0 + 1)) .empty
    match busiest counts.entries with
    | none => none
    | some (pre, count) =>
      if count < t.wangiriCalls then none
      else some
        { srcIp := srcIp
          alertType := .wangiri
          detail := toString count ++ " short calls to prefix '" ++ pre ++ "' in " ++
            toString t.wangiriWindowSecs ++ "s"
          destination := (p.shortCalls.values.find? (fun c =>
            pre.toList.isPrefixOf c.2.toList)).bind (fun c => destinationOf c.2) }

def numericDestination (destination : String) : Option ℕ :=
  let digits := destination.toList.filter Char.isDigit
  if digits.isEmpty then none
  else
    let n := digits.foldl (fun n c => 10 * n + (c.toNat - '0'.toNat)) 0
    if n < 2 ^ 64 then some n else none

/-- The first run of consecutive numbers that is long enough: its length and its end. -/
def sequentialRun (need : ℕ) : ℕ → List ℕ → Option (ℕ × ℕ)
  | run, a :: b :: rest =>
    if b = a + 1 then
      if need ≤ run + 1 then some (run + 1, b) else sequentialRun need (run + 1) (b :: rest)
    else sequentialRun need 1 (b :: rest)
  | _, _ => none

def checkSequential {R : Type} (srcIp : IpAddr) (p : CallPattern R) (sequentialCalls : ℕ)
    (destination : Option String) : Option FraudAlert :=
  if p.refusedCalls.length < sequentialCalls then none
  else
    let numbers := ((p.refusedCalls.values.filterMap (fun c =>
      numericDestination c.2)).insertionSort (· ≤ ·)).dedup
    if numbers.length < sequentialCalls then none
    else (sequentialRun sequentialCalls 1 numbers).map (fun r =>
      { srcIp := srcIp
        alertType := .sequentialScanning
        detail := "sequential dialing detected: " ++ toString r.1 ++
          " consecutive numbers ending at " ++ toString r.2
        destination := destination })

def SipDialog.endedShort (dialog : SipDialog) (t : FraudThresholds) : Bool :=
  dialog.method = .invite ∧ (dialog.state = .completed ∨ dialog.state = .canceled) ∧
    dialog.updatedAt - dialog.createdAt < FraudThresholds.span t.shortCallSecs

def SipDialog.endedRefused (dialog : SipDialog) : Bool :=
  dialog.method = .invite ∧ dialog.state = .failed

def SipMessage.isInvite (m : SipMessage) : Bool := m.isRequest ∧ m.method = some .invite

def hourOf (time : DateTime) : ℕ := (time / 3600000000000 % 24).toNat

def outsideHours (hours : ℕ × ℕ) (hour : ℕ) : Bool :=
  if hours.1 ≤ hours.2 then hour < hours.1 ∨ hours.2 ≤ hour
  else hour < hours.1 ∧ hours.2 ≤ hour

namespace FraudDetector

variable {R : Type} (arith : RateArith R)

def maxPatternEntries : ℕ := 10000

def withThresholds (destinationOf : String → Option String) (watchDestinations : List String)
    (businessHours : Option (ℕ × ℕ)) (thresholds : FraudThresholds) : FraudDetector R :=
  { destinationOf := destinationOf
    watchDestinations := watchDestinations
    callPatterns := .new maxPatternEntries
    thresholds := thresholds
    businessHours := businessHours
    latestPacket := none }

def patternFor (d : FraudDetector R) (src : IpAddr) (now : DateTime) : CallPattern R :=
  (d.callPatterns.peek src).getD (CallPattern.new now)

def keep (d : FraudDetector R) (src : IpAddr) (p : CallPattern R) : FraudDetector R :=
  { d with callPatterns := d.callPatterns.insert src p }

def recordIfShortCall (d : FraudDetector R) (m : SipMessage) (dialog : SipDialog) :
    Option FraudAlert × FraudDetector R :=
  if dialog.endedShort d.thresholds then
    let now := m.timestamp
    let p := d.patternFor dialog.srcAddr now
    let (memory, added) := p.shortCalls.note d.thresholds.wangiriWindow now dialog.callId
      (dialog.toUser.getD "")
    let p := { p with shortCalls := memory }
    (if added then checkWangiri d.destinationOf dialog.srcAddr p now d.thresholds else none,
      d.keep dialog.srcAddr p)
  else (none, d)

def recordIfRefusedCall (d : FraudDetector R) (m : SipMessage) (dialog : SipDialog) :
    Option FraudAlert × FraudDetector R :=
  if dialog.endedRefused then
    let now := m.timestamp
    let destination := dialog.toUser.getD ""
    let p := d.patternFor dialog.srcAddr now
    let (memory, added) := p.refusedCalls.note FraudThresholds.sequentialWindow now dialog.callId
      destination
    let p := { p with refusedCalls := memory }
    (if added then
        checkSequential dialog.srcAddr p d.thresholds.sequentialCalls (d.destinationOf destination)
      else none,
      d.keep dialog.srcAddr p)
  else (none, d)

/-- What a placed call raises, the pattern of its source brought up to date. -/
def callAlert (d : FraudDetector R) (p : CallPattern R) (m : SipMessage) (destination : String) :
    Option FraudAlert :=
  let resolved := d.destinationOf destination
  let alert := fun kind detail => some ⟨m.srcAddr, kind, detail, resolved⟩
  let spike := p.baselineRate.filter (fun baseline =>
    d.thresholds.volumeMinCalls ≤ p.calls.length ∧
      arith.exceeds p.calls.length baseline d.thresholds.volumeMultiplier)
  match resolved.filter (· ∈ d.watchDestinations) with
  | some iso => alert .destination ("INVITE to " ++ destination ++ " resolves to " ++ iso ++
      ", on the destination watch list")
  | none =>
    match d.businessHours.filter (fun hours => outsideHours hours (hourOf m.timestamp)) with
    | some (start, stop) => alert .offHours ("call at " ++ toString (hourOf m.timestamp) ++
        ":00 outside business hours (" ++ toString start ++ ":00-" ++ toString stop ++ ":00)")
    | none =>
      match spike with
      | some baseline => alert .volumeSpike (toString p.calls.length ++ " calls in " ++
          toString d.thresholds.volumeWindowSecs ++ "s (baseline: " ++ arith.text baseline ++
          "/window)")
      | none => checkWangiri d.destinationOf m.srcAddr p m.timestamp d.thresholds

def observeInvite (d : FraudDetector R) (m : SipMessage) : Option FraudAlert × FraudDetector R :=
  let destination := m.toUser.getD ""
  let p := (d.patternFor m.srcAddr m.timestamp).place arith d.thresholds m.timestamp destination
  (d.callAlert arith p m destination, d.keep m.srcAddr p)

def tick (d : FraudDetector R) (now : DateTime) : FraudDetector R :=
  if d.latestPacket.all (· < now) then { d with latestPacket := some now } else d

def check (d : FraudDetector R) (m : SipMessage) (dialog : SipDialog) :
    Option FraudAlert × FraudDetector R :=
  let d := d.tick m.timestamp
  match d.recordIfShortCall m dialog with
  | (some alert, d) => (some alert, d)
  | (none, d) =>
    match d.recordIfRefusedCall m dialog with
    | (some alert, d) => (some alert, d)
    | (none, d) => if m.isInvite then d.observeInvite arith m else (none, d)

end FraudDetector

end Sipnab
