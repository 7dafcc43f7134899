import Sipnab.Lib.LruMap
import Sipnab.Sip.Message

/-!
# Registration floods

A REGISTER that carried credentials and was challenged all the same is a failure of its source. The
transactions that wait for their answer are kept by source, and the answer takes them out.
-/

namespace Sipnab

open Text

structure RegFloodPolicy where
  threshold : ℕ
  windowSecs : ℕ
  transactionTimeoutMs : ℕ

def RegFloodPolicy.builtIn : RegFloodPolicy := ⟨50, 1, 32000⟩

structure RegFloodState where
  registerCount : ℕ
  authFailCount : ℕ
  windowStart : DateTime
  lastSeen : DateTime
  pending : LruMap String DateTime

structure RegFloodAlert where
  srcIp : IpAddr
  registerCount : ℕ
  authFailCount : ℕ
  threshold : ℕ
  deriving DecidableEq

/-- What the run showed of the outcomes, over all sources. -/
structure RegObserved where
  registers : ℕ := 0
  firstRegister : Option DateTime := none
  registerAnswers : ℕ := 0
  credentialed : ℕ := 0
  settled : ℕ := 0

structure RegFloodDetector where
  sources : LruMap IpAddr RegFloodState
  threshold : ℕ
  window : ℤ
  transactionTimeout : ℤ
  latestPacket : Option DateTime
  observed : RegObserved

def transactionKey (m : SipMessage) : Option String :=
  match m.topViaBranch with
  | some branch => some branch
  | none =>
    m.cseq.bind (fun cseq =>
      m.callId.map (fun id => "call-id " ++ id ++ " cseq " ++ toString cseq.1 ++ " " ++ cseq.2))

def carriesCredentials (m : SipMessage) : Bool :=
  (m.header "Authorization").isSome ∨ (m.header "Proxy-Authorization").isSome

def credentialedKey (m : SipMessage) : Option String :=
  if carriesCredentials m then transactionKey m else none

def isChallenge (status : ℕ) : Bool := status = 401 ∨ status = 407

def namesRegister (m : SipMessage) : Bool :=
  m.cseq.any (fun cseq => eqIgnoreAsciiCase cseq.2.toList "REGISTER".toList)

def completesRegistration (m : SipMessage) : Bool :=
  m.statusCode.any (fun c => 200 ≤ c ∧ c < 300) ∧ namesRegister m

def isFlood (authFailCount threshold : ℕ) : Bool := threshold < authFailCount

namespace RegFloodState

def new (now : DateTime) : RegFloodState := ⟨0, 0, now, now, .new 1024⟩

def rollWindow (s : RegFloodState) (now : DateTime) (window : ℤ) : RegFloodState :=
  if window ≤ now - s.windowStart then
    { s with registerCount := 0, authFailCount := 0, windowStart := now }
  else s

end RegFloodState

namespace RegFloodDetector

def withPolicy (policy : RegFloodPolicy) : RegFloodDetector :=
  let pick := fun v d : ℕ => if v = 0 then d else v
  { sources := .new 10000
    threshold := pick policy.threshold 50
    window := pick policy.windowSecs RegFloodPolicy.builtIn.windowSecs * 1000000000
    transactionTimeout :=
      pick policy.transactionTimeoutMs RegFloodPolicy.builtIn.transactionTimeoutMs * 1000000
    latestPacket := none
    observed := {} }

def observeRegister (d : RegFloodDetector) (m : SipMessage) (now : DateTime) : RegFloodDetector :=
  let s := (d.sources.peek m.srcAddr).getD (RegFloodState.new now)
  let s := { s with lastSeen := now }
  let s := s.rollWindow now d.window
  let s := { s with registerCount := s.registerCount + 1 }
  let observed := { d.observed with
    registers := d.observed.registers + 1
    firstRegister := some (d.observed.firstRegister.getD now) }
  match credentialedKey m with
  | some key =>
    -- a key that is open already is a retransmission
    let isNew := (s.pending.peek key).isNone
    { d with
      sources := d.sources.insert m.srcAddr { s with pending := s.pending.insert key now }
      observed := { observed with
        credentialed := observed.credentialed + if isNew then 1 else 0 } }
  | none => { d with sources := d.sources.insert m.srcAddr s, observed := observed }

/-- Close the transaction of an answer; it counts as settled if it was in time. -/
def settle (d : RegFloodDetector) (s : RegFloodState) (key : Option String) (now : DateTime) :
    RegFloodState × RegFloodDetector :=
  match key with
  | none => (s, d)
  | some key =>
    match s.pending.peek key with
    | none => (s, d)
    | some sent =>
      ({ s with pending := s.pending.remove key },
        if now - sent ≤ d.transactionTimeout then
          { d with observed.settled := d.observed.settled + 1 }
        else d)

def observeResponse (d : RegFloodDetector) (m : SipMessage) (now : DateTime) :
    Option RegFloodAlert × RegFloodDetector :=
  match m.statusCode with
  | none => (none, d)
  | some status =>
    match d.sources.peek m.dstAddr with
    | none => (none, d)
    | some s =>
      let s := { s with lastSeen := now }
      let answers : Bool := 200 ≤ status ∧ namesRegister m
      let d := if answers then
          { d with observed.registerAnswers := d.observed.registerAnswers + 1 }
        else d
      if completesRegistration m then
        let (s, d) := d.settle { s with authFailCount := 0 } (transactionKey m) now
        (none, { d with sources := d.sources.insert m.dstAddr s })
      else if isChallenge status then
        match transactionKey m with
        | none => (none, { d with sources := d.sources.insert m.dstAddr s })
        | some key =>
          match s.pending.peek key with
          | none => (none, { d with sources := d.sources.insert m.dstAddr s })
          | some sent =>
            let (s, d) := d.settle s (some key) now
            if now - sent ≤ d.transactionTimeout then
              let s := s.rollWindow now d.window
              let s := { s with authFailCount := s.authFailCount + 1 }
              (if isFlood s.authFailCount d.threshold then
                  some ⟨m.dstAddr, s.registerCount, s.authFailCount, d.threshold⟩
                else none, { d with sources := d.sources.insert m.dstAddr s })
            else (none, { d with sources := d.sources.insert m.dstAddr s })
      else
        let (s, d) := if answers then d.settle s (transactionKey m) now else (s, d)
        (none, { d with sources := d.sources.insert m.dstAddr s })

def check (d : RegFloodDetector) (m : SipMessage) : Option RegFloodAlert × RegFloodDetector :=
  let now := m.timestamp
  let d := if d.latestPacket.all (· < now) then { d with latestPacket := some now } else d
  if m.isRequest then
    (none, if m.method = some .register then d.observeRegister m now else d)
  else d.observeResponse m now

end RegFloodDetector

end Sipnab
