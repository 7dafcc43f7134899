import Sipnab.Lib.Text

/-!
# SIP messages and their header readers

A parsed message keeps its headers as name and value pairs, and every accessor reads them again.
The readers follow the source: a header is found by its name without regard to ASCII case, a
`CSeq` is its first two words, a tag or a branch is the first parameter of that name, and a
quoted display name is stepped over before a URI or a parameter is looked for.
-/

namespace Sipnab

open Text

inductive SipMethod
  | invite | ack | bye | cancel | register | options | prack | subscribe | notify | publish
  | info | refer | message | update
  | custom (name : String)
  deriving DecidableEq

namespace SipMethod

def asStr : SipMethod → String
  | invite => "INVITE"
  | ack => "ACK"
  | bye => "BYE"
  | cancel => "CANCEL"
  | register => "REGISTER"
  | options => "OPTIONS"
  | prack => "PRACK"
  | subscribe => "SUBSCRIBE"
  | notify => "NOTIFY"
  | publish => "PUBLISH"
  | info => "INFO"
  | refer => "REFER"
  | message => "MESSAGE"
  | update => "UPDATE"
  | custom s => s

def parse (s : String) : SipMethod :=
  match s with
  | "INVITE" => invite
  | "ACK" => ack
  | "BYE" => bye
  | "CANCEL" => cancel
  | "REGISTER" => register
  | "OPTIONS" => options
  | "PRACK" => prack
  | "SUBSCRIBE" => subscribe
  | "NOTIFY" => notify
  | "PUBLISH" => publish
  | "INFO" => info
  | "REFER" => refer
  | "MESSAGE" => message
  | "UPDATE" => update
  | other => custom other

@[simp] theorem asStr_parse (s : String) : (parse s).asStr = s := by
  unfold parse
  split <;> rfl

theorem parse_eq_invite_iff (s : String) : parse s = invite ↔ s = "INVITE" := by
  constructor
  · intro h
    rw [← asStr_parse s, h]
    rfl
  · rintro rfl
    rfl

end SipMethod

abbrev DateTime := ℤ

inductive IpAddr
  | v4 (bits : BitVec 32)
  | v6 (bits : BitVec 128)
  deriving DecidableEq

inductive InputOrigin
  | wire | hep | uprobe | vcon
  deriving DecidableEq

/-- The frame a message was parsed out of: the file it is in and its ordinal there. -/
structure FrameRef where
  source : String
  ordinal : ℕ
  deriving DecidableEq

structure SipHeader where
  name : String
  value : String
  deriving DecidableEq

structure SipMessage where
  isRequest : Bool
  method : Option SipMethod
  statusCode : Option ℕ
  requestUri : Option String
  headers : List SipHeader
  body : List UInt8
  timestamp : DateTime
  srcAddr : IpAddr
  dstAddr : IpAddr
  srcPort : ℕ
  dstPort : ℕ
  isRetransmission : Bool
  frame : Option FrameRef
  inputOrigin : Option InputOrigin
  deriving DecidableEq

/-- The rest of `s` past the quote that closes the string it stands in; `escaped` says that the
character before was a backslash. An unterminated string leaves nothing. -/
def afterClosingQuote : Bool → List Char → List Char
  | _, [] => []
  | true, _ :: s => afterClosingQuote false s
  | false, c :: s =>
    if c = '\\' then afterClosingQuote true s
    else if c = '"' then s
    else afterClosingQuote false s

def skipQuotedDisplayName (value : List Char) : List Char :=
  match trimStart value with
  | '"' :: rest => afterClosingQuote false rest
  | trimmed => trimmed

/-- The URI inside `<...>`, or the bare URI up to the first header parameter. -/
def addrSpec (value : List Char) : List Char :=
  let value := skipQuotedDisplayName value
  match splitOnce '<' value with
  | some (_, rest) =>
    match splitOnce '>' rest with
    | some (uri, _) => uri
    | none => []
  | none => trim (firstPiece ';' (trim value))

def nonEmpty (s : List Char) : Option String :=
  if s.isEmpty then none else some (String.ofList s)

/-- What follows `sip:` or `sips:` in the URI of a header value. -/
def afterScheme (value : List Char) : Option (List Char) :=
  let uri := addrSpec value
  match "sip:".toList.isPrefixOf? uri with
  | some rest => some rest
  | none => "sips:".toList.isPrefixOf? uri

def extractUriUser (value : List Char) : Option String := do
  let rest ← afterScheme value
  let (user, _) ← splitOnce '@' rest
  nonEmpty user

def extractUriHostPort (value : List Char) : Option String := do
  let rest ← afterScheme value
  let rest := match splitOnce '@' rest with
    | some (_, host) => host
    | none => rest
  nonEmpty (trim (rest.takeWhile (fun c => !(c == ';' || c == '?' || c == ',' || isWhitespace c))))

/-- The text of a quoted string up to its closing quote, escapes resolved. -/
def quotedText : List Char → Option (List Char)
  | [] => none
  | ['\\'] => none
  | '\\' :: c :: s => (quotedText s).map (c :: ·)
  | '"' :: _ => some []
  | c :: s => (quotedText s).map (c :: ·)

def extractDisplayName (value : List Char) : Option String :=
  match trim value with
  | '"' :: rest => (quotedText rest).bind nonEmpty
  | trimmed => (splitOnce '<' trimmed).bind (fun p => nonEmpty (trim p.1))

/-- The text after `=` of the first parameter named `want`. A parameter without `=` is skipped. -/
def findParam (want : String) : List (List Char) → Option (List Char)
  | [] => none
  | param :: rest =>
    match splitOnce '=' param with
    | none => findParam want rest
    | some (name, value) =>
      if eqIgnoreAsciiCase (trim name) want.toList then some value else findParam want rest

/-- The header parameters: what follows the URI's closing bracket, cut at `;`. -/
def headerParams (value : List Char) : List (List Char) :=
  let afterDisplay := skipQuotedDisplayName value
  let remainder := match splitOnce '>' afterDisplay with
    | some (_, rest) => rest
    | none => afterDisplay
  (split ';' remainder).drop 1

def extractTag (value : List Char) : Option String :=
  (findParam "tag" (headerParams value)).bind (fun v => nonEmpty (trim (firstPiece ',' v)))

namespace SipMessage

def header (m : SipMessage) (name : String) : Option String :=
  (m.headers.find? (fun h => eqIgnoreAsciiCase h.name.toList name.toList)).map SipHeader.value

def headersByName (m : SipMessage) (name : String) : List String :=
  (m.headers.filter (fun h => eqIgnoreAsciiCase h.name.toList name.toList)).map SipHeader.value

def callId (m : SipMessage) : Option String := m.header "Call-ID"

def fromHeader (m : SipMessage) : Option (List Char) := (m.header "From").map String.toList

def toHeader (m : SipMessage) : Option (List Char) := (m.header "To").map String.toList

def viaHeaders (m : SipMessage) : List String := m.headersByName "Via"

/-- The `branch` of the topmost `Via`: the first hop of the first row. -/
def topViaBranch (m : SipMessage) : Option String := do
  let row ← m.viaHeaders.head?
  let via := firstPiece ',' row.toList
  let value ← findParam "branch" ((split ';' via).drop 1)
  nonEmpty (trim value)

/-- The `CSeq` number and method. Text after the second word is ignored. -/
def cseq (m : SipMessage) : Option (ℕ × String) :=
  match (m.header "CSeq").map (fun v => splitWhitespace v.toList) with
  | some (num :: method :: _) => (parseU32 num).map (fun n => (n, String.ofList method))
  | _ => none

def cseqMethod (m : SipMessage) : Option SipMethod := m.cseq.map (fun p => SipMethod.parse p.2)

def contact (m : SipMessage) : Option String := m.header "Contact"

def fromUser (m : SipMessage) : Option String := m.fromHeader.bind extractUriUser

def toUser (m : SipMessage) : Option String := m.toHeader.bind extractUriUser

def fromHost (m : SipMessage) : Option String := m.fromHeader.bind extractUriHostPort

def toHost (m : SipMessage) : Option String := m.toHeader.bind extractUriHostPort

def fromUri (m : SipMessage) : Option String := m.fromHeader.bind (fun v => nonEmpty (addrSpec v))

def toUri (m : SipMessage) : Option String := m.toHeader.bind (fun v => nonEmpty (addrSpec v))

def paiUser (m : SipMessage) : Option String :=
  (m.header "P-Asserted-Identity").bind (fun v => extractUriUser v.toList)

def fromTag (m : SipMessage) : Option String := m.fromHeader.bind extractTag

def toTag (m : SipMessage) : Option String := m.toHeader.bind extractTag

def fromDisplay (m : SipMessage) : Option String := m.fromHeader.bind extractDisplayName

def toDisplay (m : SipMessage) : Option String := m.toHeader.bind extractDisplayName

/-- The value token of `Subscription-State`, its parameters stripped. -/
def subscriptionState (m : SipMessage) : Option String :=
  (m.header "Subscription-State").map (fun v => String.ofList (trim (firstPiece ';' v.toList)))

/-- The interval a registration or subscription asks for or grants: the `expires` parameter of
the `Contact`, else the `Expires` header. A parameter that is no number yields nothing. -/
def registrationExpiry (m : SipMessage) : Option ℕ :=
  match m.contact.bind (fun v => findParam "expires" (headerParams v.toList)) with
  | some value =>
    let quote := fun c : Char => c == '"'
    parseU32 ((((trim value).dropWhile quote).reverse.dropWhile quote).reverse)
  | none => (m.header "Expires").bind (fun v => parseU32 (trim v.toList))

/-- The seen-set identity of a message: direction, status, `CSeq` and top-`Via` branch. -/
def seenCseqKey (m : SipMessage) : Option String :=
  m.cseq.map (fun p =>
    let branch := m.topViaBranch.getD ""
    if m.isRequest then "R " ++ toString p.1 ++ " " ++ p.2 ++ "\n" ++ branch
    else "r" ++ toString (m.statusCode.getD 0) ++ " " ++ toString p.1 ++ " " ++ p.2 ++
      "\n" ++ branch)

/-- The `"number method"` key retransmissions are counted under. -/
def cseqKey (m : SipMessage) : Option String :=
  m.cseq.map (fun p => toString p.1 ++ " " ++ p.2)

/-! ## Messages with the headers a call needs -/

/-- A request with its identity, `CSeq` and one `Via` hop; `toTag` is the text after the `To` URI. -/
def plainRequest (callId : String) (number : ℕ) (method : SipMethod) (branch toTag : String) :
    SipMessage where
  isRequest := true
  method := some method
  statusCode := none
  requestUri := some "sip:bob@example.net"
  headers := [⟨"Via", "SIP/2.0/UDP 10.0.0.1;branch=" ++ branch⟩,
    ⟨"From", "<sip:alice@example.net>;tag=a"⟩, ⟨"To", "<sip:bob@example.net>" ++ toTag⟩,
    ⟨"Call-ID", callId⟩, ⟨"CSeq", toString number ++ " " ++ method.asStr⟩]
  body := []
  timestamp := 0
  srcAddr := .v4 0x0A000001
  dstAddr := .v4 0x0A000002
  srcPort := 5060
  dstPort := 5060
  isRetransmission := false
  frame := none
  inputOrigin := some .wire

def plainResponse (callId : String) (code number : ℕ) (method : SipMethod) (branch : String) :
    SipMessage :=
  { plainRequest callId number method branch ";tag=b" with
    isRequest := false
    method := none
    statusCode := some code
    requestUri := none
    srcAddr := .v4 0x0A000002
    dstAddr := .v4 0x0A000001 }

end SipMessage

end Sipnab
