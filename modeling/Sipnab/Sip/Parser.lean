import Sipnab.Capture.SipFraming
import Sipnab.Sip.Message

/-!
# The message parser

A message is its first line, its header lines and its body. A header line that starts with a blank
continues the header before it, so a header is complete only when the next line does not. How many
headers are kept, and how long one may get, is bounded.
-/

namespace Sipnab

open Text

inductive ParseError
  | empty (what : String)
  | missingCrlf
  | invalidUtf8 (what : String)
  | invalidFirstLine (line reason : String)
  | invalidStatusCode (code : String)
  | notSip (line : String)
  deriving DecidableEq

structure FirstLine where
  isRequest : Bool
  method : Option SipMethod
  statusCode : Option ℕ
  reason : Option String
  requestUri : Option String
  deriving DecidableEq

def beforeLastBlank (s : List Char) : Option (List Char) :=
  (splitOnce ' ' s.reverse).map (fun p => p.2.reverse)

/-- A status line with its code, or a request line that ends in the version. -/
def parseFirstLine (line : List Char) : Except ParseError FirstLine :=
  let line := trimStart line
  let line := if line.getLast? = some '\r' ∨ line.getLast? = some '\n' then line.dropLast else line
  match "SIP/2.0 ".toList.isPrefixOf? line with
  | some afterVersion =>
    let codeStr := firstPiece ' ' afterVersion
    match parseUnsigned (2 ^ 16) codeStr with
    | none => .error (.invalidStatusCode (String.ofList codeStr))
    | some code =>
      .ok { isRequest := false
            method := none
            statusCode := some code
            reason := some (String.ofList (trim (afterVersion.drop (codeStr.length + 1))))
            requestUri := none }
  | none =>
    if " SIP/2.0".toList.isSuffixOf line then
      match splitOnce ' ' line with
      | none => .error (.invalidFirstLine (String.ofList line) "no space in request line")
      | some (methodStr, rest) =>
        match beforeLastBlank rest with
        | none => .error (.invalidFirstLine (String.ofList line) "no space before SIP version")
        | some uri =>
          .ok { isRequest := true
                method := some (SipMethod.parse (String.ofList methodStr))
                statusCode := none
                reason := none
                requestUri := some (String.ofList (trim uri)) }
    else .error (.notSip (String.ofList line))

/-! ## Headers -/

def compactHeaders : List (Char × String) :=
  [('i', "Call-ID"), ('f', "From"), ('t', "To"), ('v', "Via"), ('m', "Contact"),
    ('l', "Content-Length"), ('c', "Content-Type"), ('e', "Content-Encoding"), ('k', "Supported"),
    ('s', "Subject"), ('a', "Accept-Contact"), ('b', "Referred-By"), ('d', "Request-Disposition"),
    ('j', "Reject-Contact"), ('o', "Event"), ('r', "Refer-To"), ('u', "Allow-Events"),
    ('x', "Session-Expires"), ('y', "Identity")]

/-- The long name of a one-letter header; any other name stays as it is written. -/
def expandCompactHeader (name : List Char) : String :=
  match name with
  | [c] => (compactHeaders.lookup (toAsciiLowercase c)).getD (String.ofList name)
  | _ => String.ofList name

def parseHeaderLine (line : List Char) : Option SipHeader :=
  match splitOnce ':' line with
  | none => none
  | some (name, value) =>
    let rawName := trim name
    if rawName.isEmpty then none
    else some { name := expandCompactHeader rawName, value := String.ofList (trim value) }

def textLen (s : List Char) : ℕ := (s.map Char.utf8Size).sum

structure ParserLimits where
  maxHeaderLine : ℕ := 8 * 1024
  maxHeaders : ℕ := 200

/-- The headers read so far and the one that may still be continued. -/
structure HeaderLines where
  headers : List SipHeader := []
  pending : List Char := []
  parseError : Bool := false
  limits : ParserLimits

namespace HeaderLines

def flush (lines : HeaderLines) : HeaderLines :=
  let stored := { lines with pending := [] }
  if lines.pending.isEmpty then stored
  else match parseHeaderLine lines.pending with
    | none => stored
    | some hdr =>
      if lines.headers.length < lines.limits.maxHeaders then
        { stored with headers := lines.headers ++ [hdr] }
      else { stored with parseError := true }

def isContinuation (text : List Char) : Bool :=
  text.head? == some ' ' || text.head? == some '\t'

def line (lines : HeaderLines) (text : List Char) : HeaderLines :=
  if isContinuation text then
    if textLen lines.pending + textLen text < lines.limits.maxHeaderLine then
      { lines with pending := lines.pending ++ ' ' :: trimStart text }
    else { lines with parseError := true }
  else
    let lines := lines.flush
    if lines.limits.maxHeaderLine ≤ textLen text then { lines with parseError := true }
    else { lines with pending := text }

def lineBytes (lines : HeaderLines) (bytes : List UInt8) : HeaderLines :=
  match Utf8.decode bytes with
  | some text => lines.line text
  | none => { lines with parseError := true }

end HeaderLines

/-- Header lines up to the blank line, and where the body starts if there is one. A remainder
without line end is the beginning of a header. -/
def headerLoop : ℕ → ℕ → List UInt8 → HeaderLines → HeaderLines × Option ℕ
  | 0, _, _, lines => (lines, none)
  | n + 1, pos, rest, lines =>
    if rest.isEmpty then (lines, none)
    else match findCrlf rest with
      | none =>
        let lines := match Utf8.decode rest with
          | some remainder => lines.line remainder
          | none => lines
        ({ lines with parseError := true }, none)
      | some crlfOffset =>
        if crlfOffset = 0 then (lines, some (pos + 2))
        else
          headerLoop n (pos + crlfOffset + 2) (rest.drop (crlfOffset + 2))
            (lines.lineBytes (rest.take crlfOffset))

def headerLines (limits : ParserLimits) (data : List UInt8) (start : ℕ) : HeaderLines × Option ℕ :=
  let (lines, bodyStart) := headerLoop data.length start (data.drop start) { limits }
  (lines.flush, bodyStart)

def isContentLength (h : SipHeader) : Bool :=
  eqIgnoreAsciiCase h.name.toList "Content-Length".toList

def SipHeader.number (h : SipHeader) : Option ℕ := parseUsize (trim h.value.toList)

/-- The headers, the range of the body, and whether something was wrong. -/
def parseHeadersAndBody (limits : ParserLimits) (data : List UInt8) (start : ℕ) :
    List SipHeader × Option (ℕ × ℕ) × Bool :=
  match headerLines limits data start with
  | (lines, none) => (lines.headers, none, true)
  | (lines, some pos) =>
    let bodyLen := data.length - pos
    match lines.headers.find? isContentLength with
    | none =>
      (lines.headers, if bodyLen = 0 then none else some (pos, data.length), lines.parseError)
    | some h =>
      match h.number with
      | none => (lines.headers, if bodyLen = 0 then none else some (pos, data.length), true)
      | some expectedLen =>
        (lines.headers, if bodyLen = 0 then none else some (pos, pos + min bodyLen expectedLen),
          lines.parseError || decide (bodyLen < expectedLen))

structure ParsedMessage extends SipMessage where
  reason : Option String
  parseError : Bool
  deriving DecidableEq

structure Captured where
  timestamp : DateTime
  srcAddr : IpAddr
  dstAddr : IpAddr
  srcPort : ℕ
  dstPort : ℕ

def parseSipBytes (limits : ParserLimits) (data : List UInt8) (captured : Captured) :
    Except ParseError ParsedMessage :=
  if data.isEmpty then .error (.empty "SIP message")
  else match findCrlf data with
    | none => .error .missingCrlf
    | some firstCrlf =>
      match Utf8.decode (data.take firstCrlf) with
      | none => .error (.invalidUtf8 "SIP first line")
      | some firstLine => do
        let first ← parseFirstLine firstLine
        let (headers, bodyRange, parseError) := parseHeadersAndBody limits data (firstCrlf + 2)
        return {
          isRequest := first.isRequest
          method := first.method
          statusCode := first.statusCode
          reason := first.reason
          requestUri := first.requestUri
          headers
          body := (bodyRange.map (slice data)).getD []
          parseError
          timestamp := captured.timestamp
          srcAddr := captured.srcAddr
          dstAddr := captured.dstAddr
          srcPort := captured.srcPort
          dstPort := captured.dstPort
          isRetransmission := false
          frame := none
          inputOrigin := none }

theorem parseHeadersAndBody_headers (limits : ParserLimits) (data : List UInt8) (start : ℕ) :
    (parseHeadersAndBody limits data start).1 = (headerLines limits data start).1.headers := by
  rw [parseHeadersAndBody]
  split
  · rename_i h
    rw [h]
  · rename_i h
    rw [h]
    split
    · rfl
    · split <;> rfl

theorem parseHeadersAndBody_body {limits : ParserLimits} {data : List UInt8} {start : ℕ}
    {r : ℕ × ℕ} (h : (parseHeadersAndBody limits data start).2.1 = some r) :
    (headerLines limits data start).2 = some r.1 := by
  rw [parseHeadersAndBody] at h
  split at h
  · cases h
  · rename_i lines pos hlines
    rw [hlines]
    dsimp only at h ⊢
    split at h
    · dsimp only at h
      split_ifs at h
      rw [← Option.some.inj h]
    · split at h
      · dsimp only at h
        split_ifs at h
        rw [← Option.some.inj h]
      · dsimp only at h
        split_ifs at h
        rw [← Option.some.inj h]

theorem parseSipBytes_cases {limits : ParserLimits} {data : List UInt8} {captured : Captured}
    {msg : ParsedMessage} (h : parseSipBytes limits data captured = .ok msg) :
    ∃ firstCrlf, findCrlf data = some firstCrlf ∧
      msg.headers = (headerLines limits data (firstCrlf + 2)).1.headers ∧
      msg.body =
        ((parseHeadersAndBody limits data (firstCrlf + 2)).2.1.map (slice data)).getD [] := by
  rw [parseSipBytes] at h
  split_ifs at h with hempty
  split at h
  · cases h
  · rename_i firstCrlf hcrlf
    split at h
    · cases h
    · rename_i text hdecode
      cases hfirst : parseFirstLine text with
      | error e =>
        rw [hfirst] at h
        cases h
      | ok first =>
        rw [hfirst] at h
        cases h
        exact ⟨firstCrlf, hcrlf, parseHeadersAndBody_headers limits data (firstCrlf + 2), rfl⟩

end Sipnab
