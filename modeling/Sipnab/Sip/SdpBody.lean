import Sipnab.Sip.Parser

/-!
# The SDP of a message

The body of a message is SDP if its content type says so, or if it has no content type and starts
like SDP. A multipart body is split at its delimiter lines, and the first part that is SDP and can
be read counts. A dispatcher that has not read the message looks for the name of the type among its
bytes.
-/

namespace Sipnab

open Text

/-! ## Media types -/

def mediaType (contentType : List Char) : List Char := trim (firstPiece ';' contentType)

def isSdpMediaType (contentType : List Char) : Bool :=
  eqIgnoreAsciiCase (mediaType contentType) "application/sdp".toList

def isMultipartMediaType (contentType : List Char) : Bool :=
  eqIgnoreAsciiCase ((mediaType contentType).take 10) "multipart/".toList

def stripQuotes (value : List Char) : List Char :=
  match value with
  | '"' :: rest => if rest.getLast? = some '"' then rest.dropLast else value
  | _ => value

def extractBoundary (contentType : List Char) : Option (List Char) :=
  (split ';' contentType).findSome? (fun param =>
    match splitOnce '=' (trim param) with
    | none => none
    | some (name, value) =>
      if eqIgnoreAsciiCase (trim name) "boundary".toList then some (stripQuotes (trim value))
      else none)

/-! ## Multipart bodies -/

structure MimePart where
  contentType : Option (List Char)
  body : List UInt8
  deriving DecidableEq

def textLines (s : List Char) : List (List Char) :=
  let pieces := split '\n' s
  let ended := pieces.dropLast.map (fun line =>
    if line.getLast? = some '\r' then line.dropLast else line)
  match pieces.getLast? with
  | some (c :: rest) => ended ++ [c :: rest]
  | _ => ended

/-- A line that starts with a blank is put behind the one before it, blank and all. -/
def unfoldLine (logical : List (List Char)) (raw : List Char) : List (List Char) :=
  match HeaderLines.isContinuation raw, logical.getLast? with
  | true, some last => logical.dropLast ++ [last ++ raw]
  | _, _ => logical ++ [raw]

def unfoldHeaderLines (headers : List Char) : List (List Char) :=
  (textLines headers).foldl unfoldLine []

/-- A line that starts a part: where it starts, where the part does, and whether it closes the
body. -/
structure DelimiterLine where
  pos : ℕ
  partStart : ℕ
  close : Bool
  deriving DecidableEq

def dashes : List UInt8 := [0x2D, 0x2D]

/-- What follows a delimiter up to its line break: its length, if there is nothing but blanks. -/
def delimiterRest (after : List UInt8) : Option ℕ :=
  let padding := (after.takeWhile (fun b => b = 0x20 || b = 0x09)).length
  let rest := after.drop padding
  if [cr, lf].isPrefixOf rest then some (padding + 2)
  else if [lf].isPrefixOf rest then some (padding + 1)
  else if rest.isEmpty then some padding
  else none

/-- The delimiter lines from a place on. A delimiter has two bytes at least, so the bytes are fuel
enough. -/
def delimiterLines (body delimiter : List UInt8) : ℕ → ℕ → List DelimiterLine
  | 0, _ => []
  | fuel + 1, searchFrom =>
    match findInfix delimiter (body.drop searchFrom) with
    | none => []
    | some rel =>
      let pos := searchFrom + rel
      let stop := pos + delimiter.length
      if pos ≠ 0 ∧ body[pos - 1]? ≠ some lf then delimiterLines body delimiter fuel stop
      else if dashes.isPrefixOf (body.drop stop) then [⟨pos, body.length, true⟩]
      else match delimiterRest (body.drop stop) with
        | some length =>
          ⟨pos, stop + length, false⟩ :: delimiterLines body delimiter fuel stop
        | none => delimiterLines body delimiter fuel stop

/-- The line break in front of a delimiter belongs to the delimiter. -/
def stripLineBreak (segment : List UInt8) : List UInt8 :=
  if [cr, lf].isSuffixOf segment then segment.take (segment.length - 2)
  else if [lf].isSuffixOf segment then segment.dropLast
  else segment

def splitPart (segment : List UInt8) : List UInt8 × List UInt8 :=
  if [cr, lf].isPrefixOf segment then ([], segment.drop 2)
  else if [lf].isPrefixOf segment then ([], segment.drop 1)
  else match findInfix [cr, lf, cr, lf] segment with
    | some pos => (segment.take pos, segment.drop (pos + 4))
    | none =>
      match findInfix [lf, lf] segment with
      | some pos => (segment.take pos, segment.drop (pos + 2))
      | none => ([], segment)

def partContentType (headers : List UInt8) : Option (List Char) :=
  (unfoldHeaderLines (Utf8.fromUtf8Lossy headers)).findSome? (fun line =>
    if eqIgnoreAsciiCase (line.take 13) "content-type:".toList then some (trim (line.drop 13))
    else none)

def mimePart (segment : List UInt8) : MimePart :=
  let (headers, body) := splitPart segment
  { contentType := partContentType headers, body }

/-- The parts between the delimiter lines; one of white space alone is skipped. -/
def partsBetween (body : List UInt8) : List DelimiterLine → List MimePart
  | [] => []
  | line :: rest =>
    if line.close then []
    else
      let segment := match rest with
        | [] => body.drop line.partStart
        | next :: _ => stripLineBreak (slice body (line.partStart, next.pos))
      if segment.all isAsciiWhitespace then partsBetween body rest
      else mimePart segment :: partsBetween body rest

def splitMultipart (body : List UInt8) (boundary : List Char) : List MimePart :=
  let delimiter := dashes ++ boundary.flatMap Utf8.encodeChar
  partsBetween body (delimiterLines body delimiter (body.length + 1) 0)

def maxMultipartDepth : ℕ := 4

/-- The SDP parts of a multipart body, where `deeper` reads a part that is multipart itself. -/
def collectParts (deeper : List Char → List UInt8 → List MimePart) (contentType : List Char)
    (body : List UInt8) : List MimePart :=
  match extractBoundary contentType with
  | none => []
  | some boundary =>
    (splitMultipart body boundary).flatMap (fun part =>
      match part.contentType with
      | none => []
      | some ct =>
        if isSdpMediaType ct then [part]
        else if isMultipartMediaType ct then deeper ct part.body
        else [])

def collectSdpParts : ℕ → List Char → List UInt8 → List MimePart
  | 0 => collectParts (fun _ _ => [])
  | levels + 1 => collectParts (collectSdpParts levels)

def sdpParts (contentType : List Char) (body : List UInt8) : List MimePart :=
  collectSdpParts maxMultipartDepth contentType body

section Sdp

-- the reader of a session description
variable {σ : Type*} (parseSdp : List UInt8 → Option σ)

def multipartSdp (contentType : List Char) (body : List UInt8) : Option σ :=
  (sdpParts contentType body).findSome? (fun part => parseSdp part.body)

namespace SipMessage

def contentType (m : SipMessage) : Option String := m.header "Content-Type"

def sdp (m : SipMessage) : Option σ :=
  match m.contentType with
  | some ct =>
    if isSdpMediaType ct.toList then parseSdp m.body
    else if isMultipartMediaType ct.toList then multipartSdp parseSdp ct.toList m.body
    else none
  | none => if (asciiBytes "v=").isPrefixOf m.body then parseSdp m.body else none

end SipMessage

end Sdp

/-! ## The dispatcher -/

def toAsciiLowercaseByte (b : UInt8) : UInt8 := if 65 ≤ b && b ≤ 90 then b + 32 else b

def namesSdp (payload : List UInt8) : Bool :=
  let sdpType := asciiBytes "application/sdp"
  let slashAt := 11
  (List.range payload.length).any (fun slash =>
    payload[slash]? = some 0x2F && slashAt ≤ slash &&
      ((payload.drop (slash - slashAt)).take sdpType.length).map toAsciiLowercaseByte == sdpType)

def bodyStartsSdp (payload : List UInt8) : Bool :=
  let body := match findInfix [cr, lf, cr, lf] payload with
    | some at' => some (payload.drop (at' + 4))
    | none => (findInfix [lf, lf] payload).map (fun at' => payload.drop (at' + 2))
  body.any (fun b => (asciiBytes "v=").isPrefixOf b)

def portInRange (srcPort dstPort : ℕ) (range : ℕ × ℕ) : Bool :=
  (range.1 ≤ srcPort && srcPort ≤ range.2) || (range.1 ≤ dstPort && dstPort ≤ range.2)

inductive CopyRead
  | shared
  | reassembled
  deriving DecidableEq

structure Fanout where
  enabled : Bool
  portrange : ℕ × ℕ
  hepParse : Bool

def Fanout.copyReadUdp (fanout : Fanout) (srcPort dstPort : ℕ) (payload : List UInt8) :
    Option CopyRead :=
  let isHep := fanout.hepParse && (asciiBytes "HEP3").isPrefixOf payload
  if !fanout.enabled then none
  else if isHep || (portInRange srcPort dstPort fanout.portrange && startsSipMessage payload &&
      (namesSdp payload || bodyStartsSdp payload)) then some .shared
  else none

end Sipnab
