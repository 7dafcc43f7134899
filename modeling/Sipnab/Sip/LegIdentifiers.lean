import Sipnab.Sip.Dialog

/-!
# The identifiers two legs of a call can share

A `Session-ID` names a call by the UUIDs of its two ends, a `P-Charging-Vector` by charging
identifiers, an SDP body by its origin tuple, a `Via` by its branch. Values that do not parse
identify nothing.
-/

namespace Sipnab

open Text

/-! ## Charging vectors -/

def splitParams : Bool → Bool → List Char → List (List Char)
  | _, _, [] => [[]]
  | inQuotes, escaped, c :: s =>
    if escaped = false ∧ inQuotes = false ∧ c = ';' then [] :: splitParams false false s
    else
      let inQuotes' := if escaped = false ∧ c = '"' then !inQuotes else inQuotes
      let escaped' := decide (escaped = false ∧ inQuotes = true ∧ c = '\\')
      match splitParams inQuotes' escaped' s with
      | [] => [[c]]
      | piece :: rest => (c :: piece) :: rest

def params (value : List Char) : List (List Char) := splitParams false false value

def quotedBody : List Char → Option (List Char × List Char)
  | [] => none
  | '"' :: rest => some ([], rest)
  | '\\' :: [] => none
  | '\\' :: c :: rest => (quotedBody rest).map (fun p => (c :: p.1, p.2))
  | c :: rest => (quotedBody rest).map (fun p => (c :: p.1, p.2))

def unquote (raw : List Char) : Option (List Char) :=
  match raw with
  | '"' :: body => do
    let (out, rest) ← quotedBody body
    if (trim rest).isEmpty then some out else none
  | _ => if raw.contains '"' then none else some raw

/-- The one value the parameters named `want` agree on; none where one of them is malformed, empty
or at odds with an earlier one. -/
def agreedParam (want : String) : Option (List Char) → List (List Char) → Option (List Char)
  | found, [] => found
  | found, param :: rest =>
    match splitOnce '=' param with
    | none => agreedParam want found rest
    | some (name, raw) =>
      if eqIgnoreAsciiCase (trim name) want.toList = false then agreedParam want found rest
      else match unquote (trim raw) with
        | none => none
        | some parsed =>
          if parsed.isEmpty then none
          else match found with
            | some first => if first ≠ parsed then none else agreedParam want found rest
            | none => agreedParam want (some parsed) rest

def genValueParam (value want : String) : Option String :=
  (agreedParam want none (params value.toList)).map String.ofList

def icidValue (value : String) : Option String := genValueParam value "icid-value"

def relatedIcid (value : String) : Option String := genValueParam value "related-icid"

def messageIcids (m : SipMessage) : List String :=
  (m.headersByName "P-Charging-Vector").filterMap icidValue

def messageRelatedIcids (m : SipMessage) : List String :=
  (m.headersByName "P-Charging-Vector").filterMap relatedIcid

/-! ## Session identifiers -/

inductive SessionIdDeviation
  | uppercaseHex | wrongLength | nonHex
  deriving DecidableEq

inductive SessionIdHalf
  | uuid (value : String) (deviation : Option SessionIdDeviation)
  | nil
  | malformed (raw : String) (deviation : SessionIdDeviation)
  deriving DecidableEq

def SessionIdHalf.uuid? : SessionIdHalf → Option String
  | .uuid value _ => some value
  | _ => none

structure SessionId where
  localHalf : SessionIdHalf
  remoteHalf : Option SessionIdHalf
  legacyRfc7329Form : Bool
  deriving DecidableEq

def isAsciiHexdigit (c : Char) : Bool :=
  isAsciiDigit c || ('a' ≤ c && c ≤ 'f') || ('A' ≤ c && c ≤ 'F')

def parseHalf (raw : List Char) : SessionIdHalf :=
  if (raw.map Char.utf8Size).sum ≠ 32 then .malformed (String.ofList raw) .wrongLength
  else if raw.all isAsciiHexdigit = false then .malformed (String.ofList raw) .nonHex
  else if raw.all (· = '0') then .nil
  else
    let deviation := if raw.any isAsciiUppercase then some SessionIdDeviation.uppercaseHex else none
    .uuid (String.ofList (raw.map toAsciiLowercase)) deviation

namespace SessionId

def parse (value : String) : Option SessionId :=
  let value := trim value.toList
  if value.isEmpty then none
  else
    let parts := params value
    let remoteHalf := (findParam "remote" (parts.drop 1)).map (fun v => parseHalf (trim v))
    some ⟨parseHalf (trim (parts.headD [])), remoteHalf, remoteHalf.isNone⟩

def correlatable (id : SessionId) : List String :=
  id.localHalf.uuid?.toList ++ (id.remoteHalf.bind SessionIdHalf.uuid?).toList

def sameSessionAs (id other : SessionId) : Bool :=
  !id.correlatable.isEmpty && other.correlatable.any (fun u => id.correlatable.contains u)

end SessionId

/-! ## SDP origins and `Via` branches -/

structure SdpOriginKey where
  username : String
  sessId : String
  nettype : String
  addrtype : String
  unicastAddress : String
  deriving DecidableEq

def SdpOriginKey.parse (originValue : String) : Option SdpOriginKey :=
  match (splitWhitespace originValue.toList).map String.ofList with
  | [username, sessId, _, nettype, addrtype, unicastAddress] =>
    some ⟨username, sessId, nettype, addrtype, unicastAddress⟩
  | _ => none

def extractViaBranch (viaHeader : String) : Option String :=
  (split ';' viaHeader.toList).findSome?
    (fun param => ("branch=".toList.isPrefixOf? (trim param)).map String.ofList)

/-! ## What a dialog carries -/

namespace SipDialog

def sessionIds (d : SipDialog) : List SessionId :=
  d.messages.filterMap (fun m => (m.header "Session-ID").bind SessionId.parse)

def icids (d : SipDialog) : List String := d.messages.flatMap messageIcids

def relatedIcids (d : SipDialog) : List String := d.messages.flatMap messageRelatedIcids

def sdpOrigins (rd : BodyReaders) (d : SipDialog) : List SdpOriginKey :=
  d.messages.filterMap (fun m => (rd.sdp m).bind (fun s => s.origin.bind SdpOriginKey.parse))

def inviteBranches (d : SipDialog) : List String :=
  (d.messages.filter (fun m => m.isRequest ∧ m.method = some .invite)).flatMap
    (fun m => m.viaHeaders.filterMap extractViaBranch)

def xCallIds (xcidHeaders : List String) (d : SipDialog) : List String :=
  d.messages.flatMap (fun m => xcidHeaders.filterMap m.header)

end SipDialog

end Sipnab
