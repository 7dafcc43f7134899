import Sipnab.Hep.HmacToken
import Sipnab.Lib.Base64
import Sipnab.Lib.Lines

/-!
# Signed bearer tokens

A token is `s2`, its payload and a tag over both, cut by dots. The verifier takes it under any of its
keys, for its own audience, before its expiry and unless its id is on the denylist, a text file that
is read again when its time of change is another.
-/

namespace Sipnab

open Text

structure Payload where
  id : List Char
  exp : ℤ
  aud : Option (List Char)
  scope : Option (List Char)
  deriving DecidableEq

structure TokenCodec where
  hmacSha256 : List UInt8 → List Char → List UInt8
  toJson : Payload → List UInt8
  fromJson : List UInt8 → Option Payload

def tokenVersion : List Char := ['s', '2']

def scopeFull : List Char := "full".toList

/-! ## Minting -/

def signingInput (payloadB64 : List Char) : List Char := tokenVersion ++ '.' :: payloadB64

def mintedPayload (id : List Char) (exp : ℤ) (audience scope : List Char) : Payload :=
  ⟨id, exp, some audience, if scope ≠ scopeFull then some scope else none⟩

def mint (codec : TokenCodec) (signingKey : List UInt8) (id : List Char) (expUnix : ℤ)
    (audience scope : List Char) : List Char :=
  let payloadB64 := Base64.encode (codec.toJson (mintedPayload id expUnix audience scope))
  let input := signingInput payloadB64
  let sig := codec.hmacSha256 signingKey input
  input ++ '.' :: Base64.encode sig

inductive Surface
  | api | mcp
  deriving DecidableEq

def Surface.audience : Surface → List Char
  | .api => "api".toList
  | .mcp => "mcp".toList

inductive TokenScope
  | full | metrics | read | actions | admin | audio | inventory | fleetReport
  deriving DecidableEq

def TokenScope.name : TokenScope → List Char
  | .full => scopeFull
  | .metrics => "metrics".toList
  | .read => "read".toList
  | .actions => "actions".toList
  | .admin => "admin".toList
  | .audio => "audio".toList
  | .inventory => "inventory".toList
  | .fleetReport => "fleet-report".toList

/-- What the minting command is asked for: its key and lifetime are those of the surface that has
one. -/
structure MintRequest where
  signingKey : List UInt8
  ttl : ℤ
  surface : Surface
  tokenId : Option (List Char)
  scope : TokenScope
  now : ℤ
  nowMicros : ℤ

namespace MintRequest

def i64Max : ℤ := 2 ^ 63 - 1

def exp (r : MintRequest) : ℤ := min (r.now + r.ttl) i64Max

def id (r : MintRequest) : List Char :=
  r.tokenId.getD ("tok-" ++ toString r.nowMicros).toList

def misplaced (surface : Surface) (scope : TokenScope) : Option String :=
  match scope, surface with
  | .metrics, .mcp => some ("--token-scope metrics applies to the REST API only; the MCP surface " ++
      "has no /metrics endpoint")
  | .audio, .mcp => some ("--token-scope audio applies to the REST API only; the MCP surface has " ++
      "no call audio routes")
  | .inventory, .mcp => some ("--token-scope inventory applies to the REST API only; on the MCP " ++
      "surface a `read` token reaches the fleet_inventory tool")
  | .fleetReport, .mcp => some ("--token-scope fleet-report applies to the REST API only: it is a " ++
      "fleet member's credential for a fleet center (sipnab fleet serve)")
  | .read, .api => some ("--token-scope read applies to the MCP surface only; the REST API has no " ++
      "read-only scope — use `full`, or `metrics` for a scrape-only token")
  | _, _ => none

def mintToken (codec : TokenCodec) (r : MintRequest) : Except String (List Char) :=
  if r.ttl ≤ 0 then .error ("token TTL must be positive, got " ++ toString r.ttl)
  else
    match misplaced r.surface r.scope with
    | some error => .error error
    | none => .ok (mint codec r.signingKey r.id r.exp r.surface.audience r.scope.name)

end MintRequest

/-! ## The denylist -/

structure DenyFile where
  mtime : ℕ
  permitted : Bool
  bytes : List UInt8

def readToString (file : Option DenyFile) : Option (List Char) :=
  file.bind (fun f => if f.permitted then Utf8.decode f.bytes else none)

def parseRevocationFile (contents : List Char) : List (List Char) :=
  ((lines contents).map trim).filter (fun line => line ≠ [] ∧ line.head? ≠ some '#')

structure RevocationCache where
  mtime : Option ℕ := none
  loaded : Bool := false
  ids : List (List Char) := []

/-- The file as it stands, read again if its time is not the one remembered. -/
def RevocationCache.refresh (cache : RevocationCache) (file : Option DenyFile) : RevocationCache :=
  let currentMtime := file.map DenyFile.mtime
  if cache.loaded = false ∨ cache.mtime ≠ currentMtime then
    { mtime := currentMtime
      loaded := true
      ids := (readToString file).elim [] parseRevocationFile }
  else cache

/-! ## Verification -/

structure AcceptedToken where
  scope : List Char
  id : Option (List Char)
  deriving DecidableEq

inductive SignedOutcome
  | notAToken | rejected | accepted (token : AcceptedToken)

structure TokenVerifier where
  signingKeys : List (List UInt8)
  staticKeys : List (List Char)
  hasRevokedFile : Bool
  audience : List Char
  revocation : RevocationCache := {}

namespace TokenVerifier

variable (codec : TokenCodec)

local instance lawfulBEqText : LawfulBEq (List Char) := inferInstance

def isRevoked (v : TokenVerifier) (file : Option DenyFile) (id : List Char) :
    Bool × TokenVerifier :=
  if v.hasRevokedFile then
    let cache := v.revocation.refresh file
    (decide (id ∈ cache.ids), { v with revocation := cache })
  else (false, v)

def signatureOk (v : TokenVerifier) (presentedSig : List UInt8) (input : List Char) : Bool :=
  v.signingKeys.foldl (fun ok key => ok || constantTimeEq presentedSig (codec.hmacSha256 key input))
    false

def checkClaims (v : TokenVerifier) (file : Option DenyFile) (payload : Payload) (nowUnix : ℤ) :
    SignedOutcome × TokenVerifier :=
  if payload.aud ≠ some v.audience ∨ v.audience = [] then (.rejected, v)
  else if payload.exp ≤ nowUnix then (.rejected, v)
  else
    let (revoked, v) := v.isRevoked file payload.id
    if revoked then (.rejected, v)
    else (.accepted ⟨payload.scope.getD scopeFull, some payload.id⟩, v)

def verifySigned (v : TokenVerifier) (file : Option DenyFile) (presented : List Char)
    (nowUnix : ℤ) : SignedOutcome × TokenVerifier :=
  match split '.' presented with
  | [version, payloadB64, sigB64] =>
    if version ≠ tokenVersion then (.notAToken, v)
    else
      match Base64.decode sigB64 with
      | none => (.rejected, v)
      | some presentedSig =>
        if v.signatureOk codec presentedSig (version ++ '.' :: payloadB64) then
          match (Base64.decode payloadB64).bind codec.fromJson with
          | none => (.rejected, v)
          | some payload => v.checkClaims file payload nowUnix
        else (.rejected, v)
  | _ => (.notAToken, v)

def verifyStatic (v : TokenVerifier) (presented : List Char) : Bool :=
  v.staticKeys.foldl (fun ok key =>
    ok || constantTimeEq (presented.flatMap Utf8.encodeChar) (key.flatMap Utf8.encodeChar)) false

def verifyClaims (v : TokenVerifier) (file : Option DenyFile) (presented : List Char)
    (nowUnix : ℤ) : Option AcceptedToken × TokenVerifier :=
  match v.verifySigned codec file presented nowUnix with
  | (.accepted token, v) => (some token, v)
  | (.rejected, v) => (none, v)
  | (.notAToken, v) => (if v.verifyStatic presented then some ⟨scopeFull, none⟩ else none, v)

end TokenVerifier

end Sipnab
