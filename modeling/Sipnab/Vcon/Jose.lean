import Sipnab.Lib.Base64
import Sipnab.Lib.BigEndian
import Sipnab.Lib.Sweeps
import Sipnab.Lib.Text

/-!
# Signed and encrypted containers

A container is signed as a JWS, and the signed form is encrypted as a JWE: one content key, given to
every recipient in an entry of its own, encrypted for an RSA key or wrapped under a key agreed with
an EC key. A reader tries the entries in order with its private key. The ciphers, the hashes, JSON
as text and gzip are those of the libraries.
-/

namespace Sipnab.Vcon

/-! ## JSON -/

inductive Json
  | null
  | bool (value : Bool)
  | number (text : String)
  | string (text : String)
  | array (items : List Json)
  | object (members : List (String × Json))
  deriving BEq

namespace Json

def get? : Json → String → Option Json
  | .object members, name => members.lookup name
  | _, _ => none

def index (value : Json) (name : String) : Json := (value.get? name).getD .null

def asStr : Json → Option String
  | .string text => some text
  | _ => none

def asArray : Json → Option (List Json)
  | .array items => some items
  | _ => none

end Json

/-! ## The libraries -/

abbrev Half := Fin 8 → UInt8

inductive DecryptionKey (RsaKey EcKey : Type)
  | rsa (key : RsaKey)
  | p256 (secret : EcKey)

structure Crates (RsaKey RsaPublic EcKey : Type) where
  toVec : Json → List UInt8
  fromSlice : List UInt8 → Option Json
  standardEncode : List UInt8 → String
  standardDecode : String → Option (List UInt8)
  gzip : List UInt8 → List UInt8
  /-- So many bytes, at most, of what a gzip member inflates to. -/
  inflate : List UInt8 → ℕ → Option (List UInt8)
  sha256 : List UInt8 → List UInt8
  hmacSha512 : List UInt8 → List UInt8 → List UInt8
  aesEncrypt : List UInt8 → Half × Half → Half × Half
  aesDecrypt : List UInt8 → Half × Half → Half × Half
  /-- CBC with padding, by the key and the initial vector. -/
  cbcEncrypt : List UInt8 → List UInt8 → List UInt8 → List UInt8
  cbcDecrypt : List UInt8 → List UInt8 → List UInt8 → Option (List UInt8)
  rsaPublic : RsaKey → RsaPublic
  rsaPkcs1 : RsaKey → List UInt8
  /-- With the randomness, and how many bytes of it were drawn. -/
  oaepEncrypt : RsaPublic → List UInt8 → List UInt8 → Option (List UInt8 × ℕ)
  oaepDecrypt : RsaKey → List UInt8 → Option (List UInt8)
  ecPoint : EcKey → List UInt8
  parsesPoint : List UInt8 → Bool
  agreeEphemeral : EcKey → List UInt8 → Option (List UInt8)
  diffieHellman : EcKey → List UInt8 → List UInt8
  signRs256 : RsaKey → List UInt8 → Option (List UInt8)
  signEs256 : EcKey → List UInt8 → Option (List UInt8)
  /-- By the public key, the input and the signature. -/
  verifyRs256 : List UInt8 → List UInt8 → List UInt8 → Bool
  verifyEs256 : List UInt8 → List UInt8 → List UInt8 → Bool
  /-- A PEM private key. -/
  decryptionKey : String → Option (DecryptionKey RsaKey EcKey)

/-! ## Errors -/

inductive JoseError
  | notJson | notEncrypted | notSigned
  | noPrivateKey
  | protectedNotBase64url | protectedNotJson
  | notAnArray (name : String)
  | notAString (name : String)
  | notBase64url (name : String)
  | wrongLength (name : String)
  | zipHeader
  | noRecipients
  | conflictingHeader (name first second : String)
  | unread (alg enc : Option String)
  | noContentKey
  | contentKeyLength
  | aadTooLong
  | tagMismatch
  | padding
  | noEpk
  | foreignEpk
  | directWithKey
  | kekLength
  | wrapLength
  | integrityCheck
  | uuidMismatch (outer inner : String)
  | agreementFailed
  | notUncompressed
  | oaepFailed | randomnessOverrun
  | signingFailed
  | algorithmNotRead (alg : Option String)
  | conflictingX5c | x5cNotArray | x5cNotString | x5cNotBase64 | noCertificate | notHttps | x5uNotFetched
  | badCertificate | unknownKey
  | keyNotOfAlgorithm (alg : Option String)
  | signatureMismatch
  | payloadNotBase64url
  | gzipFailed
  | inflatesPast (cap : ℕ)
  deriving DecidableEq

def jweAlg : String := "RSA-OAEP"

def jweEnc : String := "A256CBC-HS512"

def jwsAlg : String := "RS256"

def jwsAlgEs256 : String := "ES256"

def jweAlgEcdh : String := "ECDH-ES+A256KW"

def jweAlgEcdhDirect : String := "ECDH-ES"

def contentType : String := "application/vcon"

def contentTypeGzip : String := "application/vcon+gzip"

def gzipMagic : List UInt8 := [0x1f, 0x8b]

def b64u (bytes : List UInt8) : String := String.ofList (Base64.encode bytes)

def b64uDecode (text : String) : Option (List UInt8) := Base64.decode text.toList

def utf8 (text : String) : List UInt8 := text.toUTF8.data.toList

/-! ## Forms and headers -/

inductive Form
  | unsigned | signed | encrypted | unknown
  deriving DecidableEq

def formOf (value : Json) : Form :=
  let has (name : String) : Bool := (value.get? name).isSome
  if has "ciphertext" && has "recipients" then .encrypted
  else if has "payload" && has "signatures" then .signed
  else if ["parties", "dialog", "analysis", "attachments"].any has then .unsigned
  else .unknown

inductive Compression
  | none | gzip
  deriving DecidableEq

def b64uField (value : Json) (name : String) : Except JoseError (List UInt8) :=
  match (value.index name).asStr with
  | none => .error (.notAString name)
  | some text =>
    match b64uDecode text with
    | none => .error (.notBase64url name)
    | some bytes => .ok bytes

/-- The one value that a name has across headers; what comes after `found`. -/
def oneHeaderFrom (name : String) : Option String → List Json → Except JoseError (Option String)
  | found, [] => .ok found
  | found, header :: headers =>
    match header.get? name with
    | none => oneHeaderFrom name found headers
    | some value =>
      match value.asStr with
      | none => .error (.notAString name)
      | some text =>
        match found with
        | some seen =>
          if seen ≠ text then .error (.conflictingHeader name seen text)
          else oneHeaderFrom name (some text) headers
        | none => oneHeaderFrom name (some text) headers

def oneHeader (headers : List Json) (name : String) : Except JoseError (Option String) :=
  oneHeaderFrom name none headers

/-! ## Certificates -/

/-- A DER element: its tag, its contents, the whole of it and what follows. -/
structure DerElement where
  tag : UInt8
  contents : List UInt8
  whole : List UInt8
  rest : List UInt8

def derLength (input : List UInt8) : Option (ℕ × ℕ) := do
  let first ← input[1]?
  if first < 0x80 then some (first.toNat, 2)
  else
    let count := (first &&& 0x7F).toNat
    if count = 0 ∨ 4 < count then none
    else if input.length < 2 + count then none
    else some (ofBeBytes ((input.drop 2).take count), 2 + count)

def derElement (input : List UInt8) : Option DerElement := do
  let tag ← input[0]?
  let (length, header) ← derLength input
  if input.length < header + length then none
  else
    some
      { tag
        contents := (input.take (header + length)).drop header
        whole := input.take (header + length)
        rest := input.drop (header + length) }

def skipElements : ℕ → List UInt8 → Option (List UInt8)
  | 0, rest => some rest
  | n + 1, rest => do
    let element ← derElement rest
    skipElements n element.rest

def subjectPublicKeyInfo (certificate : List UInt8) : Option (List UInt8) := do
  let certificate ← derElement certificate
  if certificate.tag ≠ 0x30 then none
  else
    let tbs ← derElement certificate.contents
    if tbs.tag ≠ 0x30 then none
    else
      let rest ← if tbs.contents.head? = some 0xA0 then
          (derElement tbs.contents).map DerElement.rest
        else some tbs.contents
      -- serialNumber, signature, issuer, validity, subject
      let rest ← skipElements 5 rest
      let spki ← derElement rest
      if spki.tag = 0x30 then some spki.whole else none

def rsaEncryptionOid : List UInt8 :=
  [0x06, 0x09, 0x2A, 0x86, 0x48, 0x86, 0xF7, 0x0D, 0x01, 0x01, 0x01]

def ecPublicKeyOid : List UInt8 := [0x06, 0x07, 0x2A, 0x86, 0x48, 0xCE, 0x3D, 0x02, 0x01]

def p256Oid : List UInt8 := [0x06, 0x08, 0x2A, 0x86, 0x48, 0xCE, 0x3D, 0x03, 0x01, 0x07]

inductive PublicKey
  | rsa (pkcs1 : List UInt8)
  | p256 (point : List UInt8)
  deriving DecidableEq

def publicKey (spki : List UInt8) : Option PublicKey := do
  let spki ← derElement spki
  let algorithm ← derElement spki.contents
  if algorithm.tag ≠ 0x30 then none
  else
    let bits ← derElement algorithm.rest
    match bits.tag, bits.contents with
    | 0x03, 0 :: key =>
      if rsaEncryptionOid <+: algorithm.contents then some (.rsa key)
      else if algorithm.contents = ecPublicKeyOid ++ p256Oid ∧ key.length = 65 ∧
          key.head? = some 0x04 then some (.p256 key)
      else none
    | _, _ => none

def certificateKey (certificate : List UInt8) : Except JoseError PublicKey :=
  match subjectPublicKeyInfo certificate with
  | none => .error .badCertificate
  | some spki =>
    match publicKey spki with
    | none => .error .unknownKey
    | some key => .ok key

section

variable {RsaKey RsaPublic EcKey : Type} (c : Crates RsaKey RsaPublic EcKey)

/-! ## Signing -/

inductive SigningKey (RsaKey EcKey : Type)
  | rsa (key : RsaKey)
  | es256 (key : EcKey)

def SigningKey.publicKey : SigningKey RsaKey EcKey → PublicKey
  | .rsa key => .rsa (c.rsaPkcs1 key)
  | .es256 key => .p256 (c.ecPoint key)

/-- A key with its chain of certificates; the first is the key's own. -/
structure Signer where
  key : SigningKey RsaKey EcKey
  leaf : List UInt8
  chain : List (List UInt8)
  x5u : Option String
  leaf_matches : certificateKey leaf = .ok (key.publicKey c)

variable {c}

def Signer.alg (signer : Signer c) : String :=
  match signer.key with
  | .rsa _ => jwsAlg
  | .es256 _ => jwsAlgEs256

def Signer.signInput (signer : Signer c) (input : List UInt8) : Except JoseError (List UInt8) :=
  match signer.key with
  | .rsa key => (c.signRs256 key input).elim (.error .signingFailed) .ok
  | .es256 key => (c.signEs256 key input).elim (.error .signingFailed) .ok

def Signer.x5c (signer : Signer c) : List Json :=
  (signer.leaf :: signer.chain).map (fun der => .string (c.standardEncode der))

def Signer.header (signer : Signer c) (uuid : String) : Json :=
  .object ([("uuid", Json.string uuid), ("x5c", Json.array signer.x5c)] ++
    signer.x5u.toList.map (fun url => ("x5u", Json.string url)))

def sign (unsigned : List UInt8) (uuid : String) (signer : Signer c) :
    Except JoseError (List UInt8) := do
  let protect := b64u (c.toVec (.object [("alg", .string signer.alg)]))
  let payload := b64u unsigned
  let signature ← signer.signInput (utf8 (protect ++ "." ++ payload))
  .ok (c.toVec (.object [
    ("payload", .string payload),
    ("signatures", .array [.object [
      ("header", signer.header uuid),
      ("protected", .string protect),
      ("signature", .string (b64u signature))]])]))

def signCompressed (unsigned : List UInt8) (uuid : String) (signer : Signer c) :
    Compression → Except JoseError (List UInt8)
  | .none => sign unsigned uuid signer
  | .gzip => sign (c.gzip unsigned) uuid signer

variable (c)

/-- A header that travels as base64url text; one that is absent is empty. -/
def decodeHeader (text : String) : Except JoseError Json :=
  if text = "" then .ok .null
  else
    match b64uDecode text with
    | none => .error .protectedNotBase64url
    | some bytes => (c.fromSlice bytes).elim (.error .protectedNotJson) .ok

def gunzipCapped (source : List UInt8) (cap : ℕ) : Except JoseError (List UInt8) :=
  match c.inflate source (cap + 1) with
  | none => .error .gzipFailed
  | some out => if cap < out.length then .error (.inflatesPast cap) else .ok out

def checkX5u (url : String) : Except JoseError Unit :=
  if "https://".toList <+: url.toList.map Text.toAsciiLowercase ∧ "https://".length < url.length
  then .ok () else .error .notHttps

/-- The chain that a signature names. No chain is fetched. -/
def chainOf (headers : List Json) : Except JoseError (List (List UInt8)) := do
  let placed := headers.filterMap (fun h => h.get? "x5c")
  if (placed.zip placed.tail).any (fun pair => pair.1 != pair.2) then .error .conflictingX5c
  else
    match placed.head? with
    | some x5c =>
      match x5c.asArray with
      | none | some [] => .error .x5cNotArray
      | some items =>
        items.mapM (fun item =>
          match item.asStr with
          | none => .error .x5cNotString
          | some text => (c.standardDecode text).elim (.error .x5cNotBase64) .ok)
    | none =>
      match ← oneHeader headers "x5u" with
      | none => .error .noCertificate
      | some url => do
        checkX5u url
        .error .x5uNotFetched

def verifySignature (payload : String) (signature : Json) : Except JoseError Unit := do
  let protectedText := ((signature.get? "protected").bind Json.asStr).getD ""
  let protect ← decodeHeader c protectedText
  let headers := [protect, signature.index "header"]
  let alg ← oneHeader headers "alg"
  if alg ≠ some jwsAlg ∧ alg ≠ some jwsAlgEs256 then .error (.algorithmNotRead alg)
  else
    let chain ← chainOf c headers
    match chain with
    | [] => .error .noCertificate
    | leaf :: _ =>
      -- the algorithm is that of the key, and the header has to agree
      let verify ← match ← certificateKey leaf with
        | .rsa pkcs1 =>
          if alg ≠ some jwsAlg then .error (.keyNotOfAlgorithm alg) else .ok (c.verifyRs256 pkcs1)
        | .p256 point =>
          if alg ≠ some jwsAlgEs256 then .error (.keyNotOfAlgorithm alg)
          else .ok (c.verifyEs256 point)
      let bytes ← b64uField signature "signature"
      if verify (utf8 (protectedText ++ "." ++ payload)) bytes then .ok ()
      else .error .signatureMismatch

def verifySignatures (payload : String) : List Json → Except JoseError Unit
  | [] => .ok ()
  | signature :: signatures => do
    verifySignature c payload signature
    verifySignatures payload signatures

/-- The unsigned container inside a signed one, at most so many bytes of it if it is compressed. -/
def verifyCapped (jws : List UInt8) (maxUnsigned : ℕ) : Except JoseError (List UInt8) :=
  match c.fromSlice jws with
  | none => .error .notJson
  | some value =>
    if formOf value ≠ .signed then .error .notSigned
    else
      match (value.index "payload").asStr, (value.index "signatures").asArray with
      | none, _ => .error (.notAString "payload")
      | some _, none | some _, some [] => .error (.notAnArray "signatures")
      | some payload, some signatures => do
        verifySignatures c payload signatures
        match b64uDecode payload with
        | none => .error .payloadNotBase64url
        | some bytes =>
          if gzipMagic <+: bytes then gunzipCapped c bytes maxUnsigned else .ok bytes

/-! ## Content encryption -/

def cbcHs512Mac (macKey iv aad ciphertext : List UInt8) : Except JoseError (List UInt8) :=
  if 2 ^ 64 ≤ aad.length * 8 then .error .aadTooLong
  else .ok (c.hmacSha512 macKey (aad ++ iv ++ ciphertext ++ toBeBytes 8 (aad.length * 8)))

def a256cbcHs512Seal (key iv aad plaintext : List UInt8) :
    Except JoseError (List UInt8 × List UInt8) := do
  let ciphertext := c.cbcEncrypt (key.drop 32) iv plaintext
  let mac ← cbcHs512Mac c (key.take 32) iv aad ciphertext
  .ok (ciphertext, mac.take 32)

def a256cbcHs512Open (key iv aad ciphertext tag : List UInt8) : Except JoseError (List UInt8) := do
  let mac ← cbcHs512Mac c (key.take 32) iv aad ciphertext
  if mac.take tag.length ≠ tag then .error .tagMismatch
  else (c.cbcDecrypt (key.drop 32) iv ciphertext).elim (.error .padding) .ok

/-! ## Key wrap -/

def chunks : List UInt8 → List Half
  | b₀ :: b₁ :: b₂ :: b₃ :: b₄ :: b₅ :: b₆ :: b₇ :: rest =>
    ![b₀, b₁, b₂, b₃, b₄, b₅, b₆, b₇] :: chunks rest
  | _ => []

def Half.bytes (half : Half) : List UInt8 := List.ofFn half

def concat (blocks : List Half) : List UInt8 := blocks.flatMap Half.bytes

def rfc3394DefaultA : Half := fun _ => 0xA6

def stepBytes (step : ℕ) : Half := fun i => UInt8.ofNat (step / 256 ^ (7 - i.val))

def xorHalf (a b : Half) : Half := fun i => a i ^^^ b i

def wrapStep (kek : List UInt8) (step : ℕ) (s : Half × Half) : Half × Half :=
  let buffer := c.aesEncrypt kek s
  (xorHalf buffer.1 (stepBytes step), buffer.2)

def unwrapStep (kek : List UInt8) (step : ℕ) (s : Half × Half) : Half × Half :=
  c.aesDecrypt kek (xorHalf s.1 (stepBytes step), s.2)

/-- The number of the first step of a round over so many blocks. -/
def firstStep (count round : ℕ) : ℕ := count * round + 1

def aesKeyWrap (kek key : List UInt8) : Except JoseError (List UInt8) :=
  if key.length % 8 ≠ 0 ∨ key.length < 16 then .error .wrapLength
  else
    let blocks := chunks key
    let s := Sweeps.sweeps (wrapStep c kek) (firstStep blocks.length) 6 (rfc3394DefaultA, blocks)
    .ok (Half.bytes s.1 ++ concat s.2)

def aesKeyUnwrap (kek wrapped : List UInt8) : Except JoseError (List UInt8) :=
  if wrapped.length % 8 ≠ 0 ∨ wrapped.length < 24 then .error .wrapLength
  else
    let check := (chunks (wrapped.take 8)).headD (fun _ => 0)
    let blocks := chunks (wrapped.drop 8)
    let s := Sweeps.sweepsBack (unwrapStep c kek) (firstStep blocks.length) 6 (check, blocks)
    if s.1 ≠ rfc3394DefaultA then .error .integrityCheck else .ok (concat s.2)

/-! ## Key agreement -/

/-- Bytes behind their length; one that is too long is written as the largest. -/
def kdfField (bytes : List UInt8) : List UInt8 :=
  toBeBytes 4 (min bytes.length (2 ^ 32 - 1)) ++ bytes

/-- So many bytes derived from a shared secret; a hash gives 32 of them. -/
def concatKdf (z : List UInt8) (alg : String) (apu apv : List UInt8) (len : ℕ) : List UInt8 :=
  let other := kdfField (utf8 alg) ++ kdfField apu ++ kdfField apv ++
    toBeBytes 4 (min (len * 8) (2 ^ 32 - 1))
  ((List.range ((len + 31) / 32)).flatMap
    (fun round => c.sha256 (toBeBytes 4 (round + 1) ++ z ++ other))).take len

def jwkOfPoint : List UInt8 → Except JoseError Json
  | 0x04 :: rest =>
    if rest.length = 64 then
      .ok (.object [("crv", .string "P-256"), ("kty", .string "EC"),
        ("x", .string (b64u (rest.take 32))), ("y", .string (b64u (rest.drop 32)))])
    else .error .notUncompressed
  | _ => .error .notUncompressed

def coordinate (jwk : Json) (name : String) : Except JoseError (List UInt8) := do
  let bytes ← b64uField jwk name
  if bytes.length = 32 then .ok bytes else .error (.wrongLength name)

def pointOfJwk (jwk : Json) : Except JoseError (List UInt8) := do
  if (jwk.index "kty").asStr ≠ some "EC" ∨ (jwk.index "crv").asStr ≠ some "P-256" then
    .error .foreignEpk
  else
    let x ← coordinate jwk "x"
    let y ← coordinate jwk "y"
    .ok (0x04 :: (x ++ y))

/-- The key of a fresh agreement with a point, and the public half of it. -/
def ecdhEsKekFor (ephemeral : EcKey) (point : List UInt8) :
    Except JoseError (Json × List UInt8) := do
  let epk ← jwkOfPoint (c.ecPoint ephemeral)
  match c.agreeEphemeral ephemeral point with
  | none => .error .agreementFailed
  | some z =>
    let kek := concatKdf c z jweAlgEcdh [] [] 32
    if kek.length = 32 then .ok (epk, kek) else .error .kekLength

def ecdhStatic (secret : EcKey) (point : List UInt8) : Option (List UInt8) :=
  if c.parsesPoint point then some (c.diffieHellman secret point) else none

/-- A party's bytes; none are given if the header is absent. -/
def party (headers : List Json) (name : String) : Except JoseError (List UInt8) := do
  match ← oneHeader headers name with
  | none => .ok []
  | some text => (b64uDecode text).elim (.error (.notBase64url name)) .ok

/-- The content key of an entry by agreement; none if it does not open with this key. -/
def contentKeyByEcdh (secret : EcKey) (headers : List Json) (alg : String)
    (encryptedKey : List UInt8) : Except JoseError (Option (List UInt8)) :=
  match headers.findSome? (fun h => h.get? "epk") with
  | none => .error .noEpk
  | some epk => do
    let point ← pointOfJwk epk
    let apu ← party headers "apu"
    let apv ← party headers "apv"
    match ecdhStatic c secret point with
    | none => .ok none
    | some z =>
      if alg = jweAlgEcdhDirect then
        if encryptedKey ≠ [] then .error .directWithKey
        else .ok (some (concatKdf c z jweEnc apu apv 64))
      else
        let kek := concatKdf c z jweAlgEcdh apu apv 32
        if kek.length ≠ 32 then .error .kekLength
        else .ok (aesKeyUnwrap c kek encryptedKey).toOption

/-! ## Sealing -/

def OnCurve (point : List UInt8) : Prop :=
  point.length = 65 ∧ point.head? = some 0x04 ∧ c.parsesPoint point = true

inductive Recipient
  | rsa (key : RsaPublic)
  | p256 (point : List UInt8) (onCurve : OnCurve c point)

structure Draw (EcKey : Type) where
  seed : List UInt8
  ephemeral : EcKey

structure Fresh (EcKey : Type) where
  cek : List UInt8
  iv : List UInt8
  draw : ℕ → Draw EcKey
  cek_length : cek.length = 64
  iv_length : iv.length = 16

structure JweHeaders where
  protect : Option Json
  unprotected : Json
  recipient : Option Json

variable {c}

def sealKey (headers : JweHeaders) (cek : List UInt8) (draw : Draw EcKey) :
    Recipient c → Except JoseError (Option Json × List UInt8)
  | .rsa key =>
    match c.oaepEncrypt key draw.seed cek with
    | none => .error .oaepFailed
    | some (encryptedKey, drawn) =>
      if 128 < drawn then .error .randomnessOverrun else .ok (headers.recipient, encryptedKey)
  | .p256 point _ => do
    let (epk, kek) ← ecdhEsKekFor c draw.ephemeral point
    let encryptedKey ← aesKeyWrap c kek cek
    .ok (some (.object [("alg", .string jweAlgEcdh), ("epk", epk)]), encryptedKey)

def sealEntry (headers : JweHeaders) (cek : List UInt8) (draw : Draw EcKey)
    (recipient : Recipient c) : Except JoseError Json := do
  let (header, encryptedKey) ← sealKey headers cek draw recipient
  .ok (.object (("encrypted_key", .string (b64u encryptedKey)) ::
    header.toList.map (fun header => ("header", header))))

def sealEntries (headers : JweHeaders) (fresh : Fresh EcKey) :
    ℕ → List (Recipient c) → Except JoseError (List Json)
  | _, [] => .ok []
  | index, recipient :: recipients => do
    let entry ← sealEntry headers fresh.cek (fresh.draw index) recipient
    let entries ← sealEntries headers fresh (index + 1) recipients
    .ok (entry :: entries)

def container (protect : Option String) (unprotected : Json) (entries : List Json)
    (iv ciphertext tag : List UInt8) : Json :=
  .object ([("ciphertext", Json.string (b64u ciphertext)), ("iv", Json.string (b64u iv))] ++
    protect.toList.map (fun text => ("protected", Json.string text)) ++
    [("recipients", Json.array entries), ("tag", Json.string (b64u tag)),
      ("unprotected", unprotected)])

def encryptUnder (signed : List UInt8) (recipients : List (Recipient c)) (headers : JweHeaders)
    (fresh : Fresh EcKey) : Except JoseError (List UInt8) := do
  if recipients = [] then .error .noRecipients
  else
    let protect := headers.protect.map (fun h => b64u (c.toVec h))
    let aad := utf8 (protect.getD "")
    let (ciphertext, tag) ← a256cbcHs512Seal c fresh.cek fresh.iv aad signed
    let entries ← sealEntries headers fresh 0 recipients
    .ok (c.toVec (container protect headers.unprotected entries fresh.iv ciphertext tag))

def unprotectedHeader (compression : Compression) (uuid : String) : Json :=
  .object [("cty", .string (match compression with
      | .none => contentType
      | .gzip => contentTypeGzip)),
    ("enc", .string jweEnc), ("uuid", .string uuid)]

def encryptToAll (signed : List UInt8) (uuid : String) (recipients : List (Recipient c))
    (compression : Compression) (fresh : Fresh EcKey) : Except JoseError (List UInt8) :=
  encryptUnder signed recipients
    { protect := none
      unprotected := unprotectedHeader compression uuid
      recipient := some (.object [("alg", .string jweAlg)]) } fresh

/-! ## Opening -/

variable (c)

/-- The uuid outside, if there is one, is that of every signature inside. -/
def checkUuid (outer : Option Json) (signed : List UInt8) : Except JoseError Unit :=
  match outer.bind Json.asStr with
  | none => .ok ()
  | some outer =>
    match c.fromSlice signed with
    | none => .error .notJson
    | some inner =>
      let named := ((inner.index "signatures").asArray.getD []).filterMap
        (fun s => ((s.index "header").index "uuid").asStr)
      match named.find? (fun uuid => uuid ≠ outer) with
      | some inner => .error (.uuidMismatch outer inner)
      | none => .ok ()

def isRead (alg enc : Option String) : Bool :=
  (alg = some jweAlg || alg = some jweAlgEcdh || alg = some jweAlgEcdhDirect) &&
    decide (enc = some jweEnc)

def contentKey (key : DecryptionKey RsaKey EcKey) (headers : List Json) (alg : Option String)
    (encryptedKey : List UInt8) : Except JoseError (Option (List UInt8)) :=
  match key, alg with
  | .rsa key, some alg =>
    if alg = jweAlg then .ok (c.oaepDecrypt key encryptedKey) else .ok none
  | .p256 secret, some alg =>
    if alg ≠ jweAlg then contentKeyByEcdh c secret headers alg encryptedKey else .ok none
  | _, none => .ok none

structure Envelope where
  protect : Json
  unprotected : Json
  iv : List UInt8
  aad : List UInt8
  ciphertext : List UInt8
  tag : List UInt8

def Envelope.headers (envelope : Envelope) (entry : Json) : List Json :=
  [envelope.protect, envelope.unprotected, entry.index "header"]

def openWith (envelope : Envelope) (cek : List UInt8) : Except JoseError (List UInt8) := do
  if cek.length ≠ 64 then .error .contentKeyLength
  else
    let plaintext ← a256cbcHs512Open c cek envelope.iv envelope.aad envelope.ciphertext envelope.tag
    checkUuid c (envelope.unprotected.get? "uuid") plaintext
    .ok plaintext

/-- The entries one after the other, with the error that stands if none of them opens. -/
def tryRecipients (key : DecryptionKey RsaKey EcKey) (envelope : Envelope) :
    JoseError → List Json → Except JoseError (List UInt8)
  | last, [] => .error last
  | _, entry :: entries => do
    let alg ← oneHeader (envelope.headers entry) "alg"
    let enc ← oneHeader (envelope.headers entry) "enc"
    if isRead alg enc then
      let encryptedKey ← b64uField entry "encrypted_key"
      match ← contentKey c key (envelope.headers entry) alg encryptedKey with
      | none => tryRecipients key envelope .noContentKey entries
      | some cek => openWith c envelope cek
    else tryRecipients key envelope (.unread alg enc) entries

def fixedField (value : Json) (name : String) (length : ℕ) : Except JoseError (List UInt8) := do
  let bytes ← b64uField value name
  if bytes.length = length then .ok bytes else .error (.wrongLength name)

def decrypt (jwe : List UInt8) (keyPem : String) : Except JoseError (List UInt8) :=
  match c.fromSlice jwe with
  | none => .error .notJson
  | some value =>
    if formOf value ≠ .encrypted then .error .notEncrypted
    else
      match c.decryptionKey keyPem with
      | none => .error .noPrivateKey
      | some key => do
        let protectedText := ((value.get? "protected").bind Json.asStr).getD ""
        let protect ← decodeHeader c protectedText
        match (value.index "recipients").asArray with
        | none => .error (.notAnArray "recipients")
        | some recipients =>
          let iv ← fixedField value "iv" 16
          let tag ← fixedField value "tag" 32
          let ciphertext ← b64uField value "ciphertext"
          let aad := match (value.get? "aad").bind Json.asStr with
            | some extra => protectedText ++ "." ++ extra
            | none => protectedText
          if (protect.get? "zip").isSome || ((value.index "unprotected").get? "zip").isSome ||
              recipients.any (fun r => ((r.index "header").get? "zip").isSome) then
            .error .zipHeader
          else
            tryRecipients c key
              { protect
                unprotected := value.index "unprotected"
                iv
                aad := utf8 aad
                ciphertext
                tag } .noRecipients recipients

end

end Sipnab.Vcon
