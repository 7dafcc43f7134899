import Sipnab.Vcon.Jose

/-!
# Opening a sealed container

What a private key makes of a sealed container to which other entries were added: it opens if every
entry before its own is one that the reader passes over, and no entry asks for compression. The key
wrap is undone step by step, the agreement gives both sides one key, and the signed form gives back
the bytes that were signed.
-/

namespace Sipnab.Vcon

open List Option

variable {RsaKey RsaPublic EcKey : Type} {c : Crates RsaKey RsaPublic EcKey}

structure Crates.Lawful (c : Crates RsaKey RsaPublic EcKey) : Prop where
  fromSlice_nil : c.fromSlice [] = none
  not_gzip : ∀ bytes, (c.fromSlice bytes).isSome = true → ¬ gzipMagic <+: bytes
  standard : ∀ bytes, c.standardDecode (c.standardEncode bytes) = some bytes
  gzip_magic : ∀ bytes, gzipMagic <+: c.gzip bytes
  inflate_gzip : ∀ bytes n, c.inflate (c.gzip bytes) n = some (bytes.take n)
  length_sha256 : ∀ bytes, (c.sha256 bytes).length = 32
  length_hmac : ∀ key bytes, (c.hmacSha512 key bytes).length = 64
  aes : ∀ key s, c.aesDecrypt key (c.aesEncrypt key s) = s
  cbc : ∀ key iv plaintext, key.length = 32 → iv.length = 16 →
    c.cbcDecrypt key iv (c.cbcEncrypt key iv plaintext) = some plaintext
  oaep_total : ∀ key seed message, message.length = 64 →
    ∃ sealed drawn, c.oaepEncrypt key seed message = some (sealed, drawn) ∧ drawn ≤ 128
  oaep : ∀ key seed message sealed drawn,
    c.oaepEncrypt (c.rsaPublic key) seed message = some (sealed, drawn) →
      c.oaepDecrypt key sealed = some message
  point : ∀ key, OnCurve c (c.ecPoint key)
  agree_total : ∀ ephemeral point, OnCurve c point →
    (c.agreeEphemeral ephemeral point).isSome = true
  agree : ∀ ephemeral secret, c.agreeEphemeral ephemeral (c.ecPoint secret) =
    some (c.diffieHellman secret (c.ecPoint ephemeral))
  rs256 : ∀ key input, ∃ signature, c.signRs256 key input = some signature ∧
    c.verifyRs256 (c.rsaPkcs1 key) input signature = true
  es256 : ∀ key input, ∃ signature, c.signEs256 key input = some signature ∧
    c.verifyEs256 (c.ecPoint key) input signature = true

/-! ## Text and headers -/

variable {value : Json} {name : String} {known : List Json} (bytes : List UInt8) (half : Half)
  (blocks : List Half)

@[simp] theorem b64uDecode_b64u : b64uDecode (b64u bytes) = some bytes := by
  rw [b64uDecode, b64u, String.toList_ofList, Base64.decode_encode]

theorem b64uField_of_index {bytes : List UInt8} (h : value.index name = .string (b64u bytes)) :
    b64uField value name = .ok bytes := by
  simp only [b64uField, h, Json.asStr, b64uDecode_b64u]

theorem fixedField_of_index {bytes : List UInt8} {length : ℕ}
    (h : value.index name = .string (b64u bytes)) (hlength : bytes.length = length) :
    fixedField value name length = .ok bytes := by
  rw [fixedField, b64uField_of_index h]
  exact if_pos hlength

theorem decodeHeader_b64u (laws : c.Lawful) {header : Json}
    (hjson : c.fromSlice (c.toVec header) = some header) :
    decodeHeader c (b64u (c.toVec header)) = .ok header := by
  have hne : b64u (c.toVec header) ≠ "" := by
    intro hempty
    have hdecode := b64uDecode_b64u (c.toVec header)
    rw [hempty] at hdecode
    have hnil : c.toVec header = [] := (some.inj hdecode).symm
    rw [hnil, laws.fromSlice_nil] at hjson
    cases hjson
  rw [decodeHeader, if_neg hne, b64uDecode_b64u]
  simp only [hjson, elim_some]

/-! ## The key wrap -/

theorem chunks_append_bytes (rest : List UInt8) :
    chunks (half.bytes ++ rest) = half :: chunks rest := by
  have hbytes : half.bytes ++ rest = half 0 :: half 1 :: half 2 :: half 3 :: half 4 :: half 5 ::
      half 6 :: half 7 :: rest := by
    simp [Half.bytes, ofFn_succ]
  rw [hbytes, chunks]
  congr 1
  funext i
  fin_cases i <;> rfl

theorem chunks_concat : chunks (concat blocks) = blocks := by
  induction blocks with
  | nil => rfl
  | cons half blocks ih =>
    rw [concat, flatMap_cons, chunks_append_bytes]
    exact congrArg _ ih

theorem length_bytes : half.bytes.length = 8 := length_ofFn

theorem length_concat : (concat blocks).length = 8 * blocks.length := by
  induction blocks with
  | nil => rfl
  | cons half blocks ih =>
    rw [concat, flatMap_cons, length_append, length_bytes, length_cons]
    change 8 + (concat blocks).length = _
    omega

theorem concat_chunks (h : bytes.length % 8 = 0) : concat (chunks bytes) = bytes := by
  induction bytes using chunks.induct with
  | case1 b₀ b₁ b₂ b₃ b₄ b₅ b₆ b₇ rest ih =>
    have hrest := ih (by simp only [length_cons] at h; omega)
    rw [chunks, concat, flatMap_cons]
    change _ ++ concat (chunks rest) = _
    rw [hrest]
    simp [Half.bytes, ofFn_succ]
  | case2 bytes hshort =>
    have hlt : bytes.length < 8 := by
      by_contra hge
      obtain ⟨b₀, b₁, b₂, b₃, b₄, b₅, b₆, b₇, rest, rfl⟩ : ∃ b₀ b₁ b₂ b₃ b₄ b₅ b₆ b₇ rest,
          bytes = b₀ :: b₁ :: b₂ :: b₃ :: b₄ :: b₅ :: b₆ :: b₇ :: rest := by
        match bytes, hge with
        | b₀ :: b₁ :: b₂ :: b₃ :: b₄ :: b₅ :: b₆ :: b₇ :: rest, _ =>
          exact ⟨b₀, b₁, b₂, b₃, b₄, b₅, b₆, b₇, rest, rfl⟩
        | [], hge | [_], hge | [_, _], hge | [_, _, _], hge | [_, _, _, _], hge
        | [_, _, _, _, _], hge | [_, _, _, _, _, _], hge | [_, _, _, _, _, _, _], hge =>
          exact absurd (by simp) hge
      exact hshort b₀ b₁ b₂ b₃ b₄ b₅ b₆ b₇ rest rfl
    have hnil : bytes = [] := eq_nil_of_length_eq_zero (by omega)
    rw [hnil]
    rfl

theorem xorHalf_xorHalf (a b : Half) : xorHalf (xorHalf a b) b = a := by
  funext i
  simp [xorHalf]

theorem unwrapStep_wrapStep (laws : c.Lawful) (kek : List UInt8) (step : ℕ) (s : Half × Half) :
    unwrapStep c kek step (wrapStep c kek step s) = s := by
  simp only [unwrapStep, wrapStep, xorHalf_xorHalf]
  exact laws.aes kek s

theorem aesKeyUnwrap_aesKeyWrap (laws : c.Lawful) {kek key wrapped : List UInt8}
    (h : aesKeyWrap c kek key = .ok wrapped) : aesKeyUnwrap c kek wrapped = .ok key := by
  unfold aesKeyWrap at h
  split_ifs at h with hlength
  obtain ⟨hmod, hlong⟩ := not_or.mp hlength
  have hmod : key.length % 8 = 0 := not_not.mp hmod
  have hkey := concat_chunks key hmod
  have hcount : 8 * (chunks key).length = key.length := by rw [← length_concat, hkey]
  set s := Sweeps.sweeps (wrapStep c kek) (firstStep (chunks key).length) 6
    (rfc3394DefaultA, chunks key) with hs
  have hwrapped : wrapped = s.1.bytes ++ concat s.2 := (Except.ok.inj h).symm
  have hblocks : s.2.length = (chunks key).length := Sweeps.length_sweeps _ _ _
  have hwlength : wrapped.length = 8 + key.length := by
    rw [hwrapped, length_append, length_bytes, length_concat, hblocks, hcount]
  have hcheck : (chunks (wrapped.take 8)).headD (fun _ => 0) = s.1 := by
    have htake : wrapped.take 8 = s.1.bytes ++ [] := by
      rw [hwrapped, append_nil, take_left' (length_bytes s.1)]
    rw [htake, chunks_append_bytes]
    rfl
  have hrest : chunks (wrapped.drop 8) = s.2 := by
    rw [hwrapped, drop_left' (length_bytes s.1), chunks_concat]
  have hback : Sweeps.sweepsBack (unwrapStep c kek) (firstStep s.2.length) 6 (s.1, s.2) =
      (rfc3394DefaultA, chunks key) := by
    rw [hblocks]
    exact Sweeps.sweepsBack_sweeps (unwrapStep_wrapStep laws kek) _ 6 _
  unfold aesKeyUnwrap
  rw [if_neg (by omega), hcheck, hrest]
  simp only [hback, ne_eq, not_true_eq_false, if_false, hkey]

theorem aesKeyWrap_total (kek : List UInt8) {key : List UInt8} (h : key.length = 64) :
    ∃ wrapped, aesKeyWrap c kek key = .ok wrapped :=
  ⟨_, if_neg (by omega)⟩

/-! ## The agreement -/

theorem length_concatKdf (laws : c.Lawful) (z : List UInt8) (alg : String)
    (apu apv : List UInt8) : (concatKdf c z alg apu apv 32).length = 32 := by
  simp [concatKdf, laws.length_sha256]

variable {point : List UInt8}

theorem pointOfJwk_jwkOfPoint {jwk : Json} (h : jwkOfPoint point = .ok jwk) :
    pointOfJwk jwk = .ok point := by
  unfold jwkOfPoint at h
  split at h
  · rename_i rest
    split_ifs at h with hlength
    obtain rfl := (Except.ok.inj h).symm
    have hx : coordinate (.object [("crv", .string "P-256"), ("kty", .string "EC"),
        ("x", .string (b64u (rest.take 32))), ("y", .string (b64u (rest.drop 32)))]) "x" =
          .ok (rest.take 32) := by
      rw [coordinate, b64uField_of_index rfl]
      exact if_pos (by simp [hlength])
    have hy : coordinate (.object [("crv", .string "P-256"), ("kty", .string "EC"),
        ("x", .string (b64u (rest.take 32))), ("y", .string (b64u (rest.drop 32)))]) "y" =
          .ok (rest.drop 32) := by
      rw [coordinate, b64uField_of_index rfl]
      exact if_pos (by simp [hlength])
    unfold pointOfJwk
    rw [if_neg (by simp [Json.index, Json.get?, Json.asStr, List.lookup]), hx, hy]
    change Except.ok (0x04 :: (rest.take 32 ++ rest.drop 32)) = _
    rw [take_append_drop]
  · cases h

theorem jwkOfPoint_total (h : OnCurve c point) : ∃ jwk, jwkOfPoint point = .ok jwk := by
  obtain ⟨hlength, hhead, -⟩ := h
  cases point with
  | nil => cases hhead
  | cons b rest =>
    obtain rfl := some.inj hhead
    refine ⟨_, if_pos ?_⟩
    simpa using hlength

theorem ecdhEsKekFor_total (laws : c.Lawful) (ephemeral : EcKey) (h : OnCurve c point) :
    ∃ epk kek, ecdhEsKekFor c ephemeral point = .ok (epk, kek) := by
  obtain ⟨epk, hepk⟩ := jwkOfPoint_total (laws.point ephemeral)
  obtain ⟨z, hz⟩ := isSome_iff_exists.mp (laws.agree_total ephemeral point h)
  refine ⟨epk, concatKdf c z jweAlgEcdh [] [] 32, ?_⟩
  unfold ecdhEsKekFor
  rw [hepk, hz]
  exact if_pos (length_concatKdf laws _ _ _ _)

theorem ecdhEsKekFor_eq {ephemeral : EcKey} {kek : List UInt8} {epk : Json}
    (h : ecdhEsKekFor c ephemeral point = .ok (epk, kek)) :
    jwkOfPoint (c.ecPoint ephemeral) = .ok epk ∧ ∃ z, c.agreeEphemeral ephemeral point = some z ∧
      kek = concatKdf c z jweAlgEcdh [] [] 32 := by
  unfold ecdhEsKekFor at h
  cases hepk : jwkOfPoint (c.ecPoint ephemeral) with
  | error e =>
    rw [hepk] at h
    cases h
  | ok jwk =>
    rw [hepk] at h
    cases hz : c.agreeEphemeral ephemeral point with
    | none =>
      rw [hz] at h
      cases h
    | some z =>
      rw [hz] at h
      change (if _ then _ else _) = _ at h
      split_ifs at h
      obtain ⟨rfl, rfl⟩ := Prod.mk.inj (Except.ok.inj h)
      exact ⟨rfl, z, rfl, rfl⟩

/-! ## The headers of an entry -/

def sealedEnvelope (compression : Compression) (uuid : String) (iv ciphertext tag : List UInt8) :
    Envelope where
  protect := .null
  unprotected := unprotectedHeader compression uuid
  iv
  aad := []
  ciphertext
  tag

def entryOf (header : Json) (encryptedKey : List UInt8) : Json :=
  .object [("encrypted_key", .string (b64u encryptedKey)), ("header", header)]

def rsaHeader : Json := .object [("alg", .string jweAlg)]

def ecdhHeader (epk : Json) : Json := .object [("alg", .string jweAlgEcdh), ("epk", epk)]

/-! ## What the loop does with an entry -/

/-- The key gives no content key for the encrypted key of an entry, and no error. -/
def NoContentKey (c : Crates RsaKey RsaPublic EcKey) :
    DecryptionKey RsaKey EcKey → List Json → Option String → List UInt8 → Prop
  | .rsa key, _, alg, bytes => alg = some jweAlg → c.oaepDecrypt key bytes = none
  | .p256 secret, headers, alg, bytes => alg ≠ some jweAlg →
    ∃ epk point apu apv, headers.findSome? (fun h => h.get? "epk") = some epk ∧
      pointOfJwk epk = .ok point ∧ party headers "apu" = .ok apu ∧ party headers "apv" = .ok apv ∧
      (c.parsesPoint point = false ∨ alg = some jweAlgEcdh ∧ ∃ e, aesKeyUnwrap c
        (concatKdf c (c.diffieHellman secret point) jweAlgEcdh apu apv 32) bytes = .error e)

/-- An entry that a reader goes on behind: its algorithms are named once and are not those that are
read, or its key material is well formed and does not open with the reader's key. -/
inductive PassedOver (c : Crates RsaKey RsaPublic EcKey) (key : DecryptionKey RsaKey EcKey)
    (envelope : Envelope) (entry : Json) : Prop
  | unread {alg enc : Option String} (halg : oneHeader (envelope.headers entry) "alg" = .ok alg)
    (henc : oneHeader (envelope.headers entry) "enc" = .ok enc) (hread : isRead alg enc = false)
  | closed {alg enc : Option String} {bytes : List UInt8}
    (halg : oneHeader (envelope.headers entry) "alg" = .ok alg)
    (henc : oneHeader (envelope.headers entry) "enc" = .ok enc) (hread : isRead alg enc = true)
    (hbytes : b64uField entry "encrypted_key" = .ok bytes)
    (hclosed : NoContentKey c key (envelope.headers entry) alg bytes)

def Opens (c : Crates RsaKey RsaPublic EcKey) (key : DecryptionKey RsaKey EcKey)
    (envelope : Envelope) (entry : Json) (plaintext : List UInt8) : Prop :=
  ∃ alg enc bytes cek, oneHeader (envelope.headers entry) "alg" = .ok alg ∧
    oneHeader (envelope.headers entry) "enc" = .ok enc ∧ isRead alg enc = true ∧
    b64uField entry "encrypted_key" = .ok bytes ∧
    contentKey c key (envelope.headers entry) alg bytes = .ok (some cek) ∧
    openWith c envelope cek = .ok plaintext

section Loop

variable {key : DecryptionKey RsaKey EcKey} {envelope : Envelope} {entry : Json}
variable {alg enc : Option String} {bytes : List UInt8}

theorem isRead_cases (h : isRead alg enc = true) :
    alg = some jweAlg ∨ alg = some jweAlgEcdh ∨ alg = some jweAlgEcdhDirect := by
  simp only [isRead, Bool.and_eq_true, Bool.or_eq_true, decide_eq_true_eq] at h
  tauto

theorem contentKeyByEcdh_eq_none_iff (laws : c.Lawful) (secret : EcKey) (headers : List Json)
    {alg : String} (halg : alg = jweAlgEcdh ∨ alg = jweAlgEcdhDirect) (bytes : List UInt8) :
    contentKeyByEcdh c secret headers alg bytes = .ok none ↔
      ∃ epk point apu apv, headers.findSome? (fun h => h.get? "epk") = some epk ∧
        pointOfJwk epk = .ok point ∧ party headers "apu" = .ok apu ∧
        party headers "apv" = .ok apv ∧ (c.parsesPoint point = false ∨ alg = jweAlgEcdh ∧ ∃ e,
          aesKeyUnwrap c (concatKdf c (c.diffieHellman secret point) jweAlgEcdh apu apv 32) bytes =
            .error e) := by
  unfold contentKeyByEcdh
  cases hepk : headers.findSome? (fun h => h.get? "epk") with
  | none => simp
  | some epk =>
    cases hpoint : pointOfJwk epk with
    | error e => simp [hpoint, bind, Except.bind]
    | ok point =>
      cases hapu : party headers "apu" with
      | error e => simp [hpoint, bind, Except.bind]
      | ok apu =>
        cases hapv : party headers "apv" with
        | error e => simp [hpoint, bind, Except.bind]
        | ok apv =>
          have hdirect : jweAlgEcdh ≠ jweAlgEcdhDirect := by decide
          have hlength := length_concatKdf laws (c.diffieHellman secret point) jweAlgEcdh apu apv
          cases hparse : c.parsesPoint point with
          | false =>
            refine ⟨fun _ => ⟨epk, point, apu, apv, rfl, hpoint, rfl, rfl, Or.inl hparse⟩, ?_⟩
            intro _
            simp [hpoint, bind, Except.bind, ecdhStatic, hparse]
          | true =>
            simp only [hpoint, bind, Except.bind, ecdhStatic, hparse, if_true, Option.some.injEq,
              Except.ok.injEq, exists_and_left, exists_eq_left', Bool.true_eq_false, false_or]
            rcases halg with rfl | rfl
            · rw [if_neg hdirect]
              simp only [hlength, ne_eq, not_true_eq_false, if_false, Except.ok.injEq, true_and]
              cases hunwrap : aesKeyUnwrap c (concatKdf c (c.diffieHellman secret point) jweAlgEcdh
                apu apv 32) bytes with
              | error e => simp [Except.toOption]
              | ok cek => simp [Except.toOption]
            · rw [if_pos rfl]
              constructor
              · intro h
                split_ifs at h
                cases h
              · rintro ⟨hsame, -⟩
                exact absurd hsame.symm hdirect

theorem contentKey_eq_none_iff (laws : c.Lawful) (hread : isRead alg enc = true)
    (headers : List Json) :
    contentKey c key headers alg bytes = .ok none ↔ NoContentKey c key headers alg bytes := by
  have hec : jweAlgEcdh ≠ jweAlg := by decide
  have hdirect : jweAlgEcdhDirect ≠ jweAlg := by decide
  cases key with
  | rsa key =>
    rcases isRead_cases hread with rfl | rfl | rfl
    · simp [contentKey, NoContentKey]
    · simp [contentKey, NoContentKey, hec]
    · simp [contentKey, NoContentKey, hdirect]
  | p256 secret =>
    rcases isRead_cases hread with rfl | rfl | rfl
    · simp [contentKey, NoContentKey]
    · have hiff := contentKeyByEcdh_eq_none_iff laws secret headers (Or.inl rfl) bytes
      simpa [contentKey, NoContentKey, hec] using hiff
    · have hiff := contentKeyByEcdh_eq_none_iff laws secret headers (Or.inr rfl) bytes
      simpa [contentKey, NoContentKey, hdirect] using hiff

theorem tryRecipients_passedOver (laws : c.Lawful) (h : PassedOver c key envelope entry)
    (last : JoseError) (entries : List Json) :
    ∃ last', tryRecipients c key envelope last (entry :: entries) =
      tryRecipients c key envelope last' entries := by
  cases h with
  | @unread alg enc halg henc hread =>
    refine ⟨.unread alg enc, ?_⟩
    simp only [tryRecipients, halg, henc, hread, bind, Except.bind, Bool.false_eq_true, if_false]
  | @closed alg enc bytes halg henc hread hbytes hclosed =>
    refine ⟨.noContentKey, ?_⟩
    have hnone := (contentKey_eq_none_iff laws hread _).mpr hclosed
    simp only [tryRecipients, halg, henc, hread, hbytes, hnone, bind, Except.bind, if_true]

variable {plaintext : List UInt8}

theorem tryRecipients_opens (h : Opens c key envelope entry plaintext) (last : JoseError)
    (entries : List Json) :
    tryRecipients c key envelope last (entry :: entries) = .ok plaintext := by
  obtain ⟨alg, enc, bytes, cek, halg, henc, hread, hbytes, hcek, hopen⟩ := h
  simp only [tryRecipients, halg, henc, hread, hbytes, hcek, hopen, bind, Except.bind, if_true]

theorem opens_of_tryRecipients (laws : c.Lawful) {last : JoseError} {entries : List Json}
    (hpassed : ¬ PassedOver c key envelope entry)
    (h : tryRecipients c key envelope last (entry :: entries) = .ok plaintext) :
    Opens c key envelope entry plaintext := by
  cases halg : oneHeader (envelope.headers entry) "alg" with
  | error e =>
    simp [tryRecipients, halg, bind, Except.bind] at h
  | ok alg =>
    cases henc : oneHeader (envelope.headers entry) "enc" with
    | error e => simp [tryRecipients, halg, henc, bind, Except.bind] at h
    | ok enc =>
      cases hread : isRead alg enc with
      | false => exact absurd (.unread halg henc hread) hpassed
      | true =>
        cases hbytes : b64uField entry "encrypted_key" with
        | error e => simp [tryRecipients, halg, henc, hread, hbytes, bind, Except.bind] at h
        | ok bytes =>
          cases hkey : contentKey c key (envelope.headers entry) alg bytes with
          | error e =>
            simp [tryRecipients, halg, henc, hread, hbytes, hkey, bind, Except.bind] at h
          | ok opened =>
            cases opened with
            | none =>
              have hclosed := (contentKey_eq_none_iff laws hread _).mp hkey
              exact absurd (.closed halg henc hread hbytes hclosed) hpassed
            | some cek =>
              refine ⟨alg, enc, bytes, cek, halg, henc, hread, hbytes, hkey, ?_⟩
              simpa [tryRecipients, halg, henc, hread, hbytes, hkey, bind, Except.bind] using h

/-- Entries that do not open come first, then one that does: it is found exactly if all of them are
passed over. -/
theorem tryRecipients_iff (laws : c.Lawful) {before : List Json} (after : List Json)
    (hforeign : ∀ e ∈ before, ¬ Opens c key envelope e plaintext)
    (hopens : Opens c key envelope entry plaintext) (last : JoseError) :
    tryRecipients c key envelope last (before ++ entry :: after) = .ok plaintext ↔
      ∀ e ∈ before, PassedOver c key envelope e := by
  induction before generalizing last with
  | nil => simp [tryRecipients_opens hopens]
  | cons first before ih =>
    have hrest := ih (fun e he => hforeign e (mem_cons_of_mem _ he))
    rw [cons_append]
    constructor
    · intro h
      have hfirst : PassedOver c key envelope first := by
        by_contra hpassed
        exact hforeign first mem_cons_self (opens_of_tryRecipients laws hpassed h)
      obtain ⟨last', hnext⟩ := tryRecipients_passedOver laws hfirst last (before ++ entry :: after)
      rw [hnext] at h
      exact forall_mem_cons.mpr ⟨hfirst, (hrest last').mp h⟩
    · intro h
      obtain ⟨hfirst, hbefore⟩ := forall_mem_cons.mp h
      obtain ⟨last', hnext⟩ := tryRecipients_passedOver laws hfirst last (before ++ entry :: after)
      rw [hnext]
      exact (hrest last').mpr hbefore

end Loop

/-! ## The signed form -/

section Signing

variable {signer : Signer c} {uuid : String} {payload : List UInt8}

def algHeader (signer : Signer c) : Json := .object [("alg", .string signer.alg)]

def signingInput (signer : Signer c) (payload : List UInt8) : List UInt8 :=
  utf8 (b64u (c.toVec (algHeader signer)) ++ "." ++ b64u payload)

def signatureOf (signer : Signer c) (uuid : String) (signature : List UInt8) : Json :=
  .object [("header", signer.header uuid),
    ("protected", .string (b64u (c.toVec (algHeader signer)))),
    ("signature", .string (b64u signature))]

def signedForm (signer : Signer c) (uuid : String) (payload signature : List UInt8) : Json :=
  .object [("payload", .string (b64u payload)),
    ("signatures", .array [signatureOf signer uuid signature])]

/-- The JSON library reads back what it writes for a signed form. -/
structure ReadsBack (signer : Signer c) (uuid : String) (payload : List UInt8) : Prop where
  header : c.fromSlice (c.toVec (algHeader signer)) = some (algHeader signer)
  signed : ∀ signature, signer.signInput (signingInput signer payload) = .ok signature →
    c.fromSlice (c.toVec (signedForm signer uuid payload signature)) =
      some (signedForm signer uuid payload signature)

theorem signInput_verifies (laws : c.Lawful) (signer : Signer c) (input : List UInt8) :
    ∃ signature, signer.signInput input = .ok signature ∧
      match signer.key.publicKey c with
      | .rsa pkcs1 => signer.alg = jwsAlg ∧ c.verifyRs256 pkcs1 input signature = true
      | .p256 point => signer.alg = jwsAlgEs256 ∧ c.verifyEs256 point input signature = true := by
  cases hkey : signer.key with
  | rsa key =>
    obtain ⟨signature, hsign, hverify⟩ := laws.rs256 key input
    refine ⟨signature, ?_, ?_, hverify⟩
    · simp [Signer.signInput, hkey, hsign]
    · simp [Signer.alg, hkey]
  | es256 key =>
    obtain ⟨signature, hsign, hverify⟩ := laws.es256 key input
    refine ⟨signature, ?_, ?_, hverify⟩
    · simp [Signer.signInput, hkey, hsign]
    · simp [Signer.alg, hkey]

theorem alg_cases (signer : Signer c) : signer.alg = jwsAlg ∨ signer.alg = jwsAlgEs256 := by
  cases hkey : signer.key with
  | rsa key => exact Or.inl (by simp [Signer.alg, hkey])
  | es256 key => exact Or.inr (by simp [Signer.alg, hkey])

theorem mapM_x5c (laws : c.Lawful) (chain : List (List UInt8)) :
    (chain.map (fun der => Json.string (c.standardEncode der))).mapM (fun item =>
      match item.asStr with
      | none => Except.error JoseError.x5cNotString
      | some text => (c.standardDecode text).elim (.error .x5cNotBase64) .ok) = .ok chain := by
  induction chain with
  | nil => rfl
  | cons der chain ih =>
    rw [map_cons, mapM_cons, ih]
    simp [Json.asStr, laws.standard, bind, Except.bind, pure, Except.pure]

theorem chainOf_signed (laws : c.Lawful) (signer : Signer c) (uuid : String) :
    chainOf c [algHeader signer, signer.header uuid] = .ok (signer.leaf :: signer.chain) := by
  have hx5c := mapM_x5c laws (signer.leaf :: signer.chain)
  cases hx5u : signer.x5u with
  | none =>
    simp only [chainOf, algHeader, Signer.header, hx5u]
    exact hx5c
  | some url =>
    simp only [chainOf, algHeader, Signer.header, hx5u]
    exact hx5c

theorem oneHeader_alg_signed (signer : Signer c) (uuid : String) :
    oneHeader [algHeader signer, signer.header uuid] "alg" = .ok (some signer.alg) := by
  cases hx5u : signer.x5u with
  | none =>
    simp only [algHeader, Signer.header, hx5u]
    rfl
  | some url =>
    simp only [algHeader, Signer.header, hx5u]
    rfl

variable {signature : List UInt8}

theorem verifySignature_signed (laws : c.Lawful) (hback : ReadsBack signer uuid payload)
    (hverify : match signer.key.publicKey c with
      | .rsa pkcs1 => signer.alg = jwsAlg ∧
        c.verifyRs256 pkcs1 (signingInput signer payload) signature = true
      | .p256 point => signer.alg = jwsAlgEs256 ∧
        c.verifyEs256 point (signingInput signer payload) signature = true) :
    verifySignature c (b64u payload) (signatureOf signer uuid signature) = .ok () := by
  have hheader := decodeHeader_b64u laws hback.header
  have hfield : b64uField (signatureOf signer uuid signature) "signature" = .ok signature :=
    b64uField_of_index rfl
  have hprotected : (((signatureOf signer uuid signature).get? "protected").bind Json.asStr).getD ""
      = b64u (c.toVec (algHeader signer)) := rfl
  have hindex : (signatureOf signer uuid signature).index "header" = signer.header uuid := rfl
  have halg : ¬ (some signer.alg ≠ some jwsAlg ∧ some signer.alg ≠ some jwsAlgEs256) := by
    rcases alg_cases signer with h | h <;> simp [h]
  unfold verifySignature
  simp only [hprotected, hheader, hindex, oneHeader_alg_signed, chainOf_signed laws,
    signer.leaf_matches, hfield, bind, Except.bind]
  rw [if_neg halg]
  cases hkey : signer.key.publicKey c with
  | rsa pkcs1 =>
    rw [hkey] at hverify
    simp only [hverify.1, ne_eq, not_true_eq_false, if_false]
    exact if_pos hverify.2
  | p256 point =>
    rw [hkey] at hverify
    simp only [hverify.1, ne_eq, not_true_eq_false, if_false]
    exact if_pos hverify.2

theorem verifyCapped_sign (laws : c.Lawful) (hback : ReadsBack signer uuid payload) :
    ∃ signature, signer.signInput (signingInput signer payload) = .ok signature ∧
      sign payload uuid signer = .ok (c.toVec (signedForm signer uuid payload signature)) ∧
      ∀ cap, verifyCapped c (c.toVec (signedForm signer uuid payload signature)) cap =
        if gzipMagic <+: payload then gunzipCapped c payload cap else .ok payload := by
  obtain ⟨signature, hsign, hverify⟩ := signInput_verifies laws signer (signingInput signer payload)
  refine ⟨signature, hsign, ?_, fun cap => ?_⟩
  · unfold sign
    change (signer.signInput (signingInput signer payload) >>= _) = _
    rw [hsign]
    rfl
  · have hone := verifySignature_signed laws hback hverify
    have hform : formOf (signedForm signer uuid payload signature) = .signed := rfl
    have hpayload : ((signedForm signer uuid payload signature).index "payload").asStr =
        some (b64u payload) := rfl
    have hsignatures : ((signedForm signer uuid payload signature).index "signatures").asArray =
        some [signatureOf signer uuid signature] := rfl
    unfold verifyCapped
    simp only [hback.signed signature hsign, hform, ne_eq, not_true_eq_false, if_false, hpayload,
      hsignatures, verifySignatures, hone, bind, Except.bind, b64uDecode_b64u]

def payloadOf (c : Crates RsaKey RsaPublic EcKey) (unsigned : List UInt8) : Compression → List UInt8
  | .none => unsigned
  | .gzip => c.gzip unsigned

theorem signCompressed_eq (unsigned : List UInt8) (uuid : String) (signer : Signer c)
    (compression : Compression) : signCompressed unsigned uuid signer compression =
      sign (payloadOf c unsigned compression) uuid signer := by
  cases compression <;> rfl

theorem read_payloadOf (laws : c.Lawful) {unsigned : List UInt8}
    (hunsigned : (c.fromSlice unsigned).isSome = true) (compression : Compression) {cap : ℕ}
    (hcap : unsigned.length ≤ cap) :
    (if gzipMagic <+: payloadOf c unsigned compression then
      gunzipCapped c (payloadOf c unsigned compression) cap
    else .ok (payloadOf c unsigned compression)) = .ok unsigned := by
  cases compression with
  | none => exact if_neg (laws.not_gzip unsigned hunsigned)
  | gzip =>
    have hall : unsigned.take (cap + 1) = unsigned := take_of_length_le (by omega)
    simp only [payloadOf, laws.gzip_magic unsigned, if_true, gunzipCapped, laws.inflate_gzip, hall]
    exact if_neg (by omega)

theorem checkUuid_signed (hback : ReadsBack signer uuid payload)
    (hsign : signer.signInput (signingInput signer payload) = .ok signature) :
    checkUuid c (some (.string uuid)) (c.toVec (signedForm signer uuid payload signature)) =
      .ok () := by
  have hnamed : (((signedForm signer uuid payload signature).index "signatures").asArray.getD
      []).filterMap (fun s => ((s.index "header").index "uuid").asStr) = [uuid] := rfl
  have hstr : (some (Json.string uuid)).bind Json.asStr = some uuid := rfl
  simp only [checkUuid, hstr, hback.signed signature hsign, hnamed]
  simp

end Signing

/-! ## The sealed container -/

section Sealed

variable {compression : Compression} {uuid : String} {iv ciphertext tag : List UInt8}

def HasZip (entry : Json) : Prop := ((entry.index "header").get? "zip").isSome = true

variable {key : DecryptionKey RsaKey EcKey} {entries : List Json} {fresh : Fresh EcKey}
  {signed cek : List UInt8} {entry : Json}

theorem decrypt_container {keyPem : String} (hkey : c.decryptionKey keyPem = some key)
    (hiv : iv.length = 16) (htag : tag.length = 32) {jwe : List UInt8}
    (hjwe : c.fromSlice jwe = some
      (container none (unprotectedHeader compression uuid) entries iv ciphertext tag)) :
    decrypt c jwe keyPem =
      if entries.any (fun r => ((r.index "header").get? "zip").isSome) = true then .error .zipHeader
      else tryRecipients c key (sealedEnvelope compression uuid iv ciphertext tag) .noRecipients
        entries := by
  set value := container none (unprotectedHeader compression uuid) entries iv ciphertext tag
    with hvalue
  have hform : formOf value = .encrypted := rfl
  have hprotected : ((value.get? "protected").bind Json.asStr).getD "" = "" := rfl
  have hrecipients : (value.index "recipients").asArray = some entries := rfl
  have hivField : fixedField value "iv" 16 = .ok iv := fixedField_of_index rfl hiv
  have htagField : fixedField value "tag" 32 = .ok tag := fixedField_of_index rfl htag
  have hciphertext : b64uField value "ciphertext" = .ok ciphertext := b64uField_of_index rfl
  have haad : (value.get? "aad").bind Json.asStr = none := rfl
  have hunprotected : value.index "unprotected" = unprotectedHeader compression uuid := rfl
  have hzip : ((unprotectedHeader compression uuid).get? "zip").isSome = false := rfl
  unfold decrypt
  simp only [hjwe, hform, ne_eq, not_true_eq_false, if_false, hkey, hprotected, hrecipients,
    hivField, htagField, hciphertext, haad, hunprotected, hzip, bind, Except.bind, decodeHeader,
    if_true]
  simp only [Json.get?, isSome_none, Bool.false_or]
  rfl

theorem openWith_sealed (laws : c.Lawful)
    (hseal : a256cbcHs512Seal c fresh.cek fresh.iv [] signed = .ok (ciphertext, tag))
    (huuid : checkUuid c (some (.string uuid)) signed = .ok ()) :
    openWith c (sealedEnvelope compression uuid fresh.iv ciphertext tag) fresh.cek =
      .ok signed := by
  have hmac : ∀ macKey ct, cbcHs512Mac c macKey fresh.iv [] ct = .ok (c.hmacSha512 macKey
      ([] ++ fresh.iv ++ ct ++ toBeBytes 8 (List.length ([] : List UInt8) * 8))) :=
    fun _ _ => if_neg (by decide)
  have hhalf : (fresh.cek.drop 32).length = 32 := by rw [length_drop, fresh.cek_length]
  simp only [a256cbcHs512Seal, hmac, bind, Except.bind, Except.ok.injEq, Prod.mk.injEq] at hseal
  obtain ⟨rfl, rfl⟩ := hseal
  have htake : ∀ bytes : List UInt8, bytes.take (bytes.take 32).length = bytes.take 32 := by
    intro bytes
    rw [length_take, take_eq_take_iff]
    omega
  simp only [openWith, fresh.cek_length, ne_eq, not_true_eq_false, if_false, a256cbcHs512Open,
    sealedEnvelope, hmac, htake, bind, Except.bind, laws.cbc _ _ _ hhalf fresh.iv_length,
    elim_some]
  rw [show (unprotectedHeader compression uuid).get? "uuid" = some (.string uuid) from rfl, huuid]

def IsFor : DecryptionKey RsaKey EcKey → Recipient c → Prop
  | .rsa key, .rsa pub => pub = c.rsaPublic key
  | .p256 secret, .p256 point _ => point = c.ecPoint secret
  | _, _ => False

/-- What is encrypted to a recipient does not open with a private key that is not its own: neither
the padding of RSA-OAEP nor the check of the key wrap comes out right by chance. -/
def Apart (key : DecryptionKey RsaKey EcKey) (cek : List UInt8) (draw : Draw EcKey) :
    Recipient c → Prop
  | .rsa pub => ∀ own, key = .rsa own → ∀ sealed drawn,
    c.oaepEncrypt pub draw.seed cek = some (sealed, drawn) → c.oaepDecrypt own sealed = none
  | .p256 point _ => ∀ secret, key = .p256 secret → ∀ epk kek wrapped,
    ecdhEsKekFor c draw.ephemeral point = .ok (epk, kek) → aesKeyWrap c kek cek = .ok wrapped →
      ∃ e, aesKeyUnwrap c (concatKdf c (c.diffieHellman secret (c.ecPoint draw.ephemeral))
        jweAlgEcdh [] [] 32) wrapped = .error e

def sealHeaders (compression : Compression) (uuid : String) : JweHeaders where
  protect := none
  unprotected := unprotectedHeader compression uuid
  recipient := some rsaHeader

theorem sealEntry_total (laws : c.Lawful) (compression : Compression) (uuid : String)
    (hcek : cek.length = 64) (draw : Draw EcKey) (recipient : Recipient c) :
    ∃ entry, sealEntry (sealHeaders compression uuid) cek draw recipient = .ok entry ∧
      match recipient with
      | .rsa pub => ∃ sealed drawn, c.oaepEncrypt pub draw.seed cek = some (sealed, drawn) ∧
        entry = entryOf rsaHeader sealed
      | .p256 point _ => ∃ epk kek wrapped, ecdhEsKekFor c draw.ephemeral point = .ok (epk, kek) ∧
        aesKeyWrap c kek cek = .ok wrapped ∧ entry = entryOf (ecdhHeader epk) wrapped := by
  cases recipient with
  | rsa pub =>
    obtain ⟨sealed, drawn, hsealed, hdrawn⟩ := laws.oaep_total pub draw.seed cek hcek
    refine ⟨entryOf rsaHeader sealed, ?_, sealed, drawn, hsealed, rfl⟩
    unfold sealEntry sealKey
    simp only [hsealed, if_neg (Nat.not_lt.mpr hdrawn), bind, Except.bind]
    rfl
  | p256 point onCurve =>
    obtain ⟨epk, kek, hkek⟩ := ecdhEsKekFor_total laws draw.ephemeral onCurve
    obtain ⟨wrapped, hwrapped⟩ := aesKeyWrap_total (c := c) kek hcek
    refine ⟨entryOf (ecdhHeader epk) wrapped, ?_, epk, kek, wrapped, hkek, hwrapped, rfl⟩
    unfold sealEntry sealKey
    simp only [hkek, hwrapped, bind, Except.bind]
    rfl

theorem not_hasZip_sealed (laws : c.Lawful) (hcek : cek.length = 64) {draw : Draw EcKey}
    {recipient : Recipient c}
    (h : sealEntry (sealHeaders compression uuid) cek draw recipient = .ok entry) :
    ¬ HasZip entry := by
  obtain ⟨entry', hentry', hkind⟩ := sealEntry_total laws compression uuid hcek draw recipient
  obtain rfl := Except.ok.inj (h.symm.trans hentry')
  cases recipient with
  | rsa pub =>
    obtain ⟨sealed, drawn, -, rfl⟩ := hkind
    exact fun hzip => by cases hzip
  | p256 point onCurve =>
    obtain ⟨epk, kek, wrapped, -, -, rfl⟩ := hkind
    exact fun hzip => by cases hzip

section Reader

variable {key : DecryptionKey RsaKey EcKey} {cek : List UInt8} {draw : Draw EcKey}
variable {recipient : Recipient c} {entry : Json}

theorem contentKey_ecdh (laws : c.Lawful) {secret : EcKey} {epk : Json} {wrapped : List UInt8}
    (hepk : jwkOfPoint (c.ecPoint draw.ephemeral) = .ok epk) :
    contentKey c (.p256 secret) ((sealedEnvelope compression uuid iv ciphertext tag).headers
      (entryOf (ecdhHeader epk) wrapped)) (some jweAlgEcdh) wrapped =
      .ok (aesKeyUnwrap c (concatKdf c (c.diffieHellman secret (c.ecPoint draw.ephemeral))
        jweAlgEcdh [] [] 32) wrapped).toOption := by
  set headers := (sealedEnvelope compression uuid iv ciphertext tag).headers
    (entryOf (ecdhHeader epk) wrapped) with hheaders
  have hfound : headers.findSome? (fun h => h.get? "epk") = some epk := rfl
  have hpoint := pointOfJwk_jwkOfPoint hepk
  have hapu : party headers "apu" = .ok [] := rfl
  have hapv : party headers "apv" = .ok [] := rfl
  have hstatic : ecdhStatic c secret (c.ecPoint draw.ephemeral) =
      some (c.diffieHellman secret (c.ecPoint draw.ephemeral)) :=
    if_pos (laws.point draw.ephemeral).2.2
  have hne : jweAlgEcdh ≠ jweAlg := by decide
  have hdirect : jweAlgEcdh ≠ jweAlgEcdhDirect := by decide
  simp only [contentKey, ne_eq, hne, not_false_eq_true, if_true, contentKeyByEcdh, hfound, hpoint,
    hapu, hapv, hstatic, bind, Except.bind, hdirect, if_false, length_concatKdf laws,
    not_true_eq_false]

theorem opens_own (laws : c.Lawful) (hcek : cek.length = 64) (hfor : IsFor key recipient)
    (hentry : sealEntry (sealHeaders compression uuid) cek draw recipient = .ok entry)
    {signed : List UInt8}
    (hopen : openWith c (sealedEnvelope compression uuid iv ciphertext tag) cek = .ok signed) :
    Opens c key (sealedEnvelope compression uuid iv ciphertext tag) entry signed := by
  obtain ⟨entry', hentry', hkind⟩ := sealEntry_total laws compression uuid hcek draw recipient
  obtain rfl := Except.ok.inj (hentry.symm.trans hentry')
  cases recipient with
  | rsa pub =>
    cases key with
    | p256 secret => exact absurd hfor id
    | rsa own =>
      obtain ⟨sealed, drawn, hsealed, rfl⟩ := hkind
      obtain rfl : pub = c.rsaPublic own := hfor
      refine ⟨some jweAlg, some jweEnc, sealed, cek, rfl, rfl, by decide, b64uField_of_index rfl,
        ?_, hopen⟩
      simp [contentKey, laws.oaep own _ _ _ _ hsealed]
  | p256 point onCurve =>
    cases key with
    | rsa own => exact absurd hfor id
    | p256 secret =>
      obtain ⟨epk, kek, wrapped, hkek, hwrapped, rfl⟩ := hkind
      obtain rfl : point = c.ecPoint secret := hfor
      obtain ⟨hepk, z, hz, rfl⟩ := ecdhEsKekFor_eq hkek
      obtain rfl := some.inj (hz.symm.trans (laws.agree draw.ephemeral secret))
      refine ⟨some jweAlgEcdh, some jweEnc, wrapped, cek, rfl, rfl, by decide,
        b64uField_of_index rfl, ?_, hopen⟩
      rw [contentKey_ecdh laws hepk, aesKeyUnwrap_aesKeyWrap laws hwrapped]
      rfl

theorem passedOver_other (laws : c.Lawful) (hcek : cek.length = 64)
    (hapart : Apart key cek draw recipient)
    (hentry : sealEntry (sealHeaders compression uuid) cek draw recipient = .ok entry) :
    PassedOver c key (sealedEnvelope compression uuid iv ciphertext tag) entry := by
  obtain ⟨entry', hentry', hkind⟩ := sealEntry_total laws compression uuid hcek draw recipient
  obtain rfl := Except.ok.inj (hentry.symm.trans hentry')
  cases recipient with
  | rsa pub =>
    obtain ⟨sealed, drawn, hsealed, rfl⟩ := hkind
    refine .closed (show _ = Except.ok (some jweAlg) from rfl)
      (show _ = Except.ok (some jweEnc) from rfl) (by decide) (b64uField_of_index rfl) ?_
    cases key with
    | rsa own => exact fun _ => hapart own rfl sealed drawn hsealed
    | p256 secret => exact fun hne => absurd rfl hne
  | p256 point onCurve =>
    obtain ⟨epk, kek, wrapped, hkek, hwrapped, rfl⟩ := hkind
    obtain ⟨hepk, -⟩ := ecdhEsKekFor_eq hkek
    refine .closed (show _ = Except.ok (some jweAlgEcdh) from rfl)
      (show _ = Except.ok (some jweEnc) from rfl) (by decide) (b64uField_of_index rfl) ?_
    cases key with
    | rsa own => exact fun hsame => absurd (some.inj hsame) (by decide)
    | p256 secret =>
      exact fun _ => ⟨epk, c.ecPoint draw.ephemeral, [], [], rfl, pointOfJwk_jwkOfPoint hepk, rfl,
        rfl, Or.inr ⟨rfl, hapart secret rfl epk kek wrapped hkek hwrapped⟩⟩

end Reader

theorem sealEntries_total (laws : c.Lawful) (compression : Compression) (uuid : String)
    (fresh : Fresh EcKey) (recipients : List (Recipient c)) (index : ℕ) : ∃ entries,
      sealEntries (sealHeaders compression uuid) fresh index recipients = .ok entries ∧
      entries.length = recipients.length ∧
      ∀ i recipient entry, recipients[i]? = some recipient → entries[i]? = some entry →
        sealEntry (sealHeaders compression uuid) fresh.cek (fresh.draw (index + i)) recipient =
          .ok entry := by
  induction recipients generalizing index with
  | nil => exact ⟨[], rfl, rfl, fun i recipient entry hr => by cases hr⟩
  | cons recipient recipients ih =>
    obtain ⟨entries, hentries, hlength, heach⟩ := ih (index + 1)
    obtain ⟨entry, hentry, -⟩ := sealEntry_total laws compression uuid fresh.cek_length
      (fresh.draw index) recipient
    refine ⟨entry :: entries, ?_, by rw [length_cons, hlength, length_cons], ?_⟩
    · simp only [sealEntries, hentry, hentries, bind, Except.bind]
    · intro i recipient' entry' hr he
      cases i with
      | zero =>
        obtain rfl := some.inj hr
        obtain rfl := some.inj he
        exact hentry
      | succ i =>
        have hlater := heach i recipient' entry' hr he
        rwa [Nat.add_right_comm, Nat.add_assoc] at hlater

theorem encryptToAll_eq {compression : Compression} {uuid : String}
    {recipients : List (Recipient c)} (hne : recipients ≠ []) {ciphertext tag : List UInt8}
    (hseal : a256cbcHs512Seal c fresh.cek fresh.iv [] signed = .ok (ciphertext, tag))
    (hentries : sealEntries (sealHeaders compression uuid) fresh 0 recipients = .ok entries) :
    encryptToAll signed uuid recipients compression fresh = .ok (c.toVec (container none
      (unprotectedHeader compression uuid) entries fresh.iv ciphertext tag)) := by
  unfold encryptToAll encryptUnder
  rw [if_neg hne]
  change ((a256cbcHs512Seal c fresh.cek fresh.iv [] signed) >>= _) = _
  rw [hseal]
  change ((sealEntries (sealHeaders compression uuid) fresh 0 recipients) >>= _) = _
  rw [hentries]
  rfl

theorem not_opens_of_passedOver (laws : c.Lawful) {envelope : Envelope}
    (h : PassedOver c key envelope entry) (plaintext : List UInt8) :
    ¬ Opens c key envelope entry plaintext := by
  rintro ⟨alg, enc, bytes, cek, halg, henc, hread, hbytes, hcek, -⟩
  cases h with
  | unread halg' henc' hread' =>
    obtain rfl := Except.ok.inj (halg.symm.trans halg')
    obtain rfl := Except.ok.inj (henc.symm.trans henc')
    rw [hread] at hread'
    cases hread'
  | closed halg' henc' hread' hbytes' hclosed =>
    obtain rfl := Except.ok.inj (halg.symm.trans halg')
    obtain rfl := Except.ok.inj (hbytes.symm.trans hbytes')
    rw [(contentKey_eq_none_iff laws hread' _).mpr hclosed] at hcek
    cases hcek

/-- A container is sealed for every choice of compression, signer and recipients. Other entries are
then added to it. The private key of a recipient decrypts it to the signed form, and verifying that
gives back the container, exactly if no added entry has a `zip` header and every entry that was
added before the recipient's own is passed over. -/
theorem sealed_opens_iff (laws : c.Lawful) {unsigned : List UInt8}
    (hunsigned : (c.fromSlice unsigned).isSome = true) (uuid : String) (signer : Signer c)
    (compression : Compression)
    (hback : ReadsBack signer uuid (payloadOf c unsigned compression))
    {recipients : List (Recipient c)} (hne : recipients ≠ []) (fresh : Fresh EcKey) :
    ∃ signed ciphertext tag entries, signCompressed unsigned uuid signer compression = .ok signed ∧
      a256cbcHs512Seal c fresh.cek fresh.iv [] signed = .ok (ciphertext, tag) ∧
      sealEntries (sealHeaders compression uuid) fresh 0 recipients = .ok entries ∧
      encryptToAll signed uuid recipients compression fresh = .ok (c.toVec (container none
        (unprotectedHeader compression uuid) entries fresh.iv ciphertext tag)) ∧
      ∀ keyPem key, c.decryptionKey keyPem = some key →
        ∀ i recipient entry, recipients[i]? = some recipient → IsFor key recipient →
          entries[i]? = some entry →
          (∀ j < i, ∀ other, recipients[j]? = some other →
            Apart key fresh.cek (fresh.draw j) other) →
          ∀ before after jwe, (entries.take i).Sublist before →
            (entries.drop (i + 1)).Sublist after →
            c.fromSlice jwe = some (container none (unprotectedHeader compression uuid)
              (before ++ entry :: after) fresh.iv ciphertext tag) →
            (∀ e ∈ before, e ∉ entries.take i →
              ¬ Opens c key (sealedEnvelope compression uuid fresh.iv ciphertext tag) e signed) →
            ((decrypt c jwe keyPem = .ok signed ∧
                ∀ cap, unsigned.length ≤ cap → verifyCapped c signed cap = .ok unsigned) ↔
              (∀ e ∈ before ++ after, e ∉ entries → ¬ HasZip e) ∧
                ∀ e ∈ before, e ∉ entries.take i → PassedOver c key
                  (sealedEnvelope compression uuid fresh.iv ciphertext tag) e) := by
  obtain ⟨signature, hsign, hsigned, hverify⟩ := verifyCapped_sign laws hback
  set signed := c.toVec (signedForm signer uuid (payloadOf c unsigned compression) signature)
    with hsignedForm
  obtain ⟨ciphertext, tag, hseal, htag⟩ : ∃ ciphertext tag,
      a256cbcHs512Seal c fresh.cek fresh.iv [] signed = .ok (ciphertext, tag) ∧
        tag.length = 32 := by
    refine ⟨_, _, rfl, ?_⟩
    rw [length_take, laws.length_hmac]
    rfl
  obtain ⟨entries, hentries, hlength, heach⟩ :=
    sealEntries_total laws compression uuid fresh recipients 0
  simp only [Nat.zero_add] at heach
  refine ⟨signed, ciphertext, tag, entries, ?_, hseal, hentries, ?_, ?_⟩
  · rw [signCompressed_eq, hsigned]
  · exact encryptToAll_eq hne hseal hentries
  · intro keyPem key hkey i recipient entry hrecipient hfor hentry hapart before after jwe hbefore
      hafter hjwe hforeign
    have hread : ∀ cap, unsigned.length ≤ cap → verifyCapped c signed cap = .ok unsigned := by
      intro cap hcap
      rw [hverify, read_payloadOf laws hunsigned compression hcap]
    have hown : Opens c key (sealedEnvelope compression uuid fresh.iv ciphertext tag) entry
        signed := opens_own laws fresh.cek_length hfor (heach i recipient entry hrecipient hentry)
        (openWith_sealed laws hseal (checkUuid_signed hback hsign))
    have hothers : ∀ e ∈ entries.take i,
        PassedOver c key (sealedEnvelope compression uuid fresh.iv ciphertext tag) e := by
      intro e he
      obtain ⟨j, hj, rfl⟩ := mem_take_iff_getElem.mp he
      have hjr : j < recipients.length := by omega
      exact passedOver_other laws fresh.cek_length
        (hapart j (by omega) recipients[j] (List.getElem?_eq_getElem hjr))
        (heach j _ _ (List.getElem?_eq_getElem hjr) (List.getElem?_eq_getElem (by omega)))
    have hclosed : ∀ e ∈ before,
        ¬ Opens c key (sealedEnvelope compression uuid fresh.iv ciphertext tag) e signed := by
      intro e he
      by_cases hmem : e ∈ entries.take i
      · exact not_opens_of_passedOver laws (hothers e hmem) signed
      · exact hforeign e he hmem
    have hzipOwn : ∀ e ∈ entries, ¬ HasZip e := by
      intro e he
      obtain ⟨j, hj, rfl⟩ := mem_iff_getElem.mp he
      have hjr : j < recipients.length := by omega
      exact not_hasZip_sealed laws fresh.cek_length
        (heach j _ _ (List.getElem?_eq_getElem hjr) (List.getElem?_eq_getElem hj))
    have hentryMem : entry ∈ entries := mem_of_getElem? hentry
    have hloop := tryRecipients_iff laws after hclosed hown .noRecipients
    rw [decrypt_container hkey fresh.iv_length htag hjwe, and_iff_left hread]
    constructor
    · intro h
      split_ifs at h with hzip
      refine ⟨fun e he _ hhas => hzip ?_, fun e he _ => hloop.mp h e he⟩
      refine List.any_eq_true.mpr ⟨e, ?_, hhas⟩
      rcases mem_append.mp he with he | he
      · exact mem_append_left _ he
      · exact mem_append_right _ (mem_cons_of_mem _ he)
    · rintro ⟨hzip, hpassed⟩
      rw [if_neg]
      · refine hloop.mpr (fun e he => ?_)
        by_cases hmem : e ∈ entries.take i
        · exact hothers e hmem
        · exact hpassed e he hmem
      · intro hany
        obtain ⟨e, he, hhas⟩ := List.any_eq_true.mp hany
        by_cases hmem : e ∈ entries
        · exact hzipOwn e hmem hhas
        · refine hzip e ?_ hmem hhas
          rcases mem_append.mp he with he | he
          · exact mem_append_left _ he
          · rcases mem_cons.mp he with rfl | he
            · exact absurd hentryMem hmem
            · exact mem_append_right _ he

end Sealed

/-! ### A container for an RSA key and an EC key -/

mutual

def Json.text : Json → String
  | .null => "null"
  | .bool value => if value then "true" else "false"
  | .number text => text
  | .string text => "\"" ++ text ++ "\""
  | .array items => "[" ++ textItems items ++ "]"
  | .object members => "\x7b" ++ textMembers members ++ "\x7d"

def textItems : List Json → String
  | [] => ""
  | item :: items => (if items.isEmpty then item.text else item.text ++ ",") ++ textItems items

def textMembers : List (String × Json) → String
  | [] => ""
  | (name, value) :: members =>
    "\"" ++ name ++ "\":" ++ (if members.isEmpty then value.text else value.text ++ ",") ++
      textMembers members

end

/-- Ciphers that only keep keys apart, with JSON that is read for some values. -/
def plainCrates (known : List Json) : Crates UInt8 UInt8 UInt8 where
  toVec value := utf8 value.text
  fromSlice bytes := known.find? (fun value => utf8 value.text = bytes)
  standardEncode := b64u
  standardDecode := b64uDecode
  gzip bytes := gzipMagic ++ bytes
  inflate bytes n := some ((bytes.drop 2).take n)
  sha256 bytes := List.replicate 32 (bytes.foldl (· ^^^ ·) 0)
  hmacSha512 key bytes := List.replicate 64 ((key ++ bytes).foldl (· ^^^ ·) 0)
  aesEncrypt _ s := (s.2, s.1)
  aesDecrypt _ s := (s.2, s.1)
  cbcEncrypt _ _ plaintext := plaintext
  cbcDecrypt _ _ ciphertext := some ciphertext
  rsaPublic key := key
  rsaPkcs1 key := [key]
  oaepEncrypt key _ message := some (key :: message, 20)
  oaepDecrypt key sealed := if sealed.head? = some key then some sealed.tail else none
  ecPoint key := 0x04 :: List.replicate 64 key
  parsesPoint point := point.length = 65 && point.head? = some 0x04
  agreeEphemeral key point := some [key ^^^ point.getLastD 0]
  diffieHellman key point := [key ^^^ point.getLastD 0]
  signRs256 key _ := some [key]
  signEs256 key _ := some [key]
  verifyRs256 pkcs1 _ signature := signature = pkcs1
  verifyEs256 point _ signature := signature.head? = point.getLast?
  decryptionKey pem :=
    if pem = "rsa" then some (.rsa 7) else if pem = "ec" then some (.p256 9) else none

theorem lawful_plainCrates (hbrace : ∀ value ∈ known, (utf8 value.text).head? = some 0x7b) :
    (plainCrates known).Lawful := by
  have hfound : ∀ bytes value, (plainCrates known).fromSlice bytes = some value →
      bytes.head? = some 0x7b := by
    intro bytes value h
    have htext : utf8 value.text = bytes := by simpa using List.find?_some h
    rw [← htext]
    exact hbrace value (mem_of_find?_eq_some h)
  refine ⟨?_, ?_, b64uDecode_b64u, fun bytes => prefix_append _ _, ?_, ?_, ?_, ?_, ?_, ?_, ?_,
    ?_, ?_, ?_, ?_, ?_⟩
  · cases hnil : (plainCrates known).fromSlice [] with
    | none => rfl
    | some value => exact absurd (hfound [] value hnil) (by simp)
  · intro bytes h hmagic
    obtain ⟨value, hvalue⟩ := isSome_iff_exists.mp h
    obtain ⟨rest, rfl⟩ := hmagic
    exact absurd (hfound _ value hvalue) (by simp [gzipMagic])
  · intro bytes n
    rfl
  · intro bytes
    exact length_replicate
  · intro key bytes
    exact length_replicate
  · intro key s
    rfl
  · intro key iv plaintext _ _
    rfl
  · intro key seed message _
    exact ⟨_, _, rfl, by decide⟩
  · intro key seed message sealed drawn h
    obtain ⟨rfl, -⟩ := Prod.mk.inj (some.inj h)
    exact if_pos rfl
  · intro key
    exact ⟨by simp [plainCrates], rfl, by simp [plainCrates]⟩
  · intro ephemeral point _
    rfl
  · intro ephemeral secret
    simp [plainCrates, List.getLastD, getLast_cons, UInt8.xor_comm]
  · intro key input
    exact ⟨_, rfl, by simp [plainCrates]⟩
  · intro key input
    refine ⟨_, rfl, ?_⟩
    simp [plainCrates, List.getLast?_cons]

def plainCertificate : List UInt8 :=
  [0x30, 0x1f, 0x30, 0x1d, 0x05, 0, 0x05, 0, 0x05, 0, 0x05, 0, 0x05, 0, 0x30, 0x11, 0x30, 0x0b] ++
    rsaEncryptionOid ++ [0x03, 0x02, 0, 3]

def plainSigner (known : List Json) : Signer (plainCrates known) where
  key := .rsa 3
  leaf := plainCertificate
  chain := []
  x5u := none
  leaf_matches := rfl

def plainFresh : Fresh UInt8 where
  cek := List.replicate 64 0x11
  iv := List.replicate 16 0x22
  draw _ := ⟨List.replicate 128 0, 0x33⟩
  cek_length := rfl
  iv_length := rfl

def plainRecipients (known : List Json) : List (Recipient (plainCrates known)) :=
  [.rsa 5, .p256 ((plainCrates known).ecPoint 9)
    ⟨by simp [plainCrates], rfl, by simp [plainCrates]⟩]

def plainUnsigned : Json := .object [("parties", .array [])]

def plainUuid : String := "u-1"

def plainSigned : Json :=
  signedForm (plainSigner []) plainUuid (utf8 plainUnsigned.text) [3]

def plainEntries : List Json :=
  (sealEntries (sealHeaders .none plainUuid) plainFresh 0 (plainRecipients [])).toOption.getD []

def plainTag : List UInt8 :=
  ((a256cbcHs512Seal (plainCrates []) plainFresh.cek plainFresh.iv []
    (utf8 plainSigned.text)).toOption.map Prod.snd).getD []

def plainContainer (added : Json) : Json :=
  container none (unprotectedHeader .none plainUuid) (added :: plainEntries) plainFresh.iv
    (utf8 plainSigned.text) plainTag

/-- An entry of an algorithm that is not read, and one whose encrypted key is not base64url. -/
def unreadEntry : Json :=
  .object [("encrypted_key", .string ""), ("header", .object [("alg", .string "dir")])]

def malformedEntry : Json :=
  .object [("encrypted_key", .string "!"), ("header", rsaHeader)]

def plainKnown : List Json :=
  [algHeader (plainSigner []), plainUnsigned, plainSigned, plainContainer unreadEntry,
    plainContainer malformedEntry]

theorem fromSlice_known (hnodup : (known.map (fun value => utf8 value.text)).Nodup) (value : Json)
    (hvalue : value ∈ known) : (plainCrates known).fromSlice (utf8 value.text) = some value := by
  change known.find? (fun v => utf8 v.text = utf8 value.text) = some value
  induction known with
  | nil => cases hvalue
  | cons first known ih =>
    rw [map_cons, nodup_cons] at hnodup
    rcases mem_cons.mp hvalue with rfl | hlater
    · rw [List.find?_cons_of_pos (by simp)]
    · have hne : utf8 first.text ≠ utf8 value.text := by
        intro hsame
        exact hnodup.1 (List.mem_map.mpr ⟨value, hlater, hsame.symm⟩)
      rw [List.find?_cons_of_neg (by simpa using hne)]
      exact ih hnodup.2 hlater

theorem lawful_plainKnown : (plainCrates plainKnown).Lawful :=
  lawful_plainCrates (by decide +kernel)

theorem length_plainKnown : plainKnown.map (fun value => (utf8 value.text).length) =
    [15, 14, 181, 896, 902] := by
  decide +kernel

theorem nodup_plainKnown : (plainKnown.map (fun value => utf8 value.text)).Nodup := by
  apply List.Nodup.of_map List.length
  rw [List.map_map]
  change (plainKnown.map (fun value => (utf8 value.text).length)).Nodup
  rw [length_plainKnown]
  decide

theorem plain_readsBack : ReadsBack (plainSigner plainKnown) plainUuid
    (payloadOf (plainCrates plainKnown) (utf8 plainUnsigned.text) .none) where
  header := fromSlice_known nodup_plainKnown (algHeader (plainSigner [])) (by simp [plainKnown])
  signed signature hsign := by
    obtain rfl : [3] = signature := Except.ok.inj hsign
    exact fromSlice_known nodup_plainKnown plainSigned (by simp [plainKnown])

theorem plain_signCompressed : signCompressed (utf8 plainUnsigned.text) plainUuid
    (plainSigner plainKnown) .none = .ok (utf8 plainSigned.text) := rfl

theorem plain_sealEntries : sealEntries (sealHeaders .none plainUuid) plainFresh 0
    (plainRecipients plainKnown) = .ok plainEntries := rfl

theorem plain_seal : a256cbcHs512Seal (plainCrates plainKnown) plainFresh.cek plainFresh.iv []
    (utf8 plainSigned.text) = .ok (utf8 plainSigned.text, plainTag) := rfl

def plainEnvelope : Envelope :=
  sealedEnvelope .none plainUuid plainFresh.iv (utf8 plainSigned.text) plainTag

theorem passedOver_unreadEntry (key : DecryptionKey UInt8 UInt8) :
    PassedOver (plainCrates plainKnown) key plainEnvelope unreadEntry :=
  .unread (show _ = Except.ok (some "dir") from rfl) (show _ = Except.ok (some jweEnc) from rfl)
    (by decide)

/-- The EC key opens the container behind an entry of an algorithm that is not read. -/
theorem sealed_opens_iff_unread_entry :
    decrypt (plainCrates plainKnown) (utf8 (plainContainer unreadEntry).text) "ec" =
      .ok (utf8 plainSigned.text) ∧
    verifyCapped (plainCrates plainKnown) (utf8 plainSigned.text) 100 =
      .ok (utf8 plainUnsigned.text) := by
  have hunsigned : ((plainCrates plainKnown).fromSlice (utf8 plainUnsigned.text)).isSome =
      true := by
    rw [fromSlice_known nodup_plainKnown plainUnsigned (by simp [plainKnown])]
    rfl
  obtain ⟨signed, ciphertext, tag, entries, hsign, hseal, hentries, -, hopens⟩ :=
    sealed_opens_iff lawful_plainKnown hunsigned plainUuid (plainSigner plainKnown) .none
      plain_readsBack (show plainRecipients plainKnown ≠ [] by simp [plainRecipients]) plainFresh
  obtain rfl := Except.ok.inj (hsign.symm.trans plain_signCompressed)
  obtain ⟨rfl, rfl⟩ := Prod.mk.inj (Except.ok.inj (hseal.symm.trans plain_seal))
  obtain rfl := Except.ok.inj (hentries.symm.trans plain_sealEntries)
  obtain ⟨first, second, hpair⟩ : ∃ first second, plainEntries = [first, second] := ⟨_, _, rfl⟩
  have hadded : ∀ e ∈ [unreadEntry, first], e ∉ plainEntries.take 1 → e = unreadEntry := by
    intro e he hnot
    rw [hpair] at hnot
    rcases mem_cons.mp he with rfl | hfirst
    · rfl
    · exact absurd hfirst hnot
  have hiff := hopens "ec" (.p256 9) rfl 1 _ second rfl rfl (by rw [hpair]; rfl)
    (by
      intro j hj other hother
      obtain rfl : j = 0 := by omega
      obtain rfl : Recipient.rsa 5 = other := some.inj hother
      exact fun own hown => by cases hown)
    [unreadEntry, first] [] (utf8 (plainContainer unreadEntry).text)
    (by rw [hpair]; exact (List.Sublist.refl _).cons _) (by rw [hpair]; exact List.Sublist.refl _)
    (by
      rw [fromSlice_known nodup_plainKnown (plainContainer unreadEntry) (by simp [plainKnown]),
        plainContainer, hpair]
      rfl)
    (by
      intro e he hnot
      obtain rfl := hadded e he hnot
      exact not_opens_of_passedOver lawful_plainKnown (passedOver_unreadEntry _) _)
  have hplain : ∀ e ∈ [unreadEntry, first] ++ [], e ∉ plainEntries → ¬ HasZip e := by
    intro e he hnot
    obtain rfl := hadded e (by simpa using he) (fun hmem => hnot (mem_of_mem_take hmem))
    exact fun hzip => by cases hzip
  obtain ⟨hdecrypt, hverify⟩ := hiff.mpr
    ⟨hplain, fun e he hnot => hadded e he hnot ▸ passedOver_unreadEntry _⟩
  exact ⟨hdecrypt, hverify 100 (by decide)⟩

/-- An entry whose encrypted key is not base64url stands in front, and the key of a recipient behind
it does not open the container. -/
theorem not_opened_malformed_entry :
    signCompressed (utf8 plainUnsigned.text) plainUuid (plainSigner plainKnown) .none =
      .ok (utf8 plainSigned.text) ∧
    encryptToAll (utf8 plainSigned.text) plainUuid (plainRecipients plainKnown) .none plainFresh =
      .ok (utf8 (container none (unprotectedHeader .none plainUuid) plainEntries plainFresh.iv
        (utf8 plainSigned.text) plainTag).text) ∧
    decrypt (plainCrates plainKnown) (utf8 (plainContainer malformedEntry).text) "ec" =
      .error (.notBase64url "encrypted_key") := by
  have hkey : (plainCrates plainKnown).decryptionKey "ec" = some (.p256 9) := rfl
  refine ⟨plain_signCompressed, encryptToAll_eq (by simp [plainRecipients]) plain_seal
    plain_sealEntries, ?_⟩
  rw [decrypt_container hkey (show (List.replicate 16 (0x22 : UInt8)).length = 16 from rfl)
    (show plainTag.length = 32 from rfl)
    (fromSlice_known nodup_plainKnown (plainContainer malformedEntry) (by simp [plainKnown]))]
  rfl

end Sipnab.Vcon
