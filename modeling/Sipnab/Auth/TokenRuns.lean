import Sipnab.Auth.Tokens

/-!
# What a verifier accepts

The verifier takes exactly the tokens that were minted for it, that have not expired and whose id
no line of the denylist holds, as long as every id can stand on a line of its own and the denylist
is a text whose time tells its contents.
-/

namespace Sipnab

open Text List

/-! ## Ids on a line of their own -/

structure Revocable (id : List Char) : Prop where
  ne_nil : id ≠ []
  no_comment : id.head? ≠ some '#'
  trimmed : trim id = id
  one_line : '\n' ∉ id

variable {id : List Char} {cache : RevocationCache} {files : List (Option DenyFile)}

variable {contents : List Char} {file : Option DenyFile}

theorem mem_parseRevocationFile :
    id ∈ parseRevocationFile contents ↔
      (∃ piece ∈ split '\n' contents, trim piece = id) ∧ id ≠ [] ∧ id.head? ≠ some '#' := by
  rw [parseRevocationFile, mem_filter, decide_eq_true_eq]
  constructor
  · rintro ⟨hmem, hne, hcomment⟩
    exact ⟨(mem_trimmed_lines hne).mp hmem, hne, hcomment⟩
  · rintro ⟨hpiece, hne, hcomment⟩
    exact ⟨(mem_trimmed_lines hne).mpr hpiece, hne, hcomment⟩

theorem revocable_of_mem_parse (h : id ∈ parseRevocationFile contents) : Revocable id := by
  obtain ⟨⟨piece, hpiece, rfl⟩, hne, hcomment⟩ := mem_parseRevocationFile.mp h
  refine ⟨hne, hcomment, trim_trim piece, ?_⟩
  intro hmem
  have hsub : trim piece <:+: piece := by
    rw [trim]
    exact (trimEnd_isPrefix _).isInfix.trans (dropWhile_suffix _).isInfix
  exact not_mem_of_mem_split hpiece (hsub.subset hmem)

/-- Listing an id revokes it: a file that has it on a line of its own. -/
def RevokedByListing (id : List Char) : Prop :=
  ∀ before after, id ∈ parseRevocationFile (before ++ '\n' :: (id ++ '\n' :: after))

theorem revokedByListing_iff (id : List Char) : RevokedByListing id ↔ Revocable id := by
  constructor
  · intro h
    exact revocable_of_mem_parse (h [] [])
  · intro h before after
    refine mem_parseRevocationFile.mpr ⟨⟨id, ?_, h.trimmed⟩, h.ne_nil, h.no_comment⟩
    rw [split_eq_splitOn, splitOn_append_cons_self, splitOn_append_cons_self_of_not_mem h.one_line]
    exact mem_append_right _ mem_cons_self

/-- A line of the file holds the id, whatever blanks are around it. -/
def DenyFile.Lists (file : DenyFile) (id : List Char) : Prop :=
  ∃ line ∈ file.bytes.splitOn 10, ∃ text, Utf8.decode line = some text ∧
    (text = id ∨ trim text = id)

def Listed (file : Option DenyFile) (id : List Char) : Prop := ∃ f ∈ file, f.Lists id

theorem lists_iff {f : DenyFile} {text : List Char} (hread : Utf8.decode f.bytes = some text)
    (hid : Revocable id) : f.Lists id ↔ id ∈ parseRevocationFile text := by
  have hlines := Utf8.map_decode_splitOn hread
  have hline : ∀ line, (∃ bytes ∈ f.bytes.splitOn 10, Utf8.decode bytes = some line) ↔
      line ∈ split '\n' text := by
    intro line
    have hmem : (∃ bytes ∈ f.bytes.splitOn 10, Utf8.decode bytes = some line) ↔
        some line ∈ (f.bytes.splitOn 10).map Utf8.decode := by simp [List.mem_map]
    rw [hmem, hlines]
    simp
  rw [mem_parseRevocationFile]
  constructor
  · rintro ⟨bytes, hbytes, line, hdecode, hholds⟩
    refine ⟨⟨line, (hline line).mp ⟨bytes, hbytes, hdecode⟩, ?_⟩, hid.ne_nil, hid.no_comment⟩
    rcases hholds with rfl | htrim
    · exact hid.trimmed
    · exact htrim
  · rintro ⟨⟨line, hmem, htrim⟩, -, -⟩
    obtain ⟨bytes, hbytes, hdecode⟩ := (hline line).mpr hmem
    exact ⟨bytes, hbytes, line, hdecode, .inr htrim⟩

/-! ## The verifier at one call -/

structure VerifyCall where
  file : Option DenyFile
  presented : List Char
  now : ℤ

def IsToken (presented : List Char) : Prop :=
  ∃ payloadB64 sigB64, split '.' presented = [tokenVersion, payloadB64, sigB64]

namespace MintRequest

variable (codec : TokenCodec) (r : MintRequest)

def payload : Payload := mintedPayload r.id r.exp r.surface.audience r.scope.name

def payloadB64 : List Char := Base64.encode (codec.toJson r.payload)

def Accepted : Prop := 0 < r.ttl ∧ misplaced r.surface r.scope = none

instance : Decidable r.Accepted := inferInstanceAs (Decidable (_ ∧ _))

variable {codec r} {token : List Char}

theorem mintToken_eq_ok_iff : r.mintToken codec = .ok token ↔ r.Accepted ∧
    token = signingInput (r.payloadB64 codec) ++ '.' ::
      Base64.encode (codec.hmacSha256 r.signingKey (signingInput (r.payloadB64 codec))) := by
  unfold mintToken Accepted
  by_cases httl : r.ttl ≤ 0
  · simp [httl, Int.not_lt.mpr httl]
  · rw [if_neg httl]
    cases hplace : misplaced r.surface r.scope with
    | some error => simp
    | none =>
      simp only [Except.ok.injEq, Int.not_le.mp httl, true_and]
      exact eq_comm

theorem payload_scope : r.payload.scope.getD scopeFull = r.scope.name := by
  by_cases h : r.scope.name = scopeFull
  · simp [payload, mintedPayload, h]
  · simp [payload, mintedPayload, h]

theorem audience_ne_nil : r.surface.audience ≠ [] := by
  cases r.surface <;> decide

end MintRequest

namespace TokenVerifier

variable {codec : TokenCodec} {v : TokenVerifier}

theorem signatureOk_iff {sig : List UInt8} {input : List Char} :
    v.signatureOk codec sig input = true ↔ ∃ key ∈ v.signingKeys,
      sig = codec.hmacSha256 key input := by
  have hfold : ∀ (keys : List (List UInt8)) (start : Bool),
      keys.foldl (fun ok key => ok || constantTimeEq sig (codec.hmacSha256 key input)) start = true ↔
        start = true ∨ ∃ key ∈ keys, sig = codec.hmacSha256 key input := by
    intro keys
    induction keys with
    | nil => simp
    | cons key keys ih =>
      intro start
      rw [foldl_cons, ih, Bool.or_eq_true, constantTimeEq_iff]
      simp [or_assoc]
  rw [signatureOk, hfold]
  simp

variable {sigB64 : List Char} {file : Option DenyFile} {token : AcceptedToken}

theorem eq_of_split {presented payloadB64 : List Char}
    (h : split '.' presented = [tokenVersion, payloadB64, sigB64]) :
    presented = signingInput payloadB64 ++ '.' :: sigB64 := by
  rw [split_eq_splitOn] at h
  have hjoin : ['.'].intercalate (presented.splitOn '.') = presented := intercalate_splitOn '.'
  rw [h] at hjoin
  rw [← hjoin]
  simp [signingInput, tokenVersion, List.intercalate]

theorem split_token (payload sig : List UInt8) :
    split '.' (signingInput (Base64.encode payload) ++ '.' :: Base64.encode sig) =
      [tokenVersion, Base64.encode payload, Base64.encode sig] := by
  have hversion : '.' ∉ tokenVersion := by decide
  rw [split_eq_splitOn, signingInput, append_assoc, cons_append,
    splitOn_append_cons_self_of_not_mem hversion,
    splitOn_append_cons_self_of_not_mem (Base64.dot_not_mem_encode payload),
    splitOn_eq_singleton (Base64.dot_not_mem_encode sig)]

def Revokes (v : TokenVerifier) (file : Option DenyFile) (id : List Char) : Prop :=
  v.hasRevokedFile = true ∧ id ∈ (v.revocation.refresh file).ids

theorem isRevoked_fst {id : List Char} : (v.isRevoked file id).1 = true ↔ v.Revokes file id := by
  unfold isRevoked Revokes
  split_ifs with hfile
  · simp [hfile]
  · simp [hfile]

theorem checkClaims_accepted_iff {payload : Payload} {now : ℤ} :
    (v.checkClaims file payload now).1 = .accepted token ↔
      payload.aud = some v.audience ∧ v.audience ≠ [] ∧ now < payload.exp ∧
        ¬v.Revokes file payload.id ∧
        token = ⟨payload.scope.getD scopeFull, some payload.id⟩ := by
  unfold checkClaims
  by_cases haud : payload.aud ≠ some v.audience ∨ v.audience = []
  · rw [if_pos haud]
    simp only [false_iff, reduceCtorEq]
    rintro ⟨hsame, hne, -⟩
    exact haud.elim (fun h => h hsame) hne
  rw [if_neg haud]
  obtain ⟨hsame, hne⟩ := not_or.mp haud
  by_cases hexp : payload.exp ≤ now
  · simp [hexp, Int.not_lt.mpr hexp]
  rw [if_neg hexp]
  by_cases hrevoked : v.Revokes file payload.id
  · simp [isRevoked_fst.mpr hrevoked, hrevoked]
  · have hfalse : (v.isRevoked file payload.id).1 = false := by
      rw [← Bool.not_eq_true, isRevoked_fst]
      exact hrevoked
    simp only [hfalse, Bool.false_eq_true, if_false, SignedOutcome.accepted.injEq]
    simp [not_not.mp hsame, hne, Int.not_le.mp hexp, hrevoked, eq_comm]

theorem checkClaims_ne_notAToken (v : TokenVerifier) (file : Option DenyFile) (payload : Payload)
    (now : ℤ) : (v.checkClaims file payload now).1 ≠ .notAToken := by
  simp only [checkClaims]
  split_ifs <;> simp

theorem verifyClaims_token_iff {call : VerifyCall} {payloadB64 : List Char}
    (hparts : split '.' call.presented = [tokenVersion, payloadB64, sigB64]) :
    (v.verifyClaims codec call.file call.presented call.now).1 = some token ↔
      (∃ key ∈ v.signingKeys,
        Base64.decode sigB64 = some (codec.hmacSha256 key (signingInput payloadB64))) ∧
      ∃ payload, (Base64.decode payloadB64).bind codec.fromJson = some payload ∧
        (v.checkClaims call.file payload call.now).1 = .accepted token := by
  have hinput : tokenVersion ++ '.' :: payloadB64 = signingInput payloadB64 := rfl
  unfold verifyClaims verifySigned
  rw [hparts]
  simp only [ne_eq, not_true_eq_false, if_false, hinput]
  cases hsig : Base64.decode sigB64 with
  | none => simp
  | some sig =>
    simp only [Option.some.injEq]
    by_cases hok : v.signatureOk codec sig (signingInput payloadB64) = true
    · rw [if_pos hok]
      rw [signatureOk_iff] at hok
      cases hpayload : (Base64.decode payloadB64).bind codec.fromJson with
      | none => simp
      | some payload =>
        have htoken := v.checkClaims_ne_notAToken call.file payload call.now
        rcases hclaims : v.checkClaims call.file payload call.now with ⟨_ | _ | accepted, v'⟩
        · rw [hclaims] at htoken
          exact absurd rfl htoken
        · simp [hclaims]
        · simp [hclaims, hok]
    · rw [if_neg hok]
      rw [signatureOk_iff] at hok
      simp only [hok, false_and, reduceCtorEq]

theorem verifyClaims_snd (codec : TokenCodec) (v : TokenVerifier) (call : VerifyCall) :
    (v.verifyClaims codec call.file call.presented call.now).2 = v ∨
      (v.verifyClaims codec call.file call.presented call.now).2 =
        { v with revocation := v.revocation.refresh call.file } := by
  have hrevoked : ∀ id, (v.isRevoked call.file id).2 = v ∨
      (v.isRevoked call.file id).2 = { v with revocation := v.revocation.refresh call.file } := by
    intro id
    unfold isRevoked
    split_ifs
    · exact .inr rfl
    · exact .inl rfl
  have hclaims : ∀ payload, (v.checkClaims call.file payload call.now).2 = v ∨
      (v.checkClaims call.file payload call.now).2 =
        { v with revocation := v.revocation.refresh call.file } := by
    intro payload
    simp only [checkClaims]
    split_ifs
    · exact .inl rfl
    · exact .inl rfl
    · exact hrevoked payload.id
    · exact hrevoked payload.id
  have hsigned : (v.verifySigned codec call.file call.presented call.now).2 = v ∨
      (v.verifySigned codec call.file call.presented call.now).2 =
        { v with revocation := v.revocation.refresh call.file } := by
    unfold verifySigned
    split
    · split_ifs
      · exact .inl rfl
      · split
        · exact .inl rfl
        · split_ifs
          · split
            · exact .inl rfl
            · exact hclaims _
          · exact .inl rfl
    · exact .inl rfl
  unfold verifyClaims
  rcases hcase : v.verifySigned codec call.file call.presented call.now with ⟨outcome, v'⟩
  rw [hcase] at hsigned
  cases outcome <;> exact hsigned

variable (codec) in
def after (v : TokenVerifier) (calls : List VerifyCall) : TokenVerifier :=
  calls.foldl (fun v call => (v.verifyClaims codec call.file call.presented call.now).2) v

end TokenVerifier

/-! ## Runs -/

def Loaded (cache : RevocationCache) (files : List (Option DenyFile)) : Prop :=
  cache.loaded = true → ∃ file ∈ files, cache.mtime = file.map DenyFile.mtime ∧
    cache.ids = (readToString file).elim [] parseRevocationFile

theorem Loaded.refresh (h : Loaded cache files) (file : Option DenyFile) :
    Loaded (cache.refresh file) (files ++ [file]) := by
  simp only [RevocationCache.refresh]
  split_ifs with hreload
  · intro _
    exact ⟨file, by simp, rfl, rfl⟩
  · intro hloaded
    obtain ⟨file', hmem, hsame⟩ := h hloaded
    exact ⟨file', mem_append_left _ hmem, hsame⟩

theorem Loaded.mono {files' : List (Option DenyFile)} (h : Loaded cache files) :
    Loaded cache (files ++ files') := by
  intro hloaded
  obtain ⟨file, hmem, hsame⟩ := h hloaded
  exact ⟨file, mem_append_left _ hmem, hsame⟩

/-- The denylist can be read whenever it is there, and its time tells its contents. -/
structure Stamped (files : List (Option DenyFile)) : Prop where
  readable : ∀ file ∈ files, ∀ f ∈ file, f.permitted = true ∧ (Utf8.decode f.bytes).isSome
  same : ∀ file ∈ files, ∀ file' ∈ files, ∀ f ∈ file, ∀ f' ∈ file', f.mtime = f'.mtime →
    f.bytes = f'.bytes

theorem Stamped.readToString_eq (h : Stamped files) {file' : Option DenyFile}
    (hfile : file ∈ files) (hfile' : file' ∈ files)
    (htime : file.map DenyFile.mtime = file'.map DenyFile.mtime) :
    readToString file = readToString file' := by
  cases file with
  | none =>
    cases file' with
    | none => rfl
    | some f' => simp at htime
  | some f =>
    cases file' with
    | none => simp at htime
    | some f' =>
      have hbytes := h.same _ hfile _ hfile' f rfl f' rfl (by simpa using htime)
      have hf := (h.readable _ hfile f rfl).1
      have hf' := (h.readable _ hfile' f' rfl).1
      simp [readToString, hf, hf', hbytes]

theorem Loaded.refresh_ids (h : Loaded cache files) (hstamped : Stamped (files ++ [file])) :
    (cache.refresh file).ids = (readToString file).elim [] parseRevocationFile := by
  simp only [RevocationCache.refresh]
  split_ifs with hreload
  · rfl
  · obtain ⟨hloaded, htime⟩ := not_or.mp hreload
    rw [Bool.not_eq_false] at hloaded
    obtain ⟨file', hmem, hmtime, hids⟩ := h hloaded
    have hsame := hstamped.readToString_eq (mem_append_left _ hmem)
      (mem_append_right _ (mem_singleton_self file)) (hmtime.symm.trans (not_not.mp htime))
    rw [hids, hsame]

namespace TokenVerifier

variable {codec : TokenCodec}

theorem loaded_after (codec : TokenCodec) (v : TokenVerifier) (hfresh : v.revocation = {})
    (calls : List VerifyCall) :
    Loaded (v.after codec calls).revocation (calls.map VerifyCall.file) ∧
      v.after codec calls = { v with revocation := (v.after codec calls).revocation } := by
  induction calls using List.reverseRecOn with
  | nil =>
    refine ⟨?_, rfl⟩
    intro hloaded
    simp [after, hfresh] at hloaded
  | append_singleton calls call ih =>
    obtain ⟨hloaded, hconfig⟩ := ih
    have hstep : v.after codec (calls ++ [call]) =
        ((v.after codec calls).verifyClaims codec call.file call.presented call.now).2 := by
      simp [after, foldl_append]
    rw [map_append, hstep]
    rcases verifyClaims_snd codec (v.after codec calls) call with hsame | hrefreshed
    · rw [hsame]
      exact ⟨hloaded.mono, hconfig⟩
    · rw [hrefreshed]
      refine ⟨hloaded.refresh call.file, ?_⟩
      rw [hconfig]

/-- A token is accepted exactly if it was minted for this verifier, has not expired and is on no
line of the denylist, with the scope and the id that it was minted with. -/
def Exact (codec : TokenCodec) (issued : Set MintRequest) (v : TokenVerifier) (call : VerifyCall) :
    Prop :=
  ∀ token, (v.verifyClaims codec call.file call.presented call.now).1 = some token ↔
    ∃ r ∈ issued, r.mintToken codec = .ok call.presented ∧ r.signingKey ∈ v.signingKeys ∧
      r.surface.audience = v.audience ∧ call.now < r.exp ∧
      ¬(v.hasRevokedFile = true ∧ Listed call.file r.id) ∧ token = ⟨r.scope.name, some r.id⟩

/-- Nobody but the minting command makes a tag under a key of the verifier. -/
def Unforged (codec : TokenCodec) (issued : Set MintRequest) (v : TokenVerifier)
    (presented : List Char) : Prop :=
  ∀ key ∈ v.signingKeys, ∀ payloadB64 sigB64,
    presented = signingInput payloadB64 ++ '.' :: sigB64 →
    Base64.decode sigB64 = some (codec.hmacSha256 key (signingInput payloadB64)) →
    ∃ r ∈ issued, r.Accepted ∧ r.signingKey = key ∧
      signingInput payloadB64 = signingInput (r.payloadB64 codec)

def AllRevocable (issued : Set MintRequest) : Prop := ∀ r ∈ issued, r.Accepted → Revocable r.id

section Calls

variable {issued : Set MintRequest} {v : TokenVerifier} {call : VerifyCall}

section

variable (hids : (v.revocation.refresh call.file).ids = (readToString call.file).elim [] parseRevocationFile)
include hids

theorem revokes_iff (hreadable : ∀ f ∈ call.file, f.permitted = true ∧ (Utf8.decode f.bytes).isSome)
    {id : List Char} (hid : Revocable id) :
    v.Revokes call.file id ↔ v.hasRevokedFile = true ∧ Listed call.file id := by
  unfold Revokes Listed
  rw [hids]
  apply and_congr_right
  intro _
  cases hfile : call.file with
  | none => simp [readToString]
  | some f =>
    obtain ⟨hpermitted, hsome⟩ := hreadable f hfile
    obtain ⟨text, htext⟩ := Option.isSome_iff_exists.mp hsome
    have hread : readToString (some f) = some text := by simp [readToString, hpermitted, htext]
    rw [hread]
    simp [lists_iff htext hid]

theorem exact_of_current
    (hreadable : ∀ f ∈ call.file, f.permitted = true ∧ (Utf8.decode f.bytes).isSome)
    (hjson : ∀ r ∈ issued, codec.fromJson (codec.toJson r.payload) = some r.payload)
    (hrevocable : AllRevocable issued) (hunforged : Unforged codec issued v call.presented)
    (htoken : IsToken call.presented) : Exact codec issued v call := by
  have hread : ∀ r ∈ issued, (Base64.decode (r.payloadB64 codec)).bind codec.fromJson =
      some r.payload := by
    intro r hr
    rw [MintRequest.payloadB64, Base64.decode_encode, Option.bind_some, hjson r hr]
  obtain ⟨payloadB64, sigB64, hparts⟩ := htoken
  intro token
  rw [verifyClaims_token_iff hparts]
  constructor
  · rintro ⟨⟨key, hkey, hsig⟩, payload, hpayload, hclaims⟩
    have hpresented := eq_of_split hparts
    obtain ⟨r, hr, haccepted, rfl, hinput⟩ := hunforged key hkey payloadB64 sigB64 hpresented hsig
    obtain rfl : payloadB64 = r.payloadB64 codec := (List.cons.inj (append_cancel_left hinput)).2
    rw [hread r hr] at hpayload
    obtain rfl := Option.some.inj hpayload
    obtain ⟨haud, -, hexp, hnot, htoken⟩ := checkClaims_accepted_iff.mp hclaims
    refine ⟨r, hr, ?_, hkey, Option.some.inj haud, hexp, ?_, ?_⟩
    · rw [MintRequest.mintToken_eq_ok_iff]
      refine ⟨haccepted, ?_⟩
      rw [hpresented, Base64.encode_of_decode hsig]
    · rwa [← revokes_iff hids hreadable (hrevocable r hr haccepted)]
    · rw [htoken, MintRequest.payload_scope]
      rfl
  · rintro ⟨r, hr, hmint, hkey, haud, hexp, hnot, rfl⟩
    obtain ⟨haccepted, hpresented⟩ := MintRequest.mintToken_eq_ok_iff.mp hmint
    have hsplit : [tokenVersion, payloadB64, sigB64] = [tokenVersion, _, _] :=
      hparts.symm.trans (hpresented ▸ split_token _ _)
    obtain ⟨rfl, rfl⟩ : payloadB64 = r.payloadB64 codec ∧ sigB64 = Base64.encode
        (codec.hmacSha256 r.signingKey (signingInput (r.payloadB64 codec))) := by
      simpa [MintRequest.payloadB64] using hsplit
    refine ⟨⟨r.signingKey, hkey, Base64.decode_encode _⟩, r.payload, hread r hr, ?_⟩
    rw [checkClaims_accepted_iff]
    refine ⟨congrArg some haud, ?_, hexp, ?_, ?_⟩
    · rw [← haud]
      exact MintRequest.audience_ne_nil
    · intro hrevokes
      exact hnot ((revokes_iff hids hreadable (hrevocable r hr haccepted)).mp hrevokes)
    · rw [MintRequest.payload_scope]
      rfl

end

end Calls

/-- In every run of calls on a denylist that reads as text and whose time tells its contents, tokens
are judged exactly and listing an id that was minted revokes it, exactly if every such id can stand
on a line. -/
theorem verifier_exact (codec : TokenCodec) (issued : Set MintRequest) (v : TokenVerifier)
    (hfresh : v.revocation = {}) (calls : List VerifyCall) (call : VerifyCall)
    (hjson : ∀ r ∈ issued, codec.fromJson (codec.toJson r.payload) = some r.payload)
    (hunforged : Unforged codec issued v call.presented) (htoken : IsToken call.presented)
    (hstamped : Stamped ((calls ++ [call]).map VerifyCall.file)) :
    (Exact codec issued (v.after codec calls) call ∧
      ∀ r ∈ issued, r.Accepted → RevokedByListing r.id) ↔ AllRevocable issued := by
  constructor
  · rintro ⟨-, hlisting⟩ r hr haccepted
    exact (revokedByListing_iff r.id).mp (hlisting r hr haccepted)
  · intro hrevocable
    obtain ⟨hloaded, hconfig⟩ := loaded_after codec v hfresh calls
    rw [map_append] at hstamped
    have hunforged' : Unforged codec issued (v.after codec calls) call.presented := by
      rw [hconfig]
      exact hunforged
    have hreadable : ∀ f ∈ call.file, _ := fun f hf => hstamped.readable call.file (by simp) f hf
    constructor
    · exact exact_of_current (hloaded.refresh_ids hstamped) hreadable hjson hrevocable hunforged'
        htoken
    · intro r hr haccepted
      exact (revokedByListing_iff r.id).mpr (hrevocable r hr haccepted)

/-! ## Tokens as they are on the wire -/

def asciiBytes (s : String) : List UInt8 := s.toList.map (fun c => UInt8.ofNat c.toNat)

def recordedCodec (r : MintRequest) (json tag : List UInt8) : TokenCodec where
  hmacSha256 := fun key input =>
    if key = r.signingKey ∧ input = signingInput (Base64.encode json) then tag else []
  toJson := fun payload => if payload = r.payload then json else []
  fromJson := fun bytes => if bytes = json then some r.payload else none

theorem recordedCodec_payloadB64 (r : MintRequest) (json tag : List UInt8) :
    r.payloadB64 (recordedCodec r json tag) = Base64.encode json := by
  simp [MintRequest.payloadB64, recordedCodec]

theorem unforged_recorded {r : MintRequest} {json tag : List UInt8} {v : TokenVerifier}
    {presented : List Char} (haccepted : r.Accepted)
    (hlast : presented.getLast? ≠ some '.') :
    Unforged (recordedCodec r json tag) {r} v presented := by
  intro key _ payloadB64 sigB64 hpresented hsig
  by_cases hrecorded : key = r.signingKey ∧ signingInput payloadB64 =
      signingInput (Base64.encode json)
  · refine ⟨r, rfl, haccepted, hrecorded.1.symm, ?_⟩
    rw [recordedCodec_payloadB64]
    exact hrecorded.2
  · have hempty : (recordedCodec r json tag).hmacSha256 key (signingInput payloadB64) = [] :=
      if_neg hrecorded
    rw [hempty] at hsig
    obtain rfl : [] = sigB64 := Base64.encode_of_decode hsig
    exact absurd (by rw [hpresented, List.getLast?_append_of_ne_nil _ (by simp)]; rfl) hlast

def ciRequest : MintRequest := ⟨asciiBytes "key", 3600, .api, some "ci".toList, .metrics, 0, 0⟩

def ciCodec : TokenCodec :=
  recordedCodec ciRequest
    (asciiBytes "\x7b\"id\":\"ci\",\"exp\":3600,\"aud\":\"api\",\"scope\":\"metrics\"\x7d")
    [55, 19, 33, 207, 39, 201, 179, 19, 5, 88, 71, 74, 84, 211, 233, 153, 87, 33, 86, 170, 13, 182,
      247, 32, 47, 136, 16, 26, 40, 90, 226, 227]

def ciToken : List Char :=
  ("s2.eyJpZCI6ImNpIiwiZXhwIjozNjAwLCJhdWQiOiJhcGkiLCJzY29wZSI6Im1ldHJpY3MifQ." ++
    "NxMhzyfJsxMFWEdKVNPpmVchVqoNtvcgL4gQGiha4uM").toList

def apiVerifier : TokenVerifier where
  signingKeys := [asciiBytes "key"]
  staticKeys := []
  hasRevokedFile := true
  audience := "api".toList

/-- A token used once, then put on the denylist. -/
theorem verifier_exact_listed :
    Exact ciCodec {ciRequest}
        (apiVerifier.after ciCodec [⟨some ⟨1, true, asciiBytes "old\n"⟩, ciToken, 10⟩])
        ⟨some ⟨2, true, asciiBytes "old\nci\n"⟩, ciToken, 20⟩ ∧
      ∀ r ∈ ({ciRequest} : Set MintRequest), r.Accepted → RevokedByListing r.id := by
  have haccepted : ciRequest.Accepted := by decide
  refine (verifier_exact ciCodec {ciRequest} apiVerifier rfl _ _ ?_ ?_ ?_ ?_).mpr ?_
  · rintro r rfl
    decide +kernel
  · exact unforged_recorded haccepted (by decide +kernel)
  · exact ⟨(split '.' ciToken).getD 1 [], (split '.' ciToken).getD 2 [], by decide +kernel⟩
  · constructor
    · simp only [map_append, map_cons, map_nil, mem_append, mem_singleton]
      rintro file (rfl | rfl) f hf
      · obtain rfl := Option.some.inj hf
        decide
      · obtain rfl := Option.some.inj hf
        decide
    · simp only [map_append, map_cons, map_nil, mem_append, mem_singleton]
      rintro file (rfl | rfl) file' (rfl | rfl) f hf f' hf' htime <;>
        obtain rfl := Option.some.inj hf <;> obtain rfl := Option.some.inj hf' <;>
        first | rfl | simp at htime
  · rintro r rfl -
    exact ⟨by decide, by decide, by decide, by decide⟩

def commentRequest : MintRequest := { ciRequest with tokenId := some "#ci".toList }

def commentCodec : TokenCodec :=
  recordedCodec commentRequest
    (asciiBytes "\x7b\"id\":\"#ci\",\"exp\":3600,\"aud\":\"api\",\"scope\":\"metrics\"\x7d")
    [154, 240, 207, 22, 2, 20, 134, 74, 52, 37, 150, 164, 205, 194, 255, 79, 224, 83, 232, 31, 19,
      34, 23, 128, 70, 18, 157, 60, 154, 85, 183, 127]

def commentToken : List Char :=
  ("s2.eyJpZCI6IiNjaSIsImV4cCI6MzYwMCwiYXVkIjoiYXBpIiwic2NvcGUiOiJtZXRyaWNzIn0." ++
    "mvDPFgIUhko0JZakzcL_T-BT6B8TIheARhKdPJpVt38").toList

def commentCall : VerifyCall := ⟨some ⟨1, true, asciiBytes "#ci\n"⟩, commentToken, 10⟩

/-- A token whose id starts like a comment is accepted with its id on the denylist, and no listing
revokes it. -/
theorem not_exact_comment :
    commentRequest.mintToken commentCodec = .ok commentToken ∧
      Unforged commentCodec {commentRequest} apiVerifier commentToken ∧
      ¬Exact commentCodec {commentRequest} apiVerifier commentCall ∧
      ¬RevokedByListing commentRequest.id := by
  have haccepted : commentRequest.Accepted := by decide
  refine ⟨by decide +kernel, unforged_recorded haccepted (by decide +kernel), ?_, ?_⟩
  · intro hexact
    have hgiven : (apiVerifier.verifyClaims commentCodec commentCall.file commentCall.presented
        commentCall.now).1 = some ⟨"metrics".toList, some "#ci".toList⟩ := by decide +kernel
    obtain ⟨r, hr, -, -, -, -, hnot, -⟩ := (hexact ⟨"metrics".toList, some "#ci".toList⟩).mp hgiven
    obtain rfl : r = commentRequest := hr
    exact hnot ⟨rfl, _, rfl, asciiBytes "#ci", by decide, "#ci".toList, by decide, .inl rfl⟩
  · intro hlisting
    exact (revokedByListing_iff _).mp hlisting |>.no_comment rfl

end TokenVerifier

end Sipnab
