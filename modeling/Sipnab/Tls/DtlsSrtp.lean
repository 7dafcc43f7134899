import Sipnab.Rtp.Srtp
import Sipnab.Tls.Decryptor

/-!
# SRTP keys of DTLS handshakes

The extractor watches the hellos of DTLS handshakes and derives the keys of the media from their two
randoms, the profile the server chose and the master secret of the key log. It holds one random of
each side for all handshakes and derives keys once.
-/

namespace Sipnab.Tls

open List

inductive SrtpProfile
  | aes128CmHmacSha1_80
  | aes128CmHmacSha1_32
  deriving DecidableEq

namespace SrtpProfile

def keyLen : ℕ := 16

def saltLen : ℕ := 14

def fromCode (code : ℕ) : Option SrtpProfile :=
  if code = 1 then some aes128CmHmacSha1_80
  else if code = 2 then some aes128CmHmacSha1_32
  else none

def suite : SrtpProfile → SrtpSuite
  | aes128CmHmacSha1_80 => .aesCm128HmacSha1_80
  | aes128CmHmacSha1_32 => .aesCm128HmacSha1_32

end SrtpProfile

/-! ## Records and hellos -/

def dtlsHeaderLen : ℕ := 13

def maxRecordLen : ℕ := 2 ^ 14 + 2048

def recordLen (data : Bytes) : ℕ := ofBeBytes ((data.drop 11).take 2)

def isDtls (payload : Bytes) : Bool :=
  match payload with
  | contentType :: major :: minor :: _ =>
    dtlsHeaderLen ≤ payload.length && 20 ≤ contentType && contentType ≤ 23 && major = 0xFE &&
      (minor = 0xFF || minor = 0xFD) && recordLen payload ≤ maxRecordLen &&
      dtlsHeaderLen + recordLen payload ≤ payload.length
  | _ => false

def handshakeMessage (frag : Bytes) : Option (UInt8 × Bytes) :=
  match frag with
  | msgType :: _ =>
    let length := ofBeBytes ((frag.drop 1).take 3)
    let fragOff := ofBeBytes ((frag.drop 6).take 3)
    let fragLen := ofBeBytes ((frag.drop 9).take 3)
    if 12 ≤ frag.length ∧ fragOff = 0 ∧ fragLen = length ∧ 12 + length ≤ frag.length then
      some (msgType, (frag.drop 12).take length)
    else none
  | [] => none

/-- The messages of the records of a datagram, with a bound on their number. -/
def handshakeMessagesIn : ℕ → Bytes → List (UInt8 × Bytes)
  | 0, _ => []
  | n + 1, data =>
    let recordEnd := dtlsHeaderLen + recordLen data
    if data.length < dtlsHeaderLen ∨ data.length < recordEnd then []
    else
      let messages :=
        if data.head? = some 22 then
          (handshakeMessage ((data.drop dtlsHeaderLen).take (recordLen data))).toList
        else []
      messages ++ handshakeMessagesIn n (data.drop recordEnd)

def dtlsHandshakeMessages (payload : Bytes) : List (UInt8 × Bytes) :=
  handshakeMessagesIn payload.length payload

def helloRandom (body : Bytes) : Option Bytes :=
  if body.length < 34 then none else some ((body.drop 2).take 32)

/-- The profile in the extensions of a ServerHello, with a bound on their number. -/
def srtpProfileIn : ℕ → Bytes → Option SrtpProfile
  | 0, _ => none
  | n + 1, extensions =>
    let extLen := ofBeBytes ((extensions.drop 2).take 2)
    let data := (extensions.drop 4).take extLen
    if extensions.length < 4 ∨ extensions.length < 4 + extLen then none
    else if ofBeBytes (extensions.take 2) = 14 ∧ 4 ≤ data.length then
      SrtpProfile.fromCode (ofBeBytes ((data.drop 2).take 2))
    else srtpProfileIn n (extensions.drop (4 + extLen))

def serverHelloSrtpProfile (body : Bytes) : Option SrtpProfile := do
  let sidLen ← body[34]?
  -- The cipher suite and the compression method stand behind the session id.
  let extensions := body.drop (35 + sidLen.toNat + 3)
  if extensions.length < 2 then none
  else
    let extTotal := ofBeBytes (extensions.take 2)
    srtpProfileIn body.length ((extensions.drop 2).take extTotal)

/-! ## The extractor -/

structure DtlsSrtpExtractor where
  keylog : List KeyLogEntry
  clientRandom : Option Bytes
  serverRandom : Option Bytes
  profile : Option SrtpProfile
  produced : Bool

variable (crypto : CryptoBackend)

def deriveSrtpKeys (masterSecret clientRandom serverRandom : Bytes) (profile : SrtpProfile) :
    SrtpKeyMaterial × SrtpKeyMaterial :=
  let keyLen := SrtpProfile.keyLen
  let saltLen := SrtpProfile.saltLen
  let block := tls12Prf crypto masterSecret (ascii "EXTRACTOR-dtls_srtp")
    (clientRandom ++ serverRandom) (2 * keyLen + 2 * saltLen) .sha256
  let salts := block.drop (2 * keyLen)
  ({ suite := profile.suite, masterKey := block.take keyLen, masterSalt := salts.take saltLen },
    { suite := profile.suite
      masterKey := (block.drop keyLen).take keyLen
      masterSalt := (salts.drop saltLen).take saltLen })

def masterSecretOf (keylog : List KeyLogEntry) (clientRandom : Bytes) : Option Bytes :=
  keylog.findSome? (fun e =>
    if e.label = "CLIENT_RANDOM" ∧ e.clientRandom = clientRandom then some e.secret else none)

namespace DtlsSrtpExtractor

def new (keylog : List KeyLogEntry) : DtlsSrtpExtractor := ⟨keylog, none, none, none, false⟩

variable (x : DtlsSrtpExtractor)

def tryExtract : DtlsSrtpExtractor × List SrtpKeyMaterial :=
  if x.produced then (x, [])
  else
    match x.clientRandom, x.serverRandom with
    | some clientRandom, some serverRandom =>
      match masterSecretOf x.keylog clientRandom with
      | none => (x, [])
      | some master =>
        let keys := deriveSrtpKeys crypto master clientRandom serverRandom
          (x.profile.getD .aes128CmHmacSha1_80)
        ({ x with produced := true }, [keys.1, keys.2])
    | _, _ => (x, [])

def takeMessage (message : UInt8 × Bytes) : DtlsSrtpExtractor :=
  if message.1 = 1 then
    { x with clientRandom := (helloRandom message.2).orElse (fun _ => x.clientRandom) }
  else if message.1 = 2 then
    { x with
      serverRandom := (helloRandom message.2).orElse (fun _ => x.serverRandom)
      profile := (serverHelloSrtpProfile message.2).orElse (fun _ => x.profile) }
  else x

def processDtls (payload : Bytes) : DtlsSrtpExtractor × List SrtpKeyMaterial :=
  if !isDtls payload then (x, [])
  else ((dtlsHandshakeMessages payload).foldl takeMessage x).tryExtract crypto

def processAll : DtlsSrtpExtractor → List Bytes → List SrtpKeyMaterial
  | _, [] => []
  | x, payload :: payloads =>
    (x.processDtls crypto payload).2 ++ processAll (x.processDtls crypto payload).1 payloads

end DtlsSrtpExtractor

/-! ## Handshakes -/

structure Handshake where
  clientRandom : Bytes
  serverRandom : Bytes
  profile : SrtpProfile
  masterSecret : Bytes
  deriving DecidableEq

def Handshake.keys (h : Handshake) : List SrtpKeyMaterial :=
  let keys := deriveSrtpKeys crypto h.masterSecret h.clientRandom h.serverRandom h.profile
  [keys.1, keys.2]

inductive Hello
  | client (h : Handshake)
  | server (h : Handshake)
  deriving DecidableEq

def hellos (payload : Bytes) : List (UInt8 × Bytes) :=
  (dtlsHandshakeMessages payload).filter (fun m => m.1 = 1 || m.1 = 2)

/-- A datagram with a hello of a handshake, and with no other. -/
def Carries (payload : Bytes) : Hello → Prop
  | .client h => isDtls payload ∧ ∃ body, hellos payload = [(1, body)] ∧
      helloRandom body = some h.clientRandom
  | .server h => isDtls payload ∧ ∃ body, hellos payload = [(2, body)] ∧
      helloRandom body = some h.serverRandom ∧ serverHelloSrtpProfile body = some h.profile

/-- The hellos of the handshakes in some order, each client's before its server's. -/
structure Interleaved (handshakes : List Handshake) (order : List Hello) : Prop where
  perm : order.Perm (handshakes.map .client ++ handshakes.map .server)
  clientFirst : ∀ h, ∀ start, start <+: order → start.count (.server h) ≤ start.count (.client h)

/-! ## Keys that come out -/

namespace DtlsSrtpExtractor

variable {crypto}

variable {x : DtlsSrtpExtractor} {keylog : List KeyLogEntry}

theorem processAll_of_produced (h : x.produced = true) (payloads : List Bytes) :
    x.processAll crypto payloads = [] := by
  have hmessages : ∀ (messages : List (UInt8 × Bytes)) (x : DtlsSrtpExtractor),
      (messages.foldl takeMessage x).produced = x.produced := by
    intro messages
    induction messages with
    | nil => exact fun _ => rfl
    | cons m messages ih =>
      intro x
      rw [foldl_cons, ih, takeMessage]
      split_ifs <;> rfl
  have hprocess : ∀ (x : DtlsSrtpExtractor) (payload : Bytes), x.produced = true →
      (x.processDtls crypto payload).2 = [] ∧ (x.processDtls crypto payload).1.produced = true := by
    intro x payload hx
    have hmore := (hmessages (dtlsHandshakeMessages payload) x).trans hx
    unfold processDtls
    split_ifs
    · exact ⟨rfl, hx⟩
    · rw [tryExtract, if_pos hmore]
      exact ⟨rfl, hmore⟩
  induction payloads generalizing x with
  | nil => rfl
  | cons payload payloads ih =>
    obtain ⟨hnone, hstill⟩ := hprocess x payload h
    rw [processAll, hnone, ih hstill, nil_append]

theorem length_processAll_le (x : DtlsSrtpExtractor) (payloads : List Bytes) :
    (x.processAll crypto payloads).length ≤ 2 := by
  have hextract : ∀ x : DtlsSrtpExtractor, (x.tryExtract crypto).2 = [] ∨
      (x.tryExtract crypto).2.length = 2 ∧ (x.tryExtract crypto).1.produced = true := by
    intro x
    unfold tryExtract
    split_ifs
    · exact .inl rfl
    · split
      · split
        · exact .inl rfl
        · exact .inr ⟨rfl, rfl⟩
      · exact .inl rfl
  have hprocess : ∀ (x : DtlsSrtpExtractor) (payload : Bytes),
      (x.processDtls crypto payload).2 = [] ∨ (x.processDtls crypto payload).2.length = 2 ∧
        (x.processDtls crypto payload).1.produced = true := by
    intro x payload
    unfold processDtls
    split_ifs
    · exact .inl rfl
    · exact hextract _
  induction payloads generalizing x with
  | nil => exact Nat.zero_le _
  | cons payload payloads ih =>
    rw [processAll, length_append]
    obtain hnone | ⟨htwo, hproduced⟩ := hprocess x payload
    · rw [hnone, length_nil, Nat.zero_add]
      exact ih _
    · rw [htwo, processAll_of_produced hproduced, length_nil]

theorem foldl_takeMessage (x : DtlsSrtpExtractor) (payload : Bytes) :
    (dtlsHandshakeMessages payload).foldl takeMessage x = (hellos payload).foldl takeMessage x := by
  rw [hellos]
  induction dtlsHandshakeMessages payload generalizing x with
  | nil => rfl
  | cons m messages ih =>
    rw [foldl_cons, filter_cons, ih]
    split_ifs with hhello
    · rfl
    · rw [Bool.or_eq_true, decide_eq_true_eq, decide_eq_true_eq, not_or] at hhello
      rw [takeMessage, if_neg hhello.1, if_neg hhello.2]

variable {payload : Bytes} {h : Handshake}

theorem processDtls_client (hclient : Carries payload (.client h)) :
    x.processDtls crypto payload =
      tryExtract crypto { x with clientRandom := some h.clientRandom } := by
  obtain ⟨hdtls, body, hhellos, hrandom⟩ := hclient
  rw [processDtls, hdtls, foldl_takeMessage, hhellos, foldl_cons, takeMessage, if_pos rfl, hrandom]
  rfl

theorem processDtls_server (hserver : Carries payload (.server h)) :
    x.processDtls crypto payload = tryExtract crypto
      { x with serverRandom := some h.serverRandom, profile := some h.profile } := by
  obtain ⟨hdtls, body, hhellos, hrandom, hprofile⟩ := hserver
  rw [processDtls, hdtls, foldl_takeMessage, hhellos, foldl_cons, takeMessage,
    if_neg (by decide), if_pos rfl, hrandom, hprofile]
  rfl

theorem tryExtract_eq (hmaster : masterSecretOf keylog h.clientRandom = some h.masterSecret) :
    tryExtract crypto ⟨keylog, some h.clientRandom, some h.serverRandom, some h.profile, false⟩ =
      (⟨keylog, some h.clientRandom, some h.serverRandom, some h.profile, true⟩, h.keys crypto) := by
  rw [tryExtract, if_neg Bool.false_ne_true]
  dsimp only
  rw [hmaster]
  rfl

theorem processAll_one (hmaster : masterSecretOf keylog h.clientRandom = some h.masterSecret)
    {payload' : Bytes} (hclient : Carries payload (.client h))
    (hserver : Carries payload' (.server h)) :
    (new keylog).processAll crypto [payload, payload'] = h.keys crypto := by
  have hfirst : (new keylog).processDtls crypto payload =
      (⟨keylog, some h.clientRandom, none, none, false⟩, []) := processDtls_client hclient
  rw [processAll, hfirst, processAll, processDtls_server hserver, tryExtract_eq hmaster, processAll,
    nil_append, append_nil]

end DtlsSrtpExtractor

theorem order_of_one {h : Handshake} {order : List Hello} (horder : Interleaved [h] order) :
    order = [.client h, .server h] := by
  have hperm : order.Perm [.client h, .server h] := horder.perm
  have hlength : order.length = 2 := hperm.length_eq
  match order, hlength with
  | [a, b], _ =>
    have hfirst := horder.clientFirst h [a] ⟨[b], rfl⟩
    have ha : a ∈ [Hello.client h, .server h] := hperm.subset mem_cons_self
    rw [mem_pair] at ha
    obtain rfl | rfl := ha
    · rw [perm_cons, perm_singleton] at hperm
      rw [hperm]
    · simp at hfirst

/-- The keys of every handshake come out once, and no others, exactly when there is at most one. -/
theorem processAll_perm_iff (crypto : CryptoBackend) {keylog : List KeyLogEntry}
    {handshakes : List Handshake}
    (hmaster : ∀ h ∈ handshakes, masterSecretOf keylog h.clientRandom = some h.masterSecret)
    {order : List Hello} (horder : Interleaved handshakes order) {payloads : List Bytes}
    (hcarries : List.Forall₂ Carries payloads order) :
    ((DtlsSrtpExtractor.new keylog).processAll crypto payloads).Perm
        (handshakes.flatMap (Handshake.keys crypto)) ↔ handshakes.length ≤ 1 := by
  constructor
  · intro hperm
    have hlength : (handshakes.flatMap (Handshake.keys crypto)).length = 2 * handshakes.length := by
      simp [Handshake.keys, Nat.mul_comm]
    have hle := @DtlsSrtpExtractor.length_processAll_le crypto (.new keylog) payloads
    rw [hperm.length_eq, hlength] at hle
    omega
  · intro hone
    match handshakes, hone with
    | [], _ =>
      have hnil : order = [] := horder.perm.eq_nil
      rw [hnil, forall₂_nil_right_iff] at hcarries
      rw [hcarries]
      exact List.Perm.refl _
    | [h], _ =>
      rw [order_of_one horder] at hcarries
      obtain ⟨payload, rest, hclient, hrest, rfl⟩ := forall₂_cons_right_iff.mp hcarries
      obtain ⟨payload', none, hserver, hnone, rfl⟩ := forall₂_cons_right_iff.mp hrest
      rw [forall₂_nil_right_iff] at hnone
      rw [hnone, DtlsSrtpExtractor.processAll_one (hmaster h mem_cons_self) hclient hserver,
        flatMap_singleton]

/-! ## Two handshakes -/

def handshakeRecord (msgType : UInt8) (body : Bytes) : Bytes :=
  let message := msgType :: (toBeBytes 3 body.length ++ [0, 0, 0, 0, 0] ++
    toBeBytes 3 body.length ++ body)
  [22, 0xFE, 0xFD, 0, 0, 0, 0, 0, 0, 0, 0] ++ toBeBytes 2 message.length ++ message

def clientHelloRecord (random : Bytes) : Bytes :=
  handshakeRecord 1 ([0xFE, 0xFD] ++ random ++ [0, 0, 0, 2, 0, 0x2F, 1, 0])

def serverHelloRecord (random : Bytes) (code : UInt8) : Bytes :=
  handshakeRecord 2 ([0xFE, 0xFD] ++ random ++ [0, 0, 0x2F, 0, 0, 9, 0, 14, 0, 5, 0, 2, 0, code, 0])

def firstHandshake : Handshake :=
  ⟨List.replicate 32 1, List.replicate 32 2, .aes128CmHmacSha1_80, List.replicate 48 3⟩

def secondHandshake : Handshake :=
  ⟨List.replicate 32 4, List.replicate 32 5, .aes128CmHmacSha1_32, List.replicate 48 6⟩

/-- The client of the second with the server of the first. -/
def crossedHandshake : Handshake :=
  ⟨secondHandshake.clientRandom, firstHandshake.serverRandom, firstHandshake.profile,
    secondHandshake.masterSecret⟩

def bothSecrets : List KeyLogEntry :=
  [⟨"CLIENT_RANDOM", firstHandshake.clientRandom, firstHandshake.masterSecret⟩,
    ⟨"CLIENT_RANDOM", secondHandshake.clientRandom, secondHandshake.masterSecret⟩]

theorem carries_firstHandshake :
    Carries (clientHelloRecord firstHandshake.clientRandom) (.client firstHandshake) ∧
      Carries (serverHelloRecord firstHandshake.serverRandom 1) (.server firstHandshake) :=
  ⟨⟨by decide +kernel, _, rfl, by decide +kernel⟩,
    ⟨by decide +kernel, _, rfl, by decide +kernel, by decide +kernel⟩⟩

theorem carries_secondHandshake :
    Carries (clientHelloRecord secondHandshake.clientRandom) (.client secondHandshake) ∧
      Carries (serverHelloRecord secondHandshake.serverRandom 2) (.server secondHandshake) :=
  ⟨⟨by decide +kernel, _, rfl, by decide +kernel⟩,
    ⟨by decide +kernel, _, rfl, by decide +kernel, by decide +kernel⟩⟩

def plainCrypto : CryptoBackend :=
  ⟨fun _ _ _ _ => none, fun _ _ _ _ => none, fun _ _ _ => List.replicate 32 0⟩

theorem processAll_perm_iff_first :
    ((DtlsSrtpExtractor.new bothSecrets).processAll plainCrypto
        [clientHelloRecord firstHandshake.clientRandom,
          serverHelloRecord firstHandshake.serverRandom 1]).Perm
        ([firstHandshake].flatMap (Handshake.keys plainCrypto)) ↔ [firstHandshake].length ≤ 1 := by
  have horder : Interleaved [firstHandshake] [.client firstHandshake, .server firstHandshake] := by
    refine ⟨List.Perm.refl _, ?_⟩
    intro h start hstart
    rw [← mem_inits] at hstart
    simp only [List.inits, map_cons, map_nil, mem_cons, not_mem_nil, or_false] at hstart
    obtain rfl | rfl | rfl := hstart <;> simp [count_cons]
  exact processAll_perm_iff plainCrypto (by decide +kernel) horder
    (.cons carries_firstHandshake.1 (.cons carries_firstHandshake.2 .nil))

/-- When the hellos of two handshakes alternate, what comes out is of neither, and nothing more. -/
theorem two_handshakes_one_pair :
    (DtlsSrtpExtractor.new bothSecrets).processAll plainCrypto
        [clientHelloRecord firstHandshake.clientRandom,
          clientHelloRecord secondHandshake.clientRandom,
          serverHelloRecord firstHandshake.serverRandom 1,
          serverHelloRecord secondHandshake.serverRandom 2] =
      crossedHandshake.keys plainCrypto ∧
    ¬ ∀ (crypto : CryptoBackend) (keylog : List KeyLogEntry) (handshakes : List Handshake)
      (order : List Hello) (payloads : List Bytes),
      (∀ h ∈ handshakes, masterSecretOf keylog h.clientRandom = some h.masterSecret) →
      Interleaved handshakes order → List.Forall₂ Carries payloads order →
        ((DtlsSrtpExtractor.new keylog).processAll crypto payloads).Perm
          (handshakes.flatMap (Handshake.keys crypto)) := by
  constructor
  · have hmaster : masterSecretOf bothSecrets crossedHandshake.clientRandom =
        some crossedHandshake.masterSecret := by decide +kernel
    have hclient : (DtlsSrtpExtractor.new bothSecrets).processDtls plainCrypto
        (clientHelloRecord firstHandshake.clientRandom) =
          (⟨bothSecrets, some firstHandshake.clientRandom, none, none, false⟩, []) :=
      DtlsSrtpExtractor.processDtls_client carries_firstHandshake.1
    have hclient' : DtlsSrtpExtractor.processDtls plainCrypto
        ⟨bothSecrets, some firstHandshake.clientRandom, none, none, false⟩
        (clientHelloRecord secondHandshake.clientRandom) =
          (⟨bothSecrets, some secondHandshake.clientRandom, none, none, false⟩, []) :=
      DtlsSrtpExtractor.processDtls_client carries_secondHandshake.1
    have hserver : DtlsSrtpExtractor.processDtls plainCrypto
        ⟨bothSecrets, some secondHandshake.clientRandom, none, none, false⟩
        (serverHelloRecord firstHandshake.serverRandom 1) =
          (⟨bothSecrets, some secondHandshake.clientRandom, some firstHandshake.serverRandom,
              some firstHandshake.profile, true⟩,
            crossedHandshake.keys plainCrypto) := by
      rw [DtlsSrtpExtractor.processDtls_server carries_firstHandshake.2]
      exact DtlsSrtpExtractor.tryExtract_eq hmaster
    rw [DtlsSrtpExtractor.processAll, hclient, DtlsSrtpExtractor.processAll, hclient',
      DtlsSrtpExtractor.processAll, hserver, DtlsSrtpExtractor.processAll_of_produced rfl,
      nil_append, nil_append, append_nil]
  · intro hall
    have horder : Interleaved [firstHandshake, secondHandshake]
        [.client firstHandshake, .client secondHandshake, .server firstHandshake,
          .server secondHandshake] := by
      refine ⟨List.Perm.refl _, ?_⟩
      intro h start hstart
      rw [← mem_inits] at hstart
      simp only [List.inits, map_cons, map_nil, mem_cons, not_mem_nil, or_false] at hstart
      obtain rfl | rfl | rfl | rfl | rfl := hstart <;> simp [count_cons]
    have hperm := hall plainCrypto bothSecrets _ _ _ (by decide +kernel) horder
      (.cons carries_firstHandshake.1 (.cons carries_secondHandshake.1
        (.cons carries_firstHandshake.2 (.cons carries_secondHandshake.2 .nil))))
    have hle := @DtlsSrtpExtractor.length_processAll_le plainCrypto (.new bothSecrets)
      [clientHelloRecord firstHandshake.clientRandom, clientHelloRecord secondHandshake.clientRandom,
        serverHelloRecord firstHandshake.serverRandom 1,
        serverHelloRecord secondHandshake.serverRandom 2]
    rw [hperm.length_eq] at hle
    exact absurd hle (by decide)

end Sipnab.Tls
