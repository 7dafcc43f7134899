import Sipnab.Hep.Packet

/-!
# What is built is read back

The bytes of a packet are a header and the chunks one behind the other. The walk reads one chunk
after the other, so a packet that is built is read chunk by chunk.
-/

namespace Sipnab

open List

/-! ## The walk over chunks -/

def encodeChunk (chunk : HepChunk × List UInt8) : List UInt8 := appendChunk [] 0 chunk.1 chunk.2

theorem appendChunk_eq (buf : List UInt8) (chunk : HepChunk) (data : List UInt8) :
    appendChunk buf 0 chunk data = buf ++ encodeChunk (chunk, data) := by
  simp [encodeChunk, appendChunk]

theorem length_encodeChunk (chunk : HepChunk × List UInt8) :
    (encodeChunk chunk).length = chunkHeaderLen + chunk.2.length := by
  simp only [encodeChunk, appendChunk, chunkHeaderLen, length_append, length_toBeBytes, length_nil]

namespace HepWalk

def readChunks : ℕ → List (HepChunk × List UInt8) → HepWalk → Except HepError HepWalk
  | _, [], w => .ok w
  | offset, chunk :: chunks, w =>
    match w.readChunk offset chunk.1.code chunk.2 with
    | .error e => .error e
    | .ok w => readChunks (offset + chunkHeaderLen + chunk.2.length) chunks w

section Walk

variable {fuel offset : ℕ} {rest : List UInt8} {w : HepWalk}

theorem walkChunks_of_le (h : rest.length ≤ fuel) :
    walkChunks fuel offset rest w = walkChunks rest.length offset rest w := by
  induction fuel using Nat.strong_induction_on generalizing offset rest w with
  | _ fuel ih =>
    cases fuel with
    | zero => rw [Nat.le_zero.mp h]
    | succ fuel =>
      cases hlength : rest.length with
      | zero =>
        rw [walkChunks, walkChunks, if_pos (by rw [hlength]; decide)]
      | succ length =>
        rw [walkChunks, walkChunks]
        dsimp only
        split_ifs with hshort hbelow hover
        · rfl
        · rfl
        · rfl
        · cases w.readChunk offset (ofBeBytes ((rest.drop 2).take 2))
            ((rest.take (ofBeBytes ((rest.drop 4).take 2))).drop chunkHeaderLen) with
          | error e => rfl
          | ok w =>
            have hdrop := length_drop (i := ofBeBytes ((rest.drop 4).take 2)) (l := rest)
            have hheader : chunkHeaderLen = 6 := rfl
            dsimp only
            rw [ih fuel (Nat.lt_succ_self _) (by omega)]
            by_cases hfuel : length = fuel
            · rw [hfuel, ih fuel (Nat.lt_succ_self _) (by omega)]
            · rw [ih length (by omega) (by omega)]

theorem walkChunks_append {head tail : List UInt8} (hheader : chunkHeaderLen ≤ head.length)
    (hlength : ofBeBytes ((head.drop 4).take 2) = head.length) :
    walkChunks (fuel + 1) offset (head ++ tail) w =
      match w.readChunk offset (ofBeBytes ((head.drop 2).take 2)) (head.drop chunkHeaderLen) with
      | .error e => .error e
      | .ok w => walkChunks fuel (offset + head.length) tail w := by
  have hsix : 6 ≤ head.length := hheader
  have htwo : ((head ++ tail).drop 2).take 2 = (head.drop 2).take 2 := by
    rw [drop_append_of_le_length (by omega), take_append_of_le_length (by rw [length_drop]; omega)]
  have hfour : ((head ++ tail).drop 4).take 2 = (head.drop 4).take 2 := by
    rw [drop_append_of_le_length (by omega), take_append_of_le_length (by rw [length_drop]; omega)]
  have hall : (head ++ tail).length = head.length + tail.length := length_append
  rw [walkChunks]
  dsimp only
  rewrite [htwo, hfour, hlength, take_left, drop_left, if_neg (by omega), if_neg (by omega),
    if_neg (by omega)]
  rfl

theorem walkChunks_encodeChunk {chunk : HepChunk} {data : List UInt8}
    (hlength : chunkHeaderLen + data.length < 65536) :
    walkChunks (fuel + 1) offset (encodeChunk (chunk, data) ++ rest) w =
      match w.readChunk offset chunk.code data with
      | .error e => .error e
      | .ok w => walkChunks fuel (offset + chunkHeaderLen + data.length) rest w := by
  have hbytes : encodeChunk (chunk, data) = toBeBytes 2 0 ++ (toBeBytes 2 chunk.code ++
      (toBeBytes 2 (chunkHeaderLen + data.length) ++ data)) := by
    simp [encodeChunk, appendChunk]
  have htwo : ofBeBytes (((encodeChunk (chunk, data)).drop 2).take 2) = chunk.code := by
    rw [hbytes, drop_left' (length_toBeBytes 2 0), take_left' (length_toBeBytes 2 _),
      ofBeBytes_toBeBytes (by simpa using chunk.code_lt)]
  have hfour : ofBeBytes (((encodeChunk (chunk, data)).drop 4).take 2) =
      (encodeChunk (chunk, data)).length := by
    rw [length_encodeChunk, hbytes, ← append_assoc, drop_left' (by simp),
      take_left' (length_toBeBytes 2 _), ofBeBytes_toBeBytes (by simpa using hlength)]
  have hdata : (encodeChunk (chunk, data)).drop chunkHeaderLen = data := by
    rw [hbytes, ← append_assoc, ← append_assoc]
    exact drop_left' (by simp [chunkHeaderLen])
  rw [walkChunks_append (by rw [length_encodeChunk]; omega) hfour, htwo, hdata, length_encodeChunk,
    ← Nat.add_assoc]

theorem walkChunks_flatMap (chunks : List (HepChunk × List UInt8))
    (hchunks : ∀ chunk ∈ chunks, chunkHeaderLen + chunk.2.length < 65536) :
    walkChunks (chunks.flatMap encodeChunk).length offset (chunks.flatMap encodeChunk) w =
      readChunks offset chunks w := by
  induction chunks generalizing offset w with
  | nil => rfl
  | cons chunk chunks ih =>
    have hpos : (encodeChunk chunk ++ chunks.flatMap encodeChunk).length ≤
        (encodeChunk chunk ++ chunks.flatMap encodeChunk).length + 1 := Nat.le_succ _
    rw [flatMap_cons, ← walkChunks_of_le hpos,
      walkChunks_encodeChunk (hchunks chunk mem_cons_self), readChunks]
    cases w.readChunk offset chunk.1.code chunk.2 with
    | error e => rfl
    | ok w =>
      dsimp only
      rw [walkChunks_of_le (by simp), ih (fun c hc => hchunks c (mem_cons_of_mem _ hc))]

end Walk

/-! ### Chunks of different types -/

def readValues : ℕ → List (HepChunk × List UInt8) → HepWalk → Except HepError HepWalk
  | _, [], w => .ok w
  | offset, chunk :: chunks, w =>
    match w.readValue offset chunk.1 chunk.2 with
    | .error e => .error e
    | .ok w => readValues (offset + chunkHeaderLen + chunk.2.length) chunks w

section Types

variable {w : HepWalk} {offset : ℕ} {chunk other : HepChunk} {data : List UInt8}

theorem index_lt (chunk : HepChunk) : chunk.index < 15 := by
  cases chunk <;> decide

theorem index_injective : Function.Injective HepChunk.index := by
  intro chunk other h
  cases chunk <;> cases other <;> first | rfl | exact absurd h (by decide)

theorem shiftLeft_and_shiftLeft :
    ∀ i < 15, ∀ j < 15, i ≠ j → (1#32 <<< i) &&& (1#32 <<< j) = 0 := by
  decide

theorem knownBit_and (hne : chunk ≠ other) : chunk.knownBit &&& other.knownBit = 0 :=
  shiftLeft_and_shiftLeft _ (index_lt chunk) _ (index_lt other) (fun h => hne (index_injective h))

theorem mark_and (hne : chunk ≠ other) (seen : BitVec 32) :
    (seen ||| chunk.knownBit) &&& other.knownBit = seen &&& other.knownBit := by
  have hand : other.knownBit &&& chunk.knownBit = 0#32 := knownBit_and hne.symm
  rw [BitVec.and_comm, BitVec.and_or_distrib_left, hand, BitVec.or_zero, BitVec.and_comm]

theorem readValue_seenTypes (seen : BitVec 32) :
    HepWalk.readValue { w with seenTypes := seen } offset chunk data =
      (w.readValue offset chunk data).map (fun w => { w with seenTypes := seen }) := by
  cases chunk <;> simp only [readValue, readSrcAddr, readDstAddr] <;> first
    | rfl
    | (split_ifs <;> rfl)
    | (cases data <;> rfl)

def Unseen (seen : BitVec 32) (types : List HepChunk) : Prop :=
  ∀ chunk ∈ types, seen &&& chunk.knownBit = 0

theorem unseen_start (types : List HepChunk) : Unseen 0 types := by
  intro chunk _
  exact BitVec.zero_and

theorem unseen_mark {seen : BitVec 32} {types : List HepChunk} (h : Unseen seen types)
    (hnew : chunk ∉ types) : Unseen (seen ||| chunk.knownBit) types := by
  intro other hother
  have hne : chunk ≠ other := fun heq => hnew (heq ▸ hother)
  rw [mark_and hne, h other hother]

theorem readValues_seenTypes (seen : BitVec 32) (chunks : List (HepChunk × List UInt8)) :
    readValues offset chunks { w with seenTypes := seen } =
      (readValues offset chunks w).map (fun w => { w with seenTypes := seen }) := by
  induction chunks generalizing offset w with
  | nil => rfl
  | cons chunk chunks ih =>
    rw [readValues, readValues, readValue_seenTypes]
    cases w.readValue offset chunk.1 chunk.2 with
    | error e => rfl
    | ok w => exact ih

theorem readValues_append (chunks more : List (HepChunk × List UInt8)) :
    readValues offset (chunks ++ more) w =
      match readValues offset chunks w with
      | .error e => .error e
      | .ok w => readValues (offset + (chunks.flatMap encodeChunk).length) more w := by
  induction chunks generalizing offset w with
  | nil => rfl
  | cons chunk chunks ih =>
    rw [cons_append, readValues, readValues]
    cases w.readValue offset chunk.1 chunk.2 with
    | error e => rfl
    | ok w =>
      dsimp only
      rw [ih, flatMap_cons, length_append, length_encodeChunk, ← Nat.add_assoc, ← Nat.add_assoc]

theorem readChunks_of_readValues {w' : HepWalk} {chunks : List (HepChunk × List UInt8)}
    (hnodup : (chunks.map Prod.fst).Nodup) (hunseen : Unseen w.seenTypes (chunks.map Prod.fst))
    (h : readValues offset chunks w = .ok w') :
    ∃ seen, readChunks offset chunks w = .ok { w' with seenTypes := seen } := by
  induction chunks generalizing offset w w' with
  | nil =>
    obtain rfl := Except.ok.inj h
    exact ⟨w.seenTypes, rfl⟩
  | cons chunk chunks ih =>
    rw [map_cons] at hnodup hunseen
    obtain ⟨hnew, hnodup⟩ := nodup_cons.mp hnodup
    have hmark := unseen_mark (fun c hc => hunseen c (mem_cons_of_mem _ hc)) hnew
    rw [readValues] at h
    rw [readChunks, readChunk, HepChunk.ofCode_code]
    dsimp only
    rw [if_pos (hunseen _ mem_cons_self), readValue_seenTypes]
    cases hvalue : w.readValue offset chunk.1 chunk.2 with
    | error e =>
      rw [hvalue] at h
      cases h
    | ok w₁ =>
      rw [hvalue] at h
      dsimp only [Except.map] at h ⊢
      obtain ⟨seen, hseen⟩ := ih hnodup (w := { w₁ with seenTypes := _ }) hmark
        ((readValues_seenTypes _ chunks).trans (congrArg (Except.map _) h))
      exact ⟨seen, hseen⟩

end Types

end HepWalk

theorem parseHep_v3 {header rest trail : List UInt8} (hmagic : hep3Magic <+: header)
    (hheader : header.length = hep3HeaderLen)
    (htotal : ofBeBytes (header.drop 4) = hep3HeaderLen + rest.length) (hrest : rest ≠ []) :
    parseHep (header ++ (rest ++ trail)) =
      match HepWalk.walkChunks rest.length hep3HeaderLen rest {} with
      | .error e => .error e
      | .ok w => w.packet := by
  have hsix : hep3HeaderLen = 6 := rfl
  have hfour : ((header ++ (rest ++ trail)).drop 4).take 2 = header.drop 4 := by
    rw [drop_append_of_le_length (by omega)]
    exact take_left' (by rw [length_drop]; omega)
  have hchunks : ((header ++ (rest ++ trail)).take (hep3HeaderLen + rest.length)).drop
      hep3HeaderLen = rest := by
    rw [← append_assoc, take_left' (by rw [length_append, hheader]), drop_left' hheader]
  have hlength : (header ++ (rest ++ trail)).length =
      hep3HeaderLen + (rest.length + trail.length) := by
    rw [length_append, length_append, hheader]
  have hpos := length_pos_iff.mpr hrest
  unfold parseHep parseHepV3
  dsimp only
  rewrite [if_pos (hmagic.trans (prefix_append _ _)), hfour, htotal, hchunks, if_neg (by omega),
    if_neg (by omega), if_neg (by omega), if_neg (by omega)]
  rfl

/-! ## Values as they are written -/

theorem take_toBeBytes (k n : ℕ) : (toBeBytes k n).take k = toBeBytes k n :=
  take_of_length_le (length_toBeBytes k n).le

theorem ipv4Of_toBeBytes (bits : BitVec 32) : ipv4Of (toBeBytes 4 bits.toNat) = .v4 bits := by
  rw [ipv4Of, take_toBeBytes, ofBeBytes_toBeBytes bits.isLt, BitVec.ofNat_toNat, BitVec.setWidth_eq]

theorem ipv6Of_toBeBytes (bits : BitVec 128) : ipv6Of (toBeBytes 16 bits.toNat) = .v6 bits := by
  rw [ipv6Of, take_toBeBytes, ofBeBytes_toBeBytes bits.isLt, BitVec.ofNat_toNat, BitVec.setWidth_eq]

theorem be16Of_toBeBytes (bits : BitVec 16) : be16Of (toBeBytes 2 bits.toNat) = bits := by
  rw [be16Of, take_toBeBytes, ofBeBytes_toBeBytes bits.isLt, BitVec.ofNat_toNat, BitVec.setWidth_eq]

theorem be32Of_toBeBytes {n : ℕ} (h : n < 2 ^ 32) : be32Of (toBeBytes 4 n) = BitVec.ofNat 32 n := by
  rw [be32Of, take_toBeBytes, ofBeBytes_toBeBytes h]

theorem length_octets_le (addr : IpAddr) : addr.octets.length ≤ 16 := by
  cases addr <;> simp [IpAddr.octets]

theorem trimEndNul_of_getLast? {s : List Char} (h : s.getLast? ≠ some '\x00') :
    trimEndNul s = s := by
  rw [List.getLast?_eq_head?_reverse] at h
  rw [trimEndNul]
  cases hrev : s.reverse with
  | nil => rw [reverse_eq_nil_iff.mp hrev]; rfl
  | cons c cs =>
    rw [hrev] at h
    have hc : c ≠ '\x00' := fun heq => h (by rw [heq]; rfl)
    rw [dropWhile_cons_of_neg (by simpa using hc), ← hrev, reverse_reverse]

/-! ## The chunks of a packet -/

/-- What a packet is built of, with a key that leaves room for the rest. -/
structure HepFields where
  endpoint : HepEndpoint
  timestamp : DateTime
  protocol : HepProtocol
  captureId : BitVec 32
  authKey : Option (List UInt8)
  correlationId : Option (List UInt8)
  payload : List UInt8
  key_fits : ∀ key ∈ authKey, key.length ≤ 32768

namespace HepFields

variable (f : HepFields)

def bytes : List UInt8 :=
  buildHepV3Correlated f.endpoint f.timestamp f.protocol f.captureId f.authKey f.correlationId
    f.payload

def leading : List UInt8 :=
  leadingChunks f.endpoint f.timestamp f.protocol f.captureId f.authKey

def before : List UInt8 :=
  chunksBeforePayload f.endpoint f.timestamp f.protocol f.captureId f.authKey f.correlationId

def seconds : ℕ := (max 0 (min (f.timestamp / 1000000000) 4294967295)).toNat

def micros : ℕ := (f.timestamp % 1000000000 / 1000).toNat

def fixedChunks : List (HepChunk × List UInt8) :=
  [(.ipFamily, [f.endpoint.srcAddr.hepFamily]), (.ipProto, [f.endpoint.ipProtocol]),
    (f.endpoint.srcAddr.srcChunk, f.endpoint.srcAddr.octets),
    (f.endpoint.dstAddr.dstChunk, f.endpoint.dstAddr.octets),
    (.srcPort, toBeBytes 2 f.endpoint.srcPort.toNat),
    (.dstPort, toBeBytes 2 f.endpoint.dstPort.toNat),
    (.tsSec, toBeBytes 4 f.seconds),
    (.tsUsec, toBeBytes 4 f.micros),
    (.protoType, [f.protocol.toByte]),
    (.captureId, toBeBytes 4 f.captureId.toNat)]

def authChunks : List (HepChunk × List UInt8) :=
  f.authKey.toList.map (fun key => (.authKey, key))

def carriedId : Option (List UInt8) :=
  f.correlationId.filter (fun cid => decide (cid ≠ [] ∧
    hep3HeaderLen + f.leading.length + 2 * chunkHeaderLen + cid.length ≤ u16Max))

def idChunks : List (HepChunk × List UInt8) :=
  f.carriedId.toList.map (fun cid => (.correlationId, cid))

def carriedPayload : List UInt8 :=
  f.payload.take (u16Max - (hep3HeaderLen + f.before.length + chunkHeaderLen))

def chunks : List (HepChunk × List UInt8) :=
  f.fixedChunks ++ f.authChunks ++ f.idChunks ++ [(HepChunk.payload, f.carriedPayload)]

theorem leading_eq : f.leading = (f.fixedChunks ++ f.authChunks).flatMap encodeChunk := by
  obtain ⟨endpoint, timestamp, protocol, captureId, authKey, correlationId, payload, -⟩ := f
  cases authKey <;>
    simp [leading, leadingChunks, fixedChunks, authChunks, seconds, micros, appendChunk_eq]

theorem before_eq :
    f.before = (f.fixedChunks ++ f.authChunks ++ f.idChunks).flatMap encodeChunk := by
  rw [flatMap_append, ← leading_eq]
  unfold before chunksBeforePayload
  rw [← leading, idChunks, carriedId]
  cases f.correlationId with
  | none => simp
  | some cid =>
    dsimp only
    split_ifs with hfits
    · simp [Option.filter, hfits, appendChunk_eq]
    · simp [Option.filter, hfits]

theorem bytes_eq : f.bytes = hep3Magic ++
    toBeBytes 2 (hep3HeaderLen + (f.chunks.flatMap encodeChunk).length) ++
      f.chunks.flatMap encodeChunk := by
  rw [chunks, flatMap_append, ← before_eq, bytes, buildHepV3Correlated]
  simp [appendChunk_eq, carriedPayload, before]

/-! ### Lengths -/

theorem length_fixedChunks_le : (f.fixedChunks.flatMap encodeChunk).length ≤ 111 := by
  have hsrc := length_octets_le f.endpoint.srcAddr
  have hdst := length_octets_le f.endpoint.dstAddr
  simp only [fixedChunks, flatMap_cons, flatMap_nil, length_append,
    length_encodeChunk, length_toBeBytes, length_cons, length_nil, chunkHeaderLen]
  omega

theorem length_leading_le : f.leading.length ≤ 32885 := by
  have hfixed := f.length_fixedChunks_le
  rw [leading_eq, flatMap_append, length_append, authChunks]
  cases hauth : f.authKey with
  | none => simpa using hfixed.trans (by decide)
  | some key =>
    have hlength := f.key_fits key hauth
    simp only [Option.toList_some, map_cons, map_nil, flatMap_cons,
      flatMap_nil, append_nil, length_encodeChunk, chunkHeaderLen]
    omega

theorem length_before_le : hep3HeaderLen + f.before.length + chunkHeaderLen ≤ u16Max := by
  have hleading := f.length_leading_le
  have hnone : hep3HeaderLen + f.leading.length + chunkHeaderLen ≤ u16Max := by
    simp only [hep3HeaderLen, chunkHeaderLen, u16Max]
    omega
  unfold before chunksBeforePayload
  rw [← leading]
  cases f.correlationId with
  | none => exact hnone
  | some cid =>
    dsimp only
    split_ifs with hfits
    · rw [appendChunk_eq, length_append, length_encodeChunk]
      dsimp only
      omega
    · exact hnone

theorem length_chunks : hep3HeaderLen + (f.chunks.flatMap encodeChunk).length = f.bytes.length := by
  rw [bytes_eq, length_append, length_append, length_toBeBytes]
  rfl

theorem length_bytes : f.bytes.length =
    hep3HeaderLen + f.before.length + chunkHeaderLen + f.carriedPayload.length := by
  rw [← length_chunks, chunks, flatMap_append, ← before_eq, length_append,
    flatMap_singleton, length_encodeChunk]
  dsimp only
  omega

theorem length_bytes_le : f.bytes.length ≤ u16Max := by
  have hroom := f.length_before_le
  rw [length_bytes, carriedPayload, length_take]
  omega

theorem lt_length_bytes : hep3HeaderLen < f.bytes.length := by
  rw [length_bytes, chunkHeaderLen]
  omega

theorem length_of_mem_chunks {chunk : HepChunk × List UInt8} (h : chunk ∈ f.chunks) :
    chunkHeaderLen + chunk.2.length < 65536 := by
  have hall := f.length_bytes_le
  have hone : (encodeChunk chunk).length ≤ (f.chunks.flatMap encodeChunk).length :=
    (sublist_flatten_of_mem (List.mem_map_of_mem h)).length_le
  rw [length_encodeChunk] at hone
  rw [← length_chunks, u16Max] at hall
  omega

/-! ### What is read of them -/

theorem nodup_chunks : (f.chunks.map Prod.fst).Nodup := by
  obtain ⟨⟨src, dst, srcPort, dstPort, transport⟩, timestamp, protocol, captureId, authKey,
    correlationId, payload, -⟩ := f
  rw [chunks, idChunks]
  generalize carriedId _ = cid
  cases src <;> cases dst <;> cases authKey <;> cases cid <;>
    simp [fixedChunks, authChunks, IpAddr.srcChunk, IpAddr.dstChunk]

def fixedWalk : HepWalk where
  srcAddr := some f.endpoint.srcAddr
  dstAddr := some f.endpoint.dstAddr
  srcPort := f.endpoint.srcPort
  dstPort := f.endpoint.dstPort
  tsSec := some (BitVec.ofNat 32 f.seconds)
  tsUsec := BitVec.ofNat 32 f.micros
  protocol := .fromByte f.protocol.toByte
  ipProtocol := f.endpoint.ipProtocol
  captureId := some f.captureId
  seenSrcAddr := true
  seenDstAddr := true

theorem seconds_lt : f.seconds < 2 ^ 32 := by
  rw [seconds]
  omega

theorem micros_lt : f.micros < 1000000 := by
  rw [micros]
  omega

theorem readValues_fixedChunks (offset : ℕ) :
    HepWalk.readValues offset f.fixedChunks {} = .ok f.fixedWalk := by
  have hsec := be32Of_toBeBytes f.seconds_lt
  have husec := be32Of_toBeBytes (f.micros_lt.trans (by decide))
  cases hsrc : f.endpoint.srcAddr <;> cases hdst : f.endpoint.dstAddr <;>
    simp [fixedChunks, fixedWalk, hsrc, hdst, HepWalk.readValues, HepWalk.readValue,
      HepWalk.readSrcAddr, HepWalk.readDstAddr, IpAddr.srcChunk, IpAddr.dstChunk, IpAddr.octets,
      ipv4Of_toBeBytes, ipv6Of_toBeBytes, be16Of_toBeBytes, be32Of_toBeBytes f.captureId.isLt,
      hsec, husec]

def keyStart : ℕ :=
  hep3HeaderLen + (f.fixedChunks.flatMap encodeChunk).length + chunkHeaderLen

def walk : HepWalk :=
  { f.fixedWalk with
    authKey := f.authKey
    authSpan := f.authKey.map (fun key => (f.keyStart, f.keyStart + key.length))
    correlationId := f.carriedId.map (fun cid => trimEndNul (Utf8.fromUtf8Lossy cid))
    payload := f.carriedPayload }

theorem readValues_chunks : HepWalk.readValues hep3HeaderLen f.chunks {} = .ok f.walk := by
  rw [chunks, HepWalk.readValues_append, HepWalk.readValues_append, HepWalk.readValues_append,
    readValues_fixedChunks]
  dsimp only [authChunks, idChunks, walk]
  cases f.authKey <;> cases f.carriedId <;> rfl

def packet : HepPacket where
  version := 3
  srcAddr := f.endpoint.srcAddr
  dstAddr := f.endpoint.dstAddr
  srcPort := f.endpoint.srcPort
  dstPort := f.endpoint.dstPort
  timestamp := hepCarriedTime (BitVec.ofNat 32 f.seconds) (BitVec.ofNat 32 f.micros)
  protocol := .fromByte f.protocol.toByte
  ipProtocol := f.endpoint.ipProtocol
  payload := f.carriedPayload
  correlationId := f.carriedId.map (fun cid => trimEndNul (Utf8.fromUtf8Lossy cid))
  captureId := some f.captureId
  authKey := f.authKey
  authSpan := f.authKey.map (fun key => (f.keyStart, f.keyStart + key.length))

section Header

variable (more : List UInt8)

theorem bytes_append_eq : f.bytes ++ more =
    hep3Magic ++ (toBeBytes 2 f.bytes.length ++ (f.chunks.flatMap encodeChunk ++ more)) := by
  rw [← length_chunks, ← append_assoc, ← append_assoc, ← bytes_eq]

theorem total_bytes : ofBeBytes (((f.bytes ++ more).drop 4).take 2) = f.bytes.length := by
  have hle := f.length_bytes_le
  rw [u16Max] at hle
  rw [bytes_append_eq, drop_left' (by rfl), take_left' (length_toBeBytes 2 _),
    ofBeBytes_toBeBytes (by omega)]

theorem hepStreamFrame_bytes : hepStreamFrame (f.bytes ++ more) = .ok (some f.bytes.length) := by
  have hlt := f.lt_length_bytes
  have hmagic : (f.bytes ++ more).take 4 = hep3Magic := by
    rw [bytes_append_eq]
    exact take_left' rfl
  have hlength : (f.bytes ++ more).length = f.bytes.length + more.length := length_append
  unfold hepStreamFrame
  rw [total_bytes, hmagic, if_neg (by omega), if_neg (fun h => h rfl), if_neg (by omega),
    if_neg (by omega)]

theorem parseHep_bytes : parseHep (f.bytes ++ more) = .ok f.packet := by
  have hle : f.bytes.length ≤ 65535 := f.length_bytes_le
  have hrest : f.chunks.flatMap encodeChunk ≠ [] := by
    intro hnil
    have hlt := f.lt_length_bytes
    rw [← length_chunks, hnil] at hlt
    exact absurd hlt (lt_irrefl _)
  obtain ⟨seen, hseen⟩ := HepWalk.readChunks_of_readValues f.nodup_chunks
    (HepWalk.unseen_start _) f.readValues_chunks
  rw [bytes_append_eq, ← append_assoc, parseHep_v3 (prefix_append _ _)
    (by simp [hep3Magic, hep3HeaderLen]) ?_ hrest,
    HepWalk.walkChunks_flatMap _ (fun _ h => f.length_of_mem_chunks h), hseen]
  · rfl
  · rw [drop_left' (by rfl), ofBeBytes_toBeBytes (by omega), length_chunks]

end Header

/-! ### The values that come back -/

section Values

variable {f : HepFields}

theorem length_bytes_of_bare :
    (buildHepV3Correlated f.endpoint f.timestamp f.protocol f.captureId f.authKey none []).length =
      hep3HeaderLen + f.leading.length + chunkHeaderLen := by
  have h := length_bytes { f with correlationId := none, payload := [] }
  rw [carriedPayload, take_nil] at h
  exact h

theorem length_bytes_of_empty :
    (buildHepV3Correlated f.endpoint f.timestamp f.protocol f.captureId f.authKey f.correlationId
      []).length = hep3HeaderLen + f.before.length + chunkHeaderLen := by
  have h := length_bytes { f with payload := [] }
  rw [carriedPayload, take_nil] at h
  exact h

theorem seconds_micros {t : ℤ} (hstart : 0 ≤ t) (hend : t < 4294967296 * 1000000000) :
    (((max 0 (min (t / 1000000000) 4294967295)).toNat * 1000000000 +
      min ((t % 1000000000 / 1000).toNat * 1000) 999999999 : ℕ) : ℤ) = t / 1000 * 1000 := by
  omega

theorem packet_timestamp (hstart : 0 ≤ f.timestamp) (hend : f.timestamp < 4294967296 * 1000000000) :
    f.packet.timestamp = some (f.timestamp / 1000 * 1000) := by
  have husec : f.micros < 2 ^ 32 := f.micros_lt.trans (by decide)
  rw [packet, hepCarriedTime, BitVec.toNat_ofNat, BitVec.toNat_ofNat,
    Nat.mod_eq_of_lt f.seconds_lt, Nat.mod_eq_of_lt husec]
  exact congrArg some (seconds_micros hstart hend)

theorem packet_correlationId (hid : ∀ cid ∈ f.correlationId, ∃ text, Utf8.decode cid = some text ∧
      text.getLast? ≠ some '\x00') :
    f.packet.correlationId = f.correlationId.bind (fun cid =>
      if cid ≠ [] ∧ (buildHepV3Correlated f.endpoint f.timestamp f.protocol f.captureId f.authKey
          none []).length + chunkHeaderLen + cid.length ≤ 65535 then Utf8.decode cid
      else none) := by
  rw [packet, carriedId, length_bytes_of_bare]
  cases hcid : f.correlationId with
  | none => rfl
  | some cid =>
    obtain ⟨text, htext, hlast⟩ := hid cid hcid
    have hread : trimEndNul (Utf8.fromUtf8Lossy cid) = text := by
      rw [Utf8.fromUtf8Lossy_of_decode htext, trimEndNul_of_getLast? hlast]
    simp only [Option.filter, Option.bind_some, decide_eq_true_eq]
    by_cases hfits : cid ≠ [] ∧
        hep3HeaderLen + f.leading.length + 2 * chunkHeaderLen + cid.length ≤ u16Max
    · have hroom : hep3HeaderLen + f.leading.length + chunkHeaderLen + chunkHeaderLen +
          cid.length ≤ 65535 := by
        have hle : _ ≤ 65535 := hfits.2
        omega
      rw [if_pos hfits, if_pos ⟨hfits.1, hroom⟩, Option.map_some, hread, htext]
    · rw [if_neg hfits, if_neg, Option.map_none]
      rintro ⟨hne, hroom⟩
      apply hfits
      refine ⟨hne, ?_⟩
      rw [u16Max]
      omega

theorem packet_payload : f.packet.payload = f.payload.take (65535 - (buildHepV3Correlated
    f.endpoint f.timestamp f.protocol f.captureId f.authKey f.correlationId []).length) := by
  rw [length_bytes_of_empty]
  rfl

end Values

end HepFields

section RoundTrip

variable (endpoint : HepEndpoint) (timestamp : DateTime) (protocol : HepProtocol)
  (captureId : BitVec 32) (authKey correlationId : Option (List UInt8)) (payload : List UInt8)

/-- What is built is never too long, ends where its length says, and is read back: the payload as
far as it fits, and the correlation ID if it fits beside an empty payload. -/
theorem built_packet_reads_back (hstart : 0 ≤ timestamp)
    (hend : timestamp < 4294967296 * 1000000000) (hkey : ∀ key ∈ authKey, key.length ≤ 32768)
    (hid : ∀ cid ∈ correlationId, ∃ text, Utf8.decode cid = some text ∧
      text.getLast? ≠ some '\x00') :
    let build := buildHepV3Correlated endpoint timestamp protocol captureId authKey
    let bytes := build correlationId payload
    bytes.length ≤ 65535 ∧ (∀ more, hepStreamFrame (bytes ++ more) = .ok (some bytes.length)) ∧
      ∃ packet, parseHep bytes = .ok packet ∧
        packet.srcAddr = endpoint.srcAddr ∧ packet.dstAddr = endpoint.dstAddr ∧
        packet.srcPort = endpoint.srcPort ∧ packet.dstPort = endpoint.dstPort ∧
        packet.timestamp = some (timestamp / 1000 * 1000) ∧
        packet.protocol.toByte = protocol.toByte ∧
        packet.captureId = some captureId ∧ packet.authKey = authKey ∧
        packet.correlationId = correlationId.bind (fun cid =>
          if cid ≠ [] ∧ (build none []).length + chunkHeaderLen + cid.length ≤ 65535 then
            Utf8.decode cid
          else none) ∧
        packet.payload = payload.take (65535 - (build correlationId []).length) := by
  intro build bytes
  let f : HepFields :=
    ⟨endpoint, timestamp, protocol, captureId, authKey, correlationId, payload, hkey⟩
  refine ⟨f.length_bytes_le, f.hepStreamFrame_bytes, f.packet, ?_, rfl, rfl, rfl, rfl,
    HepFields.packet_timestamp hstart hend, HepProtocol.toByte_fromByte _, rfl, rfl,
    HepFields.packet_correlationId hid, HepFields.packet_payload⟩
  have hparse := f.parseHep_bytes []
  rw [append_nil] at hparse
  exact hparse

end RoundTrip

/-- A call from an IPv4 to an IPv6 address, with a key and a correlation ID. -/
theorem built_packet_reads_back_mixed :
    ∃ packet, parseHep (buildHepV3Correlated
        ⟨.v4 0x0A000001, .v6 1, 5060, 5061, .tls⟩ 1700000000123456789 .sip 7 (some [1, 2, 3])
        (some [0x61, 0x40, 0x62]) [0x53, 0x49, 0x50]) = .ok packet ∧
      packet.timestamp = some 1700000000123456000 ∧ packet.authKey = some [1, 2, 3] ∧
      packet.correlationId = some ['a', '@', 'b'] ∧ packet.payload = [0x53, 0x49, 0x50] := by
  obtain ⟨-, -, packet, hparse, -, -, -, -, htime, -, -, hkey, hcid, hpayload⟩ :=
    built_packet_reads_back ⟨.v4 0x0A000001, .v6 1, 5060, 5061, .tls⟩ 1700000000123456789 .sip 7
      (some [1, 2, 3]) (some [0x61, 0x40, 0x62]) [0x53, 0x49, 0x50] (by decide) (by decide)
      (by simp) (by
        rintro _ ⟨⟩
        exact ⟨['a', '@', 'b'], by decide, by decide⟩)
  refine ⟨packet, hparse, htime, hkey, hcid.trans ?_, hpayload.trans ?_⟩
  · decide +kernel
  · decide +kernel

end Sipnab
